import Mathlib.Data.List.Induction
import TaintReach.Html.Script

/-! Where the text of a script stands among the tokens of a page.

The content of a script block is one text, up to the end tag or the end of the page
(`tokens_script`). So the collector's flag is up behind a start tag that opens an inline
script and behind the text that follows it, and nowhere else (`inScriptBehind_cases`), and
a text is taken exactly if the token before it is such a tag (`inScriptBehind_iff`). -/
namespace TaintReach.Html

open RawText (Place scriptLength startsWithEnd startsWithName)

/-! ### The content of a script -/

/-- Nothing follows, or the end tag of a script. -/
def AtEnd (cs : List Char) : Prop := cs = [] ∨ startsWithEnd "script" cs = true

/-- The length of a script leads to its end. -/
theorem atEnd_drop (n : Nat) (place : Place) (cs : List Char) :
    AtEnd (cs.drop (scriptLength n place cs)) := by
  fun_induction scriptLength n place cs with
  | case1 => exact Or.inl rfl
  | case3 c cs hend => exact Or.inr hend
  | case6 dashes c cs hend => exact Or.inr hend
  | _ =>
    rename_i ih
    rw [Nat.add_comm]
    exact ih

theorem isAlpha_of_toLower {c : Char} (h : c.toLower.isAlpha = true) : c.isAlpha = true := by
  by_cases hupper : c.isUpper = true
  · show (c.isUpper || c.isLower) = true
    rw [hupper, Bool.true_or]
  · have hsame : c.toLower = c := by
      unfold Char.toLower
      exact dif_neg fun hrange => hupper (decide_eq_true hrange)
    rwa [hsame] at h

theorem startsWithEnd_cons {cs : List Char} (h : startsWithEnd "script" cs = true) :
    ∃ c rest, cs = '<' :: '/' :: c :: rest ∧ c.isAlpha = true := by
  unfold startsWithEnd at h
  split at h
  · rename_i rest
    have hname := (Bool.and_eq_true_iff.mp h).1
    cases rest with
    | nil => cases h
    | cons c rest =>
      refine ⟨c, rest, rfl, isAlpha_of_toLower ?_⟩
      have hhead : c.toLower = 's' := (List.cons.inj (of_decide_eq_true hname)).1
      rw [hhead]
      decide
  · cases h

/-- What starts with the end tag of a script starts with an end tag, unless the page ends
inside of it. -/
theorem first_of_startsWithEnd {cs : List Char} (h : startsWithEnd "script" cs = true)
    {kind : Kind} {n : Nat} (hfirst : first none cs = some (kind, n)) : kind = .endTag := by
  obtain ⟨c, rest, rfl, hc⟩ := startsWithEnd_cons h
  have hmark : c ≠ '>' := by
    rintro rfl
    cases hc
  have hmarkup : markup ('<' :: '/' :: c :: rest) = some (kind, n) := hfirst
  simp only [markup, hc, if_true] at hmarkup
  obtain ⟨t, _, heq⟩ := Option.map_eq_some_iff.mp hmarkup
  cases heq
  rfl

/-- There is no more token, or an end tag. -/
def Closed (ts : List Token) : Prop := ∀ e ∈ ts.head?, e.kind = .endTag

theorem closed_of_atEnd {cs : List Char} (h : AtEnd cs) : Closed (tokens none cs) := by
  unfold tokens
  split
  · exact fun _ he => by cases he
  · rename_i kind n hfirst
    split
    · rename_i hsome
      rintro _ ⟨⟩
      exact first_of_startsWithEnd (h.resolve_left hsome.2) hfirst
    · exact fun _ he => by cases he

/-- What follows the start tag of a script: a text or none, and then an end tag or no more
token. -/
def ScriptTail (ts : List Token) : Prop :=
  Closed ts ∨ ∃ t rest, ts = t :: rest ∧ t.kind = .text ∧ Closed rest

theorem tokens_script (cs : List Char) : ScriptTail (tokens (some "script") cs) := by
  have hend := atEnd_drop 0 .code cs
  by_cases hcontent : 0 < scriptLength 0 .code cs
  · have hfirst : first (some "script") cs = some (.text, scriptLength 0 .code cs) :=
      if_pos hcontent
    unfold tokens
    rw [hfirst]
    simp only
    split
    · exact Or.inr ⟨_, _, rfl, rfl, closed_of_atEnd hend⟩
    · exact Or.inl fun _ he => by cases he
  · have hfirst : first (some "script") cs = first none cs := if_neg hcontent
    have hsame : tokens (some "script") cs = tokens none cs := by
      unfold tokens
      rw [hfirst]
    rw [Nat.eq_zero_of_not_pos hcontent] at hend
    exact Or.inl (hsame ▸ closed_of_atEnd hend)

/-- The tokens of a page close their scripts. -/
theorem scriptTail_of_tokens {element : Option String} {cs : List Char} {earlier rest : List Token}
    {tag : Token} (h : tokens element cs = earlier ++ tag :: rest)
    (htag : tag.kind.opens = some "script") : ScriptTail rest := by
  fun_induction tokens element cs generalizing earlier with
  | case1 => simp at h
  | case2 element cs kind n _ _ ih =>
    cases earlier with
    | nil =>
      obtain ⟨rfl, rfl⟩ := List.cons.inj h
      rw [show kind.opens = some "script" from htag]
      exact tokens_script _
    | cons v earlier => exact ih (List.cons.inj h).2
  | case3 => simp at h

/-! ### The flag of the collector -/

/-- The start tag of a script block that is not closed at once, has no source of its own,
and whose types, if it names any, are those of scripts. -/
def Token.OpensInline (t : Token) : Prop :=
  ∃ attributes, t.kind = .startTag "script" attributes false ∧
    ∀ a ∈ attributes, a.name ≠ "src" ∧ (a.name = "type" → isScriptType a.value = true)

theorem isInline_iff {attributes : List Tag.Attribute} : isInline attributes = true ↔
    ∀ a ∈ attributes, a.name ≠ "src" ∧ (a.name = "type" → isScriptType a.value = true) := by
  simp only [isInline, List.all_eq_true, Bool.and_eq_true, Bool.or_eq_true, decide_eq_true_eq,
    ne_eq, imp_iff_not_or]

/-- Whether the text behind tokens belongs to an inline script. -/
def inScriptBehind (inScript : Bool) (ts : List Token) : Bool :=
  ts.foldl (fun inScript t => inScriptAfter inScript t.kind) inScript

theorem inScriptBehind_concat (inScript : Bool) (ts : List Token) (t : Token) :
    inScriptBehind inScript (ts ++ [t]) = inScriptAfter (inScriptBehind inScript ts) t.kind := by
  simp [inScriptBehind]

theorem Token.OpensInline.opens {t : Token} (h : t.OpensInline) : t.kind.opens = some "script" := by
  obtain ⟨attributes, hkind, _⟩ := h
  have hraw : "script" ∈ RawText.elements := by decide
  rw [hkind, Kind.opens, if_pos hraw]

theorem inScriptAfter_of_opensInline {t : Token} (h : t.OpensInline) (inScript : Bool) :
    inScriptAfter inScript t.kind = true := by
  obtain ⟨attributes, hkind, hinline⟩ := h
  rw [hkind]
  exact isInline_iff.mpr hinline

/-- A token that leaves the flag up has put it up, or found it so and is no end tag. -/
theorem inScriptAfter_cases {inScript : Bool} {t : Token}
    (h : inScriptAfter inScript t.kind = true) :
    t.OpensInline ∨ inScript = true ∧ t.kind ≠ .endTag := by
  unfold inScriptAfter at h
  split at h
  · rename_i name attributes hkind
    split at h
    · rename_i hname
      exact Or.inl ⟨attributes, hname ▸ hkind, isInline_iff.mp h⟩
    · exact Or.inr ⟨h, by rw [hkind]; simp⟩
  · cases h
  · rename_i hend
    exact Or.inr ⟨h, hend⟩

/-- The flag is up behind the start tag of an inline script, and behind one more token at
the end of the script. -/
theorem inScriptBehind_cases {cs : List Char} {earlier later : List Token}
    (hts : tokens none cs = earlier ++ later) (h : inScriptBehind false earlier = true) :
    ∃ front tag, tag.OpensInline ∧
      (earlier = front ++ [tag] ∨ (∃ t, earlier = front ++ [tag, t]) ∧ Closed later) := by
  induction earlier using List.reverseRecOn generalizing later with
  | nil => cases h
  | append_singleton earlier u ih =>
    rw [inScriptBehind_concat] at h
    rw [List.append_assoc, List.singleton_append] at hts
    rcases inScriptAfter_cases h with hopens | ⟨hbefore, hend⟩
    · exact ⟨earlier, u, hopens, Or.inl rfl⟩
    · have hopen : ¬ Closed (u :: later) := fun hclosed => hend (hclosed u rfl)
      obtain ⟨front, tag, hopens, rfl | ⟨_, hclosed⟩⟩ := ih hts hbefore
      · rw [List.append_assoc, List.singleton_append] at hts
        have htail := scriptTail_of_tokens hts hopens.opens
        obtain ⟨_, _, heq, _, hclosed⟩ := htail.resolve_left hopen
        obtain ⟨rfl, rfl⟩ := List.cons.inj heq
        exact ⟨front, tag, hopens, Or.inr ⟨⟨u, by simp⟩, hclosed⟩⟩
      · exact absurd hclosed hopen

/-- **A text is in an inline script exactly if the tag before it opens one.** -/
theorem inScriptBehind_iff {cs : List Char} {earlier later : List Token} {t : Token}
    (hts : tokens none cs = earlier ++ t :: later) (ht : t.kind = .text) :
    inScriptBehind false earlier = true ↔
      ∃ front tag, earlier = front ++ [tag] ∧ tag.OpensInline := by
  constructor
  · intro h
    obtain ⟨front, tag, hopens, hsplit | ⟨_, hclosed⟩⟩ := inScriptBehind_cases hts h
    · exact ⟨front, tag, hsplit, hopens⟩
    · have hend := hclosed t rfl
      rw [ht] at hend
      cases hend
  · rintro ⟨front, tag, rfl, hopens⟩
    rw [inScriptBehind_concat]
    exact inScriptAfter_of_opensInline hopens _

end TaintReach.Html
