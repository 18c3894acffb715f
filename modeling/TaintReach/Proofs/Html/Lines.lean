import TaintReach.Proofs.Html.Block

/-! Scripts keep the lines of their page.

Tokens are consecutive slices of the text (`textOf_tokens`), so the scripts taken from
them lie in it one behind the other (`Laid`). The collector counts the line breaks of
every token it passes, of whatever kind, and so enters each token with the number of the
line that the token starts on (`scriptsFrom_laid`). A script's source puts as many line
breaks in front of the code as the page does, and each character of the code then stands
on its line of the page (`scripts_keep_lines`). -/
namespace TaintReach.Html

/-! ### Slices -/

/-- The text that tokens were cut from. -/
def textOf (ts : List Token) : List Char := ts.flatMap Token.raw

theorem textOf_cons (t : Token) (ts : List Token) : textOf (t :: ts) = t.raw ++ textOf ts :=
  List.flatMap_cons

/-- Put together, the tokens of a text are what it starts with. -/
theorem textOf_tokens (element : Option String) (cs : List Char) :
    textOf (tokens element cs) <+: cs := by
  fun_induction tokens element cs with
  | case1 => exact List.nil_prefix
  | case2 element cs kind n _ _ ih =>
    rw [textOf_cons]
    calc cs.take n ++ textOf (tokens kind.opens (cs.drop n))
      _ <+: cs.take n ++ cs.drop n := (List.prefix_append_right_inj _).mpr ih
      _ = cs := List.take_append_drop n cs
  | case3 => exact List.nil_prefix

/-! ### A script in its page -/

/-- The code of a script is the text of a page from an offset on, the script tells the
line it starts on, and each of its characters has as many line breaks before it in the
source as on the page. -/
structure Script.StandsAt (s : Script) (page : List Char) (offset : Nat) : Prop where
  code : s.code.toList <+: page.drop offset
  line : s.line = lineBreaks (page.take offset) + 1
  source : ∃ above : List Char, s.source.toList = above ++ s.code.toList ∧
    ∀ k < s.code.length, lineBreaks (s.source.toList.take (above.length + k)) =
      lineBreaks (page.take (offset + k))

theorem lineBreaks_append (xs ys : List Char) :
    lineBreaks (xs ++ ys) = lineBreaks xs + lineBreaks ys :=
  List.count_append

theorem lineBreaks_replicate (n : Nat) : lineBreaks (List.replicate n '\n') = n :=
  List.count_replicate_self

theorem toList_source (index line : Nat) (code : String) :
    (Script.source ⟨index, line, code⟩).toList =
      List.replicate (line - 1) '\n' ++ code.toList := by
  have hline : ((line : Int) - 1).toNat = line - 1 := by omega
  simp only [Script.source, hline, String.toList_append, String.toList_ofList]

/-- A slice of a page that is entered with the line it starts on keeps its lines. -/
theorem standsAt_slice {before : List Char} {line : Nat} (hline : line = lineBreaks before + 1)
    (index : Nat) (raw after : List Char) :
    Script.StandsAt ⟨index, line, String.ofList raw⟩ (before ++ (raw ++ after)) before.length := by
  have hsource := toList_source index line (String.ofList raw)
  rw [String.toList_ofList] at hsource
  refine ⟨?_, ?_, List.replicate (line - 1) '\n', ?_, fun k hk => ?_⟩
  · simp
  · simp [hline]
  · rw [hsource, String.toList_ofList]
  · have hk : k ≤ raw.length := by
      simpa using Nat.le_of_lt hk
    rw [hsource, List.take_length_add_append, List.take_length_add_append,
      List.take_append_of_le_length hk, lineBreaks_append, lineBreaks_append,
      lineBreaks_replicate, hline, Nat.add_sub_cancel]

/-! ### All scripts of a page -/

/-- A text with something to be seen in it. -/
def IsSolid (cs : List Char) : Prop := ∃ c ∈ cs, Text.isBlank c = false

theorem isSolid_iff {cs : List Char} : IsSolid cs ↔ (!cs.all Text.isBlank) = true := by
  simp [IsSolid]

theorem IsSolid.length_pos {cs : List Char} (h : IsSolid cs) : 0 < cs.length := by
  obtain ⟨c, hc, _⟩ := h
  exact List.length_pos_of_mem hc

/-- From an offset and an index on, scripts lie in a page one behind the other. -/
inductive Laid (page : List Char) : Nat → Nat → List Script → List Nat → Prop
  | nil {start index : Nat} : Laid page start index [] []
  | cons {start index offset : Nat} {s : Script} {found : List Script} {offsets : List Nat}
    (hstart : start ≤ offset) (hindex : s.index = index) (hsolid : IsSolid s.code.toList)
    (hstands : s.StandsAt page offset)
    (hrest : Laid page (offset + s.code.length) (index + 1) found offsets) :
    Laid page start index (s :: found) (offset :: offsets)

namespace Laid

variable {page : List Char} {start index : Nat} {found : List Script} {offsets : List Nat}

theorem of_le (h : Laid page start index found offsets) {earlier : Nat} (hle : earlier ≤ start) :
    Laid page earlier index found offsets := by
  cases h with
  | nil => exact .nil
  | cons hstart hindex hsolid hstands hrest =>
    exact .cons (Nat.le_trans hle hstart) hindex hsolid hstands hrest

theorem start_le (h : Laid page start index found offsets) : ∀ o ∈ offsets, start ≤ o := by
  induction h with
  | nil => simp
  | cons hstart _ _ _ _ ih =>
    rintro o (_ | ⟨_, ho⟩)
    · exact hstart
    · exact Nat.le_trans hstart (Nat.le_trans (Nat.le_add_right _ _) (ih o ho))

theorem standsAt (h : Laid page start index found offsets) :
    List.Forall₂ (fun s o => IsSolid s.code.toList ∧ s.StandsAt page o) found offsets := by
  induction h with
  | nil => exact .nil
  | cons _ _ hsolid hstands _ ih => exact .cons ⟨hsolid, hstands⟩ ih

theorem indices (h : Laid page start index found offsets) :
    found.map Script.index = (List.range' index found.length).map Int.ofNat := by
  induction h with
  | nil => rfl
  | cons _ hindex _ _ _ ih =>
    rw [List.map_cons, ih, hindex, List.length_cons, List.range'_succ, List.map_cons]
    rfl

/-- A later script starts behind the end of an earlier one. -/
theorem apart (h : Laid page start index found offsets) :
    (found.zip offsets).Pairwise fun a b => a.2 + a.1.code.length ≤ b.2 := by
  induction h with
  | nil => exact .nil
  | cons _ _ _ _ hrest ih =>
    rw [List.zip_cons_cons]
    exact .cons (fun b hb => hrest.start_le b.2 (List.of_mem_zip hb).2) ih

theorem increasing (h : Laid page start index found offsets) : offsets.Pairwise (· < ·) := by
  induction h with
  | nil => exact .nil
  | cons _ _ hsolid _ hrest ih =>
    have hlength := hsolid.length_pos
    rw [String.length_toList] at hlength
    exact .cons (fun o ho => Nat.lt_of_lt_of_le (by omega) (hrest.start_le o ho)) ih

end Laid

/-! ### The collector -/

/-- Where the scripts start that the collector takes from tokens, the first of which
starts at `offset`. -/
def scriptOffsets (inScript : Bool) (offset : Nat) : List Token → List Nat
  | [] => []
  | t :: ts =>
    let rest := scriptOffsets (inScriptAfter inScript t.kind) (offset + t.raw.length) ts
    if t.kind = .text && inScript && !t.raw.all Text.isBlank then offset :: rest else rest

/-- The collector enters every token with the number of its line. -/
theorem scriptsFrom_laid {before : List Char} {line : Nat} (hline : line = lineBreaks before + 1)
    (inScript : Bool) (index : Nat) (ts : List Token) (after : List Char) :
    Laid (before ++ (textOf ts ++ after)) before.length index (scriptsFrom inScript index line ts)
      (scriptOffsets inScript before.length ts) := by
  induction ts generalizing before line inScript index with
  | nil => exact .nil
  | cons t ts ih =>
    -- what comes behind the token is entered behind its text and its line breaks
    have hnext : line + lineBreaks t.raw = lineBreaks (before ++ t.raw) + 1 := by
      rw [lineBreaks_append]
      omega
    have hrest := fun index => ih hnext (inScriptAfter inScript t.kind) index
    simp only [List.append_assoc, List.length_append] at hrest
    simp only [textOf_cons, List.append_assoc, scriptsFrom, scriptOffsets]
    split
    · rename_i htaken
      have hsolid : IsSolid t.raw := isSolid_iff.mpr (Bool.and_eq_true_iff.mp htaken).2
      refine .cons (Nat.le_refl _) rfl ?_ (standsAt_slice hline index t.raw _) ?_
      · rwa [String.toList_ofList]
      · rw [String.length_ofList]
        exact hrest (index + 1)
    · exact (hrest index).of_le (Nat.le_add_right _ _)

/-- The collector takes exactly the solid texts before which its flag is up. -/
theorem mem_scriptOffsets {inScript : Bool} {offset o : Nat} {ts : List Token} :
    o ∈ scriptOffsets inScript offset ts ↔ ∃ earlier t later, ts = earlier ++ t :: later ∧
      inScriptBehind inScript earlier = true ∧ t.kind = .text ∧ IsSolid t.raw ∧
      o = offset + (textOf earlier).length := by
  induction ts generalizing inScript offset with
  | nil => simp [scriptOffsets]
  | cons u us ih =>
    have hhere : (u.kind = .text && inScript && !u.raw.all Text.isBlank) = true ↔
        inScript = true ∧ u.kind = .text ∧ IsSolid u.raw := by
      rw [isSolid_iff, Bool.and_eq_true_iff, Bool.and_eq_true_iff, decide_eq_true_iff]
      tauto
    have hmem : o ∈ scriptOffsets inScript offset (u :: us) ↔
        (inScript = true ∧ u.kind = .text ∧ IsSolid u.raw) ∧ o = offset ∨
        o ∈ scriptOffsets (inScriptAfter inScript u.kind) (offset + u.raw.length) us := by
      rw [← hhere, scriptOffsets]
      split
      · rename_i h
        rw [List.mem_cons, h]
        tauto
      · rename_i h
        tauto
    rw [hmem, ih]
    constructor
    · rintro (⟨⟨hin, hkind, hsolid⟩, rfl⟩ | ⟨earlier, t, later, rfl, hin, hkind, hsolid, rfl⟩)
      · exact ⟨[], u, us, rfl, hin, hkind, hsolid, rfl⟩
      · refine ⟨u :: earlier, t, later, rfl, hin, hkind, hsolid, ?_⟩
        rw [textOf_cons, List.length_append, Nat.add_assoc]
    · rintro ⟨earlier, t, later, hsplit, hin, hkind, hsolid, rfl⟩
      cases earlier with
      | nil =>
        obtain ⟨rfl, rfl⟩ := List.cons.inj hsplit
        exact .inl ⟨⟨hin, hkind, hsolid⟩, rfl⟩
      | cons v earlier =>
        obtain ⟨rfl, rfl⟩ := List.cons.inj hsplit
        refine .inr ⟨earlier, t, later, rfl, hin, hkind, hsolid, ?_⟩
        rw [textOf_cons, List.length_append, Nat.add_assoc]

/-- **Scripts keep the lines of their page.** Whether the text of a page ends or breaks
off, its tokens are consecutive slices of it, and the scripts found are numbered from
one, show something, and lie at increasing offsets without a common character. Their code
is the text of the page there, each character of it with as many line breaks before it in
the source as on the page. The offsets are those of the texts that show something and
stand behind the start tag of a script without a source and with a script's type: none is
left out, and no other text is taken. -/
theorem scripts_keep_lines (text : String) (broken : Option String) :
    let found := (extract text broken).1
    textOf (tokens none text.toList) <+: text.toList ∧
    ∃ offsets : List Nat,
      found.map Script.index = (List.range' 1 found.length).map Int.ofNat ∧
      List.Forall₂ (fun s o => IsSolid s.code.toList ∧ s.StandsAt text.toList o) found offsets ∧
      offsets.Pairwise (· < ·) ∧
      (found.zip offsets).Pairwise (fun a b => a.2 + a.1.code.length ≤ b.2) ∧
      ∀ o, o ∈ offsets ↔ ∃ earlier tag t later,
        tokens none text.toList = earlier ++ tag :: t :: later ∧ tag.OpensInline ∧
        t.kind = .text ∧ IsSolid t.raw ∧ o = (textOf earlier).length + tag.raw.length := by
  intro found
  have hslices := textOf_tokens none text.toList
  obtain ⟨after, hafter⟩ := hslices
  have hfirst : 1 = lineBreaks [] + 1 := rfl
  have hlaid := scriptsFrom_laid hfirst false 1 (tokens none text.toList) after
  rw [List.nil_append, hafter] at hlaid
  refine ⟨⟨after, hafter⟩, scriptOffsets false 0 (tokens none text.toList), hlaid.indices,
    hlaid.standsAt, hlaid.increasing, hlaid.apart, fun o => ?_⟩
  rw [mem_scriptOffsets]
  constructor
  · rintro ⟨earlier, t, later, hts, hin, hkind, hsolid, rfl⟩
    obtain ⟨front, tag, rfl, hopens⟩ := (inScriptBehind_iff hts hkind).mp hin
    refine ⟨front, tag, t, later, by simpa using hts, hopens, hkind, hsolid, ?_⟩
    simp [textOf]
  · rintro ⟨front, tag, t, later, hts, hopens, hkind, hsolid, rfl⟩
    have hts' : tokens none text.toList = (front ++ [tag]) ++ t :: later := by simpa using hts
    have hin := (inScriptBehind_iff hts' hkind).mpr ⟨front, tag, rfl, hopens⟩
    refine ⟨front ++ [tag], t, later, hts', hin, hkind, hsolid, ?_⟩
    simp [textOf]

/-- A page with an inline script, a blank one, one with a source, one of another type, and
an inline one that breaks off. -/
def page : String :=
  "<p>a\n<SCRIPT type=\"module\">\nlet x;\n</script>\n<script> </script><script src=\"y.js\">z" ++
    "</script><script type=\"text/plain\">t</script>\n<!-- -->\n<script>f()"

theorem scripts_keep_lines_page :
    (extract page none).1 = [⟨1, 2, "\nlet x;\n"⟩, ⟨2, 7, "f()"⟩] ∧
    ∃ offsets : List Nat,
      List.Forall₂ (fun s o => IsSolid s.code.toList ∧ s.StandsAt page.toList o)
        (extract page none).1 offsets ∧
      ∀ o ∈ offsets, ∃ earlier tag t later, tokens none page.toList = earlier ++ tag :: t :: later ∧
        tag.OpensInline ∧ o = (textOf earlier).length + tag.raw.length := by
  refine ⟨by decide +kernel, ?_⟩
  obtain ⟨_, offsets, _, hstands, _, _, hoffsets⟩ := scripts_keep_lines page none
  refine ⟨offsets, hstands, fun o ho => ?_⟩
  obtain ⟨earlier, tag, t, later, hts, hopens, _, _, ho⟩ := (hoffsets o).mp ho
  exact ⟨earlier, tag, t, later, hts, hopens, ho⟩

end TaintReach.Html
