import TaintReach.Proofs.Script.Literal.Statement
import TaintReach.Proofs.Tree.Listing
import TaintReach.Proofs.Walk.Formula
import TaintReach.Script.Reading

/-! What literals are worth in a condition.

A literal of a script becomes a node that tells whether it counts as true, and a conditional
on it takes one side only. That is what the value of the literal says, but for two kinds of
literals whose value is false (`Overrated`): the integer zero of any size, and a template
that consists of continued lines only, which is not empty as it is spelled. All others are
judged by their value (`literals_judged`). -/
namespace TaintReach

/-! ### Conditionals with a known guard -/

namespace Walk

theorem State.enter_enter (s : State) (r r' : Reachable) : (s.enter r).enter r' = s.enter r' := by
  simp [State.enter, Scope.stamp, Function.comp_def]

/-- Where the guard of a conditional is looked at. -/
def atGuard (visit : Visit) (kind : CondKind) (init : Option NodeId) (s : State) : State :=
  if kind = .forLoop then visit init s else s

/-- One side of a conditional: what runs if its guard holds, or what runs if not. -/
def side (visit : Visit) (holds : Bool) (update each body otherwise : Option NodeId) (s : State) :
    State :=
  if holds then visit update (visit body (visit each s))
  else if otherwise.isNone then s else visit otherwise s

/-- Every conditional on this node takes one side: the first if `holds`, the other if not. -/
def TakesSide (E : Setting) (path : List NodeId) (test : NodeId) (holds : Bool) : Prop :=
  ∀ (visit : Visit) (line : Int) (kind : CondKind) (init update each body otherwise : Option NodeId)
    (s guard : State), kind ≠ .forIn → kind ≠ .forOf → guard = atGuard visit kind init s →
    guard.ambient = .always ∨ guard.ambient = .maybe →
    conditional E path visit line kind init (some test) update each body otherwise s =
      (side visit holds update each body otherwise
        ((guard.tell (.guardClassified kind line (.ofTruth holds))).enter guard.ambient)).enter
        guard.ambient

theorem branch_never (outer : Reachable) (step : State → State) (s : State) :
    branch .never outer step s = s.enter outer := by
  simp [branch, State.enter_enter]

theorem branch_of_ne {inner : Reachable} (h : inner ≠ .never) (outer : Reachable)
    (step : State → State) (s : State) :
    branch inner outer step s = (step (s.enter inner)).enter outer := by
  simp [branch, h]

theorem takesSide_of_constant {E : Setting} {path : List NodeId} {test : NodeId} {holds : Bool}
    (h : ∀ consts, classify E.graph consts path (some test) = ⟨.ofTruth holds, none⟩) :
    TakesSide E path test holds := by
  rintro visit line kind init update each body otherwise s guard hin hof hguard hambient
  have hkind : ¬ (kind = .forIn ∨ kind = .forOf) := not_or.mpr ⟨hin, hof⟩
  obtain ⟨halways, hnever, hne⟩ : guard.ambient.meet .always = guard.ambient ∧
      guard.ambient.meet .never = .never ∧ guard.ambient ≠ .never := by
    rcases hambient with h | h <;> rw [h] <;> decide
  simp only [atGuard] at hguard
  simp only [conditional, ← hguard, if_neg hkind, h, Option.elim_none]
  generalize guard.tell _ = told
  cases holds with
  | true =>
    have hnegate : (Reachable.ofTruth true).negate = .never := rfl
    have hreach : Reachable.ofTruth true = .always := rfl
    rw [hnegate, hreach, halways, hnever, branch_of_ne hne, branch_never, State.enter_enter]
    simp [side]
  | false =>
    have hnegate : (Reachable.ofTruth false).negate = .always := rfl
    have hreach : Reachable.ofTruth false = .never := rfl
    rw [hnegate, hreach, halways, hnever, branch_of_ne hne, branch_never, State.enter_enter]
    cases otherwise with
    | none => simp [side, State.enter_enter]
    | some id => simp [side]

end Walk

namespace Script

open Script.Literal

/-! ### Judging a literal -/

/-- The kind of literal that has this value. -/
def Literal.Meaning.kind : Meaning → LiteralKind
  | .null => .null
  | .boolean _ => .bool
  | .number _ | .big _ => .number
  | .string _ => .string
  | .object => .regexp

/-- A literal that is judged true though its value is false. -/
def Overrated (text : List Char) (v : Meaning) : Prop :=
  v = .big 0 ∨ v = .string [] ∧ text.head? = some '\x60' ∧ text ≠ ['\x60', '\x60']

/-- How a literal is spelled, as far as it keeps that: a regular expression does not. -/
def Expr.spelling? : Expr → Option (List Char)
  | .null _ => some "null".toList
  | .boolean _ value => some (if value then "true" else "false").toList
  | .number _ raw _ | .string _ raw _ => some raw.toList
  | .template _ none [chunk] [] => some ('\x60' :: (chunk.toList ++ ['\x60']))
  | _ => none

variable {e : Expr} {text : List Char} {v : Meaning}

namespace Spells

theorem denotes (h : Spells e text v) : Denotes text v := by
  cases h with
  | null => exact .null
  | boolean value =>
    cases value with
    | true => exact .yes
    | false => exact .no
  | number h => exact .numeric h
  | string _ hraw h _ =>
    rw [hraw]
    exact .quoted h
  | regexp t => exact .regexp t
  | template h => exact .quoted (q := .back) h

theorem spelling (h : Spells e text v) : ∀ t ∈ e.spelling?, t = text := by
  cases h <;> simp [Expr.spelling?]

/-- A template is judged by how it is spelled. -/
theorem template_truthy {chunk : String} {us : List Nat} (h : Quotation .back chunk.toList us) :
    chunk ≠ "" ↔ us ≠ [] ∨ us = [] ∧ chunk ≠ "" := by
  have hnil : chunk = "" → us = [] := by
    rintro rfl
    cases h
    rfl
  tauto

/-- The node of a literal, and whether it counts as true. -/
theorem judged (h : Spells e text v) : ∃ raw truthy,
    (∀ given, e.tree given = .literal e.pos.line v.kind raw truthy) ∧
      (truthy = true ↔ v.Truthy ∨ Overrated text v) := by
  cases h with
  | null => exact ⟨_, _, fun _ => rfl, by simp [Meaning.Truthy, Overrated]⟩
  | boolean value => exact ⟨_, _, fun _ => rfl, by simp [Meaning.Truthy, Overrated]⟩
  | @number pos raw value h =>
    refine ⟨raw, value.truthy, fun _ => ?_, ?_⟩
    · cases value <;> rfl
    · have hne : value.worth ≠ .string [] := by cases value <;> simp [Numeral.worth]
      rw [value.truthy_iff]
      simp [Overrated, hne]
  | @string pos raw q t us units hq hraw h hempty =>
    have hhead : raw.toList.head? ≠ some '\x60' := by
      rw [hraw]
      cases q with
      | back => exact absurd rfl hq
      | single | double => simp [Quote.char]
    refine ⟨_, _, fun _ => rfl, ?_⟩
    simp [Meaning.Truthy, Overrated, hhead, hempty]
  | regexp t => exact ⟨_, _, fun _ => rfl, by simp [Meaning.Truthy]⟩
  | @template pos chunk us h =>
    refine ⟨"", decide (chunk ≠ ""), fun _ => by simp [Expr.tree, Meaning.kind, Expr.pos], ?_⟩
    have htext : '\x60' :: (chunk.toList ++ ['\x60']) ≠ ['\x60', '\x60'] ↔ chunk ≠ "" := by simp
    rw [decide_eq_true_iff, template_truthy h, Overrated, htext]
    simp [Meaning.Truthy]

end Spells

/-- **Literals are judged by their value**, but for those that are overrated. The text of a
literal is a literal of the grammar with one value, and a conditional on its node takes the
side that this value says. -/
theorem literals_judged {load : String → Option String} {file code : String} {ast : Ast}
    (h : Parser.parse load file code = .ok ast) (he : e ∈ Stmt.literalsOf ast) :
    ∃ text v raw truthy, StandsAt code.toList e.pos.offset text ∧ (∀ t ∈ e.spelling?, t = text) ∧
      (∀ w, Denotes text w ↔ w = v) ∧
      (∀ given, e.tree given = .literal e.pos.line v.kind raw truthy) ∧
      (truthy = true ↔ v.Truthy ∨ Overrated text v) ∧
      ∀ given (E : Walk.Setting) path test, E.graph.Shows (e.tree given) test → test ∉ path →
        Walk.TakesSide E path test truthy := by
  obtain ⟨text, v, hstands, hspells⟩ := Parser.stands_of_parse h e he
  obtain ⟨raw, truthy, htree, htruthy⟩ := hspells.judged
  refine ⟨text, v, raw, truthy, hstands, hspells.spelling, fun w => ⟨fun hw => ?_, ?_⟩, htree,
    htruthy, fun given E path test hshows hpath => ?_⟩
  · exact hw.unique hspells.denotes
  · rintro rfl
    exact hspells.denotes
  · rw [htree given] at hshows
    exact Walk.takesSide_of_constant fun consts => Walk.classify_of_constant hshows hpath rfl

/-- A loop on a number that is too small to be told from zero. -/
def Sample.tiny : String := "while (1e-331) { sink(s) }"

theorem literals_judged_tiny : ∃ ast e v raw,
    Parser.parse (fun _ => none) "a.js" Sample.tiny = .ok ast ∧
    e ∈ Stmt.literalsOf ast ∧ e.spelling? = some "1e-331".toList ∧ Denotes "1e-331".toList v ∧
    ¬ v.Truthy ∧ (∀ given, e.tree given = .literal e.pos.line .number raw false) ∧
    ∃ (E : Walk.Setting) (test : NodeId), E.graph.Shows (e.tree "") test ∧
      Walk.TakesSide E [] test false := by
  have hparse : (Parser.parse (fun _ => none) "a.js" Sample.tiny).toOption.map
      (fun ast => (Stmt.literalsOf ast).map Expr.spelling?) = some [some "1e-331".toList] := by
    decide +kernel
  have hdigit : IsDigit 10 '3' 3 ∧ IsDigit 10 '1' 1 := by
    unfold IsDigit
    decide
  have hdenotes : Denotes "1e-331".toList (.number (1 * 10 ^ (-331 : ℤ))) := by
    have hnumeric := Numeric.decimal (.whole (.digits (.single hdigit.2) (by decide)))
      (.minus (.inl rfl) (.next hdigit.1 (.next hdigit.1 (.single hdigit.2))))
    exact .numeric (by simpa [number, Nat.ofDigits] using hnumeric)
  obtain ⟨ast, hast, hliterals⟩ := exists_ok_of_map hparse
  obtain ⟨e, rest, he, hspelling, -⟩ := List.map_eq_cons_iff.mp hliterals
  have hmem : e ∈ Stmt.literalsOf ast := he ▸ List.mem_cons_self
  obtain ⟨text, v, raw, truthy, -, htext, hvalue, htree, htruthy, htakes⟩ :=
    literals_judged hast hmem
  obtain rfl := htext _ hspelling
  obtain rfl := (hvalue _).mp hdenotes
  have hfalse : ¬ (Meaning.number (1 * 10 ^ (-331 : ℤ))).Truthy := by
    refine not_not_intro ((roundsTo_zero_iff (by positivity)).mpr ?_)
    rw [one_mul]
    exact Numeral.ten_pow_le_half
  obtain rfl : truthy = false := by
    rw [← Bool.not_eq_true, htruthy, not_or]
    exact ⟨hfalse, by simp [Overrated]⟩
  obtain ⟨test, -, -, hshows, -⟩ := Program.shows_ofTrees "a.js" [e.tree ""]
  exact ⟨ast, e, _, raw, hast, hmem, hspelling, hdenotes, hfalse, htree, { graph := _ }, test,
    hshows, htakes _ _ _ _ hshows List.not_mem_nil⟩

/-- A branch on the integer zero. -/
def Sample.bigZero : String := "if (0n) { sink(s) }"

/-- A branch on a template of one line that is continued. -/
def Sample.continued : String := "if (\x60\\\n\x60) { sink(s) }"

/-- Both are judged true, and their values are false. -/
theorem false_literals_judged_true :
    (∃ p, read "a.js" Sample.bigZero = .ok p ∧
      p.graph.node? 0 = some ⟨1, .literal .number "0n" true⟩ ∧
      p.graph.node? 5 = some ⟨1, .conditional .branch none (some 0) none none (some 4) none⟩) ∧
    Denotes "0n".toList (.big 0) ∧ ¬ (Meaning.big 0).Truthy ∧
    (∃ p, read "a.js" Sample.continued = .ok p ∧
      p.graph.node? 0 = some ⟨1, .literal .string "" true⟩ ∧
      p.graph.node? 5 = some ⟨1, .conditional .branch none (some 0) none none (some 4) none⟩) ∧
    Denotes "\x60\\\n\x60".toList (.string []) ∧ ¬ (Meaning.string []).Truthy := by
  have hzero : (read "a.js" Sample.bigZero).toOption.map
      (fun p => (p.graph.node? 0, p.graph.node? 5)) = some (some ⟨1, .literal .number "0n" true⟩,
        some ⟨1, .conditional .branch none (some 0) none none (some 4) none⟩) := by decide +kernel
  have hcontinued : (read "a.js" Sample.continued).toOption.map
      (fun p => (p.graph.node? 0, p.graph.node? 5)) = some (some ⟨1, .literal .string "" true⟩,
        some ⟨1, .conditional .branch none (some 0) none none (some 4) none⟩) := by decide +kernel
  obtain ⟨p, hp, hnodes⟩ := exists_ok_of_map hzero
  obtain ⟨p', hp', hnodes'⟩ := exists_ok_of_map hcontinued
  refine ⟨⟨p, hp, (Prod.mk.inj hnodes).1, (Prod.mk.inj hnodes).2⟩, .numeric (.big (.inl .zero)), ?_,
    ⟨p', hp', (Prod.mk.inj hnodes').1, (Prod.mk.inj hnodes').2⟩, ?_, ?_⟩
  · simp [Meaning.Truthy]
  · exact .quoted (q := .back) (.escape (.lineBreak rfl (by decide)) .nil)
  · simp [Meaning.Truthy]

end Script

end TaintReach
