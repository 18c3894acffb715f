import TaintReach.Proofs.Script.Outline
import TaintReach.Proofs.Script.Parser.Statement

/-! The order in which a program lists the functions of its script.

Functions start one behind the other, as they stand in the outline of the script, so
the list of a program is ordered by it (`functions_ordered`): of two functions the one
that starts first is listed first, unless they are inverted. That is so of a function in
the body of a `try` and one in the handler, and of a method and a function in its
computed key. Neither of the two need be inside the other (`handler_listed_before_body`). -/
namespace TaintReach.Script

/-- The functions of the outline, no two of which start at the same place, are those of
the program; one that starts before another is listed before it just if they are not
inverted. -/
structure Outline.Orders (o : Outline) (p : Program) : Prop where
  listed : List.Forall₂ (Function.StandsAt p.graph) o.listing p.functions
  distinct : (o.listing.map Function.start).Nodup
  before_iff : ∀ (i j : Nat) (f g : Function), o.listing[i]? = some f → o.listing[j]? = some g →
    f.start < g.start → (i < j ↔ ¬ o.Inverts g f)

theorem Outline.nodup_starts {o : Outline} (h : o.starts.Pairwise (· < ·)) :
    (o.listing.map Function.start).Nodup := by
  refine List.pairwise_map.mpr ((listing_ordered h).imp fun hagree => ?_)
  rcases hagree with ⟨hlt, _⟩ | ⟨hlt, _⟩
  · exact Nat.ne_of_lt hlt
  · exact (Nat.ne_of_lt hlt).symm

/-- **Functions are listed in the order of the text, but for what is inverted.** -/
theorem functions_ordered {load : String → Option String} {file code : String} {p : Program}
    (h : readWith load file code = .ok p) :
    ∃ ast, Parser.parse load file code = .ok ast ∧ (Stmt.outlines ast).Orders p := by
  obtain ⟨ast, hast, hlisted⟩ := functions_outlined h
  have hstarts := Parser.starts_of_parse hast
  exact ⟨ast, hast, hlisted, Outline.nodup_starts hstarts,
    fun _ _ _ _ hi hj hlt => Outline.idx_lt_iff hstarts hi hj hlt⟩

/-- A function with another in a default value, one in the body of a `try`, and one in
the handler. -/
def Sample.guarded : String :=
  "function f(a = () => 1) { try { g(function () {}) } catch (e) { h(function () {}) } }"

theorem functions_ordered_guarded : ∃ p, read "a.js" Sample.guarded = .ok p ∧
    ∃ ast, Parser.parse (fun _ => none) "a.js" Sample.guarded = .ok ast ∧
      (Stmt.outlines ast).listing.map Function.start = [0, 15, 66, 34] ∧
      (Stmt.outlines ast).Orders p := by
  have hparse : (Parser.parse (fun _ => none) "a.js" Sample.guarded).toOption.map
      (fun ast => (Stmt.outlines ast).listing.map Function.start) = some [0, 15, 66, 34] := by
    decide +kernel
  obtain ⟨ast, hast, hstarts⟩ := exists_ok_of_map hparse
  have hread : read "a.js" Sample.guarded = .ok (Program.ofTrees "a.js" (Stmt.trees ast)) := by
    rw [read, readWith, hast]
    rfl
  obtain ⟨ast', hast', horders⟩ := functions_ordered hread
  obtain rfl := Except.ok.inj (hast.symm.trans hast')
  exact ⟨_, hread, ast, hast, hstarts, horders⟩

/-- A function in the body of a `try`, and one in the handler. -/
def Sample.handled : String := "try { (function a(){}) } catch (e) { (function b(){}) }"

/-- The function in the handler is listed before the one that starts before it. -/
theorem handler_listed_before_body :
    ∃ p ast f g a b, read "a.js" Sample.handled = .ok p ∧
      Parser.parse (fun _ => none) "a.js" Sample.handled = .ok ast ∧
      (Stmt.outlines ast).listing = [g, f] ∧ p.functions = [b, a] ∧
      f.StandsAt p.graph a ∧ g.StandsAt p.graph b ∧ f.start = 7 ∧ g.start = 38 ∧
      ¬ p.graph.Below a b ∧ ¬ p.graph.Below b a := by
  have hread : (read "a.js" Sample.handled).toOption.map
      (fun p => p.functions.map fun id => (p.graph.node? id).map (·.form.children)) =
        some [some [], some []] := by decide +kernel
  have hparse : (Parser.parse (fun _ => none) "a.js" Sample.handled).toOption.map
      (fun ast => (Stmt.outlines ast).listing.map Function.start) = some [38, 7] := by
    decide +kernel
  obtain ⟨p, hp, hchildren⟩ := exists_ok_of_map hread
  obtain ⟨ast, hast, hlisted⟩ := functions_outlined hp
  obtain ⟨_, hast', hstarts⟩ := exists_ok_of_map hparse
  obtain rfl := Except.ok.inj (hast.symm.trans hast')
  obtain ⟨g, _, hlisting, hg, hrest⟩ := List.map_eq_cons_iff.mp hstarts
  obtain ⟨f, _, rfl, hf, hnil⟩ := List.map_eq_cons_iff.mp hrest
  obtain rfl := List.map_eq_nil_iff.mp hnil
  rw [hlisting] at hlisted
  obtain ⟨b, _, hb, hrest, hfunctions⟩ := List.forall₂_cons_left_iff.mp hlisted
  obtain ⟨a, _, ha, hnil, rfl⟩ := List.forall₂_cons_left_iff.mp hrest
  obtain rfl := List.forall₂_nil_left_iff.mp hnil
  rw [hfunctions] at hchildren
  obtain ⟨hb', hrest⟩ := List.cons.inj hchildren
  obtain ⟨ha', _⟩ := List.cons.inj hrest
  exact ⟨p, ast, f, g, a, b, hp, hast, hlisting, hfunctions, ha, hb, hf, hg,
    Graph.not_below_of_childless ha', Graph.not_below_of_childless hb'⟩

end TaintReach.Script
