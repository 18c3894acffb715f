import TaintReach.Proofs.Walk.Analysed
import TaintReach.Proofs.Walk.Changes

/-! Index, sets and lists of a scope agree in every scope there is.

`Kept` is what the operations of an indexed scope rely on: names differ, the index leads
from these names to their variables and from no other, and the dependents of a variable
are variables of the scope, each told once, never the variable itself, and the same as
the members of its set. A scope that starts empty or as a join of any scopes at all,
and is then changed step by step, is kept, and its variables stand on the lines they
were first registered at (`Produced.kept`, `Produced.line?_eq`). The changes that an
analysis makes, carried out on an empty scope with an index, give the scope that it hands
out (`perform_functionChanges`), so the same holds of that. -/
namespace TaintReach

namespace Indexed

structure Kept (s : Indexed) : Prop where
  names : (s.slots.map (·.content.name)).Nodup
  /-- The index leads from the names to their variables, and from no other. -/
  index : ∀ x i, s.place? x = some i ↔ ∃ c, s.slots[i]? = some c ∧ c.content.name = x
  home : ∀ c ∈ s.slots, c.content.home = s.home
  /-- Dependents are variables of the scope. -/
  registered : ∀ c ∈ s.slots, ∀ d ∈ c.content.dependents, ∃ o ∈ s.slots, o.content.ref = d
  irreflexive : ∀ c ∈ s.slots, c.content.ref ∉ c.content.dependents
  distinct : ∀ c ∈ s.slots, c.content.dependents.Nodup
  seen : ∀ c ∈ s.slots, ∀ d, d ∈ c.seen ↔ d ∈ c.content.dependents

/-- The indexed form of a well-formed scope is kept. -/
theorem kept_ofScope {s : Scope} (h : s.WellFormed) : (ofScope s).Kept where
  names := by
    simp only [ofScope, List.map_map]
    exact h.names
  index x i := by
    rw [place?_ofScope h.names]
    simp only [ofScope, List.getElem?_map, Option.map_eq_some_iff]
    constructor
    · rintro ⟨v, hv, hname⟩
      exact ⟨.ofVariable v, ⟨v, hv, rfl⟩, hname⟩
    · rintro ⟨_, ⟨v, hv, rfl⟩, hname⟩
      exact ⟨v, hv, hname⟩
  home c hc := by
    obtain ⟨v, hv, rfl⟩ := List.mem_map.mp hc
    exact h.home v hv
  registered c hc d hd := by
    obtain ⟨v, hv, rfl⟩ := List.mem_map.mp hc
    obtain ⟨w, hw, href⟩ := h.registered v hv d hd
    exact ⟨.ofVariable w, List.mem_map_of_mem hw, href⟩
  irreflexive c hc := by
    obtain ⟨v, hv, rfl⟩ := List.mem_map.mp hc
    exact h.irreflexive v hv
  distinct c hc := by
    obtain ⟨v, hv, rfl⟩ := List.mem_map.mp hc
    exact h.distinct v hv
  seen c hc d := by
    obtain ⟨v, hv, rfl⟩ := List.mem_map.mp hc
    exact List.mem_reverse

end Indexed

/-! ### Lines -/

namespace Scope

/-- The line of the variable of a name. -/
def line? (s : Scope) (x : String) : Option Int := (s.lookup? x).map Variable.line

theorem line?_add (s : Scope) (v : Variable) (x : String) :
    (s.add v).line? x = (s.line? x).or (if v.name = x then some v.line else none) := by
  unfold line?
  rw [lookup?_add]
  cases s.lookup? x with
  | some w => rfl
  | none => by_cases hx : v.name = x <;> simp [hx]

theorem line?_update {f : Variable → Variable} (hf : ∀ v, (f v).ref = v.ref) (s : Scope)
    (n x : String) : (s.update n f).line? x = s.line? x := by
  unfold line?
  rw [lookup?_update n x fun v => congrArg VarRef.name (hf v)]
  split
  · rw [Option.map_map]
    congr 1
    funext v
    exact congrArg VarRef.line (hf v)
  · rfl

theorem line?_absorb (out : Scope) (v : Variable) (x : String) :
    (out.absorb v).line? x = (out.line? x).or (if v.name = x then some v.line else none) := by
  unfold absorb
  cases hv : out.lookup? v.name with
  | none => exact line?_add _ _ x
  | some w =>
    simp only
    rw [line?_update]
    swap
    · exact fun _ => rfl
    by_cases hx : v.name = x
    · subst hx
      simp [line?, hv]
    · simp [hx]

theorem line?_remap (out : Scope) (v : Variable) (x : String) :
    (out.remap v).line? x = out.line? x := by
  rw [remap_eq_foldl]
  induction v.dependents generalizing out with
  | nil => rfl
  | cons d ds ih =>
    rw [List.foldl_cons, ih]
    unfold carry
    cases out.lookup? d.name with
    | none => rfl
    | some dep => exact line?_update (fun w => (w.grows_addDependent dep.ref).ref) out v.name x

end Scope

namespace Indexed

/-- The line of the variable of a name. -/
def line? (s : Indexed) (x : String) : Option Int := (s.lookup? x).map (·.content.line)

theorem line?_ofScope {s : Scope} (h : s.names.Nodup) (x : String) :
    (ofScope s).line? x = s.line? x := by
  rw [line?, lookup?_ofScope h, Option.map_map]
  rfl

/-- A change registers a name that is new at the line it asks for, and moves nothing. -/
theorem line?_change (s : Scope) (c : Change) (x : String) :
    (c.plain s).line? x = (s.line? x).or (c.registers x) := by
  cases c with
  | register name line =>
    simp only [Change.plain, Change.registers, Scope.findOrCreate]
    cases hname : s.lookup? name with
    | none => exact Scope.line?_add s _ x
    | some v =>
      by_cases hx : name = x
      · subst hx
        simp [Scope.line?, hname]
      · simp [hx]
  | depend name on =>
    simp only [Change.plain, Change.registers, Option.or_none, Scope.depend]
    cases s.lookup? on with
    | none => rfl
    | some o => exact Scope.line?_update (fun v => (v.grows_addDependency o).ref) s name x
  | mark name f =>
    simp only [Change.plain, Change.registers, Option.or_none]
    exact Scope.line?_update (f := fun v => v.withMarks (f v.marks)) (fun _ => rfl) s name x
  | stamp r =>
    simp only [Change.plain, Change.registers, Option.or_none, Scope.line?, Scope.stamp,
      Scope.lookup?, List.find?_map, Option.map_map]
    rfl

/-- The first variable of a name decides its line in a join. -/
theorem line?_passes (name : String) (home : Nat) (vs : List Variable) (x : String) :
    (passes name home vs).line? x = (vs.find? (·.name = x)).map Variable.line := by
  have hsecond : ∀ (ws : List Variable) (out : Scope),
      (ws.foldl Scope.remap out).line? x = out.line? x := by
    intro ws
    induction ws with
    | nil => exact fun _ => rfl
    | cons w ws ih => exact fun out => (ih _).trans (Scope.line?_remap out w x)
  have hfirst : ∀ (ws : List Variable) (out : Scope), (ws.foldl Scope.absorb out).line? x =
      (out.line? x).or ((ws.find? (·.name = x)).map Variable.line) := by
    intro ws
    induction ws with
    | nil => exact fun out => (Option.or_none).symm
    | cons w ws ih =>
      intro out
      rw [List.foldl_cons, ih, Scope.line?_absorb, Option.or_assoc, List.find?_cons]
      by_cases hx : w.name = x <;> simp [hx]
  exact (hsecond vs _).trans (hfirst vs _)

/-! ### Histories -/

/-- The scope came about by a history in which each name was first registered at the line
that `first` gives: it was empty, or a join, and changed step by step. -/
inductive Produced : (String → Option Int) → Indexed → Prop
  | new (name : String) (home : Nat) : Produced (fun _ => none) (new name home)
  | join (home : Nat) (a b : Option Indexed) :
    Produced (fun x => ((operands a b).find? (·.name = x)).map Variable.line) (join home a b)
  | change {first : String → Option Int} {s : Indexed} (h : Produced first s) (c : Change) :
    Produced (fun x => (first x).or (c.registers x)) (s.perform c)

/-- The first change that asks for a name decides its line. -/
theorem Produced.run {first : String → Option Int} {s : Indexed} (h : Produced first s)
    (changes : List Change) :
    Produced (fun x => (first x).or (changes.findSome? (·.registers x)))
      (changes.foldl perform s) := by
  induction changes generalizing first s with
  | nil => simpa using h
  | cons c cs ih =>
    have hfirst : (fun x => (first x).or ((c :: cs).findSome? (·.registers x))) = fun x =>
        ((first x).or (c.registers x)).or (cs.findSome? (·.registers x)) := by
      funext x
      rw [Option.or_assoc, List.findSome?_cons]
      cases c.registers x <;> rfl
    rw [hfirst]
    exact ih (h.change c)

theorem Produced.exists_scope {first : String → Option Int} {s : Indexed} (h : Produced first s) :
    ∃ t : Scope, s = ofScope t ∧ t.WellFormed ∧ ∀ x, t.line? x = first x := by
  induction h with
  | new name home => exact ⟨Scope.new name home, rfl, Scope.wellFormed_of_empty rfl, fun _ => rfl⟩
  | join home a b =>
    obtain ⟨name, heq⟩ := join_eq_ofScope home a b
    exact ⟨_, heq, wellFormed_passes name home _, line?_passes name home _⟩
  | change _ c ih =>
    obtain ⟨t, rfl, ht, hlines⟩ := ih
    refine ⟨c.plain t, perform_ofScope ht.names c, wellFormed_change ht c, fun x => ?_⟩
    rw [line?_change, hlines]

theorem Produced.kept {first : String → Option Int} {s : Indexed} (h : Produced first s) :
    s.Kept := by
  obtain ⟨t, rfl, ht, _⟩ := h.exists_scope
  exact kept_ofScope ht

theorem Produced.line?_eq {first : String → Option Int} {s : Indexed} (h : Produced first s)
    (x : String) : s.line? x = first x := by
  obtain ⟨t, rfl, ht, hlines⟩ := h.exists_scope
  rw [line?_ofScope ht.names, hlines]

end Indexed

/-! ### Analyses -/

namespace Walk

/-- The changes of an analysis lead from the empty scope to its result. -/
theorem replay_analyzeFunction {E : Setting} {fn : Option NodeId} {s : Scope}
    (h : (analyzeFunction E fn).result = .ok s) :
    (functionChanges E fn).foldl Indexed.Change.plain (Scope.new s.name 0) = s := by
  unfold analyzeFunction at h
  split at h
  · rename_i id line name params body locals hfn
    have hempty : (opening name line).scope.WellFormed := Scope.wellFormed_of_empty rfl
    have hreplay :=
      visitAll_replays (walk_replays E [id]) (params ++ body) (opening name line) hempty
    rw [visitAll_append] at hreplay
    have hname : s.name = idText name line := by
      simp only at h
      split at h
      · cases h
      · obtain rfl := Except.ok.inj h
        exact ((function_steps hfn (opening name line)).extends hempty).grows.name
    have hnew : Scope.new s.name 0 = (opening name line).scope := by
      rw [hname, Scope.new, if_neg (idText_ne name line)]
      rfl
    unfold functionChanges
    simp only [hfn]
    rw [hnew, hreplay]
    simp only at h
    split at h
    · cases h
    · exact Except.ok.inj h
  · cases h

/-- Carried out on an empty scope with an index, they give the indexed form of the result. -/
theorem perform_functionChanges {E : Setting} {fn : Option NodeId} {s : Scope}
    (h : (analyzeFunction E fn).result = .ok s) :
    (functionChanges E fn).foldl Indexed.perform (Indexed.new s.name 0) = Indexed.ofScope s := by
  have hempty : (Scope.new s.name 0).WellFormed := Scope.wellFormed_of_empty rfl
  have hrun := Indexed.run_ofScope hempty (functionChanges E fn)
  rwa [replay_analyzeFunction h] at hrun

/-! ### What is told of registrations -/

/-- The variable whose registration an event tells. -/
def Event.registered? : Event → Option String
  | .registered id => some id
  | _ => none

theorem Event.registered?_eq_none {e : Event} (h : ∀ id, e ≠ .registered id) :
    e.registered? = none := by
  cases e with
  | registered id => exact absurd rfl (h id)
  | _ => rfl

/-- One registration was told of each variable, with the line the variable has. -/
def State.Told (s : State) : Prop :=
  s.events.reverse.filterMap Event.registered? = s.scope.vars.map Variable.id

theorem State.Told.quiet {s : State} (h : s.Told) {e : Event} (he : ∀ id, e ≠ .registered id) :
    (s.tell e).Told := by
  unfold State.Told State.tell
  rw [List.reverse_cons, List.filterMap_append, h]
  simp [Event.registered?_eq_none he]

theorem State.Told.map {s : State} (h : s.Told) {f : Variable → Variable}
    (hf : ∀ v ∈ s.scope.vars, (f v).ref = v.ref) :
    ({ s with scope := { s.scope with vars := s.scope.vars.map f } } : State).Told := by
  refine Eq.trans h ?_
  rw [List.map_map]
  refine List.map_congr_left fun v hv => ?_
  exact congrArg (fun r : VarRef => idText r.name r.line) (hf v hv).symm

theorem Step.told {E : Setting} {root : NodeId} {s t : State} (hstep : Step E root s t)
    (hs : s.scope.WellFormed) (h : s.Told) : t.Told := by
  have hupdate : ∀ {u : State} (n : String) {f : Variable → Variable}, u.Told →
      (∀ v ∈ u.scope.vars, v.name = n → (f v).ref = v.ref) →
      ({ u with scope := u.scope.update n f } : State).Told := by
    intro u n f hu hf
    refine hu.map fun v hv => ?_
    split
    · exact hf v hv ‹_›
    · rfl
  cases hstep with
  | register ident line =>
    unfold State.lookup
    split
    · exact h
    · unfold State.Told State.tell
      rw [List.reverse_cons, List.filterMap_append, h]
      simp [Scope.add, Event.registered?, Variable.id]
  | depend x y =>
    unfold State.depend Scope.depend
    split
    · exact h
    · exact hupdate x h fun v _ _ => (v.grows_addDependency _).ref
  | mark line =>
    unfold State.markSource
    split
    · exact h
    · rename_i v _
      refine (hupdate v.name h ?_).quiet nofun
      exact fun _ _ _ => rfl
  | sink x line =>
    refine (sink_induction (P := fun t => t.scope.WellFormed ∧ t.Told) x line ⟨hs, h⟩
      fun u y v r e hv he hu => ⟨(promote_extends hu.1 hv r e).wellFormed, ?_⟩).2
    unfold State.promote Variable.promote?
    split
    · exact hu.2
    · rename_i v' hv'
      have href : v'.ref = v.ref := by
        split at hv'
        · split at hv'
          · rw [← Option.some.inj hv']
            rfl
          · cases hv'
        · cases hv'
      refine (hupdate v.name hu.2 fun w hw hname => ?_).quiet (he v')
      rw [href, hu.1.eq_of_name hw (Scope.mem_of_lookup? hv) hname]
  | tell kind line reach => exact h.quiet nofun
  | enter r => exact h.map fun _ _ => rfl
  | _ => exact h

theorem Steps.told {E : Setting} {root : NodeId} {s t : State} (hsteps : Steps E root s t)
    (hs : s.scope.WellFormed) (h : s.Told) : t.Told := by
  induction hsteps with
  | refl => exact h
  | tail hbefore hstep ih => exact hstep.told (Steps.extends hbefore hs).wellFormed ih

/-- An analysis tells one registration of each variable, with the line it ends up with. -/
theorem registrations_of_analyzeFunction {E : Setting} {fn : Option NodeId} {s : Scope}
    (h : (analyzeFunction E fn).result = .ok s) :
    (analyzeFunction E fn).events.filterMap Event.registered? = s.vars.map Variable.id := by
  unfold analyzeFunction at h ⊢
  split at h
  · rename_i id line name params body locals hfn
    have htold := (function_steps hfn (opening name line)).told (Scope.wellFormed_of_empty rfl) rfl
    unfold opening at htold
    simp only at h ⊢
    generalize visitAll (walk E [id]) body _ = done at h htold ⊢
    have hsummary : ∀ vs : List Variable,
        (vs.map Event.summed).filterMap Event.registered? = [] := by
      intro vs
      simp [List.filterMap_eq_nil_iff, Event.registered?]
    cases hfault : done.fault with
    | some f =>
      rw [hfault] at h
      cases h
    | none =>
      rw [hfault] at h
      obtain rfl := Except.ok.inj h
      simp only [List.filterMap_append, hsummary, List.nil_append]
      rw [htold]
      split <;> simp [Event.registered?]
  · cases h

end Walk

namespace Indexed

/-- **Index, sets and lists agree.** Whatever a scope starts from, a join of any scopes
included, and whatever changes it goes through: names differ, the index leads from them to
their variables, dependents are told once, stand in the scope, are not the variable
itself and are the members of its set, and each variable is on the line it was first
registered at. The changes that an analysis makes are such a history of the scope it hands
out: carried out on an empty scope they give that scope, with its index and sets. What the
analysis told is one registration of each variable, on the line it still has. -/
theorem bookkeeping_agrees :
    (∀ {first : String → Option Int} {s : Indexed}, Produced first s →
      s.Kept ∧ ∀ x, s.line? x = first x) ∧
    (∀ (E : Walk.Setting) (fn : Option NodeId) (s : Scope),
      (Walk.analyzeFunction E fn).result = .ok s →
        (Walk.functionChanges E fn).foldl perform (new s.name 0) = ofScope s ∧
        (ofScope s).plain = s ∧
        Produced (fun x => (Walk.functionChanges E fn).findSome? (·.registers x)) (ofScope s) ∧
        (Walk.analyzeFunction E fn).events.filterMap Walk.Event.registered? =
          s.vars.map Variable.id) := by
  refine ⟨fun h => ⟨h.kept, h.line?_eq⟩, fun E fn s h => ?_⟩
  have hperformed := Walk.perform_functionChanges h
  have hproduced := (Produced.new s.name 0).run (Walk.functionChanges E fn)
  rw [hperformed] at hproduced
  exact ⟨hperformed, plain_ofScope s, by simpa using hproduced,
    Walk.registrations_of_analyzeFunction h⟩

/-- Two scopes whose variables of one name derive from each other and from strangers. -/
def tangled : Indexed × Indexed :=
  ({ slots :=
      [⟨{ home := 0, name := "x", line := 1, dependents := [⟨9, "x", 4⟩, ⟨9, "y", 4⟩] }, []⟩] },
    { slots :=
      [⟨{ home := 1, name := "y", line := 3 }, []⟩,
        ⟨{ home := 1, name := "x", line := 5, source := true, dependents := [⟨1, "y", 3⟩] }, []⟩] })

/-- One variable receives a source, a second one receives the first and meets a sink. -/
def flowing : Walk.Setting := { graph := ⟨#[
  ⟨1, .function "f" [] [some 1, some 5, some 8] []⟩,
  ⟨2, .assignment "=" (some 2) (some 3)⟩, ⟨2, .name "x"⟩,
  ⟨2, .call (some 4) [] false⟩, ⟨2, .name "retSource"⟩,
  ⟨3, .assignment "=" (some 6) (some 7)⟩, ⟨3, .name "y"⟩, ⟨3, .name "x"⟩,
  ⟨4, .call (some 9) [some 10] false⟩, ⟨4, .name "sink"⟩, ⟨4, .name "y"⟩]⟩ }

theorem bookkeeping_agrees_tangled :
    (∃ s, s = ((join 5 (some tangled.1) (some tangled.2)).perform (.depend "y" "x")).perform
        (.register "x" 8) ∧
      s.slots.map (fun c => (c.content.id, c.content.dependents)) =
        [("x@1", [⟨5, "y", 3⟩]), ("y@3", [⟨5, "x", 1⟩])] ∧
      s.Kept ∧ s.line? "x" = some 1) ∧
    ∃ s, (Walk.analyzeFunction flowing (some 0)).result = .ok s ∧
      (Walk.functionChanges flowing (some 0)).length = 9 ∧
      (Walk.functionChanges flowing (some 0)).foldl perform (new s.name 0) = ofScope s ∧
      s.vars.map (fun v => (v.id, v.source, v.taint, v.dependents)) =
        [("x@2", true, .must, []), ("y@3", false, .clean, [⟨0, "x", 2⟩])] := by
  constructor
  · refine ⟨_, rfl, by decide +kernel, ?_⟩
    obtain ⟨hkept, hline⟩ := bookkeeping_agrees.1
      (((Produced.join 5 (some tangled.1) (some tangled.2)).change (.depend "y" "x")).change
        (.register "x" 8))
    exact ⟨hkept, hline "x"⟩
  · have hvars : (Walk.analyzeFunction flowing (some 0)).result.map (fun s : Scope =>
        s.vars.map fun v => (v.id, v.source, v.taint, v.dependents)) =
          .ok [("x@2", true, .must, []), ("y@3", false, .clean, [⟨0, "x", 2⟩])] := by
      decide +kernel
    cases hs : (Walk.analyzeFunction flowing (some 0)).result with
    | error f =>
      rw [hs] at hvars
      cases hvars
    | ok s =>
      rw [hs] at hvars
      obtain ⟨hperformed, _⟩ := bookkeeping_agrees.2 flowing (some 0) s hs
      exact ⟨s, rfl, by decide +kernel, hperformed, Except.ok.inj hvars⟩

end Indexed

end TaintReach
