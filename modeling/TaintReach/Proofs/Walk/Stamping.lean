import TaintReach.Proofs.Scope.Basic
import TaintReach.Proofs.Walk.Lexical

/-! Stamping agrees with passing the surroundings down.

The walk stamps every variable with the class of the current point and keeps the
variable being defined in its state; the lexical walk does neither. `Agrees`
relates their states at a site: both hold the same variables, and every stamp is
the class of the site. Each rule of the walk keeps the relation at the site it
started from, so the stamps, the class and the variable being defined are as
they were, after a fault too (`walk_agrees`). The two engines then give the same
faults and the same variables, and every stamp is `always` in the end
(`analyzeFunction_eq_lexical`). -/
namespace TaintReach

open Walk (Setting)

/-! ### Variables without their stamps -/

/-- What remains of a variable without its stamp. -/
def Variable.plain (v : Variable) : Lexical.Entry :=
  ⟨v.ref, v.source, v.taint, v.escaped, v.dependents⟩

/-- What remains of a scope without the stamps. -/
def Scope.plain (s : Scope) : Lexical.Table := ⟨s.home, s.name, s.vars.map Variable.plain⟩

namespace Variable

@[simp] theorem plain_ref (v : Variable) : v.plain.ref = v.ref := rfl
@[simp] theorem plain_source (v : Variable) : v.plain.source = v.source := rfl
@[simp] theorem plain_dependents (v : Variable) : v.plain.dependents = v.dependents := rfl

theorem plain_addDependent (v : Variable) (d : VarRef) :
    (v.addDependent d).plain = v.plain.addDependent d := by
  simp only [addDependent, Lexical.Entry.addDependent, plain_ref, plain_dependents]
  by_cases h : d = v.ref ∨ d ∈ v.dependents
  · simp only [h, if_true]
  · simp only [h, if_false]
    rfl

theorem plain_foldl_addDependent (v : Variable) (ds : List VarRef) :
    (ds.foldl addDependent v).plain = ds.foldl Lexical.Entry.addDependent v.plain := by
  induction ds generalizing v with
  | nil => rfl
  | cons d ds ih => rw [List.foldl_cons, ih, plain_addDependent, List.foldl_cons]

theorem plain_addDependency (v o : Variable) :
    (v.addDependency o).plain = v.plain.addDependency o.plain := by
  simp only [addDependency, Lexical.Entry.addDependency, plain_ref, plain_dependents, plain_source]
  by_cases href : o.ref = v.ref
  · simp only [href, if_true]
  by_cases hnil : o.dependents = []
  · simp only [href, hnil, true_or, if_true, if_false]
    exact plain_addDependent v o.ref
  by_cases hs : o.source = true
  · simp only [href, hnil, hs, or_true, if_true, if_false, List.foldl_append, List.foldl_cons,
      List.foldl_nil, plain_addDependent, plain_foldl_addDependent]
  · simp only [href, hnil, hs, or_self, if_false, plain_foldl_addDependent, Bool.false_eq_true]

theorem reachable_addDependency (v o : Variable) :
    (v.addDependency o).reachable = v.reachable := by
  obtain ⟨ds, hds⟩ := v.addDependency_eq o
  rw [hds]

/-- Raises the verdict on a source to `t`. -/
def raise (t : Taint) (v : Variable) : Variable :=
  if v.source = true ∧ v.taint.rank < t.rank then { v with taint := t } else v

theorem ref_raise (v : Variable) (t : Taint) : (v.raise t).ref = v.ref := by
  unfold raise
  split <;> rfl

theorem dependents_raise (v : Variable) (t : Taint) : (v.raise t).dependents = v.dependents := by
  unfold raise
  split <;> rfl

theorem reachable_raise (v : Variable) (t : Taint) : (v.raise t).reachable = v.reachable := by
  unfold raise
  split <;> rfl

theorem grows_raise (v : Variable) (t : Taint) : Grows v (v.raise t) := by
  unfold raise
  split
  · rename_i h
    exact ⟨rfl, rfl, fun hs => hs, Int.le_of_lt h.2, List.prefix_refl _⟩
  · exact .refl v

theorem plain_raise (v : Variable) (t : Taint) : (v.raise t).plain = v.plain.raise t := by
  unfold raise Lexical.Entry.raise plain
  split <;> rfl

end Variable

/-- A promotion puts the raised variable in place if that is a rise. -/
theorem Walk.State.promote_eq (s : State) (r : Reachable) (v : Variable) (e : Variable → Event) :
    (s.promote r v e = s ∧ v.raise r.taint = v) ∨
      ∃ ev, s.promote r v e =
        { s with scope := s.scope.update v.name fun _ => v.raise r.taint }.tell ev := by
  unfold promote Variable.promote? Variable.raise
  by_cases hs : v.source = true
  · by_cases hlt : v.taint.rank < r.taint.rank
    · rw [if_pos hs, if_pos hlt, if_pos ⟨hs, hlt⟩]
      exact Or.inr ⟨_, rfl⟩
    · rw [if_pos hs, if_neg hlt, if_neg fun h => hlt h.2]
      exact Or.inl ⟨rfl, rfl⟩
  · rw [if_neg hs, if_neg fun h => hs h.1]
    exact Or.inl ⟨rfl, rfl⟩

namespace Scope

theorem update_congr {s : Scope} (x : String) {f g : Variable → Variable}
    (h : ∀ v ∈ s.vars, v.name = x → f v = g v) : s.update x f = s.update x g := by
  have hmap : s.vars.map (fun v => if v.name = x then f v else v) =
      s.vars.map fun v => if v.name = x then g v else v := by
    refine List.map_congr_left fun v hv => ?_
    split
    · exact h v hv ‹_›
    · rfl
  simp only [update, hmap]

theorem update_eq_self {s : Scope} (x : String) {f : Variable → Variable}
    (h : ∀ v ∈ s.vars, v.name = x → f v = v) : s.update x f = s := by
  rw [update_congr x (g := fun v => v) h]
  simp only [update, ite_self, List.map_id']

theorem update_of_lookup?_none {s : Scope} {x : String} (h : s.lookup? x = none)
    (f : Variable → Variable) : s.update x f = s :=
  update_eq_self x fun v hv hx => absurd hx (by simpa using List.find?_eq_none.mp h v hv)

theorem plain_lookup? (s : Scope) (x : String) :
    s.plain.lookup? x = (s.lookup? x).map Variable.plain := by
  simp only [Lexical.Table.lookup?, plain, List.find?_map, lookup?]
  rfl

theorem plain_update (s : Scope) (n : String) {f : Variable → Variable}
    {g : Lexical.Entry → Lexical.Entry} (hfg : ∀ v, (f v).plain = g v.plain) :
    (s.update n f).plain = s.plain.update n g := by
  simp only [plain, update, Lexical.Table.update, List.map_map]
  congr 1
  refine List.map_congr_left fun v _ => ?_
  have hname : v.ref.name = v.name := rfl
  simp only [Function.comp_apply, Variable.plain_ref, hname]
  split
  · exact hfg v
  · rfl

theorem plain_stamp (s : Scope) (r : Reachable) : (s.stamp r).plain = s.plain := by
  simp only [plain, stamp, List.map_map]
  rfl

theorem plain_depend (s : Scope) (x y : String) :
    (s.depend x y).plain = s.plain.depend x y := by
  unfold depend Lexical.Table.depend
  rw [plain_lookup?]
  cases s.lookup? y with
  | none => rfl
  | some o => exact plain_update s x fun v => v.plain_addDependency o

end Scope

namespace Lexical

/-! ### The relation between the two states -/

/-- The state of the walk at a site against that of the lexical walk. -/
structure Agrees (site : Site) (s : Walk.State) (t : State) : Prop where
  ambient : s.ambient = site.ambient
  defining : s.defining = site.defining
  stamped : ∀ v ∈ s.scope.vars, v.reachable = site.ambient
  wellFormed : s.scope.WellFormed
  table : s.scope.plain = t.table
  consts : s.consts = t.consts
  fault : s.fault = t.fault

namespace Agrees

variable {site : Site} {s : Walk.State} {t : State} {E : Setting}

theorem lookup? (h : Agrees site s t) (x : String) :
    t.table.lookup? x = (s.scope.lookup? x).map Variable.plain := by
  rw [← h.table, Scope.plain_lookup?]

theorem tell (h : Agrees site s t) (e : Walk.Event) : Agrees site (s.tell e) t :=
  ⟨h.ambient, h.defining, h.stamped, h.wellFormed, h.table, h.consts, h.fault⟩

theorem failCyclic (h : Agrees site s t) (line : Int) :
    Agrees site (s.failCyclic line) (t.failCyclic line) := by
  refine ⟨h.ambient, h.defining, h.stamped, h.wellFormed, h.table, h.consts, ?_⟩
  simp only [Walk.State.failCyclic, State.failCyclic, ← h.table]
  rfl

/-- Scopes may change as long as stamps, form and table are kept in step. -/
theorem scope (h : Agrees site s t) {scope : Scope} {table : Table}
    (hstamp : ∀ v ∈ scope.vars, v.reachable = site.ambient) (hwf : scope.WellFormed)
    (htable : scope.plain = table) : Agrees site { s with scope } { t with table } :=
  ⟨h.ambient, h.defining, hstamp, hwf, htable, h.consts, h.fault⟩

theorem consts' (h : Agrees site s t) {c d : Walk.Consts} (hc : c = d) :
    Agrees site { s with consts := c } { t with consts := d } :=
  ⟨h.ambient, h.defining, h.stamped, h.wellFormed, h.table, hc, h.fault⟩

theorem register (h : Agrees site s t) (ident : String) (line : Int) :
    Agrees site (s.lookup E.declared ident line) (t.register E ident line) := by
  unfold Walk.State.lookup State.register
  rw [h.lookup?]
  cases hx : s.scope.lookup? ident with
  | some v => exact h
  | none =>
    have hhome : t.table.home = s.scope.home := by rw [← h.table]; rfl
    refine (h.scope ?_ (h.wellFormed.add hx rfl) ?_).tell _
    · intro v hv
      rcases List.mem_append.mp hv with hv | hv
      · exact h.stamped v hv
      · rw [List.mem_singleton.mp hv]
        exact h.ambient
    · simp only [Scope.plain, Scope.add, List.map_append, ← h.table, List.map_cons, List.map_nil]
      rfl

theorem bind (h : Agrees site s t) (ident : String) (line : Int) :
    Agrees site (s.bind E.declared ident line) (t.bind E ident line) :=
  (h.consts' (by rw [h.consts])).register ident line

theorem depend (h : Agrees site s t) (x y : String) :
    Agrees site (s.depend x y) (t.depend x y) := by
  refine h.scope ?_ (h.wellFormed.depend x y) (by rw [Scope.plain_depend, h.table])
  unfold Scope.depend
  split
  · exact h.stamped
  · intro v hv
    obtain ⟨u, hu, rfl⟩ := List.mem_map.mp hv
    split
    · rw [Variable.reachable_addDependency]
      exact h.stamped u hu
    · exact h.stamped u hu

theorem flow (h : Agrees site s t) (y : String) :
    Agrees site (s.dependDefining y) (t.flow site y) := by
  unfold Walk.State.dependDefining State.flow
  rw [h.defining]
  cases site.defining with
  | none => exact h
  | some x => exact h.depend x y

/-- A change of one variable that keeps its stamp, reference and dependents. -/
theorem update (h : Agrees site s t) (x : String) {f : Variable → Variable} {g : Entry → Entry}
    (hreach : ∀ v, (f v).reachable = v.reachable) (href : ∀ v, (f v).ref = v.ref)
    (hdep : ∀ v, (f v).dependents = v.dependents) (hfg : ∀ v, (f v).plain = g v.plain) :
    Agrees site { s with scope := s.scope.update x f } { t with table := t.table.update x g } := by
  refine h.scope ?_ (h.wellFormed.update x href hdep) (by rw [Scope.plain_update _ _ hfg, h.table])
  intro v hv
  obtain ⟨u, hu, rfl⟩ := List.mem_map.mp hv
  split
  · rw [hreach]
    exact h.stamped u hu
  · exact h.stamped u hu

theorem mark (h : Agrees site s t) (line : Int) :
    Agrees site (s.markSource line) (t.mark site) := by
  unfold Walk.State.markSource State.mark
  rw [← h.defining]
  rcases hd : s.defining with _ | x
  · exact h
  have hmark := h.update x (f := fun v => { v with source := true })
    (g := fun e => { e with source := true }) (fun _ => rfl) (fun _ => rfl) (fun _ => rfl)
    fun _ => rfl
  rw [hd] at hmark
  simp only [Option.bind_some]
  cases hx : s.scope.lookup? x with
  | some v =>
    simp only [Scope.name_of_lookup? hx]
    exact hmark.tell _
  | none =>
    rw [Scope.update_of_lookup?_none hx, ← hd] at hmark
    exact hmark

end Agrees

/-! ### Sinks -/

@[simp] theorem Entry.ref_raise (e : Entry) (t : Taint) : (e.raise t).ref = e.ref := by
  unfold raise
  split <;> rfl

theorem Entry.raise_raise (e : Entry) (t : Taint) : (e.raise t).raise t = e.raise t := by
  unfold raise
  by_cases h : e.source = true ∧ e.taint.rank < t.rank
  · rw [if_pos h, if_neg (fun h' => absurd h'.2 (Int.lt_irrefl _))]
  · rw [if_neg h, if_neg h]

theorem Table.map_ref_raiseAll (t : Table) (ds : List VarRef) (v : Taint) :
    (t.raiseAll ds v).entries.map Entry.ref = t.entries.map Entry.ref := by
  simp only [raiseAll, List.map_map]
  refine List.map_congr_left fun e _ => ?_
  simp only [Function.comp_apply]
  split
  · exact e.ref_raise v
  · rfl

/-- Raising entries at once is raising them one after the other. -/
theorem Table.raiseAll_cons (t : Table) (d : VarRef) (ds : List VarRef) (v : Taint) :
    t.raiseAll (d :: ds) v = (t.raiseAll [d] v).raiseAll ds v := by
  simp only [raiseAll, List.map_map]
  congr 1
  refine List.map_congr_left fun e _ => ?_
  simp only [Function.comp_apply, List.mem_cons, List.not_mem_nil, or_false]
  by_cases hd : e.ref = d
  · by_cases hds : e.ref ∈ ds
    · simp only [hd, true_or, if_true, Entry.ref_raise, hd ▸ hds, Entry.raise_raise]
    · simp only [hd, true_or, if_true, Entry.ref_raise, hd ▸ hds, if_false]
  · simp only [hd, false_or, if_false]

theorem Entry.source_raise (e : Entry) (t : Taint) : (e.raise t).source = e.source := by
  unfold raise
  split <;> rfl

theorem Entry.le_taint_raise {e : Entry} (h : e.source = true) (t : Taint) :
    t.rank ≤ (e.raise t).taint.rank := by
  unfold raise
  split
  case isTrue _ => exact Int.le_refl _
  case isFalse hkept => exact Int.not_lt.mp fun hlt => hkept ⟨h, hlt⟩

theorem Table.lookup?_raiseAll (t : Table) (refs : List VarRef) (v : Taint) (x : String) :
    (t.raiseAll refs v).lookup? x =
      (t.lookup? x).map fun e => if e.ref ∈ refs then e.raise v else e := by
  have href : ∀ e : Entry, (if e.ref ∈ refs then e.raise v else e).ref = e.ref := by
    intro e
    split
    · exact e.ref_raise v
    · rfl
  simp only [lookup?, raiseAll, List.find?_map, Function.comp_def, href]

theorem Table.raiseAll_nil (t : Table) (v : Taint) : t.raiseAll [] v = t := by
  simp [raiseAll]

namespace Agrees

variable {site : Site} {s : Walk.State} {t : State} {E : Setting}

/-- Promoting a variable raises its entry. -/
theorem promote (h : Agrees site s t) {x : String} {v : Variable}
    (hv : s.scope.lookup? x = some v) (e : Variable → Walk.Event) :
    Agrees site (s.promote site.ambient v e)
      { t with table := t.table.raiseAll [v.ref] site.ambient.taint } := by
  have hmem := Scope.mem_of_lookup? hv
  -- one entry has the reference of `v`, and it is the one that stands for `v`
  have hone : ∀ u ∈ s.scope.vars, u.ref = v.ref ↔ u.name = v.name := fun u hu =>
    h.wellFormed.ref_eq_iff hu hmem
  have hraise : t.table.raiseAll [v.ref] site.ambient.taint =
      t.table.update v.name (Entry.raise site.ambient.taint) := by
    rw [← h.table]
    simp only [Table.raiseAll, Table.update, Scope.plain, List.map_map, Lexical.Table.mk.injEq,
      true_and]
    refine List.map_congr_left fun u hu => ?_
    have hname : u.ref.name = u.name := rfl
    simp only [Function.comp_apply, Variable.plain_ref, List.mem_singleton, hone u hu, hname]
  rw [hraise]
  have hupdate := h.update v.name (fun u => u.reachable_raise _) (fun u => u.ref_raise _)
    (fun u => u.dependents_raise _) fun u => u.plain_raise site.ambient.taint
  rw [Scope.update_congr v.name (g := fun _ => v.raise site.ambient.taint) fun u hu hname => by
    rw [h.wellFormed.eq_of_name hu hmem hname]] at hupdate
  rcases Walk.State.promote_eq s site.ambient v e with ⟨hsame, hkeep⟩ | ⟨ev, hrise⟩
  · rw [hkeep, Scope.update_eq_self v.name fun u hu hname =>
      (h.wellFormed.eq_of_name hu hmem hname).symm] at hupdate
    rw [hsame]
    exact hupdate
  · rw [hrise]
    exact hupdate.tell ev

/-- Promoting variables one by one, each seen at the class of the site, raises their
entries. -/
theorem promoteAll (h : Agrees site s t) (via : String) (line : Int) (ds : List VarRef)
    (hds : ∀ d ∈ ds, d ∈ t.table.entries.map Entry.ref) :
    Agrees site
      (ds.foldl (fun s d =>
        match s.scope.lookup? d.name with
        | some dv =>
          if dv.reachable = site.ambient then
            s.promote site.ambient dv fun dv => .sinkMetThrough line dv.id dv.taint via
          else s
        | none => s) s)
      { t with table := t.table.raiseAll ds site.ambient.taint } := by
  induction ds generalizing s t with
  | nil =>
    rw [Table.raiseAll_nil]
    exact h
  | cons d ds ih =>
    have hd : ∃ w, s.scope.lookup? d.name = some w ∧ w.ref = d := by
      obtain ⟨e, he, rfl⟩ := List.mem_map.mp (hds d List.mem_cons_self)
      rw [← h.table] at he
      obtain ⟨w, hw, rfl⟩ := List.mem_map.mp he
      exact ⟨w, h.wellFormed.lookup?_name hw, rfl⟩
    obtain ⟨w, hw, rfl⟩ := hd
    rw [List.foldl_cons, Table.raiseAll_cons]
    simp only [hw, if_pos (h.stamped w (Scope.mem_of_lookup? hw))]
    refine ih (h.promote hw _) fun d' hd' => ?_
    rw [Table.map_ref_raiseAll]
    exact hds d' (List.mem_cons_of_mem _ hd')

theorem sink (h : Agrees site s t) (x : String) (line : Int) :
    Agrees site (s.sink x line) (t.sink site x) := by
  unfold Walk.State.sink State.sink
  rw [h.lookup?]
  cases hx : s.scope.lookup? x with
  | none => exact h
  | some v =>
    have hmem := Scope.mem_of_lookup? hx
    simp only [Option.map_some, h.stamped v hmem, Variable.plain_ref, Variable.plain_dependents]
    rw [Table.raiseAll_cons]
    refine (h.promote hx _).promoteAll v.id line v.dependents fun d hd => ?_
    obtain ⟨w, hw, rfl⟩ := h.wellFormed.registered v hmem d hd
    rw [Table.map_ref_raiseAll, ← h.table]
    exact List.mem_map.mpr ⟨w.plain, List.mem_map_of_mem hw, rfl⟩

/-- After a sink met `y`, the variables behind `y` are raised. -/
theorem lookup?_sink (h : Agrees site s t) {y z : String} {v w : Variable}
    (hy : s.scope.lookup? y = some v) (hz : s.scope.lookup? z = some w)
    (hmem : w.ref ∈ v.ref :: v.dependents) (line : Int) :
    ∃ w', (s.sink y line).scope.lookup? z = some w' ∧
      w'.plain = w.plain.raise site.ambient.taint := by
  have hafter := (h.sink y line).lookup? z
  simp only [State.sink, h.lookup?, hy, hz, Option.map_some, Table.lookup?_raiseAll,
    Variable.plain_ref, Variable.plain_dependents, hmem, if_true] at hafter
  obtain ⟨w', hw', heq⟩ := Option.map_eq_some_iff.mp hafter.symm
  exact ⟨w', hw', heq⟩

/-! ### Entering and leaving -/

theorem enter (h : Agrees site s t) (r : Reachable) :
    Agrees { site with ambient := r } (s.enter r) t := by
  refine ⟨rfl, h.defining, ?_, h.wellFormed.stamp r, ?_, h.consts, h.fault⟩
  · intro v hv
    obtain ⟨u, _, rfl⟩ := List.mem_map.mp hv
    rfl
  · rw [← h.table]
    exact Scope.plain_stamp s.scope r

/-- A step that keeps the relation one class deeper keeps it here when it is run as
a branch. -/
theorem branch (h : Agrees site s t) (guard : Reachable) {f : Walk.State → Walk.State}
    {g : Site → State → State}
    (hfg : ∀ s t, Agrees { site with ambient := site.ambient.meet guard } s t →
      Agrees { site with ambient := site.ambient.meet guard } (f s)
        (g { site with ambient := site.ambient.meet guard } t)) :
    Agrees site (Walk.branch (site.ambient.meet guard) site.ambient f s)
      (guarded site guard g t) := by
  unfold Walk.branch guarded
  have hin := h.enter (site.ambient.meet guard)
  simp only
  split
  · exact hin.enter site.ambient
  · exact (hfg _ _ hin).enter site.ambient

/-- A step that keeps the relation while `x` is defined keeps it here when it is
routed there. -/
theorem route (h : Agrees site s t) (x : Option String) {f : Walk.State → Walk.State}
    {g : State → State}
    (hfg : ∀ s t, Agrees { site with defining := x } s t →
      Agrees { site with defining := x } (f s) (g t)) : Agrees site (s.route x f) (g t) := by
  have hin : Agrees { site with defining := x } { s with defining := x } t :=
    ⟨h.ambient, rfl, h.stamped, h.wellFormed, h.table, h.consts, h.fault⟩
  have hout := hfg _ _ hin
  exact ⟨hout.ambient, h.defining, hout.stamped, hout.wellFormed, hout.table, hout.consts,
    hout.fault⟩

/-- Folding steps that keep the relation keeps it. -/
theorem foldl {α : Type} (xs : List α) {f : Walk.State → α → Walk.State} {g : State → α → State}
    (hfg : ∀ x ∈ xs, ∀ s t, Agrees site s t → Agrees site (f s x) (g t x))
    (h : Agrees site s t) : Agrees site (xs.foldl f s) (xs.foldl g t) := by
  induction xs generalizing s t with
  | nil => exact h
  | cons x xs ih =>
    exact ih (fun y hy => hfg y (List.mem_cons_of_mem x hy)) (hfg x List.mem_cons_self s t h)

end Agrees

/-! ### The rules -/

/-- Two ways to visit sub-nodes that keep the relation at every site. -/
def Visits (visit : Walk.Visit) (visit' : Visit) : Prop :=
  ∀ site c s t, Agrees site s t → Agrees site (visit c s) (visit' site c t)

section
variable {E : Setting} {visit : Walk.Visit} {visit' : Visit} (hv : Visits visit visit')
  {site : Site} {s : Walk.State} {t : State}
include hv

theorem visitAll_agrees (children : List (Option NodeId)) (h : Agrees site s t) :
    Agrees site (Walk.visitAll visit children s) (visitAll visit' site children t) :=
  Agrees.foldl children (fun c _ s t => hv site c s t) h

theorem assign_agrees (target value : Option NodeId) (h : Agrees site s t) :
    (Walk.assign E visit target value s).1 = (assign E visit' site target value t).1 ∧
      Agrees site (Walk.assign E visit target value s).2
        (assign E visit' site target value t).2 := by
  have hreceive : ∀ (ident : String) s t, Agrees site s t → Agrees site
      (s.route (some ident) (visit value)) (visit' { site with defining := some ident } value t) :=
    fun ident s t h => h.route (some ident) fun s t => hv _ value s t
  have hdiscard : ∀ c s t, Agrees site s t → Agrees site
      (s.route none (visit c)) (visit' { site with defining := none } c t) :=
    fun c s t h => h.route none fun s t => hv _ c s t
  have hboth : Agrees site (visit value (visit target s))
      (visit' site value (visit' site target t)) := hv site value _ _ (hv site target _ _ h)
  unfold Walk.assign assign
  rcases E.graph.at? target with _ | ⟨line, form⟩
  · exact ⟨rfl, hboth⟩
  cases form with
  | name ident => exact ⟨rfl, hreceive ident _ _ (h.bind ident line)⟩
  | pattern names defaults =>
    refine ⟨rfl, Agrees.foldl defaults (fun d _ s t => hdiscard d s t) (Agrees.foldl names ?_ ?_)⟩
    · intro n _ s t h
      cases E.graph.name? (some n) with
      | none => exact h
      | some p => exact hreceive p.1 _ _ (h.bind p.1 p.2)
    · split
      · exact hdiscard value s t h
      · exact h
  | member object property propName computed =>
    rcases E.graph.root? target with _ | ⟨ident, rootLine⟩
    · exact ⟨rfl, hboth⟩
    have hroot : Agrees site
        (if computed then (s.lookup E.declared ident rootLine).route none (visit property)
          else s.lookup E.declared ident rootLine)
        (if computed then visit' { site with defining := none } property
          (t.register E ident rootLine) else t.register E ident rootLine) := by
      split
      · exact hdiscard property _ _ (h.register ident rootLine)
      · exact h.register ident rootLine
    simp only
    rcases E.graph.name? value with _ | ⟨on, onLine⟩
    · exact ⟨rfl, hreceive ident _ _ hroot⟩
    · exact ⟨rfl, (hroot.register on onLine).depend ident on⟩
  | _ => exact ⟨rfl, hboth⟩

omit hv in
theorem recordConst_agrees (b : NodeId) (h : Agrees site s t) :
    Agrees site (Walk.recordConst E.graph b s) (recordConst E b t) := by
  unfold Walk.recordConst recordConst
  rcases E.graph.node? b with _ | ⟨_, form⟩
  · exact h
  cases form with
  | binding target init =>
    simp only
    rcases E.graph.name? target with _ | ⟨ident, _⟩
    · exact h
    rcases E.graph.at? init with _ | ⟨_, form⟩
    · exact h
    cases form with
    | literal _ _ truthy => exact h.consts' (congrArg (·.record ident truthy) h.consts)
    | _ => exact h
  | _ => exact h

theorem declaration_agrees (kind : DeclKind) (bindings : List NodeId) (h : Agrees site s t) :
    Agrees site (Walk.declaration E visit kind bindings s)
      (declaration E visit' site kind bindings t) := by
  refine Agrees.foldl bindings (fun b _ s t h => ?_) h
  have hvisit := hv site (some b) s t h
  simp only
  split
  · exact recordConst_agrees b hvisit
  · exact hvisit

omit hv in
theorem methodCall_agrees (callee : Option NodeId) (args : List (Option NodeId))
    (h : Agrees site s t) :
    Agrees site (Walk.methodCall E callee args s) (methodCall E callee args t) := by
  unfold Walk.methodCall methodCall
  rcases E.graph.isMember callee with _ | _
  · exact h
  rcases E.graph.root? callee with _ | ⟨ident, line⟩
  · exact h
  refine Agrees.foldl args (fun a _ s t h => ?_) (h.register ident line)
  rcases E.graph.name? a with _ | ⟨on, onLine⟩
  · exact h
  · exact (h.register on onLine).depend ident on

theorem call_agrees (line : Int) (callee : Option NodeId) (args : List (Option NodeId))
    (isNew : Bool) (h : Agrees site s t) :
    Agrees site (Walk.call E visit line callee args isNew s)
      (call E visit' site callee args isNew t) := by
  unfold Walk.call call
  rcases (if isNew then none else E.graph.name? callee) with _ | ⟨ident, _⟩
  · exact visitAll_agrees hv args (hv site callee _ _ (methodCall_agrees callee args h))
  simp only
  split
  · split
    · exact h.mark line
    · exact h
  split
  · rcases args with _ | ⟨arg, _ | ⟨_, _⟩⟩
    · exact h
    · simp only
      rcases E.graph.name? arg with _ | ⟨y, yLine⟩
      · exact h
      · exact (h.register y yLine).sink y line
    · exact h
  · exact visitAll_agrees hv args h

theorem conditional_agrees (path : List NodeId) (line : Int) (kind : CondKind)
    (init test update each body otherwise : Option NodeId) (hnone : ∀ site t, visit' site none t = t)
    (h : Agrees site s t) :
    Agrees site (Walk.conditional E path visit line kind init test update each body otherwise s)
      (conditional E visit' site path kind init test update each body otherwise t) := by
  unfold Walk.conditional conditional
  have hinit : Agrees site (if kind = .forLoop then visit init s else s)
      (if kind = .forLoop then visit' site init t else t) := by
    split
    · exact hv site init s t h
    · exact h
  revert hinit
  generalize (if kind = .forLoop then visit init s else s) = s
  generalize (if kind = .forLoop then visit' site init t else t) = t
  intro h
  simp only [h.ambient, h.consts]
  generalize (if kind = .forIn ∨ kind = .forOf then (⟨.maybe, none⟩ : Walk.Classified)
    else Walk.classify E.graph t.consts path test) = guard
  have hfail : Agrees site
      (guard.loopLine.elim s fun line => s.failCyclic line)
      (guard.loopLine.elim t fun line => t.failCyclic line) := by
    cases guard.loopLine with
    | none => exact h
    | some line => exact h.failCyclic line
  have hthen := (hfail.tell (.guardClassified kind line guard.reach)).branch guard.reach
    (f := fun s => visit update (visit body (visit each s)))
    (g := fun site t => visit' site update (visit' site body (visit' site each t)))
    fun s t h => hv _ update _ _ (hv _ body _ _ (hv _ each _ _ h))
  cases otherwise with
  | none =>
    simp only [Option.isNone_none, if_true, guarded, hnone, ite_self]
    exact hthen
  | some e =>
    exact hthen.branch guard.reach.negate (f := visit (some e))
      (g := fun site t => visit' site (some e) t) fun s t h => hv _ (some e) _ _ h

theorem switch_agrees (clauses : List NodeId) (h : Agrees site s t) :
    Agrees site (Walk.switch E visit clauses s) (switch E visit' site clauses t) := by
  unfold Walk.switch switch
  simp only [h.ambient]
  have hin := h.enter (site.ambient.meet .maybe)
  refine @Agrees.enter { site with ambient := site.ambient.meet .maybe } _ _
    (Agrees.foldl clauses (fun c _ s t h => ?_) hin) site.ambient
  rcases E.graph.node? c with _ | ⟨_, form⟩
  · exact h
  cases form with
  | clause _ body => exact visitAll_agrees hv body h
  | _ => exact h

theorem visitNode_agrees (path : List NodeId) (n : Node) (hnone : ∀ site t, visit' site none t = t)
    (h : Agrees site s t) :
    Agrees site (Walk.visitNode E path visit n s) (visitNode E visit' site path n t) := by
  obtain ⟨line, form⟩ := n
  unfold Walk.visitNode visitNode
  cases form with
  | function _ _ _ _ => exact h
  | declaration kind bindings => exact declaration_agrees hv kind bindings h
  | binding target init => exact (assign_agrees hv target init h).2
  | assignment _ target value =>
    obtain ⟨hfst, hsnd⟩ := assign_agrees (E := E) hv target value h
    simp only
    revert hfst hsnd
    generalize Walk.assign E visit target value s = p
    generalize assign E visit' site target value t = q
    obtain ⟨v, s⟩ := p
    obtain ⟨w, t⟩ := q
    rintro rfl h
    cases v with
    | none => exact h
    | some x => exact h.flow x
  | name ident =>
    simp only [h.defining]
    split
    · exact h
    · exact (h.register ident line).flow ident
  | call callee args isNew => exact call_agrees hv line callee args isNew h
  | conditional kind init test update each body otherwise =>
    exact conditional_agrees hv path line kind init test update each body otherwise hnone h
  | switch _ clauses => exact switch_agrees hv clauses h
  | _ => exact visitAll_agrees hv _ h

end

/-- **The two walks agree.** The walk leaves the class, the variable being defined and
every stamp as they were, and does otherwise what the lexical walk does at the site. -/
theorem walk_agrees (E : Setting) (path : List NodeId) :
    Visits (Walk.walk E path) (walk E path) := by
  induction hroom : E.graph.room path using Nat.strongRecOn generalizing path with
  | _ n ih =>
    intro site c s t h
    cases c with
    | none =>
      rw [Walk.walk_none, walk_none]
      exact h
    | some id =>
      rcases hs : s.fault with _ | f
      · have ht : t.fault = none := h.fault.symm.trans hs
        rcases hn : E.graph.node? id with _ | node
        · rw [Walk.walk_missing hn, walk_missing hn]
          exact h
        by_cases hp : id ∈ path
        · rw [Walk.walk_cyclic hs hn hp, walk_cyclic ht hn hp]
          exact h.failCyclic node.line
        · rw [Walk.walk_some hs hn hp, walk_some ht hn hp]
          have hless := E.graph.room_cons_lt hn hp
          exact visitNode_agrees (ih _ (hroom ▸ hless) (id :: path) rfl) (id :: path) node
            (fun _ _ => walk_none) h
      · rw [Walk.walk_of_fault _ (by rw [hs]; rfl), walk_of_fault _ (by rw [← h.fault, hs]; rfl)]
        exact h

/-- **Stamping is passing the surroundings down.** For every graph, declarations and
endpoints the analysis of a function ends in the same fault as the lexical one, or
with the same variables in the same order. At the end every stamp is `always`. -/
theorem analyzeFunction_eq_lexical (E : Setting) (fn : Option NodeId) :
    (Walk.analyzeFunction E fn).result.map Scope.plain = analyzeFunction E fn ∧
      ∀ scope, (Walk.analyzeFunction E fn).result = .ok scope →
        ∀ v ∈ scope.vars, v.reachable = .always := by
  unfold Walk.analyzeFunction analyzeFunction
  rcases fn with _ | id
  · exact ⟨rfl, fun _ h => by cases h⟩
  rcases E.graph.at? (some id) with _ | ⟨line, form⟩
  · exact ⟨rfl, fun _ h => by cases h⟩
  cases form with
  | function name params body locals =>
    have hstart : Agrees {} (Walk.State.tell (.opened (idText name line))
        { scope := { name := idText name line } }) { table := { name := idText name line } } :=
      ⟨rfl, rfl, fun v hv => absurd hv List.not_mem_nil, Scope.wellFormed_of_empty rfl, rfl, rfl,
        rfl⟩
    have hdone := visitAll_agrees (walk_agrees E [id]) body
      (visitAll_agrees (walk_agrees E [id]) params hstart)
    simp only
    revert hdone
    generalize Walk.visitAll (Walk.walk E [id]) body _ = s
    generalize visitAll (walk E [id]) {} body _ = t
    intro hdone
    rw [← hdone.fault]
    rcases s.fault with _ | f
    · refine ⟨congrArg Except.ok hdone.table, fun scope h => ?_⟩
      obtain rfl := Except.ok.inj h
      exact hdone.stamped
    · exact ⟨rfl, fun _ h => by cases h⟩
  | _ => exact ⟨rfl, fun _ h => by cases h⟩

end Lexical

end TaintReach
