import TaintReach.Disk
import TaintReach.Run

/-! The document of a run that takes its inputs one by one.

Reading an input leaves the disk alone, so what an input gives depends on the
disk that the run starts from and on nothing else. The document of the run is
then what collecting the scopes of all inputs in order makes
(`run_document`); inputs that fail add nothing to it, and neither do the reports
written beside the inputs. -/
namespace TaintReach.Run

/-! ### Reading -/

/-- What an action on a disk gives. -/
def give {α : Type} (d : Disk) (x : StateM Disk α) : α := (x.run d).1

/-- An action that changes nothing on the disk. -/
def ReadOnly {α : Type} (x : StateM Disk α) : Prop := ∀ d, x.run d = (give d x, d)

theorem readOnly_pure {α : Type} (a : α) : ReadOnly (pure a : StateM Disk α) := fun _ => rfl

theorem readOnly_read (path : String) : ReadOnly (Files.read path : StateM Disk _) := fun _ => rfl

/-- What follows a reading starts from the same disk. -/
theorem ReadOnly.run_bind {α β : Type} {x : StateM Disk α} (hx : ReadOnly x)
    (f : α → StateM Disk β) (d : Disk) : (x >>= f).run d = (f (give d x)).run d := by
  have hstep : (x >>= f).run d = (f (x.run d).1).run (x.run d).2 := rfl
  rw [hstep, hx d]

theorem ReadOnly.give_bind {α β : Type} {x : StateM Disk α} (hx : ReadOnly x)
    (f : α → StateM Disk β) (d : Disk) : give d (x >>= f) = give d (f (give d x)) :=
  congrArg Prod.fst (hx.run_bind f d)

theorem ReadOnly.bind {α β : Type} {x : StateM Disk α} {f : α → StateM Disk β} (hx : ReadOnly x)
    (hf : ∀ a, ReadOnly (f a)) : ReadOnly (x >>= f) := by
  intro d
  rw [hx.run_bind, hf, hx.give_bind]

theorem readOnly_text (i : Input) : ReadOnly (i.text : StateM Disk _) := by
  unfold Input.text
  split
  · exact readOnly_pure _
  · exact (readOnly_read i.path).bind fun _ => readOnly_pure _

theorem readOnly_mapFiles (ps : List Input.Piece) : ReadOnly (mapFiles ps : StateM Disk _) := by
  induction ps with
  | nil => exact readOnly_pure _
  | cons p ps ih =>
    unfold mapFiles
    refine ih.bind fun rest => ?_
    split
    · rename_i path _
      refine (readOnly_read path).bind fun r => ?_
      split
      · exact readOnly_pure _
      · exact readOnly_pure _
    · exact readOnly_pure _

/-- Reading an input takes its text and then the maps that its scripts name. -/
theorem readOnly_analyzeInput (endpoints : Walk.Endpoints) (i : Input) :
    ReadOnly (analyzeInput endpoints i : StateM Disk _) := by
  unfold analyzeInput
  refine (readOnly_text i).bind fun r => ?_
  split
  · exact readOnly_pure _
  · exact (readOnly_mapFiles _).bind fun _ => readOnly_pure _

theorem exists_of_isOk {ε α : Type} {r : Except ε α} (h : r.isOk) : ∃ a, r = .ok a := by
  cases r with
  | ok a => exact ⟨a, rfl⟩
  | error _ => cases h

/-! ### One input after the other -/

/-- What comes of an input on a disk. -/
def resultOn (d : Disk) (endpoints : Walk.Endpoints) (i : Input) :
    Except Input.Problem (List Scope) :=
  (give d (analyzeInput endpoints i)).result

/-- What an input adds to the document: all its scopes, or none if it fails. -/
def scopesOn (d : Disk) (endpoints : Walk.Endpoints) (i : Input) : List Scope :=
  (resultOn d endpoints i).toOption.getD []

/-- Each input is analysed on the disk that the run starts from. -/
theorem run_analyses (d : Disk) (endpoints : Walk.Endpoints) (inputs : List Input) :
    (inputs.mapM fun i => (return (i, ← analyzeInput endpoints i) : StateM Disk _)).run d =
      (inputs.map fun i => (i, give d (analyzeInput endpoints i)), d) := by
  induction inputs with
  | nil => rfl
  | cons i rest ih =>
    have hone : ReadOnly (do return (i, ← analyzeInput endpoints i) : StateM Disk _) :=
      (readOnly_analyzeInput endpoints i).bind fun _ => readOnly_pure _
    rw [List.mapM_cons, hone.run_bind]
    have hstep : ∀ (a : Input × Analysis) (x : StateM Disk (List (Input × Analysis))),
        (do let as ← x; return a :: as : StateM Disk _).run d = (a :: (x.run d).1, (x.run d).2) :=
      fun _ _ => rfl
    rw [hstep, ih, (readOnly_analyzeInput endpoints i).give_bind]
    rfl

theorem writeSibling_document (i : Input) (scopes : List Scope) (t : Tally) (d : Disk) :
    ((writeSibling i scopes t : StateM Disk Tally).run d).1.document = t.document := by
  unfold writeSibling
  simp only [StateT.run_bind]
  rcases (Files.write (Path.sibling i.path) (ownReport scopes) : StateM Disk _).run d with ⟨r, d'⟩
  cases r with
  | ok _ => rfl
  | error _ => rfl

/-- Whether a report is written beside the input makes no difference to the document. -/
theorem combineOne_document (write : Bool) (t : Tally) (i : Input) (a : Analysis) (d : Disk) :
    ((combineOne write t i a : StateM Disk Tally).run d).1.document =
      t.document.collect (a.result.toOption.getD []) := by
  unfold combineOne
  cases a.result with
  | error p => rfl
  | ok scopes =>
    simp only
    split
    · exact writeSibling_document i scopes _ d
    · rfl

theorem collect_append (d : Document) (xs ys : List Scope) :
    d.collect (xs ++ ys) = (d.collect xs).collect ys :=
  List.foldl_append

theorem run_combine_cons (write : Bool) (t : Tally) (i : Input) (a : Analysis)
    (rest : List (Input × Analysis)) (d : Disk) :
    (combine write t ((i, a) :: rest) : StateM Disk Tally).run d =
      (combine write ((combineOne write t i a : StateM Disk Tally).run d).1 rest :
        StateM Disk Tally).run ((combineOne write t i a : StateM Disk Tally).run d).2 := rfl

/-- By induction over the inputs: each adds its scopes to what those before it have added. -/
theorem combine_document (write : Bool) (t : Tally) (as : List (Input × Analysis)) (d : Disk) :
    ((combine write t as : StateM Disk Tally).run d).1.document =
      t.document.collect (as.flatMap fun (_, a) => a.result.toOption.getD []) := by
  induction as generalizing t d with
  | nil => rfl
  | cons e rest ih =>
    obtain ⟨i, a⟩ := e
    rw [run_combine_cons, ih, combineOne_document, List.flatMap_cons, collect_append]

/-- The document of a run that is not stopped. -/
theorem run_document (o : Options) (inputs : List Input) (d : Disk) :
    (give d (run o false inputs : StateM Disk Outcome)).document =
      some (({} : Document).collect
        (inputs.flatMap (scopesOn d (.ofNames o.source o.sink)))) := by
  let endpoints := Walk.Endpoints.ofNames o.source o.sink
  have hstep : (give d (run o false inputs : StateM Disk Outcome)).document =
      some ((combine o.write {} ((inputs.mapM fun i =>
        (return (i, ← analyzeInput endpoints i) : StateM Disk _)).run d).1 :
          StateM Disk Tally).run ((inputs.mapM fun i =>
            (return (i, ← analyzeInput endpoints i) : StateM Disk _)).run d).2).1.document := rfl
  rw [hstep, run_analyses, combine_document, List.flatMap_map]
  rfl

/-- The disk that a run leaves. -/
def diskAfter (o : Options) (inputs : List Input) (d : Disk) : Disk :=
  ((run o false inputs : StateM Disk Outcome).run d).2

/-- A run combines what its inputs give on the disk it starts from. -/
theorem exists_tally (o : Options) (inputs : List Input) (d : Disk) :
    ∃ t, (combine o.write {} (inputs.map fun i =>
        (i, give d (analyzeInput (.ofNames o.source o.sink) i))) : StateM Disk Tally).run d =
          (t, diskAfter o inputs d) ∧
      (give d (run o false inputs : StateM Disk Outcome)).problem =
        if t.problems.isEmpty then none else some (.failed t.problems inputs.length) := by
  let analyses : StateM Disk (List (Input × Analysis)) := inputs.mapM fun i =>
    return (i, ← analyzeInput (.ofNames o.source o.sink) i)
  have hafter : diskAfter o inputs d = ((combine o.write {} (analyses.run d).1 :
      StateM Disk Tally).run (analyses.run d).2).2 := rfl
  have hproblem : (give d (run o false inputs : StateM Disk Outcome)).problem =
      (if ((combine o.write {} (analyses.run d).1 :
          StateM Disk Tally).run (analyses.run d).2).1.problems.isEmpty then none
        else some (.failed ((combine o.write {} (analyses.run d).1 :
          StateM Disk Tally).run (analyses.run d).2).1.problems inputs.length)) := rfl
  rw [hafter, hproblem, run_analyses]
  exact ⟨_, rfl, rfl⟩

end TaintReach.Run
