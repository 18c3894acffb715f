import Mathlib.Data.List.Forall2
import TaintReach.Proofs.Tree.Layout

/-! Which trees the listed functions are.

The list that laying down a tree gives is that of the functions in the tree, each
shown at its node (`lays_functions`). What a handler holds comes before what the body
it guards holds, and everything else in the order of the fields of a tree. -/
namespace TaintReach

mutual

/-- The functions in a tree, in the order in which they are listed. -/
def Tree.functions : Tree → List Tree
  | .function line name params body locals =>
    .function line name params body locals :: (functionsOfAll params ++ functionsOfAll body)
  | .declaration _ _ parts | .pattern _ _ parts | .composite _ _ parts | .operation _ _ parts
  | .other _ _ parts => functionsOfAll parts
  | .binding _ target init => functionsOf? target ++ functionsOf? init
  | .assignment _ _ target value => target.functions ++ value.functions
  | .call _ callee args _ => callee.functions ++ functionsOfAll args
  | .member _ object property _ => object.functions ++ functionsOf? property
  | .conditional _ _ init test update each body otherwise =>
    functionsOf? init ++ (functionsOf? test ++ (functionsOf? update ++
      (functionsOf? each ++ (functionsOf? body ++ functionsOf? otherwise))))
  | .switch _ discriminant clauses => discriminant.functions ++ functionsOfAll clauses
  | .clause _ test body => functionsOf? test ++ functionsOfAll body
  | .tryCatch _ body handler finalizer =>
    functionsOf? handler ++ body.functions ++ functionsOf? finalizer
  | .name .. | .thisRef _ | .literal .. => []

def functionsOfAll : List Tree → List Tree
  | [] => []
  | t :: ts => t.functions ++ functionsOfAll ts

def functionsOf? : Option Tree → List Tree
  | none => []
  | some t => t.functions

end

open List (rel_append)

mutual

/-- A function is listed before what is in it, and each is shown where it was laid down. -/
theorem lays_functions : (t : Tree) →
    Lays t.place fun g r => List.Forall₂ g.Shows t.functions r.2
  | .function line _ params body _ =>
    ((lays_placeAll params).and (lays_functionsOfAll params)).bind fun _ =>
      ((lays_placeAll body).and (lays_functionsOfAll body)).bind fun _ =>
        (Lays.add line _).bind fun _ => .pure _ fun _ hn hbody hparams =>
          .cons ⟨_, _, hn, hparams.1, hbody.1⟩ (rel_append hparams.2 hbody.2)
  | .declaration line _ bindings => (lays_functionsOfAll bindings).bind fun _ =>
    (Lays.add line _).bind fun _ => .pure _ fun _ _ h => h
  | .binding line target init =>
    (lays_functionsOf? target).bind fun _ => (lays_functionsOf? init).bind fun _ =>
      (Lays.add line _).bind fun _ => .pure _ fun _ _ hinit htarget => rel_append htarget hinit
  | .assignment line _ target value =>
    (lays_functions target).bind fun _ => (lays_functions value).bind fun _ =>
      (Lays.add line _).bind fun _ => .pure _ fun _ _ hvalue htarget => rel_append htarget hvalue
  | .name line ident => (Lays.add line (.name ident)).bind fun _ => .pure _ fun _ _ => .nil
  | .pattern line names defaults =>
    (Lays.names names).bind fun _ => (lays_functionsOfAll defaults).bind fun _ =>
      (Lays.add line _).bind fun _ => .pure _ fun _ _ h _ => h
  | .thisRef line => (Lays.add line .thisRef).bind fun _ => .pure _ fun _ _ => .nil
  | .call line callee args _ =>
    (lays_functions callee).bind fun _ => (lays_functionsOfAll args).bind fun _ =>
      (Lays.add line _).bind fun _ => .pure _ fun _ _ hargs hcallee => rel_append hcallee hargs
  | .member line object property _ =>
    (lays_functions object).bind fun _ => (lays_functionsOf? property).bind fun _ =>
      (Lays.add line _).bind fun _ => .pure _ fun _ _ hproperty hobject =>
        rel_append hobject hproperty
  | .conditional line _ init test update each body otherwise =>
    (lays_functionsOf? init).bind fun _ => (lays_functionsOf? test).bind fun _ =>
      (lays_functionsOf? update).bind fun _ => (lays_functionsOf? each).bind fun _ =>
        (lays_functionsOf? body).bind fun _ => (lays_functionsOf? otherwise).bind fun _ =>
          (Lays.add line _).bind fun _ =>
            .pure _ fun _ _ hotherwise hbody heach hupdate htest hinit => by
              simp only [List.append_assoc]
              exact rel_append hinit (rel_append htest (rel_append hupdate
                (rel_append heach (rel_append hbody hotherwise))))
  | .switch line discriminant clauses =>
    (lays_functions discriminant).bind fun _ => (lays_functionsOfAll clauses).bind fun _ =>
      (Lays.add line _).bind fun _ => .pure _ fun _ _ hclauses hdiscriminant =>
        rel_append hdiscriminant hclauses
  | .clause line test body =>
    (lays_functionsOf? test).bind fun _ => (lays_functionsOfAll body).bind fun _ =>
      (Lays.add line _).bind fun _ => .pure _ fun _ _ hbody htest => rel_append htest hbody
  | .literal line kind raw truthy =>
    (Lays.add line (.literal kind raw truthy)).bind fun _ => .pure _ fun _ _ => .nil
  | .composite line _ elements => (lays_functionsOfAll elements).bind fun _ =>
    (Lays.add line _).bind fun _ => .pure _ fun _ _ h => h
  | .operation line _ operands => (lays_functionsOfAll operands).bind fun _ =>
    (Lays.add line _).bind fun _ => .pure _ fun _ _ h => h
  | .other line _ nodes => (lays_functionsOfAll nodes).bind fun _ =>
    (Lays.add line _).bind fun _ => .pure _ fun _ _ h => h
  | .tryCatch line body handler finalizer =>
    (lays_functionsOf? handler).bind fun _ => (lays_functions body).bind fun _ =>
      (lays_functionsOf? finalizer).bind fun _ => (Lays.add line _).bind fun _ =>
        .pure _ fun _ _ hfinalizer hbody hhandler =>
          rel_append (rel_append hhandler hbody) hfinalizer

theorem lays_functionsOfAll : (ts : List Tree) →
    Lays (placeAll ts) fun g r => List.Forall₂ g.Shows (functionsOfAll ts) r.2
  | [] => .pure _ fun _ => .nil
  | t :: ts => (lays_functions t).bind fun _ => (lays_functionsOfAll ts).bind fun _ =>
    .pure _ fun _ hts ht => rel_append ht hts

theorem lays_functionsOf? : (t : Option Tree) →
    Lays (place? t) fun g r => List.Forall₂ g.Shows (functionsOf? t) r.2
  | none => .pure _ fun _ => .nil
  | some t => (lays_functions t).bind fun _ => .pure _ fun _ ht => ht

end

/-- The functions of a program are those of its trees. -/
theorem Program.functions_ofTrees (file : String) (trees : List Tree) :
    List.Forall₂ (ofTrees file trees).graph.Shows (functionsOfAll trees)
      (ofTrees file trees).functions :=
  (lays_functionsOfAll trees #[]).2 _ (List.prefix_refl _)

theorem functionsOfAll_append (ts us : List Tree) :
    functionsOfAll (ts ++ us) = functionsOfAll ts ++ functionsOfAll us := by
  induction ts with
  | nil => rfl
  | cons t ts ih => rw [List.cons_append, functionsOfAll, functionsOfAll, ih, List.append_assoc]

theorem functionsOfAll_singleton (t : Tree) : functionsOfAll [t] = t.functions :=
  List.append_nil _

theorem functionsOfAll_toList (t : Option Tree) : functionsOfAll t.toList = functionsOf? t := by
  cases t with
  | none => rfl
  | some t => exact functionsOfAll_singleton t

end TaintReach
