import TaintReach.Script.Ast

/-! Expressions read again as patterns.

An array or object literal on the left of an assignment is a pattern, and so is
one that a declaration or parameter list begins with. `Expr.toTarget?` reads an
expression as what can be assigned to; `Pattern.declares` tells which of those
can also be declared. -/
namespace TaintReach.Script

/-- What a rest property of an assignment collects into. -/
def Expr.toRest : Expr → Pattern
  | .identifier pos name => .name pos name
  | .assign _ target value => .withDefault target value
  | e => .member e

mutual

/-- The expression as an assignment target; none if nothing can be assigned to it. -/
def Expr.toTarget? : Expr → Option Pattern
  | .identifier pos name => some (.name pos name)
  | .dot object name => some (.member (.dot object name))
  | .privateDot object => some (.member (.privateDot object))
  | .bracket object key => some (.member (.bracket object key))
  | .array pos items comma =>
    (toElements? comma items).map fun (elements, rest) => .array pos elements rest
  | .object pos properties =>
    (toProperties? properties).map fun (properties, rest) => .object pos properties rest
  | _ => none

/-- The target together with its default, if it has one. -/
def Expr.toElement? : Expr → Option Pattern
  | .assign operator target value =>
    if operator = "=" then some (.withDefault target value) else none
  | .identifier pos name => some (.name pos name)
  | .dot object name => some (.member (.dot object name))
  | .privateDot object => some (.member (.privateDot object))
  | .bracket object key => some (.member (.bracket object key))
  | .array pos items comma =>
    (toElements? comma items).map fun (elements, rest) => .array pos elements rest
  | .object pos properties =>
    (toProperties? properties).map fun (properties, rest) => .object pos properties rest
  | _ => none

/-- The items of an array. A rest element stands last, with no comma behind it. -/
def toElements? (comma : Bool) : List Expr → Option (List Pattern × Option Pattern)
  | [] => some ([], none)
  | .gap :: items => toElements? comma items
  | .spread e :: items =>
    if items.isEmpty && !comma then (e.toTarget?).map fun rest => ([], some rest) else none
  | e :: items =>
    match e.toElement?, toElements? comma items with
    | some first, some (elements, rest) => some (first :: elements, rest)
    | _, _ => none

/-- The properties of an object: neither methods nor accessors, a rest property last. -/
def toProperties? : List Property → Option (List PatternProperty × Option Pattern)
  | [] => some ([], none)
  | .short pos name default :: properties =>
    (toProperties? properties).map fun (ps, rest) => (.short pos name default :: ps, rest)
  | .keyed key value plain :: properties =>
    if plain then
      match value.toElement?, toProperties? properties with
      | some first, some (ps, rest) => some (.keyed key first :: ps, rest)
      | _, _ => none
    else none
  | .spread e :: properties => if properties.isEmpty then some ([], some e.toRest) else none

end

mutual

/-- Whether a pattern can be declared: all its targets are names. `fresh` holds as
long as the pattern has not been an assignment target of its own. The elements of
an array that is fresh may be anything that can be assigned to; those of another
are names or patterns without defaults. -/
def Pattern.declares (fresh : Bool) : Pattern → Bool
  | .name .. => true
  | .member _ | .withDefault .. => false
  | .array _ elements rest => (fresh || elementsDeclare elements) && restDeclares fresh rest
  | .object _ properties rest => propertiesDeclare fresh properties && restIsName rest

def elementsDeclare : List Pattern → Bool
  | [] => true
  | p :: ps => p.declares false && elementsDeclare ps

def restDeclares (fresh : Bool) : Option Pattern → Bool
  | none => true
  | some p => p.declares fresh

def propertiesDeclare (fresh : Bool) : List PatternProperty → Bool
  | [] => true
  | .short .. :: ps => propertiesDeclare fresh ps
  | .keyed _ (.withDefault target _) :: ps => target.declares false && propertiesDeclare fresh ps
  | .keyed _ p :: ps => p.declares fresh && propertiesDeclare fresh ps

def restIsName : Option Pattern → Bool
  | none => true
  | some (.name ..) => true
  | some _ => false

end

/-- The expression as a target that can be declared. -/
def Expr.toBinding? (e : Expr) : Option Pattern :=
  e.toTarget?.filter (·.declares true)

/-- The expression as a parameter, with its default. -/
def Expr.toParameter? : Expr → Option Binding
  | .assign operator target value =>
    if operator = "=" && target.declares false then some (.mk target (some value)) else none
  | e => e.toBinding?.map (.mk · none)

end TaintReach.Script
