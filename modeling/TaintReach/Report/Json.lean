import TaintReach.Decimal
import TaintReach.Json.Reader
import TaintReach.Report
import TaintReach.Text.Fold

/-! Reports as JSON.

A table of reports is an object with one member per scope, in order. Reading goes
member by member: each scope is added as it comes, so a scope that comes again
replaces its earlier report, and what follows the closing brace is not looked at. -/
namespace TaintReach

def Report.mustKey : String := "sources_that_must_reach_sinks"

def Report.mayKey : String := "sources_that_may_reach_sinks"

def Report.json (r : Report) : Json :=
  .object [(mustKey, .array (r.must.map .string)), (mayKey, .array (r.may.map .string))]

def Results.json (r : Results) : Json :=
  .object (r.entries.map fun (scope, report) => (scope, report.json))

/-! ### Reading one report -/

/-- Case is ignored in field names. -/
def matchesKey (key name : String) : Bool :=
  name = key || Text.isWordFolded key name

/-- The ids read into a field, and behind them what longer lists left there before. -/
structure Slots where
  ids : List String := []
  behind : List String := []

/-- Ids from a list. A null leaves what stood at its place before. -/
def idsOver (old : List String) : List Json → Option (List String)
  | [] => some []
  | v :: vs =>
    match v, idsOver (old.drop 1) vs with
    | .string s, some ids => some (s :: ids)
    | .null, some ids => some (old.headD "" :: ids)
    | _, _ => none

/-- The value of a list field, over what the field held. A null and an empty list
clear it. -/
def Slots.fill? (s : Slots) : Json → Option Slots
  | .null | .array [] => some {}
  | .array items =>
    let old := s.ids ++ s.behind
    (idsOver old items).map fun ids => ⟨ids, old.drop ids.length⟩
  | _ => none

/-- Takes the members of an object into the two fields of a report; other members
are passed over. -/
def Report.ofMembers (must may : Slots) : List (String × Json) → Option Report
  | [] => some { must := must.ids, may := may.ids }
  | (name, v) :: rest =>
    if matchesKey mustKey name then
      match must.fill? v with
      | some must => Report.ofMembers must may rest
      | none => none
    else if matchesKey mayKey name then
      match may.fill? v with
      | some may => Report.ofMembers must may rest
      | none => none
    else Report.ofMembers must may rest

/-- The report a value stands for; null is the empty one. -/
def Report.ofJson? : Json → Option Report
  | .null => some {}
  | .object members => Report.ofMembers {} {} members
  | _ => none

/-! ### Reading a table -/

namespace Results
open Json.Reader (skip value)

/-- Why a text is no table of reports. -/
inductive ReadError where
  /-- It is some other value, here as text. -/
  | notObject (found : String)
  /-- The value of this scope is missing, broken or no report. -/
  | badScope (scope : String)
  | malformed
deriving DecidableEq, Repr

/-- A value that is no object, as text. -/
def ReadError.ofValue : Json → ReadError
  | .null => .notObject "<nil>"
  | .bool b => .notObject (if b then "true" else "false")
  | .string s => .notObject s
  | .number text =>
    match (Decimal.read? text.toList).bind Decimal.shortestText? with
    | some text => .notObject text
    | none => .malformed
  | .array _ => .notObject "["
  | .object _ => .malformed

section
variable {σ : Type} (put : σ → String → Report → σ)

/-- One member, read behind the opening quote of its name and put into `r`. -/
def readMemberInto (r : σ) (cs : List Char) : Except ReadError (σ × List Char) :=
  match Json.Reader.string cs with
  | .error _ => .error .malformed
  | .ok (scope, rest) =>
    match skip rest with
    | ':' :: rest =>
      match value rest with
      | .error _ => .error (.badScope scope)
      | .ok (v, rest) =>
        match Report.ofJson? v with
        | none => .error (.badScope scope)
        | some report => .ok (put r scope report, rest)
    | _ => .error (.badScope scope)

/-- What follows a member: the end, or a comma and more members. -/
def readMoreInto (r : σ) : Nat → List Char → Except ReadError σ
  | 0, _ => .error .malformed
  | steps + 1, cs =>
    match skip cs with
    | '\x7d' :: _ => .ok r
    | ',' :: rest =>
      match skip rest with
      | '"' :: rest =>
        match readMemberInto put r rest with
        | .error e => .error e
        | .ok (r, rest) => readMoreInto r steps rest
      | _ => .error .malformed
    | _ => .error .malformed

/-- The members of the object at the start of a text, put into `r` as they come. -/
def readInto (r : σ) (cs : List Char) : Except ReadError σ :=
  match skip cs with
  | '\x7b' :: rest =>
    match skip rest with
    | '\x7d' :: _ => .ok r
    | '"' :: rest =>
      match readMemberInto put r rest with
      | .error e => .error e
      | .ok (r, rest) => readMoreInto put r cs.length rest
    | _ => .error .malformed
  | '[' :: _ => .error (.notObject "[")
  | cs =>
    match value cs with
    | .ok (v, _) => .error (.ofValue v)
    | .error _ => .error .malformed

end

abbrev readMember (r : Results) (cs : List Char) : Except ReadError (Results × List Char) :=
  readMemberInto add r cs

abbrev readMore (r : Results) (steps : Nat) (cs : List Char) : Except ReadError Results :=
  readMoreInto add r steps cs

/-- The table at the start of a text. -/
def ofChars (cs : List Char) : Except ReadError Results := readInto add {} cs

/-- The table that a text is, nothing else around it. -/
def ofText (text : String) : Except ReadError Results :=
  match Json.Reader.whole text.toList with
  | .ok _ => ofChars text.toList
  | .error _ => .error .malformed

def ReadError.message? : ReadError → Option String
  | .notObject found => some ("results: expected object, got " ++ found)
  | .badScope scope => some ("results: scope " ++ scope ++ ": <json error>")
  | .malformed => none

end Results

end TaintReach
