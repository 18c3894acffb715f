import TaintReach.Report.Json

/-! Tables of reports with an index.

A table keeps its entries in the order their scopes came first, and an index that
says where each scope stands. A report is found through the index alone, and replaced
where it stands. The index is made with the first report; a table that never had one
is empty. -/
namespace TaintReach

/-- A report as it is handed in: each of its lists may be missing. -/
structure Draft where
  must : Option (List String) := none
  may : Option (List String) := none
deriving DecidableEq, Repr

/-- Missing lists are empty ones. -/
def Draft.normalize (d : Draft) : Report := { must := d.must.getD [], may := d.may.getD [] }

def Report.draft (r : Report) : Draft := { must := some r.must, may := some r.may }

structure Table where
  entries : List (String × Report) := []
  /-- The place of each scope among the entries. -/
  index : Option (List (String × Nat)) := none
deriving DecidableEq, Repr

namespace Table

/-- A table without entries. -/
def new : Table := { index := some [] }

def keys (t : Table) : List String := t.entries.map Prod.fst

def size (t : Table) : Nat := t.entries.length

/-- Where a scope stands. -/
def place? (t : Table) (scope : String) : Option Nat := (t.index.getD []).lookup scope

def get? (t : Table) (scope : String) : Option Report :=
  (t.place? scope).bind fun i => (t.entries[i]?).map Prod.snd

/-- Sets the report of a scope: in place if the scope is known, else at the end. -/
def add (t : Table) (scope : String) (d : Draft) : Table :=
  match t.place? scope with
  | some i =>
    { entries := t.entries.modify i fun e => (e.1, d.normalize), index := some (t.index.getD []) }
  | none =>
    { entries := t.entries ++ [(scope, d.normalize)]
      index := some ((scope, t.entries.length) :: t.index.getD []) }

/-- The table at the start of a text. -/
def ofChars (cs : List Char) : Except Results.ReadError Table :=
  Results.readInto (fun t scope report => t.add scope report.draft) new cs

/-- Reads a text into the table; if that fails, the table stays as it is. -/
def read (t : Table) (cs : List Char) : Table × Option Results.ReadError :=
  match ofChars cs with
  | .ok filled => (filled, none)
  | .error e => (t, some e)

/-- The reports without the index. -/
def results (t : Table) : Results := ⟨t.entries⟩

end Table

end TaintReach
