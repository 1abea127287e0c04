import LightShow.Binary64

namespace LightShow.Toml

/-- How a table came to be, which decides how it may still grow. -/
inductive TableKind where
  /-- Written in braces. It does not grow. -/
  | closed
  /-- Named by a header, or the document itself. -/
  | defined
  /-- Only named on the way to a table in a header. -/
  | implied
  /-- Named by a dotted key. -/
  | dotted
  deriving DecidableEq, Repr

/-- A value of a configuration document. -/
inductive Value where
  | string (text : String)
  /-- Missing if the text is taken for a number but names none. -/
  | integer (n : Option Int)
  /-- Missing if the text names a number that is too large. -/
  | float (x : Option Binary64)
  | boolean (b : Bool)
  | dateTime
  | array (items : List Value)
  | table (kind : TableKind) (entries : List (String × Value))
  /-- The tables under a header in double brackets, the latest first. -/
  | tables (latest : List (String × Value)) (earlier : List (List (String × Value)))

/-- Keys with their values, in the order in which they were written. -/
abbrev Entries := List (String × Value)

namespace Entries

/-- Puts a value under a key, in place of the one that is there. -/
def put (key : String) (value : Value) : Entries → Entries
  | [] => [(key, value)]
  | (k, v) :: rest => if k = key then (key, value) :: rest else (k, v) :: put key value rest

end Entries

/-- A table that is being filled. -/
structure Table where
  kind : TableKind
  entries : Entries

namespace Table

/-- The table of a document before its first line. -/
def root : Table := ⟨.defined, []⟩

def get? (t : Table) (key : String) : Option Value := t.entries.lookup key

def put (t : Table) (key : String) (value : Value) : Table :=
  { t with entries := Entries.put key value t.entries }

/-- Changes the table at the end of a path. Tables that are missing on the way are made: by a dotted
key where `dotted` is set, else on the way to a header. A dotted key does not lead through a table
that has a header of its own. Under a header in double brackets both lead through the latest
table. -/
def edit (dotted : Bool) : List String → (Table → Option Table) → Table → Option Table
  | [], change, t => change t
  | key :: path, change, t => do
    match t.get? key with
    | none =>
      let inner ← edit dotted path change ⟨if dotted then .dotted else .implied, []⟩
      return t.put key (.table inner.kind inner.entries)
    | some (.table kind entries) =>
      if kind = .closed ∨ (dotted ∧ kind = .defined) then none
      else
        let inner ← edit dotted path change ⟨kind, entries⟩
        return t.put key (.table inner.kind inner.entries)
    | some (.tables latest earlier) =>
      let inner ← edit dotted path change ⟨.defined, latest⟩
      return t.put key (.tables inner.entries earlier)
    | some _ => none

/-- Gives a new key its value. The key is the last part of a dotted key if `dotted` is set; then its
table has to be one of dotted keys, else it must not be. -/
def insert (dotted : Bool) (key : String) (value : Value) (t : Table) : Option Table :=
  if decide (t.kind = .dotted) ≠ dotted ∨ (t.get? key).isSome then none
  else some (t.put key value)

/-- Gives a key its value, where the key may have several parts. -/
def assign (path : List String) (value : Value) (t : Table) : Option Table :=
  match path.getLast? with
  | none => none
  | some key =>
    t.edit true path.dropLast (insert (decide (1 < path.length)) key value)

/-- Opens the table of a header, which must not have been opened before. -/
def openTable (key : String) (t : Table) : Option Table :=
  match t.get? key with
  | none => some (t.put key (.table .defined []))
  | some (.table .implied entries) => some (t.put key (.table .defined entries))
  | some _ => none

/-- Opens one more table under a header in double brackets. -/
def openElement (key : String) (t : Table) : Option Table :=
  match t.get? key with
  | none => some (t.put key (.tables [] []))
  | some (.tables latest earlier) => some (t.put key (.tables [] (latest :: earlier)))
  | some _ => none

end Table

end LightShow.Toml
