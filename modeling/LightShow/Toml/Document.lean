import LightShow.Toml.Scalar

namespace LightShow.Toml

/-- How deep arrays and tables in braces may be nested. -/
def maxDepth : Nat := 80

mutual

/-- A value. `depth` levels of nesting are still allowed, and `fuel` bounds the number of values and
separators that are still to come. -/
def value (depth : Nat) : (fuel : Nat) → Parser Value
  | 0 => failure
  | fuel + 1 => do
    match ← Parser.peek with
    | some '"' => return .string (← string)
    | some '\'' => return .string (← string)
    | some '[' =>
      match depth with
      | 0 => failure
      | depth + 1 =>
        Parser.expect '['
        return .array (← items depth fuel)
    | some '{' =>
      match depth with
      | 0 => failure
      | depth + 1 =>
        Parser.expect '{'
        let table ← fields depth fuel ⟨.defined, []⟩
        return .table .closed table.entries
    | _ => (scalar? (← scalarText)).elim failure pure

/-- The rest of an array. A comma may follow the last item. -/
def items (depth : Nat) : (fuel : Nat) → Parser (List Value)
  | 0 => failure
  | fuel + 1 => do
    trivia
    if (← Parser.peek) = some ']' then
      Parser.expect ']'
      return []
    else
      let item ← value depth fuel
      trivia
      if (← Parser.peek) = some ',' then
        Parser.expect ','
        return item :: (← items depth fuel)
      else
        Parser.expect ']'
        return [item]

/-- The rest of a table in braces. A comma may follow the last entry, and each part of an entry may
stand on a line of its own. -/
def fields (depth : Nat) : (fuel : Nat) → Table → Parser Table
  | 0, _ => failure
  | fuel + 1, table => do
    trivia
    if (← Parser.peek) = some '\x7d' then
      Parser.expect '\x7d'
      return table
    else
      let path ← key
      trivia
      Parser.expect '='
      trivia
      let item ← value depth fuel
      let table ← (table.assign path item).elim failure pure
      trivia
      if (← Parser.peek) = some ',' then
        Parser.expect ','
        fields depth fuel table
      else
        Parser.expect '\x7d'
        return table

end

/-- A document as far as it has been read: its table, and the header under which the next entry
stands. -/
structure Document where
  root : Table
  header : List String

namespace Document

/-- Opens the table that a header names. -/
def openHeader (d : Document) (path : List String) (change : String → Table → Option Table) :
    Option Document := do
  let key ← path.getLast?
  let root ← d.root.edit false path.dropLast (change key)
  return ⟨root, path⟩

/-- Adds an entry to the table of the last header. -/
def assign (d : Document) (path : List String) (item : Value) : Option Document := do
  let root ← d.root.edit false d.header (Table.assign path item)
  return { d with root }

/-- Reads a statement: a header, or a key with its value. -/
def statement (d : Document) : Parser Document := do
  match ← get with
  | '[' :: '[' :: rest =>
    set rest
    let path ← key
    Parser.expect ']'
    Parser.expect ']'
    (d.openHeader path Table.openElement).elim failure pure
  | '[' :: rest =>
    set rest
    let path ← key
    Parser.expect ']'
    (d.openHeader path Table.openTable).elim failure pure
  | rest =>
    let path ← key
    Parser.expect '='
    Parser.blanks
    let item ← value maxDepth (rest.length + 1)
    (d.assign path item).elim failure pure

/-- Reads statements, each on a line of its own, to the end of the text. There are no more of them
than `fuel`. -/
def statements : (fuel : Nat) → Document → Parser Document
  | 0, _ => failure
  | fuel + 1, d => do
    trivia
    if (← get) = [] then return d
    else
      let d ← d.statement
      lineEnd
      statements fuel d

end Document

/-- The mark that may stand at the very beginning of a text. -/
def byteOrderMark : Char := '\ufeff'

/-- The table of a document; none if it is not well formed. -/
def parse (text : List Char) : Option Entries :=
  let text := if text.head? = some byteOrderMark then text.drop 1 else text
  (Document.statements (text.length + 1) ⟨.root, []⟩ text).map fun (d, _) => d.root.entries

end LightShow.Toml
