import LightShow.Toml.Value

namespace LightShow.Toml

/-- Takes a value off the front of a text, or fails. -/
abbrev Parser (α : Type) := StateT (List Char) Option α

def isBlank (c : Char) : Bool := c = ' ' || c = '\t'

/-- Characters that may stand in comments and strings. -/
def isText (c : Char) : Bool := c = '\t' || (' ' ≤ c && c ≠ '\x7f')

def isBareKey (c : Char) : Bool := c.isAlphanum || c = '_' || c = '-'

def hexValue? (c : Char) : Option Nat :=
  if '0' ≤ c ∧ c ≤ '9' then some (c.toNat - 48)
  else if 'a' ≤ c ∧ c ≤ 'f' then some (c.toNat - 87)
  else if 'A' ≤ c ∧ c ≤ 'F' then some (c.toNat - 55)
  else none

namespace Parser

/-- The next character, which stays where it is. -/
def peek : Parser (Option Char) := fun s => some (s.head?, s)

/-- Takes a given character. -/
def expect (c : Char) : Parser Unit
  | [] => none
  | d :: rest => if d = c then some ((), rest) else none

def takeWhile (p : Char → Bool) : Parser (List Char) := fun s =>
  some (s.takeWhile p, s.dropWhile p)

def blanks : Parser Unit := fun s => some ((), s.dropWhile isBlank)

end Parser

/-- Skips white space, line ends and comments. A comment runs to the end of its line. -/
def skipTrivia (inComment : Bool) : List Char → Option (List Char)
  | [] => some []
  | '\n' :: rest => skipTrivia false rest
  | '\r' :: rest => if rest.head? = some '\n' then skipTrivia inComment rest else none
  | c :: rest =>
    if inComment then if isText c then skipTrivia true rest else none
    else if isBlank c then skipTrivia false rest
    else if c = '#' then skipTrivia true rest
    else some (c :: rest)

def trivia : Parser Unit := fun s => (skipTrivia false s).map ((), ·)

/-- Skips what may stand behind a statement: white space and a comment, to the end of the line. -/
def skipLine (inComment : Bool) : List Char → Option (List Char)
  | [] => some []
  | '\n' :: rest => some rest
  | '\r' :: rest => if rest.head? = some '\n' then skipLine inComment rest else none
  | c :: rest =>
    if inComment then if isText c then skipLine true rest else none
    else if isBlank c then skipLine false rest
    else if c = '#' then skipLine true rest
    else none

def lineEnd : Parser Unit := fun s => (skipLine false s).map ((), ·)

/-- The character of a code point that is written in hexadecimal. -/
def codePoint? (digits : List Char) : Option Char := do
  let values ← digits.mapM hexValue?
  let code := values.foldl (fun n d => 16 * n + d) 0
  if code.isValidChar then some (Char.ofNat code) else none

/-- The character that an escape stands for; the backslash has been taken. -/
def escape : Parser Char
  | 'b' :: rest => some ('\x08', rest)
  | 't' :: rest => some ('\t', rest)
  | 'n' :: rest => some ('\n', rest)
  | 'f' :: rest => some ('\x0c', rest)
  | 'r' :: rest => some ('\r', rest)
  | 'e' :: rest => some ('\x1b', rest)
  | '"' :: rest => some ('"', rest)
  | '\\' :: rest => some ('\\', rest)
  | 'x' :: rest => hex 2 rest
  | 'u' :: rest => hex 4 rest
  | 'U' :: rest => hex 8 rest
  | _ => none
where
  hex (width : Nat) (s : List Char) : Option (Char × List Char) :=
    if s.length < width then none else (codePoint? (s.take width)).map (·, s.drop width)

/-- The rest of a string in single quotes. -/
def literalString : Parser (List Char)
  | [] => none
  | '\'' :: rest => some ([], rest)
  | c :: rest =>
    if isText c then (literalString rest).map fun (text, s) => (c :: text, s) else none

/-- The rest of a string in double quotes. Every step takes a character, of which there are no more
than `fuel`. -/
def basicString : (fuel : Nat) → Parser (List Char)
  | 0, _ => none
  | _ + 1, [] => none
  | _ + 1, '"' :: rest => some ([], rest)
  | fuel + 1, '\\' :: rest => do
    let (c, rest) ← escape rest
    let (text, rest) ← basicString fuel rest
    return (c :: text, rest)
  | fuel + 1, c :: rest => do
    if !isText c then none
    let (text, rest) ← basicString fuel rest
    return (c :: text, rest)

/-- Three quotes close a string of several lines; up to two more before them belong to it. -/
def closing? (quote : Char) (s : List Char) : Option (List Char × List Char) :=
  let quotes := min 5 (s.takeWhile (· = quote)).length
  if quotes < 3 then none else some (List.replicate (quotes - 3) quote, s.drop quotes)

/-- The text behind a backslash at the end of a line: all white space and line ends are dropped. -/
def continuation? (s : List Char) : Option (List Char) :=
  let rest := s.dropWhile isBlank
  if rest.head? = some '\n' ∨ rest.take 2 = ['\r', '\n'] then
    some (skipSpace rest)
  else none
where
  skipSpace : List Char → List Char
    | '\r' :: '\n' :: rest => skipSpace rest
    | c :: rest => if isBlank c ∨ c = '\n' then skipSpace rest else c :: rest
    | [] => []

/-- The rest of a string of several lines. Escapes are read if it is in double quotes. -/
def longString (quote : Char) : (fuel : Nat) → Parser (List Char)
  | 0, _ => none
  | fuel + 1, s =>
    match closing? quote s with
    | some found => some found
    | none =>
      match s with
      | [] => none
      | '\r' :: '\n' :: rest => (longString quote fuel rest).map fun (text, s) => ('\n' :: text, s)
      | '\n' :: rest => (longString quote fuel rest).map fun (text, s) => ('\n' :: text, s)
      | c :: rest =>
        if c = '\\' ∧ quote = '"' then
          match continuation? rest with
          | some rest => longString quote fuel rest
          | none => do
            let (c, rest) ← escape rest
            let (text, rest) ← longString quote fuel rest
            return (c :: text, rest)
        else if isText c then (longString quote fuel rest).map fun (text, s) => (c :: text, s)
        else none

/-- A line end directly behind the quotes that open a string of several lines is no part of it. -/
def dropFirstLineEnd : List Char → List Char
  | '\r' :: '\n' :: rest => rest
  | '\n' :: rest => rest
  | s => s

def shortString : Parser (List Char)
  | '"' :: rest => basicString (rest.length + 1) rest
  | '\'' :: rest => literalString rest
  | _ => none

/-- A string of either kind. -/
def string : Parser String := fun s =>
  let found := match s with
    | '"' :: '"' :: '"' :: rest => longString '"' (rest.length + 1) (dropFirstLineEnd rest)
    | '\'' :: '\'' :: '\'' :: rest => longString '\'' (rest.length + 1) (dropFirstLineEnd rest)
    | s => shortString s
  found.map fun (text, rest) => (String.ofList text, rest)

def keyPart : Parser String := do
  match ← Parser.peek with
  | some '"' => return String.ofList (← shortString)
  | some '\'' => return String.ofList (← shortString)
  | _ =>
    let bare ← Parser.takeWhile isBareKey
    if bare = [] then failure
    return String.ofList bare

/-- The parts of a key, with points between them. There are no more than `fuel`. -/
def keyParts : (fuel : Nat) → Parser (List String)
  | 0 => failure
  | fuel + 1 => do
    Parser.blanks
    let part ← keyPart
    Parser.blanks
    if (← Parser.peek) = some '.' then
      Parser.expect '.'
      return part :: (← keyParts fuel)
    else return [part]

/-- How many parts a key may have. -/
def maxKeyParts : Nat := 80

def key : Parser (List String) := keyParts maxKeyParts

end LightShow.Toml
