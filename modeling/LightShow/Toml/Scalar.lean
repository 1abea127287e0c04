import LightShow.Binary64.Decimal
import LightShow.Toml.Text

namespace LightShow.Toml

inductive Sign where
  | plus
  | minus
  deriving DecidableEq, Repr

/-- The sign in front of a number, if there is one. -/
def splitSign : List Char → Option Sign × List Char
  | '-' :: rest => (some .minus, rest)
  | '+' :: rest => (some .plus, rest)
  | s => (none, s)

def isNegative (sign : Option Sign) : Bool := sign = some .minus

def withSign (sign : Option Sign) (n : Nat) : Int := if isNegative sign then -n else n

def isDigitOf (base : Nat) (c : Char) : Bool := (hexValue? c).any (· < base)

/-- True if every underscore in a text stands between two digits. -/
def hasPartedDigits (isDigit : Char → Bool) (s : List Char) : Bool := after false s
where
  /-- Goes on behind a character, which may be a digit. -/
  after (digit : Bool) : List Char → Bool
    | [] => true
    | '_' :: rest => digit && rest.head?.any isDigit && after false rest
    | c :: rest => after (isDigit c) rest

/-- The number that digits name in a base. -/
def numberOf (base : Nat) (digits : List Char) : Nat :=
  digits.foldl (fun n c => base * n + (hexValue? c).getD 0) 0

/-- The number that a text names in a base, if it consists of digits. Underscores do not count. -/
def numberOf? (base : Nat) (s : List Char) : Option Nat :=
  let digits := s.filter (· ≠ '_')
  if digits ≠ [] ∧ digits.all (isDigitOf base) then some (numberOf base digits) else none

/-- The base that a whole number begins with, and its digits. -/
def splitBase? : List Char → Option (Nat × List Char)
  | '0' :: 'x' :: rest => some (16, rest)
  | '0' :: 'o' :: rest => some (8, rest)
  | '0' :: 'b' :: rest => some (2, rest)
  | _ => none

/-- The digits of a whole number whose base is given. There may be none at all; then the text names
no number. -/
def baseInteger? (base : Nat) (s : List Char) : Option Value :=
  if s.all (fun c => c = '_' || isDigitOf base c) && hasPartedDigits (isDigitOf 16) s then
    some (.integer ((numberOf? base s).map Int.ofNat))
  else none

/-- A whole number in base ten, without a superfluous zero in front. Behind an underscore the text may
go on with anything but spaces; unless that is digits alone, it names no number. -/
def integer? (sign : Option Sign) (s : List Char) : Option Value :=
  let rest := s.dropWhile Char.isDigit
  if s = [] ∨ (s.head? = some '0' ∧ s ≠ ['0']) then none
  else if rest ≠ [] ∧ (rest.head? ≠ some '_' ∨ rest.contains ' ') then none
  else if hasPartedDigits (isDigitOf 16) s then
    some (.integer ((numberOf? 10 s).map (withSign sign)))
  else none

/-- The digits at the front, of which there has to be one, and what follows them. Underscores are
left out. -/
def digitRun? (s : List Char) : Option (List Char × List Char) :=
  let isDigitOrBar (c : Char) : Bool := c.isDigit || c = '_'
  let digits := (s.takeWhile isDigitOrBar).filter (· ≠ '_')
  if digits = [] then none else some (digits, s.dropWhile isDigitOrBar)

/-- The digits behind a point, if there is one. -/
def fraction? : List Char → Option (List Char × List Char)
  | '.' :: rest => digitRun? rest
  | s => some ([], s)

/-- The number that an exponent names: none at all counts as zero. -/
def exponent? (s : List Char) : Option Int :=
  match s with
  | [] => some 0
  | 'e' :: rest => signed rest
  | 'E' :: rest => signed rest
  | _ => none
where
  signed (s : List Char) : Option Int := do
    let (sign, s) := splitSign s
    let (digits, rest) ← digitRun? s
    if rest = [] then some (withSign sign (numberOf 10 digits)) else none

/-- A number with a fraction or an exponent. -/
def float? (sign : Option Sign) (s : List Char) : Option Value := do
  let (whole, rest) ← digitRun? s
  if s.head? = some '0' ∧ 1 < whole.length then none
  let (fraction, rest) ← fraction? rest
  let exponent ← exponent? rest
  if !hasPartedDigits Char.isDigit s then none
  let units := numberOf 10 (whole ++ fraction)
  return .float (Binary64.ofDecimal? (isNegative sign) ⟨units, fraction.length - exponent⟩)

/-- A number of exactly `width` digits within bounds, and what follows. -/
def fixed? (width least most : Nat) (s : List Char) : Option (Nat × List Char) := do
  let front := s.take width
  if front.length < width ∨ !front.all Char.isDigit then none
  let n := numberOf 10 front
  if least ≤ n ∧ n ≤ most then some (n, s.drop width) else none

def isLeapYear (year : Nat) : Bool := year % 4 = 0 && (year % 100 ≠ 0 || year % 400 = 0)

def daysIn (year month : Nat) : Nat :=
  if month = 2 then if isLeapYear year then 29 else 28
  else if month = 4 ∨ month = 6 ∨ month = 9 ∨ month = 11 then 30
  else 31

def skip? (c : Char) : List Char → Option (List Char)
  | d :: rest => if d = c then some rest else none
  | [] => none

/-- What follows a calendar date. -/
def afterDate? (s : List Char) : Option (List Char) := do
  let (year, s) ← fixed? 4 0 9999 s
  let s ← skip? '-' s
  let (month, s) ← fixed? 2 1 12 s
  let s ← skip? '-' s
  let (_, s) ← fixed? 2 1 (daysIn year month) s
  return s

/-- What follows a time of day. Seconds, and fractions of them, may be left out. -/
def afterTime? (s : List Char) : Option (List Char) := do
  let (_, s) ← fixed? 2 0 23 s
  let s ← skip? ':' s
  let (_, s) ← fixed? 2 0 59 s
  match s with
  | ':' :: s =>
    let (_, s) ← fixed? 2 0 60 s
    match s with
    | '.' :: s =>
      if (s.takeWhile Char.isDigit).isEmpty then none else some (s.dropWhile Char.isDigit)
    | s => some s
  | s => some s

/-- True of an offset from universal time, or of nothing at all. -/
def isOffset (s : List Char) : Bool :=
  match s with
  | [] => true
  | ['Z'] => true
  | ['z'] => true
  | c :: rest =>
    (c = '+' || c = '-') && (do
      let (_, s) ← fixed? 2 0 23 rest
      let s ← skip? ':' s
      let (_, s) ← fixed? 2 0 59 s
      return s.isEmpty : Option Bool).getD false

/-- True of a date, a time, or both with an offset or without. -/
def isDateTime (s : List Char) : Bool :=
  match afterDate? s with
  | some [] => true
  | some (c :: rest) =>
    (c = 'T' || c = 't' || c = ' ') &&
      (match afterTime? rest with
        | some rest => isOffset rest
        | none => false)
  | none => afterTime? s = some []

/-- Characters that end a value without quotes. -/
def isDelimiter (c : Char) : Bool :=
  c = '\r' || c = '\n' || c = '#' || c = '=' || c = ',' || c = '[' || c = ']' || c = '\x7b' ||
    c = '\x7d'

/-- Characters with which more of a value may begin behind blanks. -/
def goesOn (c : Char) : Bool :=
  !isDelimiter c && c ≠ '.' && c ≠ '"' && c ≠ '\''

/-- Splits off the text of a value without quotes. It goes on behind blanks, as a time does behind a
date. -/
def splitScalar : List Char → List Char × List Char
  | [] => ([], [])
  | c :: rest =>
    if isDelimiter c || (isBlank c && !(rest.dropWhile isBlank).head?.any goesOn) then
      ([], c :: rest)
    else
      let (text, rest) := splitScalar rest
      (c :: text, rest)

def scalarText : Parser (List Char) := fun s => some (splitScalar s)

/-- The value that a text without quotes names. Digits are part of a date or time if they end at a
hyphen or colon, and a point or an exponent makes a number one with a fraction. -/
def scalar? (s : List Char) : Option Value :=
  let (sign, body) := splitSign s
  let rest := body.dropWhile Char.isDigit
  if s = "true".toList then some (.boolean true)
  else if s = "false".toList then some (.boolean false)
  else if body = "inf".toList then some (.float (some (.infinity (isNegative sign))))
  else if body = "nan".toList then some (.float (some .nan))
  else match splitBase? body with
    | some (base, digits) => if sign.isSome then none else baseInteger? base digits
    | none =>
      if rest.head? = some '-' ∨ rest.head? = some ':' then
        if isDateTime s then some .dateTime else none
      else if rest.any fun c => c = '.' || c = 'e' || c = 'E' then float? sign body
      else integer? sign body

end LightShow.Toml
