namespace LightShow.Base64

/-- What keeps a text from being the base64 form of some bytes. Offsets count characters. -/
inductive Flaw where
  /-- A character outside the alphabet, or padding where none may stand. -/
  | symbol (code offset : Nat)
  /-- The last group has too few symbols to hold a byte. -/
  | length (count : Nat)
  /-- The last group is not filled up to four characters. -/
  | padding
  /-- The bits that the last symbol has left over are not zero. -/
  | lastSymbol (code offset : Nat)
  deriving DecidableEq, Repr

def Flaw.message : Flaw → String
  | symbol code offset => s!"Invalid symbol {code}, offset {offset}."
  | length count => s!"Invalid input length: {count}"
  | padding => "Invalid padding"
  | lastSymbol code offset => s!"Invalid last symbol {code}, offset {offset}."

/-- The character for six bits. -/
def symbol (v : Nat) : Char :=
  let v := v % 64
  if v < 26 then Char.ofNat (65 + v)
  else if v < 52 then Char.ofNat (71 + v)
  else if v < 62 then Char.ofNat (v - 4)
  else if v = 62 then '+'
  else '/'

def symbolValue? (c : Char) : Option Nat :=
  let n := c.toNat
  if 65 ≤ n ∧ n ≤ 90 then some (n - 65)
  else if 97 ≤ n ∧ n ≤ 122 then some (n - 71)
  else if 48 ≤ n ∧ n ≤ 57 then some (n + 4)
  else if c = '+' then some 62
  else if c = '/' then some 63
  else none

/-- Fills the last group up to four characters. -/
def pad : Char := '='

/-- Three bytes become four characters; a shorter last group is padded. -/
def encode : List UInt8 → List Char
  | [] => []
  | [a] => [symbol (a.toNat / 4), symbol (a.toNat % 4 * 16), pad, pad]
  | [a, b] =>
    [symbol (a.toNat / 4), symbol (a.toNat % 4 * 16 + b.toNat / 16), symbol (b.toNat % 16 * 4), pad]
  | a :: b :: c :: rest =>
    symbol (a.toNat / 4) :: symbol (a.toNat % 4 * 16 + b.toNat / 16) ::
      symbol (b.toNat % 16 * 4 + c.toNat / 64) :: symbol (c.toNat % 64) :: encode rest

def groupBytes (a b c d : Nat) : List UInt8 :=
  [UInt8.ofNat (a * 4 + b / 16), UInt8.ofNat (b % 16 * 16 + c / 4), UInt8.ofNat (c % 4 * 64 + d)]

def readSymbol (offset : Nat) (c : Char) : Except Flaw Nat :=
  match symbolValue? c with
  | some v => .ok v
  | none => .error (.symbol c.toNat offset)

/-- Reads the last group, which starts at `offset`: its symbols so far and the count of padding
characters behind them. Padding needs two symbols before it and none after it. -/
def readGroup (offset : Nat) : List Nat → (padding : Nat) → List Char → Except Flaw (List Nat × Nat)
  | symbols, padding, [] => .ok (symbols, padding)
  | symbols, padding, c :: rest =>
    if c = pad then
      if symbols.length + padding < 2 then
        .error (.symbol pad.toNat (offset + symbols.length + padding))
      else readGroup offset symbols (padding + 1) rest
    else if 0 < padding then .error (.symbol pad.toNat (offset + symbols.length))
    else do
      let v ← readSymbol (offset + symbols.length) c
      readGroup offset (symbols ++ [v]) 0 rest

/-- The bytes of a last group. Its unused bits have to be zero. -/
def closeGroup (offset : Nat) (symbols : List Nat) (padding : Nat) : Except Flaw (List UInt8) :=
  if symbols.length < 2 then .error (.length (offset + symbols.length))
  else if (symbols.length + padding) % 4 ≠ 0 then .error .padding
  else match symbols with
    | [a, b] =>
      if b % 16 ≠ 0 then .error (.lastSymbol (symbol b).toNat (offset + 1))
      else .ok ((groupBytes a b 0 0).take 1)
    | [a, b, c] =>
      if c % 4 ≠ 0 then .error (.lastSymbol (symbol c).toNat (offset + 2))
      else .ok ((groupBytes a b c 0).take 2)
    | [a, b, c, d] => .ok (groupBytes a b c d)
    | _ => .error .padding

/-- Reads the groups from `offset` on. Only the last one may be padded. -/
def decodeGroups (offset : Nat) : List Char → Except Flaw (List UInt8)
  | [] => .ok []
  | a :: b :: c :: d :: e :: rest => do
    let a ← readSymbol offset a
    let b ← readSymbol (offset + 1) b
    let c ← readSymbol (offset + 2) c
    let d ← readSymbol (offset + 3) d
    let tail ← decodeGroups (offset + 4) (e :: rest)
    return groupBytes a b c d ++ tail
  | last => do
    let (symbols, padding) ← readGroup offset [] 0 last
    closeGroup offset symbols padding

/-- A single character behind the last whole group that is no symbol is refused before all else. -/
def strayEnd (text : List Char) : Option Flaw :=
  match text.getLast? with
  | some c =>
    if text.length % 4 = 1 ∧ c ≠ pad ∧ symbolValue? c = none then
      some (.symbol c.toNat (text.length - 1))
    else none
  | none => none

/-- The bytes whose base64 form is `text`; padding is required and must be canonical. -/
def decode (text : List Char) : Except Flaw (List UInt8) :=
  match strayEnd text with
  | some flaw => .error flaw
  | none => decodeGroups 0 text

end LightShow.Base64
