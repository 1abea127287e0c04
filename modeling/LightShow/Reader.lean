import LightShow.CodecError

namespace LightShow

/-- Reads a value from the front of some bytes and hands back the bytes behind it. -/
abbrev Reader (α : Type) := StateT Bytes (Except CodecError) α

namespace Reader

variable {α : Type}

/-- The first `n` bytes and the rest, if there are that many. -/
def split? : (n : Nat) → Bytes → Option (Bytes × Bytes)
  | 0, s => some ([], s)
  | _ + 1, [] => none
  | n + 1, b :: s => (split? n s).map fun (front, rest) => (b :: front, rest)

theorem split?_eq_some_iff {n : Nat} {s front rest : Bytes} :
    split? n s = some (front, rest) ↔ s = front ++ rest ∧ front.length = n := by
  induction n generalizing s front with
  | zero =>
    cases front <;> simp [split?, eq_comm]
  | succ n ih =>
    cases s with
    | nil => cases front <;> simp [split?]
    | cons b s =>
      cases front with
      | nil => simp [split?]
      | cons a front =>
        simp only [split?, Option.map_eq_some_iff, Prod.mk.injEq, List.cons.injEq, Prod.exists,
          List.cons_append, List.length_cons, Nat.add_right_cancel_iff]
        constructor
        · rintro ⟨f, r, h, ⟨rfl, rfl⟩, rfl⟩
          exact ⟨⟨rfl, (ih.1 h).1⟩, (ih.1 h).2⟩
        · rintro ⟨⟨rfl, h⟩, hn⟩
          exact ⟨front, rest, ih.2 ⟨h, hn⟩, ⟨rfl, rfl⟩, rfl⟩

theorem split?_eq_none_iff {n : Nat} {s : Bytes} : split? n s = none ↔ s.length < n := by
  induction n generalizing s with
  | zero => simp [split?]
  | succ n ih => cases s <;> simp [split?, ih]

/-- The next `n` bytes. `item` says in an error what was being read. -/
def take (n : Nat) (item : String) : Reader Bytes := fun s =>
  match split? n s with
  | some (front, rest) => .ok (front, rest)
  | none => .error (.unexpectedEnd item)

def byte (item : String) : Reader UInt8
  | [] => .error (.unexpectedEnd item)
  | b :: rest => .ok (b, rest)

/-- The next two bytes as a number, least significant first. -/
def u16 (item : String) : Reader UInt16 := do
  return UInt16.ofNat (LittleEndian.value (← take 2 item))

/-- The next four bytes as a number, least significant first. -/
def u32 (item : String) : Reader UInt32 := do
  return UInt32.ofNat (LittleEndian.value (← take 4 item))

/-- Reads one value after another until the bytes are used up. A reader that takes no byte is
asked only once. -/
def toEnd (r : Reader α) (s : Bytes) : Except CodecError (List α) :=
  if s = [] then .ok []
  else do
    let (a, rest) ← r s
    if rest.length < s.length then
      let more ← toEnd r rest
      return a :: more
    else return [a]
termination_by s.length

end Reader

end LightShow
