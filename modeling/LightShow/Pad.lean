namespace LightShow

/-- One of the three light pads, which are addressed one by one. -/
inductive Pad where
  | centre
  | left
  | right
  deriving DecidableEq, Repr, Inhabited

namespace Pad

/-- Every pad, in the order in which all lists over pads are kept. -/
def all : List Pad := [centre, left, right]

theorem mem_all (p : Pad) : p ∈ all := by
  cases p <;> simp [all]

/-- The number by which a track file names the pad. -/
def index : Pad → UInt8
  | centre => 0
  | left => 1
  | right => 2

/-- The pad that a track file names by `n`. -/
def ofIndex? (n : UInt8) : Option Pad :=
  all.find? (·.index = n)

theorem ofIndex?_index (p : Pad) : ofIndex? p.index = some p := by
  cases p <;> rfl

/-- The number by which the actuator knows the pad; zero is kept for all pads at once. -/
def wireId (p : Pad) : UInt8 :=
  p.index + 1

def name : Pad → String
  | centre => "centre"
  | left => "left"
  | right => "right"

/-- The pad's name with a capital, as descriptions of a handle write it. -/
def title : Pad → String
  | centre => "Centre"
  | left => "Left"
  | right => "Right"

end Pad

/-- What an actuator call is addressed to. -/
inductive Target where
  | all
  | pad (p : Pad)
  deriving DecidableEq, Repr

namespace Target

/-- The actuator's number for every pad at once. -/
def broadcastId : UInt8 := 0

def wireId : Target → UInt8
  | all => broadcastId
  | pad p => p.wireId

def name : Target → String
  | all => "all"
  | pad p => p.name

end Target

/-- One value for each pad. -/
structure PerPad (α : Type) where
  centre : α
  left : α
  right : α
  deriving DecidableEq, Repr, Inhabited

namespace PerPad

variable {α β : Type}

def get (m : PerPad α) : Pad → α
  | .centre => m.centre
  | .left => m.left
  | .right => m.right

def set (m : PerPad α) (p : Pad) (a : α) : PerPad α :=
  match p with
  | .centre => { m with centre := a }
  | .left => { m with left := a }
  | .right => { m with right := a }

def const (a : α) : PerPad α := ⟨a, a, a⟩

def ofFn (f : Pad → α) : PerPad α := ⟨f .centre, f .left, f .right⟩

def map (f : α → β) (m : PerPad α) : PerPad β := ofFn fun p => f (m.get p)

/-- The three values in pad order. -/
def toList (m : PerPad α) : List α := Pad.all.map m.get

@[simp] theorem get_set_self (m : PerPad α) (p : Pad) (a : α) : (m.set p a).get p = a := by
  cases p <;> rfl

theorem get_set_of_ne (m : PerPad α) {p q : Pad} (a : α) (h : q ≠ p) :
    (m.set p a).get q = m.get q := by
  cases p <;> cases q <;> simp_all [get, set]

theorem get_set_eq_some_iff {m : PerPad (Option α)} {p q : Pad} {entry : Option α} {a : α} :
    (m.set p entry).get q = some a ↔ q = p ∧ entry = some a ∨ q ≠ p ∧ m.get q = some a := by
  by_cases h : q = p
  · simp [h]
  · simp [h, get_set_of_ne m entry h]

@[simp] theorem get_const (a : α) (p : Pad) : (const a).get p = a := by
  cases p <;> rfl

@[simp] theorem get_ofFn (f : Pad → α) (p : Pad) : (ofFn f).get p = f p := by
  cases p <;> rfl

@[simp] theorem get_map (f : α → β) (m : PerPad α) (p : Pad) : (m.map f).get p = f (m.get p) := by
  simp [map]

theorem ext_get {m n : PerPad α} (h : ∀ p, m.get p = n.get p) : m = n := by
  obtain ⟨mc, ml, mr⟩ := m
  obtain ⟨nc, nl, nr⟩ := n
  have hc := h .centre
  have hl := h .left
  have hr := h .right
  simp_all [get]

theorem map_set (f : α → β) (m : PerPad α) (p : Pad) (a : α) :
    (m.set p a).map f = (m.map f).set p (f a) := by
  cases p <;> rfl

theorem set_set (m : PerPad α) (p : Pad) (a b : α) : (m.set p a).set p b = m.set p b := by
  cases p <;> rfl

theorem set_get_self (m : PerPad α) (p : Pad) : m.set p (m.get p) = m := by
  cases p <;> rfl

/-- The pads that hold a value, in pad order. -/
def pads (m : PerPad (Option α)) : List Pad :=
  Pad.all.filter fun p => (m.get p).isSome

/-- The pads that hold a value, each with its value, in pad order. -/
def entries (m : PerPad (Option α)) : List (Pad × α) :=
  Pad.all.filterMap fun p => (m.get p).map (p, ·)

theorem pads_map (f : α → β) (m : PerPad (Option α)) : (m.map (·.map f)).pads = m.pads := by
  simp only [pads, get_map, Option.isSome_map]

theorem mem_pads {m : PerPad (Option α)} {p : Pad} : p ∈ m.pads ↔ (m.get p).isSome := by
  simp [pads, Pad.mem_all]

theorem mem_entries {m : PerPad (Option α)} {p : Pad} {a : α} :
    (p, a) ∈ m.entries ↔ m.get p = some a := by
  rw [entries, List.mem_filterMap]
  constructor
  · rintro ⟨q, _, hq⟩
    obtain ⟨_, hget, heq⟩ := Option.map_eq_some_iff.1 hq
    cases heq
    exact hget
  · intro hget
    exact ⟨p, Pad.mem_all p, by rw [hget]; rfl⟩

end PerPad

end LightShow
