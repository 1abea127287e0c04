import LightShow.Proofs.Outcome
import LightShow.Reader
import Mathlib.Algebra.Group.Int.Defs

namespace LightShow

/-- A tick that is computed on the way through a file, with what it is computed from. -/
inductive TickSum where
  /-- The running tick of a stream, moved on to the next event. -/
  | running (tick : Int) (delta : Nat)
  /-- The end of a length that begins at a tick. -/
  | ahead (tick : Int) (length : UInt16)
  /-- The ticks since the start of a segment. -/
  | since (tick start : Int)
  deriving DecidableEq, Repr

namespace TickSum

def value : TickSum → Int
  | running tick delta => tick + delta
  | ahead tick length => tick + length.toNat
  | since tick start => tick - start

/-- What words of sixty-four bits come to, which wrap around. -/
def word : TickSum → Int64
  | running tick delta => .ofInt tick + .ofInt delta
  | ahead tick length => .ofInt tick + .ofInt length.toNat
  | since tick start => .ofInt tick - .ofInt start

/-- A sum of words is the word of the exact sum, so words are wrong only where they wrap around. -/
theorem word_eq (sum : TickSum) : sum.word = .ofInt sum.value := by
  cases sum with
  | running tick delta => exact (Int64.ofInt_add _ _).symm
  | ahead tick length => exact (Int64.ofInt_add _ _).symm
  | since tick start => exact (Int64.ofInt_sub _ _).symm

/-- The tick is not negative and takes no more than sixty-three bits. -/
def InRange (sum : TickSum) : Prop := 0 ≤ sum.value ∧ sum.value < 2 ^ 63

/-- In range nothing wraps around: the word stands for the exact tick. -/
theorem InRange.toInt_word {sum : TickSum} (h : sum.InRange) : sum.word.toInt = sum.value := by
  obtain ⟨hnonneg, hlt⟩ := h
  rw [word_eq]
  exact Int64.toInt_ofInt_of_le (by omega) (by omega)

/-- The running tick that is computed, if it is one. -/
def running? : TickSum → Option Int
  | running tick delta => some (tick + delta)
  | _ => none

end TickSum

/-- A computation that is carried out twice, with ticks that are exact and with ticks that wrap
around in words of sixty-four bits. All ticks are listed, also those that come before an error, so
both computations are one as long as every tick of the list is in range. -/
structure Tally (α : Type) where
  /-- The ticks of the exact computation, in order. -/
  sums : List TickSum
  /-- What the exact computation comes to. -/
  outcome : Except CodecError α
  /-- What the computation in words comes to. -/
  wrapped : Except CodecError α
  agree : (∀ sum ∈ sums, sum.InRange) → wrapped = outcome

namespace Tally

variable {α β : Type}

/-- The ticks of what comes next, if it does. -/
def sumsAfter (x : Except CodecError α) (f : α → Tally β) : List TickSum :=
  match x with
  | .ok a => (f a).sums
  | .error _ => []

instance : Monad Tally where
  pure a := ⟨[], .ok a, .ok a, fun _ => rfl⟩
  bind x f :=
    { sums := x.sums ++ sumsAfter x.outcome f
      outcome := x.outcome >>= fun a => (f a).outcome
      wrapped := x.wrapped >>= fun a => (f a).wrapped
      agree := by
        intro hsums
        rw [List.forall_mem_append] at hsums
        obtain ⟨hfirst, hnext⟩ := hsums
        rw [x.agree hfirst]
        cases houtcome : x.outcome with
        | error e => rfl
        | ok a =>
          rw [houtcome] at hnext
          exact (f a).agree hnext }

/-- Computes one tick. -/
def compute (sum : TickSum) : Tally Int where
  sums := [sum]
  outcome := .ok sum.value
  wrapped := .ok sum.word.toInt
  agree hsums := by rw [(hsums sum List.mem_cons_self).toInt_word]

/-- A computation in which there is no tick. -/
def ofExcept (x : Except CodecError α) : Tally α := ⟨[], x, x, fun _ => rfl⟩

/-- The running ticks, in order. -/
def running (x : Tally α) : List Int := x.sums.filterMap TickSum.running?

/-- The ticks of two computations, one after the other, stand in the order in which they are
computed. -/
theorem sums_bind_of_ok {x : Tally α} {a : α} (h : x.outcome = .ok a) (f : α → Tally β) :
    (x >>= f).sums = x.sums ++ (f a).sums := by
  simp only [Bind.bind, h, sumsAfter]

/-- After an error nothing more is computed, while the ticks before it stay listed. -/
theorem sums_bind_of_error {x : Tally α} {e : CodecError} (h : x.outcome = .error e)
    (f : α → Tally β) : (x >>= f).sums = x.sums := by
  simp only [Bind.bind, h, sumsAfter, List.append_nil]

@[simp] theorem outcome_bind (x : Tally α) (f : α → Tally β) :
    (x >>= f).outcome = x.outcome >>= fun a => (f a).outcome := rfl

@[simp] theorem outcome_compute (sum : TickSum) : (compute sum).outcome = .ok sum.value := rfl

@[simp] theorem outcome_ofExcept (x : Except CodecError α) : (ofExcept x).outcome = x := rfl

@[simp] theorem sums_compute_bind (sum : TickSum) (f : Int → Tally β) :
    (compute sum >>= f).sums = sum :: (f sum.value).sums := rfl

@[simp] theorem ofExcept_ok_bind (a : α) (f : α → Tally β) : ofExcept (.ok a) >>= f = f a := rfl

@[simp] theorem ofExcept_error_bind (e : CodecError) (f : α → Tally β) :
    ofExcept (.error e) >>= f = ofExcept (.error e) := rfl

/-- What is made of a result adds no tick. -/
theorem running_bind_pure (x : Tally α) (f : α → β) :
    (x >>= fun a => pure (f a)).running = x.running := by
  cases h : x.outcome with
  | ok a =>
    rw [running, sums_bind_of_ok h]
    exact congrArg (List.filterMap _) (List.append_nil x.sums)
  | error e => rw [running, sums_bind_of_error h, running]

/-- The outcome of a repeated computation is that of the repeated outcomes, so a loop with ticks
does what the loop without them does. -/
theorem outcome_foldlM (f : β → α → Tally β) (b : β) (as : List α) :
    (as.foldlM f b).outcome = as.foldlM (fun b a => (f b a).outcome) b := by
  induction as generalizing b with
  | nil => rfl
  | cons a as ih => simp only [List.foldlM_cons, outcome_bind, ih]

/-- All ticks are of one kind, and what the computation comes to is of another. -/
structure Keeps (kind : TickSum → Prop) (made : α → Prop) (x : Tally α) : Prop where
  sums : ∀ sum ∈ x.sums, kind sum
  outcome : ∀ a, x.outcome = .ok a → made a

namespace Keeps

variable {kind : TickSum → Prop} {made : α → Prop} {made' : β → Prop}

/-- A result alone computes no tick. -/
theorem pure {a : α} (h : made a) : Keeps kind made (Pure.pure a) := by
  refine ⟨fun _ hmem => absurd hmem List.not_mem_nil, ?_⟩
  rintro _ ⟨⟩
  exact h

/-- Where no tick is computed only the result has to be as it should. -/
theorem ofExcept {x : Except CodecError α} (h : ∀ a, x = .ok a → made a) :
    Keeps kind made (.ofExcept x) :=
  ⟨fun _ hmem => absurd hmem List.not_mem_nil, h⟩

/-- One tick of the kind, whose value is then known. -/
theorem compute {sum : TickSum} (h : kind sum) : Keeps kind (· = sum.value) (.compute sum) := by
  refine ⟨fun _ hmem => List.mem_singleton.1 hmem ▸ h, ?_⟩
  rintro _ ⟨⟩
  rfl

/-- What the first computation makes may be used in the second. If the first ends in an error, there
is no second. -/
theorem bind {x : Tally α} {f : α → Tally β} (hx : Keeps kind made x)
    (hf : ∀ a, made a → Keeps kind made' (f a)) : Keeps kind made' (x >>= f) := by
  cases h : x.outcome with
  | ok a =>
    have hfa := hf a (hx.outcome a h)
    constructor
    · rw [sums_bind_of_ok h]
      exact List.forall_mem_append.2 ⟨hx.sums, hfa.sums⟩
    · rw [outcome_bind, h]
      exact hfa.outcome
  | error e =>
    constructor
    · rw [sums_bind_of_error h]
      exact hx.sums
    · rw [outcome_bind, h]
      rintro _ ⟨⟩

end Keeps

end Tally

end LightShow
