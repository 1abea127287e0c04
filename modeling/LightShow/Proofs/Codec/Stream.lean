import LightShow.Proofs.Codec.Varint
import LightShow.Stream

namespace LightShow.Stream

variable {ε : Type}

/-- An event as it stands in a stream: a form of its distance from the event before it, then a form
of the event itself. -/
def Timed (form : ε → Bytes → Prop) (event : Nat × ε) (s : Bytes) : Prop :=
  ∃ front back, s = front ++ back ∧ Varint.Readable event.1 front ∧ form event.2 back

/-- The payload holds these events one after another, and nothing else. -/
def Form (form : ε → Bytes → Prop) : List (Nat × ε) → Bytes → Prop :=
  Reader.Sequence (Timed form)

/-- An event takes at least the byte of its distance. -/
theorem Timed.ne_nil {form : ε → Bytes → Prop} {event : Nat × ε} {s : Bytes}
    (h : Timed form event s) : s ≠ [] := by
  obtain ⟨front, back, rfl, hfront, _⟩ := h
  intro hnil
  exact hfront.1.ne_nil (List.append_eq_nil_iff.1 hnil).1

/-- An event in a stream is read as its distance and then itself. -/
theorem reads_timed {event : Reader ε} {form : ε → Bytes → Prop} (hr : Reader.Reads event form) :
    Reader.Reads (do return (← Varint.read, ← event)) (Timed form) := by
  intro s p rest
  simp only [Reader.bind_eq_ok_iff, Reader.pure_eq_ok_iff]
  constructor
  · rintro ⟨delta, _, hdelta, e, _, hevent, rfl, rfl⟩
    obtain ⟨front, rfl, hfront⟩ := (Varint.reads_read _ _ _).1 hdelta
    obtain ⟨back, rfl, hback⟩ := (hr _ _ _).1 hevent
    exact ⟨front ++ back, (List.append_assoc ..).symm, front, back, rfl, hfront, hback⟩
  · rintro ⟨_, rfl, front, back, rfl, hfront, hback⟩
    refine ⟨p.1, back ++ rest, ?_, p.2, rest, hr.of_form hback rest, rfl, rfl⟩
    rw [List.append_assoc]
    exact Varint.reads_read.of_form hfront _

/-- A stream is read exactly if its payload holds nothing but events. -/
theorem read_eq_ok_iff {event : Reader ε} {form : ε → Bytes → Prop} (hr : Reader.Reads event form)
    {payload : Bytes} {events : List (Nat × ε)} :
    read event payload = .ok events ↔ Form form events payload :=
  (reads_timed hr).toEnd_eq_ok_iff fun _ _ h => h.ne_nil

/-- The events have their ticks in order, none before `start`. -/
def OrderedFrom (start : Nat) (events : List (UInt32 × ε)) : Prop :=
  (∀ event ∈ events, start ≤ event.1.toNat) ∧ events.Pairwise fun a b => a.1 ≤ b.1

/-- Behind an event all ticks are at or after its own. -/
theorem OrderedFrom.tail {start : Nat} {event : UInt32 × ε} {rest : List (UInt32 × ε)}
    (h : OrderedFrom start (event :: rest)) : OrderedFrom event.1.toNat rest := by
  obtain ⟨_, hpairwise⟩ := h
  rw [List.pairwise_cons] at hpairwise
  exact ⟨fun later hlater => UInt32.le_iff_toNat_le.1 (hpairwise.1 later hlater), hpairwise.2⟩

theorem inOrder_trans (a b c : UInt32 × ε) (hab : decide (a.1 ≤ b.1) = true)
    (hbc : decide (b.1 ≤ c.1) = true) : decide (a.1 ≤ c.1) = true :=
  decide_eq_true (UInt32.le_trans (of_decide_eq_true hab) (of_decide_eq_true hbc))

theorem inOrder_total (a b : UInt32 × ε) :
    (decide (a.1 ≤ b.1) || decide (b.1 ≤ a.1)) = true := by
  simp only [Bool.or_eq_true, decide_eq_true_eq]
  exact UInt32.le_total a.1 b.1

/-- Put in order, ticks run from zero on. -/
theorem orderedFrom_inOrder (events : List (UInt32 × ε)) : OrderedFrom 0 (inOrder events) := by
  refine ⟨fun _ _ => Nat.zero_le _, ?_⟩
  exact (List.pairwise_mergeSort inOrder_trans inOrder_total events).imp of_decide_eq_true

/-- Distances between ticks in order lead back to the ticks. -/
theorem positions_distances {start : Nat} {events : List (UInt32 × ε)}
    (h : OrderedFrom start events) :
    positions start (distances start events) =
      events.map fun event => ((event.1.toNat : Int), event.2) := by
  induction events generalizing start with
  | nil => rfl
  | cons event rest ih =>
    have hle := h.1 event List.mem_cons_self
    have hback : (start : Int) + ((event.1.toNat - start : Nat) : Int) = event.1.toNat := by omega
    simp only [distances, positions, List.map_cons, hback, ih h.tail]

/-- The events of a stream that is given in any order, as they come up again. -/
def scheduled (events : List (UInt32 × ε)) : List (Int × ε) :=
  (inOrder events).map fun event => ((event.1.toNat : Int), event.2)

/-- The distances that are written lead back to the ticks that were given. -/
theorem positions_distances_inOrder (events : List (UInt32 × ε)) :
    positions 0 (distances 0 (inOrder events)) = scheduled events :=
  positions_distances (orderedFrom_inOrder events)

theorem scheduled_nil : scheduled ([] : List (UInt32 × ε)) = [] := by
  rw [scheduled, inOrder, List.mergeSort_nil, List.map_nil]

/-- Every distance between ticks of thirty-two bits can be read again. -/
theorem form_distances {form : ε → Bytes → Prop} {event : ε → Bytes} (start : Nat)
    {events : List (UInt32 × ε)} (hevent : ∀ e ∈ events, form e.2 (event e.2)) :
    Form form (distances start events)
      ((distances start events).flatMap fun e => Varint.encode e.1 ++ event e.2) := by
  induction events generalizing start with
  | nil => exact .nil
  | cons e rest ih =>
    have hreadable : Varint.Readable (e.1.toNat - start) (Varint.encode (e.1.toNat - start)) := by
      apply Varint.readable_encode
      have hlt := e.1.toNat_lt
      have hlimit : Varint.limit Varint.maxLength = 34359738368 := by decide
      omega
    rw [distances, List.flatMap_cons]
    exact .cons ⟨_, _, rfl, hreadable, hevent e List.mem_cons_self⟩
      (ih _ fun e he => hevent e (List.mem_cons_of_mem _ he))

/-- What is written for events in any order holds these events in order of their ticks. -/
theorem form_encode {form : ε → Bytes → Prop} {event : ε → Bytes} {events : List (UInt32 × ε)}
    (hevent : ∀ e ∈ events, form e.2 (event e.2)) :
    Form form (distances 0 (inOrder events)) (encode event events) :=
  form_distances 0 fun e he => hevent e (List.mem_mergeSort.1 he)

end LightShow.Stream
