import LightShow.Reader

namespace LightShow.Reader

variable {α β : Type}

theorem pure_eq_ok_iff {a b : α} {s rest : Bytes} :
    (pure a : Reader α) s = .ok (b, rest) ↔ a = b ∧ s = rest := by
  change (Except.ok (a, s) : Except CodecError (α × Bytes)) = _ ↔ _
  simp only [Except.ok.injEq, Prod.mk.injEq]

theorem throw_ne_ok {e : CodecError} {a : α} {s rest : Bytes} :
    (throw e : Reader α) s = .ok (a, rest) ↔ False := by
  change (Except.error e : Except CodecError (α × Bytes)) = _ ↔ _
  simp only [reduceCtorEq]

/-- Two readers succeed exactly if the first does and the second does on what it leaves. -/
theorem bind_eq_ok_iff {r : Reader α} {k : α → Reader β} {s rest : Bytes} {b : β} :
    (r >>= k) s = .ok (b, rest) ↔ ∃ a mid, r s = .ok (a, mid) ∧ k a mid = .ok (b, rest) := by
  change (r s >>= fun p => k p.1 p.2) = _ ↔ _
  cases r s with
  | error e => simp [Bind.bind, Except.bind]
  | ok p =>
    obtain ⟨a, mid⟩ := p
    simp only [Bind.bind, Except.bind, Except.ok.injEq, Prod.mk.injEq]
    constructor
    · intro h
      exact ⟨a, mid, ⟨rfl, rfl⟩, h⟩
    · rintro ⟨_, _, ⟨rfl, rfl⟩, h⟩
      exact h

theorem byte_eq_ok_iff {item : String} {b : UInt8} {s rest : Bytes} :
    byte item s = .ok (b, rest) ↔ s = b :: rest := by
  cases s <;> simp [byte]

/-- Some bytes are taken exactly if there are as many. -/
theorem take_eq_ok_iff {n : Nat} {item : String} {front s rest : Bytes} :
    take n item s = .ok (front, rest) ↔ s = front ++ rest ∧ front.length = n := by
  rw [← split?_eq_some_iff, take]
  cases split? n s with
  | none => simp
  | some p => simp [Prod.ext_iff]

/-- Bytes that are read as a number and kept as a value of a type with as many values. -/
theorem word_eq_ok_iff (width : Nat) {item : String} {make : Nat → α} {number : α → Nat}
    (hlt : ∀ a, number a < LittleEndian.limit width) (hmake : ∀ a, make (number a) = a)
    (hnumber : ∀ n, n < LittleEndian.limit width → number (make n) = n) {a : α} {s rest : Bytes} :
    (do return make (LittleEndian.value (← take width item)) : Reader α) s = .ok (a, rest) ↔
      s = LittleEndian.bytes width (number a) ++ rest := by
  simp only [bind_eq_ok_iff, take_eq_ok_iff, pure_eq_ok_iff]
  constructor
  · rintro ⟨front, _, ⟨rfl, hlength⟩, rfl, rfl⟩
    have hbound := LittleEndian.value_lt front
    rw [hlength] at hbound
    rw [hnumber _ hbound, ← hlength, LittleEndian.bytes_value]
  · rintro rfl
    refine ⟨_, rest, ⟨rfl, LittleEndian.length_bytes ..⟩, ?_, rfl⟩
    rw [LittleEndian.value_bytes, Nat.mod_eq_of_lt (hlt a), hmake]

theorem u16_eq_ok_iff {item : String} {v : UInt16} {s rest : Bytes} :
    u16 item s = .ok (v, rest) ↔ s = LittleEndian.bytes 2 v.toNat ++ rest :=
  word_eq_ok_iff 2 (fun v => v.toNat_lt) (fun v => v.ofNat_toNat)
    fun _ hlt => UInt16.toNat_ofNat_of_lt' hlt

theorem u32_eq_ok_iff {item : String} {v : UInt32} {s rest : Bytes} :
    u32 item s = .ok (v, rest) ↔ s = LittleEndian.bytes 4 v.toNat ++ rest :=
  word_eq_ok_iff 4 (fun v => v.toNat_lt) (fun v => v.ofNat_toNat)
    fun _ hlt => UInt32.toNat_ofNat_of_lt' hlt

/-- The reader accepts exactly the bytes that begin with a form of some value, and leaves what is
behind that form. -/
def Reads (r : Reader α) (form : α → Bytes → Prop) : Prop :=
  ∀ s a rest, r s = .ok (a, rest) ↔ ∃ front, s = front ++ rest ∧ form a front

/-- A form at the front of the bytes is read, and the rest is left. -/
theorem Reads.of_form {r : Reader α} {form : α → Bytes → Prop} (hr : Reads r form) {a : α}
    {front : Bytes} (h : form a front) (rest : Bytes) : r (front ++ rest) = .ok (a, rest) :=
  (hr _ _ _).2 ⟨front, rfl, h⟩

/-- Bytes that stand for some values one after another. -/
inductive Sequence (form : α → Bytes → Prop) : List α → Bytes → Prop
  | nil : Sequence form [] []
  | cons {a : α} {as : List α} {front back : Bytes} (ha : form a front)
      (has : Sequence form as back) : Sequence form (a :: as) (front ++ back)

/-- Two sequences one behind the other are one. -/
theorem Sequence.append {form : α → Bytes → Prop} {as as' : List α} {s s' : Bytes}
    (h : Sequence form as s) (h' : Sequence form as' s') :
    Sequence form (as ++ as') (s ++ s') := by
  induction h with
  | nil => exact h'
  | cons ha _ ih =>
    rw [List.cons_append, List.append_assoc]
    exact .cons ha ih

@[simp] theorem toEnd_nil (r : Reader α) : toEnd r [] = .ok [] := by
  rw [toEnd, if_pos rfl]

/-- One item is read, and the rest of the bytes to their end. -/
theorem toEnd_of_ok {r : Reader α} {s rest : Bytes} {a : α} (h : r s = .ok (a, rest))
    (hlt : rest.length < s.length) : toEnd r s = (toEnd r rest).map (a :: ·) := by
  have hs : s ≠ [] := by
    rintro rfl
    exact absurd hlt (Nat.not_lt_zero _)
  rw [toEnd, if_neg hs]
  simp only [h, Bind.bind, Except.bind, if_pos hlt]
  cases toEnd r rest <;> rfl

/-- If an item cannot be read, nothing is. -/
theorem toEnd_of_error {r : Reader α} {s : Bytes} {e : CodecError} (hs : s ≠ [])
    (h : r s = .error e) : toEnd r s = .error e := by
  rw [toEnd, if_neg hs, h]
  rfl

/-- A form in front of some bytes adds its item in front of those that the bytes hold. -/
theorem Reads.toEnd_append {r : Reader α} {form : α → Bytes → Prop} (hr : Reads r form) {a : α}
    {front : Bytes} (ha : form a front) (hne : front ≠ []) (back : Bytes) :
    toEnd r (front ++ back) = (toEnd r back).map (a :: ·) := by
  apply toEnd_of_ok (hr.of_form ha back)
  have hfront := List.length_pos_iff.2 hne
  simp only [List.length_append]
  omega

/-- Reading to the end takes exactly the sequences of forms, provided that every form has a byte,
for otherwise it would stop before the end of the values. -/
theorem Reads.toEnd_eq_ok_iff {r : Reader α} {form : α → Bytes → Prop} (hr : Reads r form)
    (hne : ∀ a s, form a s → s ≠ []) {s : Bytes} {as : List α} :
    toEnd r s = .ok as ↔ Sequence form as s := by
  constructor
  · induction hlength : s.length using Nat.strongRecOn generalizing s as with
    | ind n ih =>
      subst hlength
      intro h
      by_cases hs : s = []
      · subst hs
        rw [toEnd_nil] at h
        cases h
        exact .nil
      · cases hread : r s with
        | error e =>
          rw [toEnd_of_error hs hread] at h
          cases h
        | ok p =>
          obtain ⟨a, rest⟩ := p
          obtain ⟨front, rfl, ha⟩ := (hr _ _ _).1 hread
          have hfront := hne a front ha
          rw [hr.toEnd_append ha hfront] at h
          cases hmore : toEnd r rest with
          | error e =>
            rw [hmore] at h
            cases h
          | ok more =>
            rw [hmore] at h
            cases h
            refine .cons ha (ih _ ?_ rfl hmore)
            have hpos := List.length_pos_iff.2 hfront
            simp only [List.length_append]
            omega
  · intro h
    induction h with
    | nil => exact toEnd_nil r
    | cons ha _ ih =>
      rw [hr.toEnd_append ha (hne _ _ ha), ih]
      rfl

end LightShow.Reader
