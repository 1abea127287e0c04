namespace LightShow.Sequence

variable {α β : Type}

/-- In a list that is sorted by keys, what has the last key stands at the end. -/
theorem filter_lt_append_filter_eq {key : α → Nat} {bound : Nat} {as : List α}
    (hsorted : as.Pairwise fun a b => key a ≤ key b) (hle : ∀ a ∈ as, key a ≤ bound) :
    (as.filter fun a => key a < bound) ++ (as.filter fun a => key a = bound) = as := by
  induction as with
  | nil => rfl
  | cons a rest ih =>
    rw [List.pairwise_cons] at hsorted
    by_cases ha : key a < bound
    · have hne : key a ≠ bound := Nat.ne_of_lt ha
      have hrest := ih hsorted.2 fun b hb => hle b (List.mem_cons_of_mem _ hb)
      simp only [List.filter_cons, ha, hne, decide_true, decide_false, if_true,
        Bool.false_eq_true, if_false, List.cons_append, hrest]
    · have hbound : ∀ b ∈ a :: rest, key b = bound := by
        intro b hb
        have hupper := hle b hb
        rcases List.mem_cons.1 hb with rfl | hmem
        · omega
        · have hlower := hsorted.1 b hmem
          omega
      have hfront : (a :: rest).filter (fun b => key b < bound) = [] := by
        rw [List.filter_eq_nil_iff]
        intro b hb
        have hb := hbound b hb
        simp only [decide_eq_true_eq]
        omega
      have hback : (a :: rest).filter (fun b => key b = bound) = a :: rest := by
        rw [List.filter_eq_self]
        intro b hb
        exact decide_eq_true (hbound b hb)
      rw [hfront, hback, List.nil_append]

/-- What is in order of a key is the values of the first key, then those of the next, and so on. -/
theorem flatMap_filter_key {key : α → Nat} {bound : Nat} {as : List α}
    (hsorted : as.Pairwise fun a b => key a ≤ key b) (hlt : ∀ a ∈ as, key a < bound) :
    ((List.range bound).flatMap fun n => as.filter fun a => key a = n) = as := by
  induction bound generalizing as with
  | zero =>
    cases as with
    | nil => rfl
    | cons a rest => exact absurd (hlt a List.mem_cons_self) (Nat.not_lt_zero _)
  | succ bound ih =>
    have hfront := ih (hsorted.filter fun a => key a < bound) fun a ha =>
      of_decide_eq_true (List.mem_filter.1 ha).2
    have hsplit := filter_lt_append_filter_eq hsorted fun a ha => Nat.le_of_lt_succ (hlt a ha)
    have hsame : ∀ n ∈ List.range bound, (as.filter fun a => key a < bound).filter
        (fun a => key a = n) = as.filter fun a => key a = n := by
      intro n hn
      have hn := List.mem_range.1 hn
      rw [List.filter_filter]
      apply List.filter_congr
      intro a _
      by_cases ha : key a = n
      · simp only [ha, hn, decide_true, Bool.and_true]
      · simp only [ha, decide_false, Bool.false_and]
    rw [List.range_succ, List.flatMap_append, List.flatMap_singleton]
    have hfirst : (List.range bound).flatMap (fun n => as.filter fun a => key a = n) =
        as.filter fun a => key a < bound := by
      rw [List.flatMap_def, ← List.map_congr_left hsame, ← List.flatMap_def, hfront]
    rw [hfirst, hsplit]

/-- What contributes nothing may be left out. -/
theorem flatMap_filter_of_nil {keep : α → Bool} {f : α → List β} {as : List α}
    (h : ∀ a ∈ as, keep a = false → f a = []) : (as.filter keep).flatMap f = as.flatMap f := by
  induction as with
  | nil => rfl
  | cons a rest ih =>
    have hrest := ih fun b hb => h b (List.mem_cons_of_mem _ hb)
    rw [List.filter_cons, List.flatMap_cons]
    cases ha : keep a with
    | true => rw [if_pos rfl, List.flatMap_cons, hrest]
    | false => rw [if_neg Bool.false_ne_true, h a List.mem_cons_self ha, hrest, List.nil_append]

/-- A function that agrees with a list on its first places gives the first elements of the list. -/
theorem filterMap_range_eq_take {as : List α} {f : Nat → Option α} {count : Nat}
    (hf : ∀ k, k < count → f k = as[k]?) : (List.range count).filterMap f = as.take count := by
  induction count with
  | zero => rfl
  | succ count ih =>
    have hfront := ih fun k hk => hf k (Nat.lt_succ_of_lt hk)
    have hlast := hf count (Nat.lt_succ_self _)
    rw [List.range_succ, List.filterMap_append, hfront, List.take_add_one, ← hlast,
      List.filterMap_cons, List.filterMap_nil]
    cases f count <;> rfl

/-- Counting around a list for some cycles repeats the list that many times. -/
theorem filterMap_range_mod (as : List α) (cycles : Nat) :
    (List.range (cycles * as.length)).filterMap (fun k => as[k % as.length]?) =
      (List.replicate cycles as).flatten := by
  induction cycles with
  | zero => simp
  | succ cycles ih =>
    have hcycle : ∀ k, k < as.length →
        ((fun k => as[k % as.length]?) ∘ (cycles * as.length + ·)) k = as[k]? := by
      intro k hk
      rw [Function.comp_apply, Nat.mul_add_mod_of_lt hk]
    rw [Nat.succ_mul, List.range_add, List.filterMap_append, ih, List.filterMap_map,
      filterMap_range_eq_take hcycle, List.take_length, List.replicate_succ', List.flatten_append,
      List.flatten_singleton]

/-- Sorting moves none of the values that are all of one rank past another of them. -/
theorem filter_mergeSort {le : α → α → Bool}
    (htrans : ∀ a b c, le a b = true → le b c = true → le a c = true)
    (htotal : ∀ a b, (le a b || le b a) = true) {keep : α → Bool}
    (hkeep : ∀ a b, keep a = true → keep b = true → le a b = true) (as : List α) :
    (as.mergeSort le).filter keep = as.filter keep := by
  have hsame : (as.filter keep).Pairwise fun a b => le a b = true := by
    refine List.pairwise_iff_forall_sublist.2 fun {a b} hsublist => ?_
    have hmem := hsublist.subset
    exact hkeep a b (List.mem_filter.1 (hmem List.mem_cons_self)).2
      (List.mem_filter.1 (hmem (List.mem_cons_of_mem _ List.mem_cons_self))).2
  have hsublist := (List.sublist_mergeSort htrans htotal hsame List.filter_sublist).filter keep
  rw [List.filter_filter] at hsublist
  simp only [Bool.and_self] at hsublist
  exact (hsublist.eq_of_length ((List.mergeSort_perm as le).filter keep).length_eq.symm).symm

section

variable {κ : Type} [DecidableEq κ] {key : α → κ} {as bs : List α}

/-- Lists that agree for each key have the same elements. -/
theorem mem_iff_of_filter_eq
    (h : ∀ k, (as.filter fun a => key a = k) = bs.filter fun b => key b = k) {a : α} :
    a ∈ as ↔ a ∈ bs := by
  have hkey : a ∈ as.filter (fun b => key b = key a) ↔ a ∈ bs.filter (fun b => key b = key a) := by
    rw [h]
  simpa using hkey

/-- What is in order of a key is known once the values of each key are. -/
theorem eq_of_filter_eq (le : κ → κ → Bool) (hrefl : ∀ a, le a a = true)
    (hantisymm : ∀ a b, le a b = true → le b a = true → a = b)
    (has : as.Pairwise fun a b => le (key a) (key b) = true)
    (hbs : bs.Pairwise fun a b => le (key a) (key b) = true)
    (h : ∀ k, (as.filter fun a => key a = k) = bs.filter fun b => key b = k) : as = bs := by
  induction as generalizing bs with
  | nil =>
    refine (List.eq_nil_iff_forall_not_mem.2 fun b hb => ?_).symm
    exact List.not_mem_nil ((mem_iff_of_filter_eq h).2 hb)
  | cons a as ih =>
    obtain _ | ⟨b, bs⟩ := bs
    · exact absurd ((mem_iff_of_filter_eq h).1 List.mem_cons_self) List.not_mem_nil
    rw [List.pairwise_cons] at has hbs
    -- Each list has the other's first value somewhere, so neither first key is above the other.
    have hab : le (key a) (key b) = true := by
      rcases List.mem_cons.1 ((mem_iff_of_filter_eq h).2 (List.mem_cons_self (a := b))) with
        rfl | hlater
      · exact hrefl _
      · exact has.1 b hlater
    have hba : le (key b) (key a) = true := by
      rcases List.mem_cons.1 ((mem_iff_of_filter_eq h).1 (List.mem_cons_self (a := a))) with
        rfl | hlater
      · exact hrefl _
      · exact hbs.1 a hlater
    have hkey := hantisymm _ _ hab hba
    have hfirst := h (key a)
    simp only [List.filter_cons, hkey, decide_true, if_true, List.cons.injEq] at hfirst
    obtain ⟨rfl, _⟩ := hfirst
    have hbehind (k : κ) : (as.filter fun a => key a = k) = bs.filter fun b => key b = k := by
      have hk := h k
      rw [List.filter_cons, List.filter_cons] at hk
      split at hk
      · exact (List.cons.inj hk).2
      · exact hk
    rw [ih has.2 hbs.2 hbehind]

end

theorem append_subset_append {as bs cs : List α} (hsubset : as ⊆ bs) :
    as ++ cs ⊆ bs ++ cs :=
  List.append_subset.2
    ⟨List.subset_append_of_subset_left _ hsubset, List.subset_append_right _ _⟩

variable {κ : Type} [DecidableEq κ]

theorem mem_of_lookup {entries : List (κ × α)} {key : κ} {a : α}
    (h : entries.lookup key = some a) : (key, a) ∈ entries := by
  rw [List.lookup_eq_some_iff] at h
  obtain ⟨before, after, rfl, _⟩ := h
  exact List.mem_append_right _ List.mem_cons_self

/-- A key is found exactly if it has an entry. -/
theorem exists_lookup_iff {entries : List (κ × α)} {key : κ} :
    (∃ a, entries.lookup key = some a) ↔ ∃ a, (key, a) ∈ entries := by
  constructor
  · rintro ⟨a, h⟩
    exact ⟨a, mem_of_lookup h⟩
  · rintro ⟨a, h⟩
    rw [← Option.ne_none_iff_exists']
    intro hnone
    have hne := List.lookup_eq_none_iff.1 hnone (key, a) h
    exact absurd rfl (bne_iff_ne.1 hne)

/-- A new entry at the end is found only if no earlier one has its key. -/
theorem lookup_append_singleton {entries : List (κ × α)} {key key' : κ} {a : α} :
    (entries ++ [(key, a)]).lookup key' =
      (entries.lookup key').or (if key' = key then some a else none) := by
  rw [List.lookup_append, List.lookup_cons, List.lookup_nil]
  by_cases heq : key' = key
  · rw [if_pos heq, beq_iff_eq.2 heq]
  · rw [if_neg heq, beq_eq_false_iff_ne.2 heq]

end LightShow.Sequence
