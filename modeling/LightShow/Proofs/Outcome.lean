namespace LightShow.Outcome

variable {ε α β : Type}

theorem pure_eq_ok_iff {a b : α} : (pure a : Except ε α) = .ok b ↔ a = b := by
  simp only [Pure.pure, Except.pure, Except.ok.injEq]

theorem ok_bind (a : α) (f : α → Except ε β) : (.ok a >>= f) = f a := rfl

/-- Two steps succeed exactly if the first does and the second does with what it gives. -/
theorem bind_eq_ok_iff {x : Except ε α} {f : α → Except ε β} {b : β} :
    (x >>= f) = .ok b ↔ ∃ a, x = .ok a ∧ f a = .ok b := by
  cases x <;> simp [Bind.bind, Except.bind]

/-- What is made of a result is there exactly if the result is. -/
theorem map_eq_ok_iff {x : Except ε α} {f : α → β} {b : β} :
    x.map f = .ok b ↔ ∃ a, x = .ok a ∧ f a = b := by
  cases x <;> simp [Except.map]

theorem foldlM_singleton (f : β → α → Except ε β) (b : β) (a : α) : [a].foldlM f b = f b a := by
  simp only [List.foldlM_cons, List.foldlM_nil, bind_pure]

/-- A traversal succeeds exactly if each of its steps does. -/
theorem mapM_eq_ok_iff {f : α → Except ε β} {as : List α} {bs : List β} :
    as.mapM f = .ok bs ↔ as.map f = bs.map .ok := by
  induction as generalizing bs with
  | nil => cases bs <;> simp [Pure.pure, Except.pure]
  | cons a as ih =>
    simp only [List.mapM_cons, bind_eq_ok_iff, Pure.pure, Except.pure, Except.ok.injEq, ih]
    constructor
    · rintro ⟨b, hb, bs, hbs, rfl⟩
      simp only [List.map_cons, hb, hbs]
    · cases bs with
      | nil => simp
      | cons b bs =>
        simp only [List.map_cons, List.cons.injEq]
        rintro ⟨hb, hbs⟩
        exact ⟨b, hb, bs, hbs, rfl, rfl⟩

/-- A traversal fails at the first step that does. -/
theorem mapM_eq_error_iff {f : α → Except ε β} {as : List α} {e : ε} :
    as.mapM f = .error e ↔ ∃ before a after, as = before ++ a :: after ∧
      (∀ b ∈ before, ∃ c, f b = .ok c) ∧ f a = .error e := by
  induction as with
  | nil => simp [Pure.pure, Except.pure]
  | cons a as ih =>
    rw [List.mapM_cons]
    cases ha : f a with
    | error e' =>
      simp only [Bind.bind, Except.bind, Except.error.injEq]
      constructor
      · rintro rfl
        exact ⟨[], a, as, rfl, fun _ hmem => absurd hmem List.not_mem_nil, ha⟩
      · rintro ⟨before, a', after, hsplit, hbefore, ha'⟩
        cases before with
        | nil =>
          cases hsplit
          exact Except.error.inj (ha.symm.trans ha')
        | cons b before =>
          cases hsplit
          obtain ⟨c, hc⟩ := hbefore a List.mem_cons_self
          cases ha.symm.trans hc
    | ok c =>
      have hrest : ((do
          let c ← .ok c
          let cs ← as.mapM f
          pure (c :: cs)) : Except ε (List β)) = .error e ↔ as.mapM f = .error e := by
        cases as.mapM f <;> simp [Bind.bind, Except.bind, Pure.pure, Except.pure]
      rw [hrest, ih]
      constructor
      · rintro ⟨before, a', after, rfl, hbefore, ha'⟩
        exact ⟨a :: before, a', after, rfl, List.forall_mem_cons.2 ⟨⟨c, ha⟩, hbefore⟩, ha'⟩
      · rintro ⟨before, a', after, hsplit, hbefore, ha'⟩
        cases before with
        | nil =>
          cases hsplit
          cases ha.symm.trans ha'
        | cons b before =>
          cases hsplit
          exact ⟨before, a', after, rfl, (List.forall_mem_cons.1 hbefore).2, ha'⟩

/-- All outcomes are results exactly if each is one. -/
theorem exists_map_eq_iff {f : α → Except ε β} {as : List α} :
    (∃ bs : List β, as.map f = bs.map .ok) ↔ ∀ a ∈ as, ∃ b, f a = .ok b := by
  induction as with
  | nil => exact ⟨fun _ => by simp, fun _ => ⟨[], rfl⟩⟩
  | cons a as ih =>
    rw [List.forall_mem_cons, ← ih]
    constructor
    · rintro ⟨bs, hbs⟩
      cases bs with
      | nil => cases hbs
      | cons b bs =>
        simp only [List.map_cons, List.cons.injEq] at hbs
        exact ⟨⟨b, hbs.1⟩, bs, hbs.2⟩
    · rintro ⟨⟨b, hb⟩, bs, hbs⟩
      exact ⟨b :: bs, by rw [List.map_cons, List.map_cons, hb, hbs]⟩

/-- The results are those of the single inputs. -/
theorem mem_of_map_eq {f : α → Except ε β} {as : List α} {bs : List β}
    (h : as.map f = bs.map .ok) {b : β} : b ∈ bs ↔ ∃ a ∈ as, f a = .ok b := by
  rw [← List.mem_map, h, List.mem_map]
  simp only [Except.ok.injEq, exists_eq_right]

/-- Whatever error the computation ends in is of the kind. -/
def FailsWith (kind : ε → Prop) (x : Except ε α) : Prop := ∀ e, x = .error e → kind e

namespace FailsWith

variable {kind : ε → Prop}

theorem ok (a : α) : FailsWith kind (.ok a : Except ε α) := by
  rintro e ⟨⟩

theorem error {e : ε} (h : kind e) : FailsWith kind (.error e : Except ε α) := by
  rintro _ ⟨⟩
  exact h

/-- What always succeeds fails in no way at all. -/
theorem of_exists_ok {x : Except ε α} (h : ∃ a, x = .ok a) : FailsWith kind x := by
  obtain ⟨a, rfl⟩ := h
  exact .ok a

/-- Two steps fail in one of the ways if each does, the second with what the first gives. -/
theorem bind {x : Except ε α} {f : α → Except ε β} (hx : FailsWith kind x)
    (hf : ∀ a, x = .ok a → FailsWith kind (f a)) : FailsWith kind (x >>= f) := by
  cases x with
  | ok a => exact hf a rfl
  | error e => exact .error (hx e rfl)

/-- What is made of a result cannot fail in another way. -/
theorem map {x : Except ε α} (hx : FailsWith kind x) (f : α → β) : FailsWith kind (x.map f) := by
  cases x with
  | ok a => exact .ok (f a)
  | error e => exact .error (hx e rfl)

/-- A step that fails in one of the ways does so for every list of inputs. -/
theorem mapM {f : α → Except ε β} (hf : ∀ a, FailsWith kind (f a)) (as : List α) :
    FailsWith kind (as.mapM f) := by
  induction as with
  | nil => exact .ok []
  | cons a rest ih =>
    rw [List.mapM_cons]
    exact (hf a).bind fun b _ => ih.bind fun bs _ => .ok (b :: bs)

/-- So does a step that is repeated, whatever it has come to in between. -/
theorem foldlM {f : β → α → Except ε β} (hf : ∀ b a, FailsWith kind (f b a)) (b : β)
    (as : List α) : FailsWith kind (as.foldlM f b) := by
  induction as generalizing b with
  | nil => exact .ok b
  | cons a rest ih =>
    rw [List.foldlM_cons]
    exact (hf b a).bind fun b' _ => ih b'

end FailsWith

end LightShow.Outcome
