import LightShow.Proofs.Playback.Confined

namespace LightShow.Loop

/-- A step without a call changes nothing but where the loop stands. A loop that has ended stays
where it is, and one that has been asked to stop comes to its end. -/
theorem step_eq (l : Loop) (now : Nat) (answer : Call → Reply) :
    (∃ phase, l.step now answer = ({ l with phase }, none) ∧
      (l.hasEnded = true → phase = l.phase) ∧
      (l.stopRequested = true → phase = .exited ∨ phase = .panicked)) ∨
    ∃ call, l.phase = .calling ∧
      l.step now answer = (l.afterReply (answer call), some (call, answer call)) := by
  unfold step
  split
  next hphase _ =>
    have hbusy : l.hasEnded ≠ true := by simp [hasEnded, hphase]
    left
    split
    · exact ⟨.exited, rfl, fun hended => absurd hended hbusy, fun _ => .inl rfl⟩
    next hstop =>
      split
      · exact ⟨.panicked, rfl, fun hended => absurd hended hbusy, fun _ => .inr rfl⟩
      · exact ⟨.waiting, rfl, fun hended => absurd hended hbusy, fun h => absurd h hstop⟩
  next hphase _ =>
    have hbusy : l.hasEnded ≠ true := by simp [hasEnded, hphase]
    left
    split
    · exact ⟨.exited, rfl, fun hended => absurd hended hbusy, fun _ => .inl rfl⟩
    next hstop =>
      split
      · exact ⟨l.phase, rfl, fun _ => rfl, fun h => absurd h hstop⟩
      · exact ⟨.calling, rfl, fun hended => absurd hended hbusy, fun h => absurd h hstop⟩
  next hphase _ => exact .inr ⟨_, hphase, rfl⟩
  next hphase => exact .inl ⟨l.phase, rfl, fun _ => rfl, fun _ => .inl hphase⟩
  next hphase => exact .inl ⟨l.phase, rfl, fun _ => rfl, fun _ => .inr hphase⟩
  next hexited hpanicked =>
    have hbusy : l.hasEnded ≠ true := fun hended =>
      (of_decide_eq_true hended).elim hexited hpanicked
    exact .inl ⟨.exited, rfl, fun hended => absurd hended hbusy, fun _ => .inl rfl⟩

/-- What may happen to a loop, with the calls that it makes meanwhile, first to last: it takes
steps, it is asked to stop and, if that comes about at all, its end is waited for. -/
inductive Runs (awaited : Prop) (l : Loop) : List (Call × Reply) → Loop → Prop
  | refl : Runs awaited l [] l
  | step {deals : List (Call × Reply)} {l' : Loop} (h : Runs awaited l deals l') (now : Nat)
    (answer : Call → Reply) :
    Runs awaited l (deals ++ (l'.step now answer).2.toList) (l'.step now answer).1
  | ask {deals : List (Call × Reply)} {l' : Loop} (h : Runs awaited l deals l') :
    Runs awaited l deals { l' with stopRequested := true }
  | await {deals : List (Call × Reply)} {l' : Loop} (h : Runs awaited l deals l')
    (hawaited : awaited) (hended : l'.hasEnded = true) :
    Runs awaited l deals { l' with joined := true }

namespace Runs

variable {awaited awaited' : Prop} {l l' l'' : Loop} {deals deals' : List (Call × Reply)}

/-- Runs may be put together, and their calls with them. -/
theorem trans (h : l.Runs awaited deals l') (h' : l'.Runs awaited deals' l'') :
    l.Runs awaited (deals ++ deals') l'' := by
  induction h' with
  | refl => rwa [List.append_nil]
  | step _ now answer ih =>
    rw [← List.append_assoc]
    exact ih.step now answer
  | ask _ ih => exact ih.ask
  | await _ hawaited hended ih => exact ih.await hawaited hended

/-- It does no harm to allow for waiting where there was none. -/
theorem mono (h : l.Runs awaited deals l') (himp : awaited → awaited') :
    l.Runs awaited' deals l' := by
  induction h with
  | refl => exact .refl
  | step _ now answer ih => exact ih.step now answer
  | ask _ ih => exact ih.ask
  | await _ hawaited hended ih => exact ih.await (himp hawaited) hended

/-- A run leaves the loop with what it has to play. It does not come back from its end, and no
request to stop is taken back. -/
theorem continues (h : l.Runs awaited deals l') : l.Continues l' := by
  induction h with
  | refl => exact .refl l
  | @step _ l' _ now answer ih =>
    refine ih.trans ?_
    rcases l'.step_cases now answer with ⟨next, hstep, hnext⟩ | ⟨_, hbusy, _, hstep⟩
    · rw [hstep]
      exact hnext.toContinues
    · rw [hstep]
      exact continues_afterReply hbusy _
  | ask _ ih => exact ih.trans ⟨rfl, rfl, id, fun _ => rfl, .inl⟩
  | await _ _ hended ih => exact ih.trans ⟨rfl, rfl, id, id, fun _ => .inr hended⟩

/-- A loop is known to be waited for once its end has been. -/
theorem joined (h : l.Runs awaited deals l') :
    (l.joined = true → l'.joined = true) ∧ (l'.joined = true → l.joined = true ∨ awaited) := by
  induction h with
  | refl => exact ⟨id, .inl⟩
  | @step _ l' _ now answer ih => rwa [(l'.leftAlone_step now answer).joined]
  | ask _ ih => exact ih
  | await _ hawaited _ _ => exact ⟨fun _ => rfl, fun _ => .inr hawaited⟩

/-- Unless its end is waited for, a loop is no more joined than before. -/
theorem joined_eq (h : l.Runs awaited deals l') (hnot : ¬awaited) : l'.joined = l.joined :=
  Bool.eq_iff_iff.2 ⟨fun h' => (h.joined.2 h').resolve_right hnot, h.joined.1⟩

/-- A loop that has been joined has ended, provided that this was so before. -/
theorem joined_ended (h : l.Runs awaited deals l')
    (hjoined : l.joined = true → l.hasEnded = true) (hjoined' : l'.joined = true) :
    l'.hasEnded = true :=
  (h.continues.joined hjoined').elim (fun hold => h.continues.hasEnded (hjoined hold)) id

/-- Nothing comes after the end. -/
theorem of_hasEnded (h : l.Runs awaited deals l') (hended : l.hasEnded = true) :
    deals = [] ∧ l'.phase = l.phase ∧ l'.fault = l.fault := by
  induction h with
  | refl => exact ⟨rfl, rfl, rfl⟩
  | @step deals l' h now answer ih =>
    obtain ⟨hdeals, hphase, hfault⟩ := ih
    have hended' : l'.hasEnded = true := h.continues.hasEnded hended
    rcases l'.step_eq now answer with ⟨phase, hstep, hstays, _⟩ | ⟨call, hcalling, _⟩
    · rw [hstep, hdeals]
      exact ⟨rfl, (hstays hended').trans hphase, hfault⟩
    · simp [hasEnded, hcalling] at hended'
  | ask _ ih => exact ih
  | await _ _ _ ih => exact ih

/-- A loop that has been asked to stop makes the call that it is about to make, if any, and no
more. -/
theorem of_stopRequested (h : l.Runs awaited deals l') (hstop : l.stopRequested = true) :
    deals.length ≤ 1 ∧ (deals = [] ∨ l'.phase ≠ .calling) := by
  induction h with
  | refl => exact ⟨Nat.zero_le 1, .inl rfl⟩
  | @step deals l' h now answer ih =>
    obtain ⟨hlength, hphase⟩ := ih
    rcases l'.step_eq now answer with ⟨phase, hstep, _, hends⟩ | ⟨call, hcalling, hstep⟩
    · have hnext : phase ≠ .calling := by
        rcases hends (h.continues.stopRequested hstop) with rfl | rfl <;> decide
      rw [hstep]
      exact ⟨by simpa using hlength, .inr hnext⟩
    · have hdeals : deals = [] := hphase.resolve_right fun hne => hne hcalling
      have hnext : (l'.afterReply (answer call)).phase ≠ .calling := by
        cases answer call <;> exact Phase.noConfusion
      rw [hstep, hdeals]
      exact ⟨Nat.le_refl 1, .inr hnext⟩
  | ask _ ih => exact ih
  | await _ _ _ ih => exact ih

end Runs

/-- All calls that a loop has made, first to last, have been carried out, but for the last one if
that has brought the loop to its end. The loop tells of an error exactly if that is how it ended. -/
inductive Account (l : Loop) : List (Call × Reply) → Prop
  | whole {deals : List (Call × Reply)} (hdone : ∀ deal ∈ deals, deal.2 = .done)
    (hfault : l.fault = none) : Account l deals
  | failed {deals : List (Call × Reply)} {call : Call} {error : ActuatorError}
    (hdone : ∀ deal ∈ deals, deal.2 = .done) (hphase : l.phase = .exited)
    (hfault : l.fault = some error) : Account l (deals ++ [(call, .failed error)])
  | panicked {deals : List (Call × Reply)} {call : Call}
    (hdone : ∀ deal ∈ deals, deal.2 = .done) (hphase : l.phase = .panicked)
    (hfault : l.fault = none) : Account l (deals ++ [(call, .panicked)])

namespace Account

variable {awaited : Prop} {l l' : Loop} {deals deals' : List (Call × Reply)}

/-- All calls but the last one have been carried out. -/
theorem done_of_mem_dropLast (h : l.Account deals) {deal : Call × Reply}
    (hmem : deal ∈ deals.dropLast) : deal.2 = .done := by
  cases h with
  | whole hdone => exact hdone deal (List.dropLast_subset deals hmem)
  | failed hdone =>
    rw [List.dropLast_concat] at hmem
    exact hdone deal hmem
  | panicked hdone =>
    rw [List.dropLast_concat] at hmem
    exact hdone deal hmem

/-- A loop that is at work has had all its calls carried out. -/
theorem done_of_busy (h : l.Account deals) (hbusy : l.hasEnded = false) :
    ∀ deal ∈ deals, deal.2 = .done := by
  cases h with
  | whole hdone => exact hdone
  | failed _ hexited => simp [hasEnded, hexited] at hbusy
  | panicked _ hpanicked => simp [hasEnded, hpanicked] at hbusy

/-- A loop tells of an error exactly if one of its calls failed with it. -/
theorem fault_eq_some_iff (h : l.Account deals) {error : ActuatorError} :
    l.fault = some error ↔ ∃ call, (call, .failed error) ∈ deals := by
  have hnever : ∀ {calls : List (Call × Reply)} {call : Call},
      (∀ deal ∈ calls, deal.2 = .done) → (call, .failed error) ∉ calls :=
    fun hdone hmem => nomatch hdone _ hmem
  cases h with
  | whole hdone hfault => simp [hfault, hnever hdone]
  | failed hdone hphase hfault => simp [hfault, hnever hdone, eq_comm]
  | panicked hdone hphase hfault => simp [hfault, hnever hdone]

/-- A loop that was brought down by a call stays so. -/
theorem phase_eq_panicked (h : l.Account deals) {call : Call} (hmem : (call, .panicked) ∈ deals) :
    l.phase = .panicked := by
  cases h with
  | whole hdone => cases hdone _ hmem
  | failed hdone =>
    rcases List.mem_append.1 hmem with hmem | hmem
    · cases hdone _ hmem
    · cases List.mem_singleton.1 hmem
  | panicked _ hphase => exact hphase

/-- A loop that was brought down has no error to tell of. -/
theorem fault_eq_none (h : l.Account deals) (hphase : l.phase = .panicked) : l.fault = none := by
  cases h with
  | whole _ hfault => exact hfault
  | failed _ hexited => cases hphase.symm.trans hexited
  | panicked _ _ hfault => exact hfault

/-- The account of another state that tells the same. -/
theorem congr (h : l.Account deals) (hphase : l.hasEnded = true → l'.phase = l.phase)
    (hfault : l'.fault = l.fault) : l'.Account deals := by
  cases h with
  | whole hdone hnone => exact .whole hdone (hfault.trans hnone)
  | failed hdone hexited hsome =>
    have hended : l.hasEnded = true := by simp [hasEnded, hexited]
    exact .failed hdone ((hphase hended).trans hexited) (hfault.trans hsome)
  | panicked hdone hpanicked hnone =>
    have hended : l.hasEnded = true := by simp [hasEnded, hpanicked]
    exact .panicked hdone ((hphase hended).trans hpanicked) (hfault.trans hnone)

/-- One more call, of a loop that is at work, is accounted for by how the loop takes the reply. -/
theorem afterReply (h : l.Account deals) (hbusy : l.hasEnded = false) (call : Call)
    (reply : Reply) : (l.afterReply reply).Account (deals ++ [(call, reply)]) := by
  cases h with
  | whole hdone hnone =>
    cases reply with
    | done =>
      refine .whole (fun deal hmem => ?_) hnone
      rcases List.mem_append.1 hmem with hmem | hmem
      · exact hdone deal hmem
      · cases List.mem_singleton.1 hmem
        rfl
    | failed error => exact .failed hdone rfl rfl
    | panicked => exact .panicked hdone rfl hnone
  | failed _ hexited => simp [hasEnded, hexited] at hbusy
  | panicked _ hpanicked => simp [hasEnded, hpanicked] at hbusy

/-- The account stays right in a run, step by step. -/
theorem runs (h : l.Account deals) (hruns : l.Runs awaited deals' l') :
    l'.Account (deals ++ deals') := by
  induction hruns with
  | refl => rwa [List.append_nil]
  | @step _ l' _ now answer ih =>
    rw [← List.append_assoc]
    rcases l'.step_eq now answer with ⟨phase, hstep, hstays, _⟩ | ⟨call, hcalling, hstep⟩
    · rw [hstep, Option.toList_none, List.append_nil]
      exact ih.congr hstays rfl
    · have hbusy : l'.hasEnded = false := by simp [hasEnded, hcalling]
      rw [hstep]
      exact ih.afterReply hbusy call _
  | ask _ ih => exact ih.congr (fun _ => rfl) rfl
  | await _ _ _ ih => exact ih.congr (fun _ => rfl) rfl

end Account

theorem account_new (pad : Pad) (track : Track Binary64) (settings : PlaybackSettings)
    (now : Nat) : (Loop.new pad track settings now).Account [] :=
  .whole (fun _ hmem => absurd hmem List.not_mem_nil) rfl

end LightShow.Loop
