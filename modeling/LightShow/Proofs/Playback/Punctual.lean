import LightShow.Proofs.Playback.Pacing
import LightShow.Proofs.Playback.Run

namespace LightShow

namespace Loop

/-- By this time each call that the loop has made, or is about to make, was due. -/
structure Punctual (l : Loop) (now : Nat) : Prop where
  started : l.started ≤ now
  made : ∀ k < l.made, ∃ c, l.command? k = some c ∧ l.dueTime k c ≤ now
  calling : l.phase = .calling → ∃ c, l.command? l.made = some c ∧ l.dueTime l.made c ≤ now

variable {l : Loop} {now later : Nat}

theorem punctual_new (pad : Pad) (track : Track Binary64) (settings : PlaybackSettings)
    (now : Nat) : (Loop.new pad track settings now).Punctual now :=
  ⟨Nat.le_refl now, fun _ hk => absurd hk (Nat.not_lt_zero _), nofun⟩

/-- What was due is due later on. -/
theorem Punctual.mono (h : l.Punctual now) (hle : now ≤ later) : l.Punctual later where
  started := h.started.trans hle
  made k hk := by
    obtain ⟨c, hc, hdue⟩ := h.made k hk
    exact ⟨c, hc, hdue.trans hle⟩
  calling hphase := by
    obtain ⟨c, hc, hdue⟩ := h.calling hphase
    exact ⟨c, hc, hdue.trans hle⟩

/-- A loop that is not about to call has less to answer for. -/
theorem Punctual.halt (h : l.Punctual now) {phase : Phase} (hphase : phase ≠ .calling) :
    Punctual { l with phase } now :=
  ⟨h.started, h.made, fun hcalling => absurd hcalling hphase⟩

/-- The call that has been made was due, since the loop was about to make it. -/
theorem Punctual.afterReply (h : l.Punctual now) (hphase : l.phase = .calling) (reply : Reply) :
    (l.afterReply reply).Punctual now := by
  cases reply with
  | done =>
    refine ⟨h.started, fun k hk => ?_, nofun⟩
    rcases Nat.lt_succ_iff_lt_or_eq.1 hk with hold | rfl
    · exact h.made k hold
    · exact h.calling hphase
  | failed error => exact ⟨h.started, h.made, nofun⟩
  | panicked => exact h.halt (by decide)

/-- A loop waits for each of its commands to be due. -/
theorem Punctual.step (h : l.Punctual now) (answer : Call → Reply) :
    (l.step now answer).1.Punctual now := by
  unfold Loop.step
  split
  next command hphase hcommand =>
    split
    · exact h.halt (by decide)
    · split
      · exact h.halt (by decide)
      · exact h.halt (by decide)
  next command hphase hcommand =>
    split
    · exact h.halt (by decide)
    · split
      · exact h
      next hdue => exact ⟨h.started, h.made, fun _ => ⟨command, hcommand, Nat.le_of_not_lt hdue⟩⟩
  next command hphase _ => exact h.afterReply hphase _
  next => exact h
  next => exact h
  next => exact h.halt (by decide)

/-- In each cycle of ten milliseconds or more a loop makes the calls of its track once. -/
theorem Punctual.made_le (h : l.Punctual now) (hfloor : Timing.second / 100 ≤ l.period) :
    l.made ≤ l.commands.length * ((now - l.started) / (Timing.second / 100) + 1) := by
  rcases Nat.eq_zero_or_pos l.made with hnone | hsome
  · rw [hnone]
    exact Nat.zero_le _
  obtain ⟨k, hk⟩ := Nat.exists_eq_succ_of_ne_zero hsome.ne'
  obtain ⟨c, hc, hdue⟩ := h.made k (by omega)
  have hlength : 0 < l.commands.length :=
    Nat.zero_lt_of_lt (List.getElem?_eq_some_iff.1 hc).1
  have hcycle : k / l.commands.length ≤ (now - l.started) / (Timing.second / 100) := by
    rw [Nat.le_div_iff_mul_le (by decide)]
    have hperiod := Nat.mul_le_mul_left (k / l.commands.length) hfloor
    rw [dueTime] at hdue
    omega
  have hlast : k < l.commands.length * (k / l.commands.length + 1) :=
    Nat.lt_mul_div_succ k hlength
  calc l.made ≤ l.commands.length * (k / l.commands.length + 1) := by omega
    _ ≤ l.commands.length * ((now - l.started) / (Timing.second / 100) + 1) := by gcongr

end Loop

namespace Rig

variable {playable : Pad → Track Binary64 → Prop} {rig rig' : Rig}

/-- No loop is ahead of the clock. -/
def Punctual (rig : Rig) : Prop := ∀ l ∈ rig.loops, l.Punctual rig.clock

/-- All loops stay punctual if the one that is changed does. -/
theorem Punctual.update (h : rig.Punctual) (number : Nat) {f : Loop → Loop}
    (hf : ∀ l : Loop, l.Punctual rig.clock → (f l).Punctual rig.clock) :
    (rig.update number f).Punctual := by
  intro l hl
  obtain ⟨n, hn⟩ := List.mem_iff_getElem?.1 hl
  simp only [Rig.update, List.getElem?_modify] at hn
  obtain ⟨old, hget, rfl⟩ := Option.map_eq_some_iff.1 hn
  have hold := h old (List.mem_of_getElem? hget)
  split
  · exact hf old hold
  · exact hold

/-- A loop calls only when that is due, so it stays punctual. -/
theorem Punctual.advance (h : rig.Punctual) (number : Nat) : (rig.advance number).Punctual := by
  unfold Rig.advance
  split
  · exact h
  next l hget =>
    intro l' hl'
    rcases List.mem_or_eq_of_mem_set hl' with hold | rfl
    · exact h l' hold
    · exact (h l (List.mem_of_getElem? hget)).step rig.answer

/-- No step gets a loop ahead of the clock, which never goes back. A new loop begins at what the
clock shows. -/
theorem Punctual.step (h : rig.Punctual) (hstep : Step playable rig rig') : rig'.Punctual := by
  cases hstep with
  | move m =>
    cases m with
    | elapse nanoseconds => exact fun l hl => (h l hl).mono (Nat.le_add_right _ _)
    | advance number => exact h.advance number
  | requestStop number => exact h.update number fun l hl => ⟨hl.started, hl.made, hl.calling⟩
  | noteEnd hended => exact h.update _ fun l hl => ⟨hl.started, hl.made, hl.calling⟩
  | @launch pad track settings =>
    have hnew : ∀ l ∈ rig.loops ++ [Loop.new pad track settings rig.clock],
        l.Punctual rig.clock := by
      rw [List.forall_mem_append, List.forall_mem_singleton]
      exact ⟨h, Loop.punctual_new pad track settings rig.clock⟩
    unfold Rig.launch
    split
    · exact h
    · exact hnew
    · exact hnew
  | bookkeeping agenda nextPlayer => exact h

/-- Loops stay punctual, step by step. -/
theorem Punctual.leads (h : rig.Punctual) (hleads : Leads playable rig rig') : rig'.Punctual := by
  induction hleads with
  | refl => exact h
  | tail _ hlast ih => exact ih.step hlast

end Rig

/-- No loop spins: whatever happens, a loop has made the calls of its track at most once for each
ten milliseconds since it was started, if that is how long its cycles take. -/
theorem Performance.made_le (settings : PlaybackSettings) (actuator : Actuator)
    (agenda : List (List Move)) (launches : List (Option String)) (events : List Event) :
    let s := (new settings actuator agenda launches).run events
    ∀ l ∈ s.rig.loops, l.Steady →
      l.made ≤ l.commands.length * ((s.rig.clock - l.started) / (Timing.second / 100) + 1) := by
  intro s l hl hsteady
  obtain ⟨hleads, _, _⟩ := reached settings actuator agenda launches events fun _ _ hoffers => hoffers
  have hpunctual := Rig.Punctual.leads (fun l hl => by cases hl) hleads
  exact (hpunctual l hl).made_le hsteady.floor

end LightShow
