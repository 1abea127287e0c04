import LightShow.Proofs.Playback.Ending

namespace LightShow

namespace Rig

/-- The calls of a loop with their replies, first to last. -/
def dealings (rig : Rig) (n : Nat) : List (Call × Reply) :=
  (rig.journal.reverse.filter fun entry => entry.loop = n).map fun entry =>
    (entry.call, entry.reply)

/-- Whatever has happened to a loop between two rigs is an honest run of it, and all calls of the
run are in the journal. A loop that has not been started has made none. -/
structure Carries (awaited : Prop) (n : Nat) (before after : Rig) : Prop where
  present : ∀ l, before.loops[n]? = some l → ∃ deals l', after.loops[n]? = some l' ∧
    l.Runs awaited deals l' ∧ after.dealings n = before.dealings n ++ deals
  absent : after.loops[n]? = none → after.dealings n = before.dealings n

variable {awaited awaited' : Prop} {n : Nat} {rig mid last : Rig} {l : Loop}

/-- A loop to which nothing has happened has had an honest run. -/
theorem Carries.of_same (hloop : last.loops[n]? = rig.loops[n]?)
    (hdealings : last.dealings n = rig.dealings n) : rig.Carries awaited n last :=
  ⟨fun l hget => ⟨[], l, hloop.trans hget, .refl, by rw [hdealings, List.append_nil]⟩,
    fun _ => hdealings⟩

theorem Carries.refl (rig : Rig) : rig.Carries awaited n rig := .of_same rfl rfl

theorem Carries.getElem?_eq_none (h : rig.Carries awaited n last)
    (hnone : last.loops[n]? = none) : rig.loops[n]? = none := by
  cases hget : rig.loops[n]? with
  | none => rfl
  | some l =>
    obtain ⟨_, l', hget', _⟩ := h.present l hget
    cases hget'.symm.trans hnone

/-- Honest runs may be put together. -/
theorem Carries.trans (h : rig.Carries awaited n mid) (h' : mid.Carries awaited n last) :
    rig.Carries awaited n last := by
  refine ⟨fun l hget => ?_, fun hnone => ?_⟩
  · obtain ⟨deals, l', hget', hruns, hdealings⟩ := h.present l hget
    obtain ⟨deals', l'', hget'', hruns', hdealings'⟩ := h'.present l' hget'
    exact ⟨deals ++ deals', l'', hget'', hruns.trans hruns',
      by rw [hdealings', hdealings, List.append_assoc]⟩
  · rw [h'.absent hnone, h.absent (h'.getElem?_eq_none hnone)]

/-- It does no harm to allow for waiting where there was none. -/
theorem Carries.mono (h : rig.Carries awaited n last) (himp : awaited → awaited') :
    rig.Carries awaited' n last := by
  refine ⟨fun l hget => ?_, h.absent⟩
  obtain ⟨deals, l', hget', hruns, hdealings⟩ := h.present l hget
  exact ⟨deals, l', hget', hruns.mono himp, hdealings⟩

/-- A new entry of the journal is the last of its own loop and no concern of the others. -/
theorem dealings_cons {entry : JournalEntry} (h : last.journal = entry :: rig.journal) (n : Nat) :
    last.dealings n =
      rig.dealings n ++ if entry.loop = n then [(entry.call, entry.reply)] else [] := by
  rw [dealings, dealings, h, List.reverse_cons, List.filter_append, List.map_append]
  by_cases hloop : entry.loop = n <;> simp [hloop]

/-- A step adds the call that the loop makes, if it makes one, to its own calls. -/
theorem dealings_advance {k : Loop} {number : Nat} (hnumber : rig.loops[number]? = some k) (n : Nat) :
    (rig.advance number).dealings n =
      rig.dealings n ++ if number = n then (k.step rig.clock rig.answer).2.toList else [] := by
  cases hmade : (k.step rig.clock rig.answer).2 with
  | none =>
    have hjournal : (rig.advance number).journal = rig.journal := by
      simp only [advance, hnumber, hmade]
    simp [dealings, hjournal]
  | some made =>
    have hjournal : (rig.advance number).journal = ⟨number, made.1, made.2⟩ :: rig.journal := by
      simp only [advance, hnumber, hmade]
    exact dealings_cons hjournal n

/-- A step of a loop is an honest run of that loop and nothing to the others. -/
theorem carries_advance (rig : Rig) (number : Nat) :
    rig.Carries awaited n (rig.advance number) := by
  cases hnumber : rig.loops[number]? with
  | none =>
    have hsame : rig.advance number = rig := by
      rw [advance, hnumber]
    rw [hsame]
    exact .refl rig
  | some k =>
    have hdealings := dealings_advance hnumber n
    by_cases heq : number = n
    · subst heq
      have hget := getElem?_advance hnumber
      refine ⟨fun l hl => ?_, fun hnone => nomatch hget.symm.trans hnone⟩
      obtain rfl := Option.some.inj (hnumber.symm.trans hl)
      refine ⟨_, _, hget, Loop.Runs.refl.step rig.clock rig.answer, ?_⟩
      rw [hdealings, if_pos rfl, List.nil_append]
    · refine .of_same ?_ ?_
      · simp only [advance, hnumber, List.getElem?_set, if_neg heq]
      · rw [hdealings, if_neg heq, List.append_nil]

/-- A move of the rig is an honest run of every loop. -/
theorem carries_move (rig : Rig) (m : Move) : rig.Carries awaited n (rig.move m) := by
  cases m with
  | elapse nanoseconds => exact .of_same rfl rfl
  | advance number => exact rig.carries_advance number

/-- Moves are an honest run of every loop. -/
theorem carries_run (rig : Rig) (moves : List Move) : rig.Carries awaited n (rig.run moves) := by
  induction moves generalizing rig with
  | nil => exact .refl rig
  | cons m rest ih => exact (rig.carries_move m).trans (ih (rig.move m))

theorem carries_update_of_ne {number : Nat} (hne : number ≠ n) (rig : Rig) (f : Loop → Loop) :
    rig.Carries awaited n (rig.update number f) :=
  .of_same (List.getElem?_modify_ne f rig.loops hne) rfl

theorem getElem?_update (hget : rig.loops[n]? = some l) (f : Loop → Loop) :
    (rig.update n f).loops[n]? = some (f l) := by
  rw [update, List.getElem?_modify_eq, hget]
  rfl

/-- To ask a loop to stop belongs to an honest run. -/
theorem carries_requestStop (rig : Rig) (number : Nat) :
    rig.Carries awaited n (rig.update number fun l => { l with stopRequested := true }) := by
  by_cases heq : number = n
  · subst heq
    exact ⟨fun l hget => ⟨[], _, getElem?_update hget _, Loop.Runs.refl.ask,
      (List.append_nil _).symm⟩, fun _ => rfl⟩
  · exact carries_update_of_ne heq rig _

/-- A new loop is no concern of the others, and has made no call itself. -/
theorem carries_launch (rig : Rig) (l : Loop) : rig.Carries awaited n (rig.launch l).2 := by
  unfold launch
  split
  · exact .of_same rfl rfl
  · exact ⟨fun k hget => ⟨[], k, (getElem?_of_append rfl).2 (.inl hget), .refl,
      (List.append_nil _).symm⟩, fun _ => rfl⟩
  · exact ⟨fun k hget => ⟨[], k, (getElem?_of_append rfl).2 (.inl hget), .refl,
      (List.append_nil _).symm⟩, fun _ => rfl⟩

/-- A loop that is launched gets the next number, and no call is made by that. -/
theorem of_launch {number : Nat} (h : rig.launch l = (.ok number, last)) :
    number = rig.loops.length ∧ last.loops = rig.loops ++ [l] ∧ last.journal = rig.journal := by
  unfold launch at h
  split at h <;> cases h <;> exact ⟨rfl, rfl, rfl⟩

theorem run_interlude (rig : Rig) : (Control.interlude.run rig).2 =
    match rig.agenda with
    | [] => rig
    | moves :: rest => { rig with agenda := rest }.run moves := rfl

/-- While the control of the show pauses, every loop has an honest run. -/
theorem carries_interlude (rig : Rig) :
    rig.Carries awaited n (Control.interlude.run rig).2 := by
  rw [run_interlude]
  cases rig.agenda with
  | nil => exact .refl rig
  | cons moves rest =>
    have hrest : rig.Carries awaited n { rig with agenda := rest } := .of_same rfl rfl
    exact hrest.trans (carries_run _ moves)

theorem length_loops_run (rig : Rig) (moves : List Move) :
    (rig.run moves).loops.length = rig.loops.length := by
  induction moves generalizing rig with
  | nil => rfl
  | cons m rest ih =>
    refine (ih (rig.move m)).trans ?_
    cases m with
    | elapse nanoseconds => rfl
    | advance number => exact rig.length_loops_advance number

/-- No loop is started while the control of the show rests. -/
theorem getElem?_interlude_eq_none (hnone : rig.loops[n]? = none) :
    (Control.interlude.run rig).2.loops[n]? = none := by
  rw [List.getElem?_eq_none_iff] at hnone ⊢
  rw [run_interlude]
  cases rig.agenda with
  | nil => exact hnone
  | cons moves rest => exact Nat.le_trans (Nat.le_of_eq (length_loops_run _ moves)) hnone

/-- Two steps bring a loop that has been asked to stop to its end. -/
theorem ends_of_stopRequested (awaited : Prop) (hget : rig.loops[n]? = some l)
    (hstop : l.stopRequested = true) :
    ∃ deals l', ((rig.advance n).advance n).loops[n]? = some l' ∧ l.Runs awaited deals l' ∧
      ((rig.advance n).advance n).dealings n = rig.dealings n ++ deals ∧ l'.hasEnded = true := by
  let first := rig.advance n
  have hfirst : first.loops[n]? = some (l.step rig.clock rig.answer).1 := getElem?_advance hget
  have hsecond : (first.advance n).loops[n]? =
      some ((l.step rig.clock rig.answer).1.step first.clock first.answer).1 :=
    getElem?_advance hfirst
  obtain ⟨deals, l', hget', hruns, hdealings⟩ :=
    ((rig.carries_advance n).trans (first.carries_advance n)).present l hget
  refine ⟨deals, l', hget', hruns, hdealings, ?_⟩
  obtain rfl := Option.some.inj (hsecond.symm.trans hget')
  rcases Loop.step_of_stopRequested hstop rig.clock rig.answer with hended | ⟨hstop, hphase⟩
  · exact Loop.hasEnded_step hended _ _
  · exact Loop.hasEnded_step_of_checking hstop hphase _ _

end Rig

open Control Rig

namespace LoopRef

variable {awaited : Prop} {n : Nat} {start rig : Rig}

/-- A start is nothing to the loops that there are, but for what they do meanwhile. -/
theorem carries_start {pad source : Pad} {program : Program Binary64}
    {settings : PlaybackSettings} :
    Brings (start.Carries awaited n) (LoopRef.start pad program source settings)
      (start.Carries awaited n) fun _ => True := by
  have hinterlude : Brings (start.Carries awaited n) interlude (start.Carries awaited n)
      fun _ => True := fun rig hrig => ⟨hrig.trans rig.carries_interlude, trivial⟩
  unfold LoopRef.start
  split
  · exact .pure trivial
  next track _ =>
    have hlaunch : Brings (start.Carries awaited n)
        (modifyGet fun rig => rig.launch (.new pad track settings rig.clock))
        (start.Carries awaited n) fun _ => True :=
      fun rig hrig => ⟨hrig.trans (rig.carries_launch _), trivial⟩
    refine hinterlude.bind fun _ _ => hlaunch.bind fun answer _ => ?_
    cases answer with
    | ok number => exact .pure trivial
    | error description => exact .pure trivial

theorem run_requestStop (ref : LoopRef) (rig : Rig) :
    (ref.requestStop.run rig).2 =
      (interlude.run rig).2.update ref.number fun l => { l with stopRequested := true } := rfl

/-- To wait for a loop is to let it run until it has ended, and to ask whether it was brought down
unless somebody has done so before. -/
theorem run_join (ref : LoopRef) (rig : Rig) :
    ref.join.run rig =
      match (interlude.run rig).2.loops[ref.number]? with
      | none => (false, (interlude.run rig).2)
      | some l =>
        if l.joined then (false, (interlude.run rig).2)
        else
          let rig := ((interlude.run rig).2.advance ref.number).advance ref.number
          (match rig.loops[ref.number]? with
            | some l => decide (l.phase = .panicked)
            | none => false,
          rig.update ref.number fun l => { l with joined := true }) := by
  unfold join
  rfl

/-- While one loop is waited for, the others have an honest run. -/
theorem carries_join_of_ne {ref : LoopRef} (hne : ref.number ≠ n) (rig : Rig) :
    rig.Carries awaited n (ref.join.run rig).2 := by
  rw [run_join]
  have hinterlude : rig.Carries awaited n (interlude.run rig).2 := rig.carries_interlude
  split
  · exact hinterlude
  · split
    · exact hinterlude
    · exact ((hinterlude.trans (carries_advance _ _)).trans (carries_advance _ _)).trans
        (carries_update_of_ne hne _ _)

/-- To wait for a loop that has been asked to stop brings it to its end, and tells whether it was
brought down, unless somebody has waited before. -/
theorem join_ends {ref : LoopRef} {l : Loop} (hget : rig.loops[ref.number]? = some l)
    (hstop : l.stopRequested = true) :
    ∃ deals l', (ref.join.run rig).2.loops[ref.number]? = some l' ∧ l.Runs True deals l' ∧
      (ref.join.run rig).2.dealings ref.number = rig.dealings ref.number ++ deals ∧
      l'.joined = true ∧ ((l.joined = true → l.hasEnded = true) → l'.hasEnded = true) ∧
      (ref.join.run rig).1 = decide (l.joined = false ∧ l'.phase = .panicked) := by
  have hinterlude : rig.Carries False ref.number (interlude.run rig).2 := rig.carries_interlude
  obtain ⟨deals, l₀, hget₀, hruns, hdealings⟩ := hinterlude.present l hget
  have hjoined : l₀.joined = l.joined := hruns.joined_eq id
  have hruns₀ : l.Runs True deals l₀ := hruns.mono False.elim
  cases hwaited : l₀.joined with
  | true =>
    have hrun : ref.join.run rig = (false, (interlude.run rig).2) := by
      simp only [run_join, hget₀, hwaited, if_true]
    rw [hrun]
    refine ⟨deals, l₀, hget₀, hruns₀, hdealings, hwaited, fun hended => ?_, ?_⟩
    · exact hruns₀.joined_ended hended hwaited
    · rw [← hjoined, hwaited]
      rfl
  | false =>
    obtain ⟨deals', l', hget', hruns', hdealings', hended⟩ :=
      ends_of_stopRequested True hget₀ (hruns.continues.stopRequested hstop)
    have hrun : ref.join.run rig = (decide (l'.phase = .panicked),
        (((interlude.run rig).2.advance ref.number).advance ref.number).update ref.number
          fun l => { l with joined := true }) := by
      simp only [run_join, hget₀, hwaited, hget', Bool.false_eq_true, if_false]
    rw [hrun]
    refine ⟨deals ++ deals', { l' with joined := true }, getElem?_update hget' _,
      (hruns₀.trans hruns').await trivial hended, ?_, rfl, fun _ => hended, ?_⟩
    · rw [← List.append_assoc, ← hdealings]
      exact hdealings'
    · simp [← hjoined, hwaited]

/-- To stop a loop is to ask it, to wait for its end and to report. -/
theorem run_stop (ref : LoopRef) (rig : Rig) :
    ref.stop.run rig =
      let answer := ref.join.run (ref.requestStop.run rig).2
      (if answer.1 then .error (.loopPanicked ref.pad)
        else match ref.fault answer.2 with
          | some error => .error (.actuator error)
          | none => .ok (),
        answer.2) := by
  let report (panicked : Bool) : Control (Except PlaybackError Unit) := do
    if panicked then return .error (.loopPanicked ref.pad)
    match ref.fault (← get) with
    | some error => return .error (.actuator error)
    | none => return .ok ()
  have hrun : ref.stop.run rig = (report (ref.join.run (ref.requestStop.run rig).2).1).run
      (ref.join.run (ref.requestStop.run rig).2).2 := rfl
  rw [hrun]
  rcases ref.join.run (ref.requestStop.run rig).2 with ⟨panicked, after⟩
  cases panicked with
  | true => rfl
  | false =>
    simp only [report, Bool.false_eq_true, if_false, StateT.run_bind, StateT.run_get, pure_bind]
    cases ref.fault after <;> rfl

/-- To ask a loop to stop leaves its end to come. -/
theorem requestStop_asks {ref : LoopRef} {l : Loop} (hget : rig.loops[ref.number]? = some l) :
    ∃ deals l', (ref.requestStop.run rig).2.loops[ref.number]? =
        some { l' with stopRequested := true } ∧
      l.Runs False deals l' ∧
      (ref.requestStop.run rig).2.dealings ref.number = rig.dealings ref.number ++ deals := by
  have hinterlude : rig.Carries False ref.number (interlude.run rig).2 := rig.carries_interlude
  obtain ⟨deals, l', hget', hruns, hdealings⟩ := hinterlude.present l hget
  exact ⟨deals, l', getElem?_update hget' _, hruns, hdealings⟩

theorem fault_eq {ref : LoopRef} {l : Loop} (hget : rig.loops[ref.number]? = some l) :
    ref.fault rig = l.fault := by
  rw [fault, state?, hget]
  rfl

/-- To stop a loop brings it to its end. The answer tells whether it was brought down, unless it has
been stopped before, or else the error of the call that ended it. -/
theorem stop_ends {ref : LoopRef} {l : Loop} (hget : rig.loops[ref.number]? = some l) :
    ∃ deals l', (ref.stop.run rig).2.loops[ref.number]? = some l' ∧ l.Runs True deals l' ∧
      (ref.stop.run rig).2.dealings ref.number = rig.dealings ref.number ++ deals ∧
      l'.joined = true ∧ ((l.joined = true → l.hasEnded = true) → l'.hasEnded = true) ∧
      (ref.stop.run rig).1 =
        if l.joined = false ∧ l'.phase = .panicked then .error (.loopPanicked ref.pad)
        else match l'.fault with
          | some error => .error (.actuator error)
          | none => .ok () := by
  obtain ⟨deals, l₀, hget₀, hruns, hdealings⟩ := requestStop_asks hget
  have hjoined : l₀.joined = l.joined := hruns.joined_eq id
  have hasked : l.Runs True deals { l₀ with stopRequested := true } :=
    (hruns.mono False.elim).ask
  obtain ⟨deals', l', hget', hruns', hdealings', hwaited, hended, hanswer⟩ := join_ends hget₀ rfl
  have hfault : ref.fault (ref.join.run (ref.requestStop.run rig).2).2 = l'.fault :=
    fault_eq hget'
  rw [run_stop]
  refine ⟨deals ++ deals', l', hget', hasked.trans hruns', ?_, hwaited,
    fun h => hended (hasked.joined_ended h), ?_⟩
  · rw [← List.append_assoc, ← hdealings]
    exact hdealings'
  · simp only [hanswer, hjoined, hfault, decide_eq_true_eq]

/-- While a loop is stopped, it makes one call at most from the time on at which it has been
asked to. -/
theorem dealings_stop {ref : LoopRef} {l : Loop} (hget : rig.loops[ref.number]? = some l) :
    ∃ deals, deals.length ≤ 1 ∧ (ref.stop.run rig).2.dealings ref.number =
      (ref.requestStop.run rig).2.dealings ref.number ++ deals := by
  obtain ⟨_, l₀, hget₀, _⟩ := requestStop_asks hget
  obtain ⟨deals, _, _, hruns, hdealings, _⟩ := join_ends hget₀ rfl
  rw [run_stop]
  exact ⟨deals, (hruns.of_stopRequested rfl).1, hdealings⟩

/-- While one loop is stopped, the others have an honest run. -/
theorem carries_stop_of_ne {ref : LoopRef} (hne : ref.number ≠ n) (rig : Rig) :
    rig.Carries awaited n (ref.stop.run rig).2 := by
  rw [run_stop]
  exact (rig.carries_interlude.trans (carries_requestStop _ ref.number)).trans
    (carries_join_of_ne hne _)

/-- To stop a loop that was never started does nothing to any. -/
theorem carries_stop_of_absent {ref : LoopRef} (hnone : rig.loops[ref.number]? = none) :
    rig.Carries awaited n (ref.stop.run rig).2 := by
  have hasked : (ref.requestStop.run rig).2.loops[ref.number]? = none := by
    rw [run_requestStop, update, List.getElem?_modify_eq, getElem?_interlude_eq_none hnone]
    rfl
  rw [run_stop]
  simp only [run_join, getElem?_interlude_eq_none hasked]
  exact (rig.carries_interlude.trans (carries_requestStop _ ref.number)).trans
    (carries_interlude _)

end LoopRef

end LightShow
