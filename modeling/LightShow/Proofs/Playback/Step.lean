import LightShow.Playback.Rig

namespace LightShow

namespace Loop

/-- The loop plays what it played. It has not come back from its end, a request to stop still holds,
and nobody waited for its end in vain. -/
structure Continues (l l' : Loop) : Prop where
  pad : l'.pad = l.pad
  commands : l'.commands = l.commands
  hasEnded : l.hasEnded = true → l'.hasEnded = true
  stopRequested : l.stopRequested = true → l'.stopRequested = true
  joined : l'.joined = true → l.joined = true ∨ l'.hasEnded = true

theorem Continues.refl (l : Loop) : l.Continues l := ⟨rfl, rfl, id, id, .inl⟩

/-- A loop that goes on twice goes on. -/
theorem Continues.trans {l l' l'' : Loop} (h : l.Continues l') (h' : l'.Continues l'') :
    l.Continues l'' where
  pad := h'.pad.trans h.pad
  commands := h'.commands.trans h.commands
  hasEnded hended := h'.hasEnded (h.hasEnded hended)
  stopRequested hstop := h'.stopRequested (h.stopRequested hstop)
  joined hjoined := by
    rcases h'.joined hjoined with hjoined | hended
    · exact (h.joined hjoined).imp id h'.hasEnded
    · exact .inr hended

/-- The loop goes on without a call: it stands elsewhere now, or more is known of it. -/
structure Retouched (l l' : Loop) : Prop extends Continues l l' where
  made : l'.made = l.made

theorem retouched_self (l : Loop) : l.Retouched l := ⟨.refl l, rfl⟩

/-- A loop that has not ended may come to any phase. -/
theorem retouched_of_busy {l : Loop} (h : l.hasEnded ≠ true) (phase : Phase) :
    l.Retouched { l with phase } :=
  ⟨⟨rfl, rfl, fun hended => absurd hended h, id, .inl⟩, rfl⟩

/-- Of a loop that has ended, it may be noted that somebody has waited for that. -/
theorem retouched_of_ended {l : Loop} (h : l.hasEnded = true) :
    l.Retouched { l with joined := true } :=
  ⟨⟨rfl, rfl, id, id, fun _ => .inr h⟩, rfl⟩

/-- A step makes the next call of a loop that has not ended, or none at all. -/
theorem step_cases (l : Loop) (now : Nat) (answer : Call → Reply) :
    (∃ l', l.step now answer = (l', none) ∧ l.Retouched l') ∨
      ∃ command, l.hasEnded = false ∧ l.command? l.made = some command ∧
        l.step now answer = (l.afterReply (answer (command.call l.pad)),
          some (command.call l.pad, answer (command.call l.pad))) := by
  unfold step
  split
  next command hphase _ =>
    left
    have hbusy : l.hasEnded ≠ true := by simp [hasEnded, hphase]
    split
    · exact ⟨_, rfl, retouched_of_busy hbusy _⟩
    · split
      · exact ⟨_, rfl, retouched_of_busy hbusy _⟩
      · exact ⟨_, rfl, retouched_of_busy hbusy _⟩
  next command hphase _ =>
    left
    have hbusy : l.hasEnded ≠ true := by simp [hasEnded, hphase]
    split
    · exact ⟨_, rfl, retouched_of_busy hbusy _⟩
    · split
      · exact ⟨_, rfl, retouched_self l⟩
      · exact ⟨_, rfl, retouched_of_busy hbusy _⟩
  next command hphase hcommand =>
    right
    exact ⟨command, by simp [hasEnded, hphase], hcommand, rfl⟩
  next => exact .inl ⟨_, rfl, retouched_self l⟩
  next => exact .inl ⟨_, rfl, retouched_self l⟩
  next =>
    have hended : Loop.hasEnded { l with phase := .exited } = true := by simp [hasEnded]
    exact .inl ⟨_, rfl, ⟨rfl, rfl, fun _ => hended, id, .inl⟩, rfl⟩

theorem afterReply_pad (l : Loop) (reply : Reply) : (l.afterReply reply).pad = l.pad := by
  cases reply <;> rfl

theorem afterReply_commands (l : Loop) (reply : Reply) :
    (l.afterReply reply).commands = l.commands := by
  cases reply <;> rfl

/-- A loop goes on with what it plays after a reply, or ends. -/
theorem continues_afterReply {l : Loop} (h : l.hasEnded = false) (reply : Reply) :
    l.Continues (l.afterReply reply) := by
  refine ⟨l.afterReply_pad reply, l.afterReply_commands reply, fun hended => ?_, fun hstop => ?_,
    fun hjoined => ?_⟩
  · rw [h] at hended
    cases hended
  · cases reply <;> exact hstop
  · cases reply <;> exact .inl hjoined

/-- Either the call counts as made, or it was the last one. -/
theorem afterReply_made (l : Loop) (reply : Reply) :
    (l.afterReply reply).made = l.made + 1 ∨
      (l.afterReply reply).made = l.made ∧ (l.afterReply reply).hasEnded = true := by
  cases reply with
  | done => exact .inl rfl
  | failed error => exact .inr ⟨rfl, by simp [afterReply, hasEnded]⟩
  | panicked => exact .inr ⟨rfl, by simp [afterReply, hasEnded]⟩

end Loop

namespace Rig

variable {playable : Pad → Track Binary64 → Prop}

/-- What can happen to a rig: loops go on by themselves, and the control of the show asks one to
stop, takes note of its end, or starts one. That it does only where every earlier loop has ended. -/
inductive Step (playable : Pad → Track Binary64 → Prop) : Rig → Rig → Prop
  | move (rig : Rig) (m : Move) : Step playable rig (rig.move m)
  | requestStop (rig : Rig) (number : Nat) :
    Step playable rig (rig.update number fun l => { l with stopRequested := true })
  | noteEnd {rig : Rig} {number : Nat}
    (hended : ∀ l, rig.loops[number]? = some l → l.hasEnded = true) :
    Step playable rig (rig.update number fun l => { l with joined := true })
  | launch {rig : Rig} {pad : Pad} {track : Track Binary64} (settings : PlaybackSettings)
    (hplayable : playable pad track)
    (hquiet : ∀ l ∈ rig.loops, l.pad = pad → l.hasEnded = true) :
    Step playable rig (rig.launch (Loop.new pad track settings rig.clock)).2
  | bookkeeping (rig : Rig) (agenda : List (List Move)) (nextPlayer : UInt64) :
    Step playable rig { rig with agenda, nextPlayer }

/-- Some steps lead from one rig to the other. -/
inductive Leads (playable : Pad → Track Binary64 → Prop) (rig : Rig) : Rig → Prop
  | refl : Leads playable rig rig
  | tail {mid last : Rig} (hmid : Leads playable rig mid) (hlast : Step playable mid last) :
    Leads playable rig last

/-- What a step does to the loops and to the journal. -/
inductive Effect (playable : Pad → Track Binary64 → Prop) (rig rig' : Rig) : Prop
  | nothing (hloops : rig'.loops = rig.loops) (hjournal : rig'.journal = rig.journal)
  | retouch {n : Nat} {l l' : Loop} (hget : rig.loops[n]? = some l) (hl : l.Retouched l')
    (hloops : rig'.loops = rig.loops.set n l') (hjournal : rig'.journal = rig.journal)
  | call {n : Nat} {l : Loop} {command : Command Binary64} {reply : Reply}
    (hget : rig.loops[n]? = some l) (hbusy : l.hasEnded = false)
    (hcommand : l.command? l.made = some command)
    (hloops : rig'.loops = rig.loops.set n (l.afterReply reply))
    (hjournal : rig'.journal = ⟨n, command.call l.pad, reply⟩ :: rig.journal)
  | launch {pad : Pad} {track : Track Binary64} {settings : PlaybackSettings}
    (hplayable : playable pad track) (hquiet : ∀ l ∈ rig.loops, l.pad = pad → l.hasEnded = true)
    (hloops : rig'.loops = rig.loops ++ [Loop.new pad track settings rig.clock])
    (hjournal : rig'.journal = rig.journal)

/-- If a loop is retouched, that is all that happens. -/
theorem effect_update (rig : Rig) (number : Nat) {f : Loop → Loop}
    (hf : ∀ l : Loop, rig.loops[number]? = some l → l.Retouched (f l)) :
    Effect playable rig (rig.update number f) := by
  cases hget : rig.loops[number]? with
  | none =>
    have hlength : rig.loops.length ≤ number := List.getElem?_eq_none_iff.1 hget
    exact .nothing (List.modify_eq_self hlength) rfl
  | some l =>
    have hloop : Inhabited Loop := ⟨l⟩
    have hset : rig.loops.modify number f = rig.loops.set number (f l) := by
      rw [List.modify_eq_set, hget, Option.getD_some]
    exact .retouch hget (hf l hget) hset rfl

/-- A loop that goes on makes a call or is retouched. -/
theorem effect_advance (rig : Rig) (number : Nat) : Effect playable rig (rig.advance number) := by
  unfold advance
  cases hget : rig.loops[number]? with
  | none => exact .nothing rfl rfl
  | some l =>
    rcases l.step_cases rig.clock rig.answer with
      ⟨l', hstep, hl⟩ | ⟨command, hbusy, hcommand, hstep⟩
    · simp only [hstep]
      exact .retouch hget hl rfl rfl
    · simp only [hstep]
      exact .call hget hbusy hcommand rfl rfl

/-- Every step retouches a loop, has it make a call, starts one or does nothing to loops. -/
theorem Step.effect {rig rig' : Rig} (h : Step playable rig rig') : Effect playable rig rig' := by
  cases h with
  | move m =>
    cases m with
    | elapse nanoseconds => exact .nothing rfl rfl
    | advance number => exact effect_advance rig number
  | requestStop number =>
    exact effect_update rig number fun _ _ => ⟨⟨rfl, rfl, id, fun _ => rfl, .inl⟩, rfl⟩
  | noteEnd hended =>
    exact effect_update rig _ fun l hget => Loop.retouched_of_ended (hended l hget)
  | launch settings hplayable hquiet =>
    unfold Rig.launch
    split
    · exact .nothing rfl rfl
    · exact .launch hplayable hquiet rfl rfl
    · exact .launch hplayable hquiet rfl rfl
  | bookkeeping agenda nextPlayer => exact .nothing rfl rfl

theorem Leads.trans {rig mid last : Rig} (h : Leads playable rig mid)
    (h' : Leads playable mid last) : Leads playable rig last := by
  induction h' with
  | refl => exact h
  | tail _ hlast ih => exact .tail ih hlast

theorem Leads.single {rig rig' : Rig} (h : Step playable rig rig') : Leads playable rig rig' :=
  .tail .refl h

/-- Moves are permitted steps. -/
theorem leads_run (rig : Rig) (moves : List Move) : Leads playable rig (rig.run moves) := by
  induction moves generalizing rig with
  | nil => exact .refl
  | cons m rest ih => exact (Leads.single (.move rig m)).trans (ih (rig.move m))

theorem getElem?_of_set {rig rig' : Rig} {n m : Nat} {l l' k : Loop}
    (hget : rig.loops[n]? = some l) (hloops : rig'.loops = rig.loops.set n l') :
    rig'.loops[m]? = some k ↔ (m = n ∧ k = l') ∨ (m ≠ n ∧ rig.loops[m]? = some k) := by
  have hlt : n < rig.loops.length := (List.getElem?_eq_some_iff.1 hget).1
  rw [hloops, List.getElem?_set]
  by_cases h : n = m
  · subst h
    simp [hlt, eq_comm]
  · simp [h, Ne.symm h]

theorem getElem?_of_append {rig rig' : Rig} {n : Nat} {k l : Loop}
    (hloops : rig'.loops = rig.loops ++ [l]) :
    rig'.loops[n]? = some k ↔ rig.loops[n]? = some k ∨ n = rig.loops.length ∧ k = l := by
  rw [hloops]
  by_cases hlt : n < rig.loops.length
  · have hne : n ≠ rig.loops.length := by omega
    simp [List.getElem?_append_left hlt, hne]
  · have hle : rig.loops.length ≤ n := Nat.le_of_not_lt hlt
    rw [List.getElem?_append_right hle, List.getElem?_singleton, List.getElem?_eq_none hle]
    by_cases heq : n = rig.loops.length
    · simp [heq, eq_comm]
    · have hne : n - rig.loops.length ≠ 0 := by omega
      simp [heq, hne]

/-- A loop that there was before a step is there after it. -/
theorem Effect.forward {rig rig' : Rig} (h : Effect playable rig rig') {n : Nat} {l : Loop}
    (hget : rig.loops[n]? = some l) : ∃ l', rig'.loops[n]? = some l' ∧ l.Continues l' := by
  cases h with
  | nothing hloops _ => exact ⟨l, by rw [hloops, hget], .refl l⟩
  | @retouch m k k' hat hk hloops _ =>
    by_cases hnm : n = m
    · subst hnm
      obtain rfl := Option.some.inj (hget.symm.trans hat)
      exact ⟨k', (getElem?_of_set hat hloops).2 (.inl ⟨rfl, rfl⟩), hk.toContinues⟩
    · exact ⟨l, (getElem?_of_set hat hloops).2 (.inr ⟨hnm, hget⟩), .refl l⟩
  | @call m k command reply hat hbusy _ hloops _ =>
    by_cases hnm : n = m
    · subst hnm
      obtain rfl := Option.some.inj (hget.symm.trans hat)
      exact ⟨_, (getElem?_of_set hat hloops).2 (.inl ⟨rfl, rfl⟩), Loop.continues_afterReply hbusy _⟩
    · exact ⟨l, (getElem?_of_set hat hloops).2 (.inr ⟨hnm, hget⟩), .refl l⟩
  | launch _ _ hloops _ =>
    exact ⟨l, (getElem?_of_append hloops).2 (.inl hget), .refl l⟩

/-- A loop that there is after a step was there before it, or has just been started. -/
theorem Effect.backward {rig rig' : Rig} (h : Effect playable rig rig') {n : Nat} {l' : Loop}
    (hget : rig'.loops[n]? = some l') :
    (∃ l, rig.loops[n]? = some l ∧ l.Continues l') ∨
      n = rig.loops.length ∧ ∃ pad track settings, l' = Loop.new pad track settings rig.clock ∧
        playable pad track ∧ ∀ l ∈ rig.loops, l.pad = pad → l.hasEnded = true := by
  cases h with
  | nothing hloops _ => exact .inl ⟨l', by rw [← hloops, hget], .refl l'⟩
  | retouch hat hk hloops _ =>
    rcases (getElem?_of_set hat hloops).1 hget with ⟨rfl, rfl⟩ | ⟨_, hsame⟩
    · exact .inl ⟨_, hat, hk.toContinues⟩
    · exact .inl ⟨l', hsame, .refl l'⟩
  | call hat hbusy _ hloops _ =>
    rcases (getElem?_of_set hat hloops).1 hget with ⟨rfl, rfl⟩ | ⟨_, hsame⟩
    · exact .inl ⟨_, hat, Loop.continues_afterReply hbusy _⟩
    · exact .inl ⟨l', hsame, .refl l'⟩
  | @launch pad track settings hplayable hquiet hloops hjournal =>
    rcases (getElem?_of_append hloops).1 hget with hsame | ⟨hlast, hnew⟩
    · exact .inl ⟨l', hsame, .refl l'⟩
    · exact .inr ⟨hlast, pad, track, settings, hnew, hplayable, hquiet⟩

/-- No loop is ever lost, and each goes on with what it plays. -/
theorem Leads.forward {rig rig' : Rig} (h : Leads playable rig rig') {n : Nat} {l : Loop}
    (hget : rig.loops[n]? = some l) : ∃ l', rig'.loops[n]? = some l' ∧ l.Continues l' := by
  induction h with
  | refl => exact ⟨l, hget, .refl l⟩
  | tail _ hlast ih =>
    obtain ⟨mid, hmid, hkeep⟩ := ih
    obtain ⟨l', hget', hkeep'⟩ := hlast.effect.forward hmid
    exact ⟨l', hget', hkeep.trans hkeep'⟩

end Rig

end LightShow
