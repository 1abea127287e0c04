import LightShow.Playback.Player
import LightShow.Proofs.Playback.Control

namespace LightShow

namespace Loop

/-- A loop that has been asked to stop makes one call at most before it comes to its end. -/
theorem step_of_stopRequested {l : Loop} (h : l.stopRequested = true) (now : Nat)
    (answer : Call → Reply) : (l.step now answer).1.hasEnded = true ∨
      (l.step now answer).1.stopRequested = true ∧ (l.step now answer).1.phase = .checking := by
  unfold step
  split
  next => simp [h, hasEnded]
  next => simp [h, hasEnded]
  next command _ _ =>
    dsimp only
    cases answer (command.call l.pad) with
    | done => exact .inr ⟨h, rfl⟩
    | failed error => simp [afterReply, hasEnded]
    | panicked => simp [afterReply, hasEnded]
  next hphase => simp [hphase, hasEnded]
  next hphase => simp [hphase, hasEnded]
  next => simp [hasEnded]

/-- A loop that finds itself asked to stop ends without another call. -/
theorem hasEnded_step_of_checking {l : Loop} (h : l.stopRequested = true)
    (hphase : l.phase = .checking) (now : Nat) (answer : Call → Reply) :
    (l.step now answer).1.hasEnded = true := by
  unfold step
  rw [hphase]
  cases l.command? l.made with
  | none => simp [hasEnded]
  | some command => simp [h, hasEnded]

/-- A loop that has ended stays so. -/
theorem hasEnded_step {l : Loop} (h : l.hasEnded = true) (now : Nat) (answer : Call → Reply) :
    (l.step now answer).1.hasEnded = true := by
  rcases l.step_cases now answer with ⟨l', hstep, hl⟩ | ⟨_, hbusy, _⟩
  · rw [hstep]
    exact hl.hasEnded h
  · rw [h] at hbusy
    cases hbusy

end Loop

/-- Every pad of the player is bound to a track that may be played on it. -/
def Player.Sound (playable : Pad → Track Binary64 → Prop) (player : Player) : Prop :=
  ∀ p source, player.bindings.get p = some source →
    ∃ track, player.program.track source = some track ∧ playable p track

/-- The loop plays the track to which the player binds the pad. -/
def LoopRef.Plays (ref : LoopRef) (player : Player) (p : Pad) (rig : Rig) : Prop :=
  ref.pad = p ∧ ∃ l source track, rig.loops[ref.number]? = some l ∧ l.pad = p ∧
    player.bindings.get p = some source ∧ player.program.track source = some track ∧
    l.commands = track.commands

/-- The loop has come to its end. -/
def LoopRef.Ended (ref : LoopRef) (rig : Rig) : Prop :=
  ∃ l, rig.loops[ref.number]? = some l ∧ l.hasEnded = true

/-- Some players have the loops in their hands: every loop that has not ended is one of theirs. If
threads are always to be had, none is refused. -/
structure Rig.HeldBy (playable : Pad → Track Binary64 → Prop) (generous : Prop)
    (players : List Player) (rig : Rig) : Prop where
  launches : generous → rig.launches = []
  joined : ∀ (n : Nat) (l : Loop), rig.loops[n]? = some l → l.joined = true → l.hasEnded = true
  sound : ∀ player ∈ players, player.Sound playable
  plays : ∀ player ∈ players, ∀ p ref, player.loops.get p = some ref → ref.Plays player p rig
  held : ∀ (n : Nat) (l : Loop), rig.loops[n]? = some l → l.hasEnded = false →
    ∃ player ∈ players, ∃ ref, player.loops.get l.pad = some ref ∧ ref.number = n

namespace Rig

variable {playable : Pad → Track Binary64 → Prop} {generous : Prop} {players : List Player}

/-- A step that starts nothing leaves the loops in the same hands. -/
theorem HeldBy.of_step {rig rig' : Rig} (h : HeldBy playable generous players rig)
    (hstep : Step playable rig rig') (hlength : rig'.loops.length = rig.loops.length)
    (hlaunches : rig'.launches = rig.launches) : HeldBy playable generous players rig' := by
  have hold : ∀ (n : Nat) (l : Loop), rig'.loops[n]? = some l →
      ∃ l0, rig.loops[n]? = some l0 ∧ l0.Continues l := by
    intro n l hget
    rcases hstep.effect.backward hget with hold | ⟨hn, _⟩
    · exact hold
    · have hlt := (List.getElem?_eq_some_iff.1 hget).1
      omega
  refine ⟨fun hgenerous => ?_, fun n l hget hjoined => ?_, h.sound,
    fun player hplayer p ref href => ?_, fun n l hget hbusy => ?_⟩
  · rw [hlaunches]
    exact h.launches hgenerous
  · obtain ⟨l0, hget0, hkeep⟩ := hold n l hget
    rcases hkeep.joined hjoined with hjoined0 | hended
    · exact hkeep.hasEnded (h.joined n l0 hget0 hjoined0)
    · exact hended
  · obtain ⟨hpad, l, source, track, hget, hloop, hbinding, htrack, hcommands⟩ :=
      h.plays player hplayer p ref href
    obtain ⟨l', hget', hkeep⟩ := hstep.effect.forward hget
    exact ⟨hpad, l', source, track, hget', hkeep.pad.trans hloop, hbinding, htrack,
      hkeep.commands.trans hcommands⟩
  · obtain ⟨l0, hget0, hkeep⟩ := hold n l hget
    have hbusy0 : l0.hasEnded = false := by
      cases hended : l0.hasEnded with
      | false => rfl
      | true => rw [hkeep.hasEnded hended] at hbusy; cases hbusy
    rw [hkeep.pad]
    exact h.held n l0 hget0 hbusy0

theorem length_loops_update (rig : Rig) (number : Nat) (f : Loop → Loop) :
    (rig.update number f).loops.length = rig.loops.length :=
  List.length_modify f rig.loops number

theorem length_loops_advance (rig : Rig) (number : Nat) :
    (rig.advance number).loops.length = rig.loops.length := by
  unfold advance
  split
  · rfl
  · exact List.length_set

theorem launches_advance (rig : Rig) (number : Nat) :
    (rig.advance number).launches = rig.launches := by
  unfold advance
  split <;> rfl

/-- Loops that go on by themselves stay in the same hands. -/
theorem HeldBy.move {rig : Rig} (h : HeldBy playable generous players rig) (m : Move) :
    HeldBy playable generous players (rig.move m) := by
  refine h.of_step (.move rig m) ?_ ?_
  · cases m with
    | elapse nanoseconds => rfl
    | advance number => exact rig.length_loops_advance number
  · cases m with
    | elapse nanoseconds => rfl
    | advance number => exact rig.launches_advance number

/-- However loops go on, they stay in the same hands. -/
theorem HeldBy.run {rig : Rig} (h : HeldBy playable generous players rig) (moves : List Move) :
    HeldBy playable generous players (rig.run moves) := by
  induction moves generalizing rig with
  | nil => exact h
  | cons m rest ih => exact ih (h.move m)

/-- The loop that goes on takes one step of its own. -/
theorem getElem?_advance {rig : Rig} {n : Nat} {l : Loop} (hget : rig.loops[n]? = some l) :
    (rig.advance n).loops[n]? = some (l.step rig.clock rig.answer).1 := by
  have hlt : n < rig.loops.length := (List.getElem?_eq_some_iff.1 hget).1
  unfold advance
  rw [hget]
  exact List.getElem?_set_self hlt

end Rig

/-- A loop that has ended has not come back, whatever steps were taken. -/
theorem LoopRef.Ended.leads {ref : LoopRef} {playable : Pad → Track Binary64 → Prop}
    {rig rig' : Rig} (h : ref.Ended rig) (hleads : Rig.Leads playable rig rig') :
    ref.Ended rig' := by
  obtain ⟨l, hget, hended⟩ := h
  obtain ⟨l', hget', hkeep⟩ := hleads.forward hget
  exact ⟨l', hget', hkeep.hasEnded hended⟩

namespace Rig

variable {playable : Pad → Track Binary64 → Prop} {generous : Prop}

/-- Players that hold no loop may come and go. -/
theorem HeldBy.of_subset {players players' : List Player} {rig : Rig}
    (h : HeldBy playable generous players rig) (hsub : ∀ q ∈ players', q ∈ players)
    (hrest : ∀ q ∈ players, q ∈ players' ∨ ∀ p, q.loops.get p = none) :
    HeldBy playable generous players' rig := by
  refine ⟨h.launches, h.joined, fun q hq => h.sound q (hsub q hq),
    fun q hq => h.plays q (hsub q hq), fun n l hget hbusy => ?_⟩
  obtain ⟨q, hq, ref, href, hnumber⟩ := h.held n l hget hbusy
  rcases hrest q hq with hmem | hsilent
  · exact ⟨q, hmem, ref, href, hnumber⟩
  · rw [hsilent] at href
    cases href

/-- A player without loops may join those that hold them. -/
theorem HeldBy.cons {player : Player} {players : List Player} {rig : Rig}
    (h : HeldBy playable generous players rig) (hsound : player.Sound playable)
    (hsilent : ∀ p, player.loops.get p = none) :
    HeldBy playable generous (player :: players) rig := by
  refine ⟨h.launches, h.joined, fun q hq => ?_, fun q hq p ref href => ?_, fun n l hget hbusy => ?_⟩
  · rcases List.mem_cons.1 hq with rfl | hq
    · exact hsound
    · exact h.sound q hq
  · rcases List.mem_cons.1 hq with rfl | hq
    · rw [hsilent] at href
      cases href
    · exact h.plays q hq p ref href
  · obtain ⟨q, hq, ref, href, hnumber⟩ := h.held n l hget hbusy
    exact ⟨q, List.mem_cons_of_mem _ hq, ref, href, hnumber⟩

/-- A player may let go of loops that have ended. -/
theorem HeldBy.release {player : Player} {others : List Player} {rig : Rig}
    (h : HeldBy playable generous (player :: others) rig) {loops : PerPad (Option LoopRef)}
    (hkept : ∀ p ref, loops.get p = some ref → player.loops.get p = some ref)
    (hdropped : ∀ p ref, player.loops.get p = some ref →
      loops.get p = some ref ∨ ref.Ended rig) :
    HeldBy playable generous ({ player with loops } :: others) rig := by
  refine ⟨h.launches, h.joined, fun q hq => ?_, fun q hq p ref href => ?_, fun n l hget hbusy => ?_⟩
  · rcases List.mem_cons.1 hq with rfl | hq
    · exact h.sound player List.mem_cons_self
    · exact h.sound q (List.mem_cons_of_mem _ hq)
  · rcases List.mem_cons.1 hq with rfl | hq
    · exact h.plays player List.mem_cons_self p ref (hkept p ref href)
    · exact h.plays q (List.mem_cons_of_mem _ hq) p ref href
  · obtain ⟨q, hq, ref, href, hnumber⟩ := h.held n l hget hbusy
    rcases List.mem_cons.1 hq with rfl | hq
    · rcases hdropped _ _ href with hloops | ⟨l', hget', hended⟩
      · exact ⟨_, List.mem_cons_self, ref, hloops, hnumber⟩
      · rw [hnumber, hget] at hget'
        cases hget'
        rw [hbusy] at hended
        cases hended
    · exact ⟨q, List.mem_cons_of_mem _ hq, ref, href, hnumber⟩

/-- No loop is at work on a pad on which no player has one. -/
theorem HeldBy.quiet {players : List Player} {rig : Rig}
    (h : HeldBy playable generous players rig) {pad : Pad}
    (hfree : ∀ q ∈ players, q.loops.get pad = none) :
    ∀ l ∈ rig.loops, l.pad = pad → l.hasEnded = true := by
  intro l hl hpad
  obtain ⟨n, hget⟩ := List.mem_iff_getElem?.1 hl
  cases hbusy : l.hasEnded with
  | true => rfl
  | false =>
    obtain ⟨q, hq, ref, href, _⟩ := h.held n l hget hbusy
    rw [hpad, hfree q hq] at href
    cases href

/-- A loop that is added for a player is in that player's hands. -/
theorem HeldBy.append {player : Player} {others : List Player} {rig rig' : Rig}
    (h : HeldBy playable generous (player :: others) rig) {pad source : Pad}
    {track : Track Binary64} {settings : PlaybackSettings} {now : Nat}
    (hbinding : player.bindings.get pad = some source)
    (htrack : player.program.track source = some track)
    (hfree : ∀ q ∈ player :: others, q.loops.get pad = none)
    (hloops : rig'.loops = rig.loops ++ [Loop.new pad track settings now])
    (hlaunches : generous → rig'.launches = []) :
    HeldBy playable generous ({ player with
      loops := player.loops.set pad (some ⟨rig.loops.length, pad⟩) } :: others) rig' := by
  have hnew : rig'.loops[rig.loops.length]? = some (Loop.new pad track settings now) :=
    (getElem?_of_append hloops).2 (.inr ⟨rfl, rfl⟩)
  have hplays : ∀ q ∈ player :: others, ∀ p ref, q.loops.get p = some ref → ref.Plays q p rig' := by
    intro q hq p ref href
    obtain ⟨hpad, l, s, t, hget, hrest⟩ := h.plays q hq p ref href
    exact ⟨hpad, l, s, t, (getElem?_of_append hloops).2 (.inl hget), hrest⟩
  refine ⟨hlaunches, fun n l hget hjoined => ?_, fun q hq => ?_, fun q hq p ref href => ?_,
    fun n l hget hbusy => ?_⟩
  · rcases (getElem?_of_append hloops).1 hget with hget | ⟨_, rfl⟩
    · exact h.joined n l hget hjoined
    · cases hjoined
  · rcases List.mem_cons.1 hq with rfl | hq
    · exact h.sound player List.mem_cons_self
    · exact h.sound q (List.mem_cons_of_mem _ hq)
  · rcases List.mem_cons.1 hq with rfl | hq
    · rcases PerPad.get_set_eq_some_iff.1 href with ⟨rfl, ⟨⟩⟩ | ⟨_, href⟩
      · exact ⟨rfl, _, source, track, hnew, rfl, hbinding, htrack, rfl⟩
      · exact hplays player List.mem_cons_self p ref href
    · exact hplays q (List.mem_cons_of_mem _ hq) p ref href
  · rcases (getElem?_of_append hloops).1 hget with hget | ⟨rfl, rfl⟩
    · obtain ⟨q, hq, ref, href, hnumber⟩ := h.held n l hget hbusy
      rcases List.mem_cons.1 hq with rfl | hq
      · have hne : l.pad ≠ pad := by
          rintro rfl
          rw [hfree q List.mem_cons_self] at href
          cases href
        refine ⟨_, List.mem_cons_self, ref, ?_, hnumber⟩
        rw [← href]
        exact PerPad.get_set_of_ne _ _ hne
      · exact ⟨q, List.mem_cons_of_mem _ hq, ref, href, hnumber⟩
    · exact ⟨_, List.mem_cons_self, _, PerPad.get_set_self _ _ _, rfl⟩

end Rig

/-- The loop has been asked to stop. -/
def LoopRef.Stopping (ref : LoopRef) (rig : Rig) : Prop :=
  ∃ l, rig.loops[ref.number]? = some l ∧ l.stopRequested = true

/-- A request to stop still holds, whatever steps were taken. -/
theorem LoopRef.Stopping.leads {ref : LoopRef} {playable : Pad → Track Binary64 → Prop}
    {rig rig' : Rig} (h : ref.Stopping rig) (hleads : Rig.Leads playable rig rig') :
    ref.Stopping rig' := by
  obtain ⟨l, hget, hstop⟩ := h
  obtain ⟨l', hget', hkeep⟩ := hleads.forward hget
  exact ⟨l', hget', hkeep.stopRequested hstop⟩

section Control

open Control Rig

variable {playable : Pad → Track Binary64 → Prop} {generous : Prop} {players : List Player}

/-- Between the parts of an action the loops stay in the same hands. -/
theorem Control.interlude_spec :
    Spec playable (HeldBy playable generous players) interlude
      fun _ => HeldBy playable generous players := by
  refine Spec.modify fun rig hrig => ?_
  cases rig.agenda with
  | nil => exact ⟨.refl, hrig⟩
  | cons moves rest =>
    have hstep : Step playable rig { rig with agenda := rest } :=
      .bookkeeping rig rest rig.nextPlayer
    exact ⟨(Leads.single hstep).trans (leads_run _ moves), (hrig.of_step hstep rfl rfl).run moves⟩

namespace LoopRef

/-- A loop of one of the players may be asked to stop. -/
theorem requestStop_spec {player : Player} (hplayer : player ∈ players) {p : Pad} {ref : LoopRef}
    (href : player.loops.get p = some ref) :
    Spec playable (HeldBy playable generous players) ref.requestStop
      fun _ rig => HeldBy playable generous players rig ∧ ref.Stopping rig := by
  refine interlude_spec.bind fun _ => Spec.modify fun rig hrig => ?_
  have hstep : Step playable rig _ := .requestStop rig ref.number
  refine ⟨.single hstep, hrig.of_step hstep (length_loops_update ..) rfl, ?_⟩
  obtain ⟨_, l, _, _, hget, _⟩ := hrig.plays player hplayer p ref href
  refine ⟨{ l with stopRequested := true }, ?_, rfl⟩
  rw [update, List.getElem?_modify_eq, hget]
  rfl

/-- A loop that has been asked to stop comes to its end while that is waited for. -/
theorem join_spec {ref : LoopRef} :
    Spec playable (fun rig => HeldBy playable generous players rig ∧ ref.Stopping rig) ref.join
      fun _ rig => HeldBy playable generous players rig ∧ ref.Ended rig := by
  have hinterlude : Spec playable (HeldBy playable generous players) interlude
      fun _ => HeldBy playable generous players := interlude_spec
  refine (hinterlude.frame fun _ _ hleads hstop => Stopping.leads hstop hleads).bind fun _ => ?_
  refine Spec.modifyGet fun rig ⟨hrig, l, hget, hstop⟩ => ?_
  simp only [state?, hget]
  cases hjoined : l.joined with
  | true => exact ⟨.refl, hrig, l, hget, hrig.joined _ l hget hjoined⟩
  | false =>
    simp only [Bool.false_eq_true, if_false]
    let first := rig.advance ref.number
    let second := first.advance ref.number
    have hfirst : first.loops[ref.number]? = some (l.step rig.clock rig.answer).1 :=
      getElem?_advance hget
    have hsecond : second.loops[ref.number]? =
        some ((l.step rig.clock rig.answer).1.step first.clock first.answer).1 :=
      getElem?_advance hfirst
    have hended : ((l.step rig.clock rig.answer).1.step first.clock first.answer).1.hasEnded =
        true := by
      rcases Loop.step_of_stopRequested hstop rig.clock rig.answer with hended | ⟨hstop, hphase⟩
      · exact Loop.hasEnded_step hended _ _
      · exact Loop.hasEnded_step_of_checking hstop hphase _ _
    have hstep : Step playable second _ := .noteEnd fun l' hget' => by
      rw [hsecond] at hget'
      rw [← Option.some.inj hget']
      exact hended
    have hleads : Leads playable rig second :=
      .tail (.single (.move rig (.advance ref.number))) (.move first (.advance ref.number))
    refine ⟨hleads.tail hstep, ?_, ?_⟩
    · exact ((hrig.move (.advance ref.number)).move (.advance ref.number)).of_step hstep
        (length_loops_update ..) rfl
    · exact Ended.leads ⟨_, hsecond, hended⟩ (.single hstep)

/-- A loop that is stopped has come to its end when the answer is there. -/
theorem stop_spec {player : Player} (hplayer : player ∈ players) {p : Pad} {ref : LoopRef}
    (href : player.loops.get p = some ref) :
    Spec playable (HeldBy playable generous players) ref.stop
      fun _ rig => HeldBy playable generous players rig ∧ ref.Ended rig := by
  refine (requestStop_spec hplayer href).bind fun _ => join_spec.bind fun panicked => ?_
  cases panicked with
  | true => exact .pure fun _ hrig => hrig
  | false =>
    refine Spec.get.bind fun rig => ?_
    split
    · exact .pure fun _ hrig => hrig
    · exact .pure fun _ hrig => hrig

end LoopRef

end Control

end LightShow
