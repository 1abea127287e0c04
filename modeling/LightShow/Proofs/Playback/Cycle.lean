import LightShow.Playback.Perform
import LightShow.Proofs.Playback.Obedience
import LightShow.Proofs.Playback.Trace

namespace LightShow

namespace Action

/-- The numbers that the actuator is given with an action. -/
def numbers : Action → List UInt8
  | setColour _ => []
  | fade _ pulseTime pulseCount => [pulseTime, pulseCount]
  | flash _ onLength offLength pulseCount => [onLength, offLength, pulseCount]

/-- The action is of the kind of the command and has its colour and its numbers, with a one for each
zero among them. -/
inductive Shows : Action → Command Binary64 → Prop
  | setColour {time : Binary64} {colour : Colour} : Shows (setColour colour) (.switch time colour)
  | fade {time : Binary64} {colour : Colour} {pulseTime pulseCount a b : UInt8}
    (ha : a.toNat = max 1 pulseTime.toNat) (hb : b.toNat = max 1 pulseCount.toNat) :
    Shows (fade colour a b) (.fade time colour pulseTime pulseCount)
  | flash {time : Binary64} {colour : Colour} {onLength offLength pulseCount a b c : UInt8}
    (ha : a.toNat = max 1 onLength.toNat) (hb : b.toNat = max 1 offLength.toNat)
    (hc : c.toNat = max 1 pulseCount.toNat) :
    Shows (flash colour a b c) (.flash time colour onLength offLength pulseCount)

/-- No command makes the actuator take a number that it does not know. -/
theorem Shows.inRange {action : Action} {command : Command Binary64} (h : action.Shows command) :
    ∀ number ∈ action.numbers, 1 ≤ number.toNat ∧ number.toNat ≤ 255 := by
  have hraised {raised stored : UInt8} (h : raised.toNat = max 1 stored.toNat) :
      1 ≤ raised.toNat ∧ raised.toNat ≤ 255 :=
    ⟨h ▸ Nat.le_max_left 1 _, Nat.le_of_lt_succ raised.toNat_lt⟩
  cases h with
  | setColour => simp [numbers]
  | fade ha hb => simp [numbers, hraised ha, hraised hb]
  | flash ha hb hc => simp [numbers, hraised ha, hraised hb, hraised hc]

end Action

/-- The action that is taken for a command shows it. -/
theorem Command.shows_action (command : Command Binary64) : command.action.Shows command := by
  have hraised (n : UInt8) : (max n 1).toNat = max 1 n.toNat := by
    change (if n ≤ 1 then 1 else n).toNat = _
    split
    next h => exact (Nat.max_eq_left (UInt8.le_iff_toNat_le.1 h)).symm
    next h =>
      have hlt : 1 < n.toNat := Nat.lt_of_not_le fun hle => h (UInt8.le_iff_toNat_le.2 hle)
      exact (Nat.max_eq_right (Nat.le_of_lt hlt)).symm
  cases command with
  | switch time colour => exact .setColour
  | fade time colour pulseTime pulseCount => exact .fade (hraised _) (hraised _)
  | flash time colour onLength offLength pulseCount =>
    exact .flash (hraised _) (hraised _) (hraised _)

namespace Loop

variable {awaited : Prop} {l l' : Loop} {deals deals' : List (Call × Reply)} {count k : Nat}

/-- A loop that has any commands always has a next one. -/
theorem exists_command?_eq (hne : l.commands ≠ []) (k : Nat) :
    ∃ command, l.command? k = some command :=
  ⟨_, List.getElem?_eq_getElem (Nat.mod_lt k (List.length_pos_iff.2 hne))⟩

theorem eq_nil_of_command? (h : l.command? k = none) : l.commands = [] := by
  refine Decidable.byContradiction fun hne => ?_
  obtain ⟨command, hcommand⟩ := exists_command?_eq hne k
  cases h.symm.trans hcommand

theorem length_firstCalls (hne : l.commands ≠ []) (count : Nat) :
    (l.firstCalls count).length = count := by
  induction count with
  | zero => rfl
  | succ count ih =>
    obtain ⟨command, hcommand⟩ := exists_command?_eq hne count
    rw [firstCalls_succ hcommand, List.length_append, ih, List.length_singleton]

/-- Among the first calls each is that of the command whose turn it is. -/
theorem getElem?_firstCalls (hne : l.commands ≠ []) (hk : k < count) :
    (l.firstCalls count)[k]? = (l.command? k).map (·.call l.pad) := by
  induction count with
  | zero => exact absurd hk (Nat.not_lt_zero k)
  | succ count ih =>
    obtain ⟨command, hcommand⟩ := exists_command?_eq hne count
    have hlength := length_firstCalls hne count
    rw [firstCalls_succ hcommand]
    rcases Nat.lt_succ_iff_lt_or_eq.1 hk with hlt | rfl
    · rw [List.getElem?_append_left (Nat.lt_of_lt_of_eq hlt hlength.symm), ih hlt]
    · rw [List.getElem?_append_right (Nat.le_of_eq hlength), hlength, Nat.sub_self, hcommand]
      rfl

/-- The next call can never become due: the clock does not reach so far. -/
def Beyond (l : Loop) : Prop :=
  ∃ command, l.command? l.made = some command ∧ Timing.clockLimit ≤ l.dueTime l.made command

/-- A loop has made the calls of its commands in turn, and if it has come to its end, there is a
reason for that. -/
structure InTurn (l : Loop) (deals : List (Call × Reply)) : Prop where
  account : l.Account deals
  calls : deals.map (·.1) = l.firstCalls deals.length
  made : l.made = deals.countP fun deal => deal.2 = .done
  exited : l.phase = .exited → l.stopRequested = true ∨ l.commands = [] ∨
    ∃ call error, (call, .failed error) ∈ deals
  panicked : l.phase = .panicked → l.Beyond ∨ ∃ call, (call, .panicked) ∈ deals

/-- A new loop has made no call yet. -/
theorem inTurn_new (pad : Pad) (track : Track Binary64) (settings : PlaybackSettings) (now : Nat) :
    (Loop.new pad track settings now).InTurn [] :=
  ⟨account_new pad track settings now, rfl, rfl, nofun, nofun⟩

namespace InTurn

/-- While a loop is at work it counts its calls rightly. -/
theorem made_eq_length (h : l.InTurn deals) (hbusy : l.hasEnded = false) :
    l.made = deals.length := by
  rw [h.made, List.countP_eq_length]
  exact fun deal hdeal => decide_eq_true (h.account.done_of_busy hbusy deal hdeal)

/-- A loop that has not ended goes on, or ends for one of the reasons that lie with itself. -/
theorem stands (h : l.InTurn deals) (hbusy : l.hasEnded = false) {phase : Phase}
    (hexited : phase = .exited → l.stopRequested = true ∨ l.commands = [])
    (hpanicked : phase = .panicked → l.Beyond) : InTurn { l with phase } deals where
  account := h.account.congr (fun hended => nomatch hbusy.symm.trans hended) rfl
  calls := h.calls
  made := h.made
  exited hphase := (hexited hphase).imp_right .inl
  panicked hphase := .inl (hpanicked hphase)

/-- The reply to the next call leaves the loop in turn. A call that is not carried out is the reason
why the loop ends. -/
theorem afterReply (h : l.InTurn deals) (hbusy : l.hasEnded = false) {command : Command Binary64}
    (hcommand : l.command? l.made = some command) (reply : Reply) :
    (l.afterReply reply).InTurn (deals ++ [(command.call l.pad, reply)]) where
  account := h.account.afterReply hbusy _ reply
  calls := by
    rw [h.made_eq_length hbusy] at hcommand
    rw [firstCalls_congr (l.afterReply_pad reply) (l.afterReply_commands reply),
      List.length_append, List.length_singleton, firstCalls_succ hcommand, List.map_append, h.calls]
    rfl
  made := by
    rw [List.countP_append, ← h.made]
    cases reply <;> rfl
  exited hphase := by
    cases reply with
    | failed error => exact .inr (.inr ⟨_, error, List.mem_append_right _ List.mem_cons_self⟩)
    | done => cases hphase
    | panicked => cases hphase
  panicked hphase := by
    cases reply with
    | panicked => exact .inr ⟨_, List.mem_append_right _ List.mem_cons_self⟩
    | done => cases hphase
    | failed error => cases hphase

/-- A step keeps a loop in turn. Only a step that calls adds anything to the calls, and a step that
ends the loop without a call does so for a reason. -/
theorem step (h : l.InTurn deals) (now : Nat) (answer : Call → Reply) :
    (l.step now answer).1.InTurn (deals ++ (l.step now answer).2.toList) := by
  have hsilent {l' : Loop} (h : l'.InTurn deals) :
      l'.InTurn (deals ++ (none : Option (Call × Reply)).toList) := by
    rwa [Option.toList_none, List.append_nil]
  unfold Loop.step
  split
  next command hphase hcommand =>
    have hbusy : l.hasEnded = false := by simp [hasEnded, hphase]
    split
    next hstop => exact hsilent (h.stands hbusy (fun _ => .inl hstop) (absurd · (by decide)))
    next =>
      split
      next hbeyond =>
        have hpanicked : l.Beyond := ⟨command, hcommand, hbeyond⟩
        exact hsilent (h.stands hbusy (absurd · (by decide)) fun _ => hpanicked)
      next => exact hsilent (h.stands hbusy (absurd · (by decide)) (absurd · (by decide)))
  next command hphase hcommand =>
    have hbusy : l.hasEnded = false := by simp [hasEnded, hphase]
    split
    next hstop => exact hsilent (h.stands hbusy (fun _ => .inl hstop) (absurd · (by decide)))
    next =>
      split
      next => exact hsilent h
      next => exact hsilent (h.stands hbusy (absurd · (by decide)) (absurd · (by decide)))
  next command hphase hcommand =>
    exact h.afterReply (by simp [hasEnded, hphase]) hcommand _
  next => exact hsilent h
  next => exact hsilent h
  next hnone hexited hpanicked =>
    have hbusy : l.hasEnded = false := decide_eq_false (not_or.2 ⟨hexited, hpanicked⟩)
    have hempty := eq_nil_of_command? hnone
    exact hsilent (h.stands hbusy (fun _ => .inr hempty) (absurd · (by decide)))

/-- However a loop goes on, it stays in turn. -/
theorem runs (h : l.InTurn deals) (hruns : l.Runs awaited deals' l') :
    l'.InTurn (deals ++ deals') := by
  induction hruns with
  | refl => rwa [List.append_nil]
  | step _ now answer ih =>
    rw [← List.append_assoc]
    exact ih.step now answer
  | ask _ ih =>
    exact ⟨ih.account.congr (fun _ => rfl) rfl, ih.calls, ih.made, fun _ => .inl rfl, ih.panicked⟩
  | await _ _ _ ih =>
    exact ⟨ih.account.congr (fun _ => rfl) rfl, ih.calls, ih.made, ih.exited, ih.panicked⟩

end InTurn

/-- The next call of the loop is due, and nothing stands against it. -/
structure Due (l : Loop) (now : Nat) (command : Command Binary64) : Prop where
  unasked : l.stopRequested = false
  next : l.command? l.made = some command
  reachable : l.dueTime l.made command < Timing.clockLimit
  due : l.dueTime l.made command ≤ now

end Loop

namespace Rig

variable {rig : Rig} {n : Nat} {l : Loop} {command : Command Binary64}

/-- Some steps of the loop lead to the call of a command, and to no other. -/
def Makes (rig : Rig) (n steps : Nat) (call : Call) : Prop :=
  ∃ reply, (rig.run (List.replicate steps (.advance n))).dealings n =
    rig.dealings n ++ [(call, reply)]

/-- A loop that is about to call does so in one step. -/
theorem makes_of_calling (hget : rig.loops[n]? = some l) (hphase : l.phase = .calling)
    (hnext : l.command? l.made = some command) : rig.Makes n 1 (command.call l.pad) := by
  refine ⟨rig.answer (command.call l.pad), (dealings_advance hget n).trans ?_⟩
  rw [if_pos rfl, Loop.step, hphase, hnext]
  rfl

/-- A step without a call does not change what calls the steps behind it make. -/
theorem makes_succ (phase : Phase) {steps : Nat} {call : Call} (hget : rig.loops[n]? = some l)
    (hstep : l.step rig.clock rig.answer = ({ l with phase }, none))
    (h : ∀ after : Rig, after.loops[n]? = some { l with phase } → after.clock = rig.clock →
      after.Makes n steps call) : rig.Makes n (steps + 1) call := by
  have hget' := getElem?_advance hget
  have hdealings := dealings_advance hget n
  have hclock : (rig.advance n).clock = rig.clock := by
    simp only [advance, hget]
  rw [hstep] at hget' hdealings
  rw [Option.toList_none, ite_self, List.append_nil] at hdealings
  obtain ⟨reply, hcalls⟩ := h _ hget' hclock
  exact ⟨reply, hdealings ▸ hcalls⟩

/-- A loop that has waited long enough calls in two steps. -/
theorem makes_of_waiting (hget : rig.loops[n]? = some l) (hphase : l.phase = .waiting)
    (hdue : l.Due rig.clock command) : rig.Makes n 2 (command.call l.pad) := by
  refine makes_succ .calling hget ?_ fun after hget' _ => ?_
  · simp only [Loop.step, hphase, hdue.next, hdue.unasked, Bool.false_eq_true, if_false,
      if_neg (Nat.not_lt.2 hdue.due)]
  · have hmakes := makes_of_calling hget' rfl hdue.next
    exact hmakes

/-- A loop that has yet to look at the clock calls in three steps. -/
theorem makes_of_checking (hget : rig.loops[n]? = some l) (hphase : l.phase = .checking)
    (hdue : l.Due rig.clock command) : rig.Makes n 3 (command.call l.pad) := by
  refine makes_succ .waiting hget ?_ fun after hget' hclock => ?_
  · simp only [Loop.step, hphase, hdue.next, hdue.unasked, Bool.false_eq_true, if_false,
      if_neg (Nat.not_le.2 hdue.reachable)]
  · have hdue' : Loop.Due { l with phase := .waiting } after.clock command :=
      hclock ▸ ⟨hdue.unasked, hdue.next, hdue.reachable, hdue.due⟩
    have hmakes := makes_of_waiting hget' rfl hdue'
    exact hmakes

/-- A loop whose next call is due makes it. -/
theorem exists_makes (hget : rig.loops[n]? = some l) (hbusy : l.hasEnded = false)
    (hdue : l.Due rig.clock command) :
    ∃ steps ≤ stepsPerCall, rig.Makes n steps (command.call l.pad) := by
  cases hphase : l.phase with
  | checking => exact ⟨3, Nat.le_refl 3, makes_of_checking hget hphase hdue⟩
  | waiting => exact ⟨2, by decide, makes_of_waiting hget hphase hdue⟩
  | calling => exact ⟨1, by decide, makes_of_calling hget hphase hdue.next⟩
  | exited => simp [Loop.hasEnded, hphase] at hbusy
  | panicked => simp [Loop.hasEnded, hphase] at hbusy

end Rig

open Control Rig

namespace LoopRef

/-- A loop has made the calls of some commands in turn and, unless something stands against that,
goes on with the next. -/
structure Cycles (ref : LoopRef) (pad : Pad) (commands : List (Command Binary64)) (rig : Rig) :
    Prop where
  /-- The calls are those of the commands from the first to the last and then from the first again.
  None is left out, made twice or out of its turn. -/
  calls : ∀ k call reply, (rig.dealings ref.number)[k]? = some (call, reply) →
    ∃ command, commands[k % commands.length]? = some command ∧ call.target = .pad pad ∧
      call.action.Shows command ∧
      ∀ number ∈ call.action.numbers, 1 ≤ number.toNat ∧ number.toNat ≤ 255
  /-- Nothing follows a call that was not carried out. -/
  last : ∀ deal ∈ (rig.dealings ref.number).dropLast, deal.2 = .done
  /-- A loop that has come to its end was asked to stop, had a call fail or was brought down by it,
  or has come to the end of the clock. -/
  ended : ∀ l, rig.loops[ref.number]? = some l → l.hasEnded = true →
    l.stopRequested = true ∨ (∃ deal ∈ rig.dealings ref.number, deal.2 ≠ .done) ∨ l.Beyond
  /-- Any other makes its next call once that is due. -/
  next : ∀ l command, rig.loops[ref.number]? = some l → l.hasEnded = false →
    l.Due rig.clock command →
      commands[(rig.dealings ref.number).length % commands.length]? = some command ∧
      ∃ steps ≤ stepsPerCall, rig.Makes ref.number steps (command.call pad)

/-- A loop that has nothing to play makes no call and has no fault. Its next step is its last. -/
structure Idles (ref : LoopRef) (rig : Rig) : Prop where
  dealings : rig.dealings ref.number = []
  fault : ref.fault rig = none
  unharmed : ¬ref.Panicked rig
  exits : ∃ l, (rig.advance ref.number).loops[ref.number]? = some l ∧ l.phase = .exited

variable {ref : LoopRef} {rig : Rig} {l : Loop}

/-- A loop that has made its calls in turn goes on doing so. -/
theorem cycles_of_inTurn (hget : rig.loops[ref.number]? = some l)
    (h : l.InTurn (rig.dealings ref.number)) (hne : l.commands ≠ []) :
    ref.Cycles l.pad l.commands rig where
  calls k call reply hdeal := by
    have hk := (List.getElem?_eq_some_iff.1 hdeal).1
    have hcall := congrArg (·[k]?) h.calls
    simp only [List.getElem?_map, hdeal, Loop.getElem?_firstCalls hne hk] at hcall
    obtain ⟨command, hcommand, rfl⟩ := Option.map_eq_some_iff.1 hcall.symm
    have hshows := command.shows_action
    exact ⟨command, hcommand, rfl, hshows, hshows.inRange⟩
  last deal hdeal := h.account.done_of_mem_dropLast hdeal
  ended l' hget' hended := by
    obtain rfl := Option.some.inj (hget.symm.trans hget')
    rcases of_decide_eq_true hended with hphase | hphase
    · rcases h.exited hphase with hstop | hempty | ⟨call, error, hdeal⟩
      · exact .inl hstop
      · exact absurd hempty hne
      · exact .inr (.inl ⟨_, hdeal, nofun⟩)
    · rcases h.panicked hphase with hbeyond | ⟨call, hdeal⟩
      · exact .inr (.inr hbeyond)
      · exact .inr (.inl ⟨_, hdeal, nofun⟩)
  next l' command hget' hbusy hdue := by
    obtain rfl := Option.some.inj (hget.symm.trans hget')
    refine ⟨?_, exists_makes hget hbusy hdue⟩
    rw [← h.made_eq_length hbusy]
    exact hdue.next

/-- A loop without commands has made no call and will make none. -/
theorem idles_of_inTurn (hget : rig.loops[ref.number]? = some l)
    (h : l.InTurn (rig.dealings ref.number)) (hempty : l.commands = []) : ref.Idles rig := by
  have hnone (k : Nat) : l.command? k = none := by simp [Loop.command?, hempty]
  have hdealings : rig.dealings ref.number = [] := by
    have hcalls : l.firstCalls (rig.dealings ref.number).length = [] :=
      List.filterMap_eq_nil_iff.2 fun k _ => by rw [hnone, Option.map_none]
    exact List.map_eq_nil_iff.1 (h.calls.trans hcalls)
  have hunharmed : l.phase ≠ .panicked := by
    intro hphase
    rcases h.panicked hphase with ⟨command, hcommand, _⟩ | ⟨call, hdeal⟩
    · cases (hnone _).symm.trans hcommand
    · rw [hdealings] at hdeal
      cases hdeal
  refine ⟨hdealings, ?_, fun hpanicked => ?_, _, getElem?_advance hget, ?_⟩
  · rw [fault_eq hget, Option.eq_none_iff_forall_ne_some]
    intro error herror
    obtain ⟨call, hdeal⟩ := h.account.fault_eq_some_iff.1 herror
    rw [hdealings] at hdeal
    cases hdeal
  · obtain ⟨l', hget', hphase⟩ := hpanicked
    obtain rfl := Option.some.inj (hget.symm.trans hget')
    exact hunharmed hphase
  · unfold Loop.step
    rw [hnone]
    cases hphase : l.phase with
    | panicked => exact absurd hphase hunharmed
    | _ => first | rfl | exact hphase

/-- A loop that has been started, whatever was done before and whatever has been done with it and
with other loops since, has made the calls of its track over and over, each in its turn, on its pad
and on no other. If the track has no commands, it makes no call and ends without a fault. -/
theorem cycles_of_start {first : Rig} (hfirst : first.journal = []) (before : List Handling)
    (pad : Pad) (program : Program Binary64) (source : Pad) (settings : PlaybackSettings)
    {track : Track Binary64} (htrack : program.track source = some track) {ref : LoopRef}
    {rig : Rig}
    (hstart : (LoopRef.start pad program source settings).run (first.handleAll before) =
      (.ok ref, rig)) (events : List Handling) :
    (track.commands ≠ [] → ref.Cycles pad track.commands (rig.handleAll events)) ∧
      (track.commands = [] → ref.Idles (rig.handleAll events)) := by
  obtain ⟨_, _, _, now, hget⟩ := of_start_track htrack hstart
  obtain ⟨deals, l, hget', hruns, hdealings⟩ := (rig.carries_handleAll events).present _ hget
  have hturn : l.InTurn ((rig.handleAll events).dealings ref.number) := by
    rw [hdealings, dealings_of_start hfirst before hstart]
    exact (Loop.inTurn_new pad track settings now).runs hruns
  obtain ⟨hpad, hcommands, _⟩ := hruns.continues
  constructor
  · intro hne
    have hcycles := cycles_of_inTurn hget' hturn (hcommands ▸ hne)
    rwa [hpad, hcommands] at hcycles
  · intro hempty
    exact idles_of_inTurn hget' hturn (hcommands.trans hempty)

/-- Two commands, of which the second has a zero in it, on a pad that fails after four calls. The
loop has begun its third cycle. -/
theorem cycles_of_start_failing :
    let actuator : Actuator := fun past _ =>
      if past.length < 4 then .done else .failed ⟨"unplugged"⟩
    let first := Rig.new actuator []
    let commands : List (Command Binary64) := [.switch ⟨0⟩ .white, .flash ⟨0⟩ .black 0 255 1]
    let program : Program Binary64 := ⟨.const (some ⟨commands, ⟨0⟩⟩)⟩
    let ref : LoopRef := ⟨0, .left⟩
    let started := (LoopRef.start .left program .right .default).run first
    let events : List Handling :=
      .move (.elapse 1000000000) :: List.replicate 15 (.move (.advance 0))
    first.journal = [] ∧ program.track .right = some ⟨commands, ⟨0⟩⟩ ∧
      started = (.ok ref, started.2) ∧ commands ≠ [] ∧
      (started.2.handleAll events).dealings 0 =
        [(⟨.pad .left, .setColour .white⟩, .done), (⟨.pad .left, .flash .black 1 255 1⟩, .done),
          (⟨.pad .left, .setColour .white⟩, .done), (⟨.pad .left, .flash .black 1 255 1⟩, .done),
          (⟨.pad .left, .setColour .white⟩, .failed ⟨"unplugged"⟩)] ∧
      ref.Cycles .left commands (started.2.handleAll events) := by
  intro actuator first commands program ref started events
  have hfirst : first.journal = [] := rfl
  have htrack : program.track .right = some ⟨commands, ⟨0⟩⟩ := rfl
  have hstart : started = (.ok ref, started.2) := rfl
  have hne : commands ≠ [] := List.cons_ne_nil _ _
  refine ⟨hfirst, htrack, hstart, hne, by decide +kernel, ?_⟩
  exact (cycles_of_start hfirst [] .left program .right .default htrack hstart events).1 hne

end LoopRef

end LightShow
