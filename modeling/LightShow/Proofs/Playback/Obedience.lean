import LightShow.Proofs.Playback.Stopping

namespace LightShow

namespace Rig

/-- What may be done with loops while they run. -/
inductive Handling where
  | move (m : Move)
  | start (pad : Pad) (program : Program Binary64) (source : Pad) (settings : PlaybackSettings)
  /-- Asks a loop to stop, but does not wait for that. -/
  | requestStop (loop : LoopRef)
  | stop (loop : LoopRef)

def handle (rig : Rig) : Handling → Rig
  | .move m => rig.move m
  | .start pad program source settings => ((LoopRef.start pad program source settings).run rig).2
  | .requestStop loop => (loop.requestStop.run rig).2
  | .stop loop => (loop.stop.run rig).2

/-- The loop with the number is stopped. -/
def Handling.Stops (n : Nat) : Handling → Prop
  | .stop loop => loop.number = n
  | _ => False

def handleAll (rig : Rig) (events : List Handling) : Rig := events.foldl handle rig

variable {n : Nat} {rig : Rig} {l l' : Loop}

/-- Whatever is done, each loop has an honest run of it. Its end is waited for only if it is the one
that is stopped. -/
theorem carries_handle (rig : Rig) (event : Handling) :
    rig.Carries (event.Stops n) n (rig.handle event) := by
  cases event with
  | move m => exact rig.carries_move m
  | start pad program source settings => exact (LoopRef.carries_start rig (.refl rig)).1
  | requestStop ref => exact rig.carries_interlude.trans (carries_requestStop _ ref.number)
  | stop ref =>
    by_cases heq : ref.number = n
    · subst heq
      cases hget : rig.loops[ref.number]? with
      | some l =>
        obtain ⟨deals, l', hget', hruns, hdealings, _⟩ := LoopRef.stop_ends hget
        refine ⟨fun k hk => ?_, fun hnone => nomatch hget'.symm.trans hnone⟩
        obtain rfl := Option.some.inj (hget.symm.trans hk)
        exact ⟨deals, l', hget', hruns.mono fun _ => rfl, hdealings⟩
      | none => exact LoopRef.carries_stop_of_absent hget
    · exact LoopRef.carries_stop_of_ne heq rig

/-- The same goes for one thing after another, by induction on the list. -/
theorem carries_handleAll (rig : Rig) (events : List Handling) :
    rig.Carries (∃ event ∈ events, event.Stops n) n (rig.handleAll events) := by
  induction events generalizing rig with
  | nil => exact .refl rig
  | cons event rest ih =>
    have hfirst : rig.Carries (∃ e ∈ event :: rest, e.Stops n) n (rig.handle event) :=
      (rig.carries_handle event).mono fun h => ⟨event, List.mem_cons_self, h⟩
    exact hfirst.trans ((ih (rig.handle event)).mono fun ⟨e, he, h⟩ =>
      ⟨e, List.mem_cons_of_mem event he, h⟩)

/-- A loop that has been stopped is known to have been waited for. -/
theorem joined_handleAll {events : List Handling} (hstops : ∃ event ∈ events, event.Stops n)
    (hget : rig.loops[n]? = some l) (hget' : (rig.handleAll events).loops[n]? = some l') :
    l'.joined = true := by
  induction events generalizing rig l with
  | nil => simp at hstops
  | cons event rest ih =>
    obtain ⟨deals, mid, hmid, hruns, _⟩ := (rig.carries_handle event).present l hget
    rcases hstops with ⟨e, he, hstop⟩
    rcases List.mem_cons.1 he with rfl | he
    · cases e with
      | stop ref =>
        obtain rfl : ref.number = n := hstop
        obtain ⟨_, k, hk, _, _, hjoined, _⟩ := LoopRef.stop_ends hget
        obtain rfl := Option.some.inj (hmid.symm.trans hk)
        obtain ⟨_, k', hk', hruns', _⟩ := (carries_handleAll _ rest).present mid hmid
        obtain rfl := Option.some.inj (hk'.symm.trans hget')
        exact hruns'.joined.1 hjoined
      | move m => exact hstop.elim
      | start pad program source settings => exact hstop.elim
      | requestStop ref => exact hstop.elim
    · exact ih ⟨e, he, hstop⟩ hmid hget'

end Rig

open Control Rig

namespace LoopRef

variable {rig : Rig}

/-- The loop has been brought down. -/
def Panicked (ref : LoopRef) (rig : Rig) : Prop :=
  ∃ l, rig.loops[ref.number]? = some l ∧ l.phase = .panicked

/-- What can be relied on where a loop is to be stopped, which may have been stopped before. -/
structure Obeys (ref : LoopRef) (stopped : Prop) (rig : Rig) : Prop where
  asked : ref.Stopping (ref.requestStop.run rig).2
  /-- A loop that has been asked to stop makes one call more at most. -/
  oneMore : ref.Stopping rig → ∀ later, ∃ deals, deals.length ≤ 1 ∧
    (rig.handleAll later).dealings ref.number = rig.dealings ref.number ++ deals
  /-- That goes for the time during which it is stopped as well. -/
  oneMoreInStop : ∃ deals, deals.length ≤ 1 ∧ (ref.stop.run rig).2.dealings ref.number =
    (ref.requestStop.run rig).2.dealings ref.number ++ deals
  /-- A loop that has been stopped makes no more calls. -/
  silent : ∀ later, ((ref.stop.run rig).2.handleAll later).dealings ref.number =
    (ref.stop.run rig).2.dealings ref.number
  /-- No call follows one that was not carried out. -/
  last : ∀ deal ∈ (rig.dealings ref.number).dropLast, deal.2 = .done
  fault : ∀ error,
    ref.fault rig = some error ↔ ∃ call, (call, .failed error) ∈ rig.dealings ref.number
  panicked : ∀ call, (call, .panicked) ∈ rig.dealings ref.number → ref.Panicked rig
  /-- A fault is reported each time. -/
  faulty : ∀ error, ref.fault rig = some error → (ref.stop.run rig).1 = .error (.actuator error)
  stopFault : ∀ error, (ref.stop.run rig).1 = .error (.actuator error) ↔
    ref.fault (ref.stop.run rig).2 = some error
  /-- That the loop was brought down is reported once. -/
  stopPanicked : (ref.stop.run rig).1 = .error (.loopPanicked ref.pad) ↔
    ¬stopped ∧ ref.Panicked (ref.stop.run rig).2
  stopFine : (ref.stop.run rig).1 = .ok () ↔
    ref.fault (ref.stop.run rig).2 = none ∧ ¬(¬stopped ∧ ref.Panicked (ref.stop.run rig).2)

theorem panicked_iff {ref : LoopRef} {l : Loop} (hget : rig.loops[ref.number]? = some l) :
    ref.Panicked rig ↔ l.phase = .panicked := by
  simp [Panicked, hget]

/-- A loop obeys if the account of its calls is right and nobody has waited for it in vain. -/
theorem obeys_of_account {ref : LoopRef} {stopped : Prop} {l : Loop}
    (hget : rig.loops[ref.number]? = some l) (haccount : l.Account (rig.dealings ref.number))
    (hended : l.joined = true → l.hasEnded = true) (hstopped : l.joined = true ↔ stopped) :
    ref.Obeys stopped rig := by
  obtain ⟨deals, l', hget', hruns, hdealings, _, hended', hanswer⟩ := stop_ends hget
  have haccount' : l'.Account ((ref.stop.run rig).2.dealings ref.number) := by
    rw [hdealings]
    exact haccount.runs hruns
  have hfault' : ref.fault (ref.stop.run rig).2 = l'.fault := fault_eq hget'
  have hpanicked' : ref.Panicked (ref.stop.run rig).2 ↔ l'.phase = .panicked := panicked_iff hget'
  have hfirst : l.joined = false ↔ ¬stopped := by
    rw [← hstopped, Bool.not_eq_true]
  have hstopFault : ∀ error, (ref.stop.run rig).1 = .error (.actuator error) ↔
      ref.fault (ref.stop.run rig).2 = some error := by
    intro error
    rw [hanswer, hfault']
    split
    next h => simp [haccount'.fault_eq_none h.2]
    next => cases l'.fault <;> simp
  constructor
  case asked =>
    obtain ⟨_, _, hget₀, _⟩ := requestStop_asks hget
    exact ⟨_, hget₀, rfl⟩
  case oneMore =>
    rintro ⟨k, hk, hstop⟩ later
    obtain ⟨deals, l', _, hruns, hdealings⟩ := (rig.carries_handleAll later).present k hk
    exact ⟨deals, (hruns.of_stopRequested hstop).1, hdealings⟩
  case oneMoreInStop => exact dealings_stop hget
  case silent =>
    intro later
    obtain ⟨deals, _, _, hruns, hdealings⟩ := (carries_handleAll _ later).present l' hget'
    rw [hdealings, (hruns.of_hasEnded (hended' hended)).1, List.append_nil]
  case last => exact fun deal hmem => haccount.done_of_mem_dropLast hmem
  case fault =>
    intro error
    rw [fault_eq hget]
    exact haccount.fault_eq_some_iff
  case panicked => exact fun call hmem => ⟨l, hget, haccount.phase_eq_panicked hmem⟩
  case faulty =>
    intro error hfault
    rw [fault_eq hget, haccount.fault_eq_some_iff] at hfault
    obtain ⟨call, hmem⟩ := hfault
    rw [hstopFault, hfault', haccount'.fault_eq_some_iff, hdealings]
    exact ⟨call, List.mem_append_left deals hmem⟩
  case stopFault => exact hstopFault
  case stopPanicked =>
    rw [hanswer, hpanicked', ← hfirst]
    split
    next h => simp [h]
    next h => cases l'.fault <;> simp [h]
  case stopFine =>
    rw [hanswer, hfault', hpanicked', ← hfirst]
    split
    next h => simp [h]
    next h => cases l'.fault <;> simp [h]

/-- A start waits while the loops go on, and then launches a new loop for the track or hands back
why not. -/
theorem run_start {source : Pad} {program : Program Binary64} {track : Track Binary64}
    (htrack : program.track source = some track) (pad : Pad) (settings : PlaybackSettings)
    (rig : Rig) :
    (LoopRef.start pad program source settings).run rig =
      let rested := (interlude.run rig).2
      let answer := rested.launch (.new pad track settings rested.clock)
      (match answer.1 with
        | .ok number => .ok ⟨number, pad⟩
        | .error description => .error (.threadRefused description),
      answer.2) := by
  simp only [LoopRef.start, htrack]
  let rested := (interlude.run rig).2
  let report (answer : Except String Nat) : Control (Except PlaybackError LoopRef) :=
    match answer with
    | .ok number => return .ok ⟨number, pad⟩
    | .error description => return .error (.threadRefused description)
  change (report (rested.launch (.new pad track settings rested.clock)).1).run
      (rested.launch (.new pad track settings rested.clock)).2 = _
  cases (rested.launch (.new pad track settings rested.clock)).1 <;> rfl

/-- A loop that has been started is a new one, and has made no call yet. -/
theorem of_start_track {pad source : Pad} {program : Program Binary64} {track : Track Binary64}
    {settings : PlaybackSettings} {ref : LoopRef} {before : Rig}
    (htrack : program.track source = some track)
    (hstart : (LoopRef.start pad program source settings).run before = (.ok ref, rig)) :
    ref.pad = pad ∧ (interlude.run before).2.loops[ref.number]? = none ∧
      rig.dealings ref.number = (interlude.run before).2.dealings ref.number ∧
      ∃ now, rig.loops[ref.number]? = some (.new pad track settings now) := by
  rw [run_start htrack] at hstart
  dsimp only at hstart
  rcases hlaunch : (interlude.run before).2.launch
    (.new pad track settings (interlude.run before).2.clock) with ⟨answer, after⟩
  rw [hlaunch] at hstart
  cases answer with
  | error description => cases hstart
  | ok number =>
    cases hstart
    obtain ⟨rfl, hloops, hjournal⟩ := of_launch hlaunch
    refine ⟨rfl, List.getElem?_eq_none (Nat.le_refl _), ?_, _,
      (getElem?_of_append hloops).2 (.inr ⟨rfl, rfl⟩)⟩
    rw [dealings, dealings, hjournal]

/-- A loop that has been started is new: it has a name of its own and has made no call. -/
theorem of_start {pad source : Pad} {program : Program Binary64} {settings : PlaybackSettings}
    {ref : LoopRef} {before : Rig}
    (hstart : (LoopRef.start pad program source settings).run before = (.ok ref, rig)) :
    ref.pad = pad ∧ (interlude.run before).2.loops[ref.number]? = none ∧
      rig.dealings ref.number = (interlude.run before).2.dealings ref.number ∧
      ∃ track now, rig.loops[ref.number]? = some (.new pad track settings now) := by
  cases htrack : program.track source with
  | none =>
    rw [LoopRef.start, htrack] at hstart
    cases hstart
  | some track =>
    obtain ⟨hpad, hnone, hdealings, now, hget⟩ := of_start_track htrack hstart
    exact ⟨hpad, hnone, hdealings, track, now, hget⟩

/-- Where no call had been made at first, a loop that has just been started has none to its name. -/
theorem dealings_of_start {first : Rig} (hfirst : first.journal = []) (before : List Handling)
    {pad source : Pad} {program : Program Binary64} {settings : PlaybackSettings} {ref : LoopRef}
    (hstart : (LoopRef.start pad program source settings).run (first.handleAll before) =
      (.ok ref, rig)) : rig.dealings ref.number = [] := by
  obtain ⟨_, hnone, hdealings, _⟩ := of_start hstart
  have hbefore : first.Carries _ ref.number (interlude.run (first.handleAll before)).2 :=
    (first.carries_handleAll before).trans (carries_interlude _)
  rw [hdealings, hbefore.absent hnone, dealings, hfirst]
  rfl

/-- A loop that has been started obeys, whatever was done before and whatever has been done with it
and with other loops since. -/
theorem obeys_of_start {first : Rig} (hfirst : first.journal = []) (before : List Handling)
    (pad : Pad) (program : Program Binary64) (source : Pad) (settings : PlaybackSettings)
    {ref : LoopRef} {rig : Rig}
    (hstart : (LoopRef.start pad program source settings).run (first.handleAll before) =
      (.ok ref, rig)) (events : List Handling) :
    ref.pad = pad ∧
      ref.Obeys (∃ event ∈ events, event.Stops ref.number) (rig.handleAll events) := by
  obtain ⟨hpad, _, _, track, now, hget⟩ := of_start hstart
  have hempty := dealings_of_start hfirst before hstart
  obtain ⟨deals, l, hget', hruns, hdealings'⟩ := (rig.carries_handleAll events).present _ hget
  refine ⟨hpad, obeys_of_account hget' ?_ ?_ ?_⟩
  · rw [hdealings', hempty]
    exact (Loop.account_new pad track settings now).runs hruns
  · exact hruns.joined_ended fun hjoined => absurd hjoined Bool.false_ne_true
  · constructor
    · exact fun hjoined => (hruns.joined.2 hjoined).resolve_left Bool.false_ne_true
    · exact fun hstops => joined_handleAll hstops hget hget'

/-- A loop whose first call fails, because its actuator is unplugged, answers the stop with that
error. -/
theorem obeys_of_start_unplugged :
    let first := Rig.new (fun _ _ => .failed ⟨"unplugged"⟩) []
    let program : Program Binary64 := ⟨.const (some ⟨[.switch ⟨0⟩ .white], ⟨0⟩⟩)⟩
    let ref : LoopRef := ⟨0, .left⟩
    let started := (LoopRef.start .left program .left .default).run first
    let events : List Handling :=
      [.move (.advance 0), .move (.advance 0), .move (.advance 0), .stop ref]
    let rig := started.2.handleAll events
    first.journal = [] ∧ started = (.ok ref, started.2) ∧
      rig.dealings 0 = [(⟨.pad .left, .setColour .white⟩, .failed ⟨"unplugged"⟩)] ∧
      (ref.stop.run rig).1 = .error (.actuator ⟨"unplugged"⟩) := by
  intro first program ref started events rig
  have hstart : started = (.ok ref, started.2) := rfl
  have hdealings : rig.dealings 0 =
      [(⟨.pad .left, .setColour .white⟩, .failed ⟨"unplugged"⟩)] := by decide +kernel
  have hfirst : first.journal = [] := rfl
  obtain ⟨_, hobeys⟩ := obeys_of_start hfirst [] .left program .left .default hstart events
  have hfault : ref.fault rig = some ⟨"unplugged"⟩ := (hobeys.fault _).2 ⟨_, by
    rw [hdealings]
    exact List.mem_singleton_self _⟩
  exact ⟨hfirst, hstart, hdealings, hobeys.faulty _ hfault⟩

end LoopRef

end LightShow
