import LightShow.Proofs.Playback.Stage
import LightShow.Proofs.Playback.Trace

namespace LightShow

namespace Stage

/-- What can be asked of a stage. -/
inductive Operation where
  | setDefault (program : Program Binary64)
  | push (program : Program Binary64)
  | replace (program : Program Binary64)
  | pop (id : PlayerId)
  | cover (pad : Pad) (program : Program Binary64)
  | uncover (pad : Pad)
  | uncoverAll
  | silence

/-- The program that an operation brings to the stage. -/
def Operation.program? : Operation → Option (Program Binary64)
  | setDefault program => some program
  | push program => some program
  | replace program => some program
  | pop _ => none
  | cover _ program => some program
  | uncover _ => none
  | uncoverAll => none
  | silence => none

/-- Carries out an operation. The stage goes on from what is left, whatever the answer is. -/
def perform (s : Stage) : Operation → Control Stage
  | .setDefault program => return (← s.setDefault program).1
  | .push program => return (← s.push program).1
  | .replace program => return (← s.replace program).1
  | .pop id => return (← s.pop id).1
  | .cover pad program => return (← s.cover pad program).1
  | .uncover pad => return (← s.uncover pad).1
  | .uncoverAll => return (← s.uncoverAll).1
  | .silence => s.silence

open Control Rig

variable {playable : Pad → Track Binary64 → Prop} {generous : Prop} {s : Stage}

/-- A stage that is in order comes out of every operation in order. -/
theorem perform_spec {op : Operation}
    (hallowed : ∀ program, op.program? = some program → Player.Allowed playable program) :
    Spec playable (Ready playable generous s) (s.perform op)
      fun after => Ready playable generous after := by
  refine Spec.of_and fun h => ?_
  have hanswer {α : Type} {x : Control (Stage × α)}
      (hx : Spec playable (HeldBy playable generous s.players) x
        fun out => Ready playable generous out.1) :
      Spec playable (HeldBy playable generous s.players) (x >>= fun out => pure out.1)
        fun after => Ready playable generous after :=
    hx.bind fun _ => .pure fun _ hrig => hrig
  cases op with
  | setDefault program => exact hanswer (setDefault_spec (hallowed program rfl) h)
  | push program => exact hanswer (push_spec (hallowed program rfl) h)
  | replace program => exact hanswer (replace_spec (hallowed program rfl) h)
  | pop id => exact hanswer (pop_spec h)
  | cover pad program => exact hanswer (cover_spec (hallowed program rfl) h)
  | uncover pad => exact hanswer (uncover_spec h)
  | uncoverAll => exact hanswer (uncoverEach_spec h)
  | silence => exact silence_spec

end Stage

/-- A stage with the rig on which it plays. -/
structure Performance where
  stage : Stage
  rig : Rig

namespace Performance

open Rig

/-- What happens in a performance: an operation, or something between operations. -/
inductive Event where
  | operation (op : Stage.Operation)
  | move (m : Move)

/-- A performance before its beginning. -/
def new (settings : PlaybackSettings) (actuator : Actuator) (agenda : List (List Move))
    (launches : List (Option String)) : Performance where
  stage := .new settings
  rig := { Rig.new actuator agenda with launches }

def happen (s : Performance) : Event → Performance
  | .operation op =>
    let (stage, rig) := (s.stage.perform op).run s.rig
    { stage, rig }
  | .move m => { s with rig := s.rig.move m }

def run (s : Performance) (events : List Event) : Performance := events.foldl happen s

theorem run_append (s : Performance) (events later : List Event) :
    s.run (events ++ later) = (s.run events).run later := List.foldl_append

/-- A program that is brought to the stage by one of the events plays the track on the pad. -/
def Offers (events : List Event) (p : Pad) (track : Track Binary64) : Prop :=
  ∃ op program source, .operation op ∈ events ∧ op.program? = some program ∧
    Player.sourceFor? program p = some source ∧ program.track source = some track

theorem Offers.mono {events events' : List Event} {p : Pad} {track : Track Binary64}
    (h : Offers events p track) (hsub : events ⊆ events') : Offers events' p track := by
  obtain ⟨op, program, source, hop, hrest⟩ := h
  exact ⟨op, program, source, hsub hop, hrest⟩

variable {playable : Pad → Track Binary64 → Prop} {generous : Prop} {s : Performance}

/-- The stage has every loop of the rig in its hands, each where it should be. -/
def Ready (playable : Pad → Track Binary64 → Prop) (generous : Prop) (s : Performance) : Prop :=
  s.stage.Ready playable generous s.rig

/-- Whatever happens, a performance in order takes permitted steps and is in order again. -/
theorem ready_happen (h : s.Ready playable generous) (event : Event)
    (hoffers : ∀ p track, Offers [event] p track → playable p track) :
    Rig.Leads playable s.rig (s.happen event).rig ∧ (s.happen event).Ready playable generous := by
  cases event with
  | operation op =>
    refine Stage.perform_spec (fun program hprogram p source track hsource htrack => ?_) s.rig h
    exact hoffers p track ⟨op, program, source, List.mem_singleton.2 rfl, hprogram, hsource, htrack⟩
  | move m => exact ⟨.single (.move s.rig m), h.1, h.2.move m⟩

/-- A performance stays in order, by induction on what happens. -/
theorem ready_run (h : s.Ready playable generous) (events : List Event)
    (hoffers : ∀ p track, Offers events p track → playable p track) :
    Rig.Leads playable s.rig (s.run events).rig ∧ (s.run events).Ready playable generous := by
  induction events generalizing s with
  | nil => exact ⟨.refl, h⟩
  | cons event rest ih =>
    have hfirst : [event] ⊆ event :: rest := by simp
    have hlater : rest ⊆ event :: rest := List.subset_cons_self event rest
    obtain ⟨hleads, hready⟩ := ready_happen h event fun p track hoffer =>
      hoffers p track (hoffer.mono hfirst)
    obtain ⟨hleads', hready'⟩ := ih hready fun p track hoffer =>
      hoffers p track (hoffer.mono hlater)
    exact ⟨hleads.trans hleads', hready'⟩

/-- A new performance is in order, for nothing is there that could be out of it. -/
theorem ready_new (settings : PlaybackSettings) (actuator : Actuator) (agenda : List (List Move))
    (launches : List (Option String)) :
    (new settings actuator agenda launches).Ready playable (launches = []) := by
  have hsuspended : (Stage.new settings).Suspended := by
    refine ⟨fun player hplayer => ?_, fun p overlay hget => ?_⟩
    · cases hplayer
    · rw [Stage.new, PerPad.get_const] at hget
      cases hget
  refine ⟨hsuspended.arranged_of_nil rfl, id, ?_, ?_, ?_, ?_⟩
  · intro n l hget
    cases hget
  · intro player hplayer
    cases hplayer
  · intro player hplayer
    cases hplayer
  · intro n l hget
    cases hget

/-- A performance from its beginning: one permitted step after another, and all is in order. -/
theorem reached (settings : PlaybackSettings) (actuator : Actuator) (agenda : List (List Move))
    (launches : List (Option String)) (events : List Event)
    (hoffers : ∀ p track, Offers events p track → playable p track) :
    let s := new settings actuator agenda launches
    Rig.Leads playable s.rig (s.run events).rig ∧ (s.run events).Ready playable (launches = []) ∧
      (s.run events).rig.Orderly playable := by
  intro s
  obtain ⟨hleads, hready⟩ := ready_run (ready_new settings actuator agenda launches) events hoffers
  have hempty : s.rig.Orderly playable := orderly_of_empty rfl rfl
  exact ⟨hleads, hready, hempty.leads hleads⟩

/-- While threads are always to be had, every pad has the one driver that it should have, whatever
the operations and their answers are and however the loops go on between and during them. -/
theorem single_driver (settings : PlaybackSettings) (actuator : Actuator)
    (agenda : List (List Move)) (events : List Event) :
    let s := (new settings actuator agenda []).run events
    (∀ player ∈ s.stage.stack.tail, ∀ p, player.loops.get p = none) ∧
      (∀ p overlay, s.stage.overlays.get p = some overlay →
        ∀ q, (overlay.isBound q = true ↔ q = p) ∧ (overlay.isPlaying q = true ↔ q = p)) ∧
      (∀ top ∈ s.stage.stack.head?, ∀ p,
        top.isPlaying p = true ↔ top.isBound p = true ∧ s.stage.overlays.get p = none) ∧
      (∀ player ∈ s.stage.players, ∀ p ref, player.loops.get p = some ref →
        ∃ l, s.rig.loops[ref.number]? = some l ∧ l.pad = p) ∧
      (∀ p, (s.stage.players.filter (·.isPlaying p)).length ≤ 1) ∧
      (∀ (m n : Nat) k l, s.rig.loops[m]? = some k → s.rig.loops[n]? = some l → k.pad = l.pad →
        k.hasEnded = false → l.hasEnded = false → m = n) ∧
      ∀ p, s.stage.driver p = match s.stage.overlays.get p, s.stage.stack.head? with
        | some overlay, _ => some overlay.id
        | none, some top => if top.isBound p then some top.id else none
        | none, none => none := by
  intro s
  obtain ⟨_, ⟨harranged, hheld⟩, horderly⟩ :=
    reached settings actuator agenda [] events fun _ _ hoffers => hoffers
  have hlast {m n : Nat} {k l : Loop} (hk : s.rig.loops[m]? = some k)
      (hl : s.rig.loops[n]? = some l) (hpad : k.pad = l.pad) (hbusy : k.hasEnded = false) :
      n ≤ m := by
    refine Nat.le_of_not_lt fun hlt => ?_
    rw [horderly.turns m n k l hlt hk hl hpad] at hbusy
    cases hbusy
  refine ⟨harranged.waiting, fun p overlay hget q => ?_, fun top htop p => ?_,
    fun player hplayer p ref href => ?_, harranged.length_filter_players,
    fun m n k l hk hl hpad hkbusy hlbusy => ?_, fun p => harranged.driver_eq rfl⟩
  · have hcovers := harranged.covers p overlay hget
    exact ⟨hcovers.isBound q, hcovers.isPlaying q⟩
  · exact harranged.isPlaying_iff htop rfl
  · obtain ⟨_, l, _, _, hget, hpad, _⟩ := hheld.plays player hplayer p ref href
    exact ⟨l, hget, hpad⟩
  · have hle := hlast hk hl hpad hkbusy
    have hge := hlast hl hk hpad.symm hlbusy
    omega

example :
    let program : Program Binary64 := ⟨.const (some ⟨[.switch ⟨0⟩ .white], ⟨0⟩⟩)⟩
    let s := (new .default (fun _ _ => .done) [] []).run
      [.operation (.setDefault program), .operation (.cover .left program),
        .operation (.uncover .left), .operation (.cover .right program)]
    Pad.all.map s.stage.driver = [some ⟨1⟩, some ⟨1⟩, some ⟨3⟩] := by
  decide

/-- After a pad has been left without a driver, no loop of its own goes on, and whatever happens
only loops that are started later make calls on it. -/
theorem trace_of_driver_eq_none (settings : PlaybackSettings) (actuator : Actuator)
    (agenda : List (List Move)) (launches : List (Option String)) (events : List Event) {p : Pad}
    (hdriver : ((new settings actuator agenda launches).run events).stage.driver p = none) :
    let s := (new settings actuator agenda launches).run events
    (∀ l ∈ s.rig.loops, l.pad = p → l.hasEnded = true) ∧
      ∀ later, ∃ fresh, (s.run later).rig.loopsOn p = s.rig.loopsOn p ++ fresh ∧
        (s.run later).rig.trace p =
          s.rig.trace p ++ fresh.flatMap (s.run later).rig.callsBy := by
  intro s
  have hany (events : List Event) : ∀ p track, Offers events p track → True :=
    fun _ _ _ => trivial
  obtain ⟨_, hready, horderly⟩ := reached settings actuator agenda launches events (hany events)
  have hquiet := hready.2.quiet (hready.1.loops_eq_none_of_driver hdriver)
  exact ⟨hquiet, fun later => horderly.trace_of_quiet (ready_run hready later (hany later)).1 hquiet⟩

/-- The calls on a pad are those of its loops, one loop after another, and a loop is started only
when those before it have ended. After a pad has been left without a driver, only loops that are
started later make calls on it. Silencing the stage leaves every pad so, with every loop ended. -/
theorem calls_in_turns (settings : PlaybackSettings) (actuator : Actuator)
    (agenda : List (List Move)) (launches : List (Option String)) (events : List Event) (p : Pad) :
    let s := new settings actuator agenda launches
    let s' := s.run events
    let silenced := s'.happen (.operation .silence)
    Rig.Leads (Offers events) s.rig s'.rig ∧
      s'.rig.trace p = (s'.rig.loopsOn p).flatMap s'.rig.callsBy ∧
      (∀ n ∈ s'.rig.loopsOn p, ∃ l track, s'.rig.loops[n]? = some l ∧
        l.commands = track.commands ∧ Offers events p track ∧
        ∃ count, s'.rig.callsBy n <+:
          (List.replicate count track.commands).flatten.map (·.call p)) ∧
      (∀ player ∈ s'.stage.players, ∀ ref, player.loops.get p = some ref →
        ref.Plays player p s'.rig) ∧
      (∀ (m n : Nat) k l, m < n → s'.rig.loops[m]? = some k → s'.rig.loops[n]? = some l →
        k.pad = l.pad → k.hasEnded = true) ∧
      (∀ later, s'.stage.driver p = none →
        ∃ fresh, (s'.run later).rig.loopsOn p = s'.rig.loopsOn p ++ fresh ∧
          (s'.run later).rig.trace p =
            s'.rig.trace p ++ fresh.flatMap (s'.run later).rig.callsBy) ∧
      (∀ q, silenced.stage.driver q = none) ∧
      (∀ l ∈ silenced.rig.loops, l.hasEnded = true) ∧
      ∀ later, ∃ fresh,
        (silenced.run later).rig.loopsOn p = silenced.rig.loopsOn p ++ fresh ∧
          (silenced.run later).rig.trace p =
            silenced.rig.trace p ++ fresh.flatMap (silenced.run later).rig.callsBy := by
  intro s s' silenced
  obtain ⟨hleads, ⟨_, hheld⟩, horderly⟩ :=
    reached settings actuator agenda launches events fun _ _ hoffers => hoffers
  have hrun : silenced = s.run (events ++ [.operation .silence]) := by
    rw [run_append]
    rfl
  have hdriver (q : Pad) : silenced.stage.driver q = none :=
    s'.stage.driver_fst_run_silence s'.rig q
  have hsilent (q : Pad) := trace_of_driver_eq_none settings actuator agenda launches
    (events ++ [.operation .silence]) (hrun ▸ hdriver q)
  rw [← hrun] at hsilent
  refine ⟨hleads, horderly.trace_eq p, fun n hn => ?_, fun player hplayer ref href => ?_,
    horderly.turns, fun later hnone => ?_, hdriver, fun l hl => ?_, (hsilent p).2⟩
  · obtain ⟨l, hget, rfl⟩ := mem_loopsOn.1 hn
    obtain ⟨track, htrack, hcommands⟩ := horderly.origin n l hget
    refine ⟨l, track, hget, hcommands, htrack, ?_⟩
    rw [← hcommands]
    rcases horderly.calls n l hget with hcalls | ⟨_, hcalls⟩
    · exact ⟨_, hcalls ▸ l.firstCalls_prefix _⟩
    · exact ⟨_, hcalls ▸ l.firstCalls_prefix _⟩
  · exact hheld.plays player hplayer p ref href
  · exact (trace_of_driver_eq_none settings actuator agenda launches events hnone).2 later
  · exact (hsilent l.pad).1 l hl rfl

end Performance

end LightShow
