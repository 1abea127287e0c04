import LightShow.Playback.Rig

namespace LightShow

/-- A program bound to pads, with the loops that play it. -/
structure Player where
  id : PlayerId
  program : Program Binary64
  settings : PlaybackSettings
  /-- For each pad that the player drives, the pad whose track is played on it. -/
  bindings : PerPad (Option Pad)
  /-- The loops that have been started and not stopped. -/
  loops : PerPad (Option LoopRef)
  deriving DecidableEq, Repr

namespace Player

def new (program : Program Binary64) (settings : PlaybackSettings)
    (bindings : PerPad (Option Pad)) : Control Player := do
  return { id := ← Control.newPlayerId, program, settings, bindings, loops := .const none }

/-- A player that plays every track on its own pad. The program has to have several tracks. -/
def onOwnPads (program : Program Binary64) (settings : PlaybackSettings) :
    Control (Except PlaybackError Player) := do
  if program.isEmpty then return .error .emptyProgram
  else if program.isGeneric then return .error .genericProgram
  else
    let bindings := .ofFn fun pad => if (program.track pad).isSome then some pad else none
    return .ok (← new program settings bindings)

/-- The pad whose track a program plays when it is bound to `pad`: its only one, or else that of
the pad itself. -/
def sourceFor? (program : Program Binary64) (pad : Pad) : Option Pad :=
  if program.isGeneric then program.pads.head?
  else if (program.track pad).isSome then some pad
  else none

/-- A player that plays one track of a program on one pad. -/
def onPad (pad : Pad) (program : Program Binary64) (settings : PlaybackSettings) :
    Control (Except PlaybackError Player) := do
  match sourceFor? program pad with
  | none => return .error (.noTrackFor pad)
  | some source => return .ok (← new program settings ((PerPad.const none).set pad (some source)))

def pads (p : Player) : List Pad := p.bindings.pads

def isBound (p : Player) (pad : Pad) : Bool := (p.bindings.get pad).isSome

/-- True if a loop has been started on the pad and not stopped, be it at work or not. -/
def isPlaying (p : Player) (pad : Pad) : Bool := (p.loops.get pad).isSome

/-- The error that ended the loop on a pad. -/
def faultOn (p : Player) (pad : Pad) (rig : Rig) : Option ActuatorError :=
  (p.loops.get pad).bind (·.fault rig)

/-- Starts a loop on a pad, if the player binds it. -/
def startOn (p : Player) (pad : Pad) : Control (Player × Except PlaybackError Unit) := do
  match p.bindings.get pad with
  | none => return (p, .ok ())
  | some source =>
    match ← LoopRef.start pad p.program source p.settings with
    | .ok loop => return ({ p with loops := p.loops.set pad (some loop) }, .ok ())
    | .error error => return (p, .error error)

/-- Starts loops on pads one after another until one cannot be started. -/
def startOnAll (p : Player) : List Pad → Control (Player × Except PlaybackError Unit)
  | [] => return (p, .ok ())
  | pad :: rest => do
    let (p, result) ← p.startOn pad
    match result with
    | .ok () => p.startOnAll rest
    | .error error => return (p, .error error)

/-- The first error among some results. -/
def firstError : List (Except PlaybackError Unit) → Except PlaybackError Unit
  | [] => .ok ()
  | .error error :: _ => .error error
  | .ok () :: rest => firstError rest

/-- Stops every loop, in pad order. All are stopped even if some report errors, of which the first
is handed on. -/
def stop (p : Player) : Control (Player × Except PlaybackError Unit) := do
  let results ← p.loops.entries.mapM fun (_, loop) => loop.stop
  return ({ p with loops := .const none }, firstError results)

/-- Stops every loop and starts all pads but the excluded ones from the beginning of their
tracks. -/
def startExcept (p : Player) (excluded : List Pad) :
    Control (Player × Except PlaybackError Unit) := do
  let (p, _) ← p.stop
  p.startOnAll (p.pads.filter fun pad => !excluded.contains pad)

/-- Stops every loop and starts all pads from the beginning of their tracks. -/
def start (p : Player) : Control (Player × Except PlaybackError Unit) := p.startExcept []

def stopOn (p : Player) (pad : Pad) : Control (Player × Except PlaybackError Unit) := do
  match p.loops.get pad with
  | none => return (p, .ok ())
  | some loop =>
    let result ← loop.stop
    return ({ p with loops := p.loops.set pad none }, result)

/-- Starts the loop on one pad, if the pad is bound and has none. -/
def resumeOn (p : Player) (pad : Pad) : Control (Player × Except PlaybackError Unit) := do
  if p.isPlaying pad then return (p, .ok ())
  else p.startOn pad

/-- A description of the player for diagnostics, under a number of the caller's choice. -/
def describe (p : Player) (number : Nat) : String :=
  let bindings := p.bindings.entries.map fun (pad, source) => pad.title ++ ": " ++ source.title
  let playing := p.loops.pads.map (·.title)
  "TrackHandle \x7b id: TrackId(" ++ toString number ++ "), bindings: \x7b" ++
    ", ".intercalate bindings ++ "\x7d, playing: [" ++ ", ".intercalate playing ++ "] \x7d"

end Player

end LightShow
