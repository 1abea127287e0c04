import LightShow.Playback.Player

namespace LightShow

/-- Decides which player drives each pad. Players lie on a stack, of which only the top plays. Above
them each pad may carry an overlay, which has the pad to itself until it is removed. -/
structure Stage where
  settings : PlaybackSettings
  /-- The stacked players, top first. -/
  stack : List Player
  overlays : PerPad (Option Player)
  deriving DecidableEq, Repr

namespace Stage

def new (settings : PlaybackSettings) : Stage := ⟨settings, [], .const none⟩

def overlaidPads (s : Stage) : List Pad := s.overlays.pads

def top (s : Stage) : Option PlayerId := s.stack.head?.map (·.id)

def depth (s : Stage) : Nat := s.stack.length

def overlay (s : Stage) (pad : Pad) : Option PlayerId := (s.overlays.get pad).map (·.id)

/-- The player that drives a pad: its overlay, or else the top of the stack, if it has a loop on the
pad. -/
def driver (s : Stage) (pad : Pad) : Option PlayerId :=
  let player := match s.overlays.get pad with
    | some overlay => some overlay
    | none => s.stack.head?
  match player with
  | some player => if player.isPlaying pad then some player.id else none
  | none => none

/-- The error that ended the loop to which a pad is assigned. -/
def faultOn (s : Stage) (pad : Pad) (rig : Rig) : Option ActuatorError :=
  match s.overlays.get pad with
  | some overlay => overlay.faultOn pad rig
  | none => s.stack.head?.bind fun top => top.faultOn pad rig

/-- Stops players that are given up. Their errors are of no use any more. -/
def discard : List Player → Control Unit
  | [] => return
  | player :: rest => do
    let _ ← player.stop
    discard rest

/-- Starts a player on every pad without an overlay and puts it on top of the stack. -/
def startOnTop (s : Stage) (player : Player) : Control (Stage × Except PlaybackError PlayerId) := do
  let (player, result) ← player.startExcept s.overlaidPads
  match result with
  | .ok () => return ({ s with stack := player :: s.stack }, .ok player.id)
  | .error error =>
    discard [player]
    return (s, .error error)

/-- Stops the top of the stack, which stays where it is. -/
def suspendTop (s : Stage) : Control Stage := do
  match s.stack with
  | [] => return s
  | top :: rest =>
    let (top, _) ← top.stop
    return { s with stack := top :: rest }

/-- Starts the top of the stack anew on every pad without an overlay. -/
def restartTop (s : Stage) : Control (Stage × Except PlaybackError Unit) := do
  match s.stack with
  | [] => return (s, .ok ())
  | top :: rest =>
    let (top, result) ← top.startExcept s.overlaidPads
    return ({ s with stack := top :: rest }, result)

/-- Has the top of the stack take up a pad again. -/
def resumeTop (s : Stage) (pad : Pad) : Control (Stage × Except PlaybackError Unit) := do
  match s.stack with
  | [] => return (s, .ok ())
  | top :: rest =>
    let (top, result) ← top.resumeOn pad
    return ({ s with stack := top :: rest }, result)

/-- Has the top of the stack leave a pad alone. -/
def releaseTop (s : Stage) (pad : Pad) : Control Stage := do
  match s.stack with
  | [] => return s
  | top :: rest =>
    let (top, _) ← top.stopOn pad
    return { s with stack := top :: rest }

/-- Gives up the whole stack, from the top down. -/
def clearStack (s : Stage) : Control Stage := do
  discard s.stack
  return { s with stack := [] }

/-- Discards the stack and plays a program that has a track for every pad. Overlays stay. -/
def setDefault (s : Stage) (program : Program Binary64) :
    Control (Stage × Except PlaybackError PlayerId) := do
  if !program.isFull then return (s, .error (.padsMissing program.size))
  else match ← Player.onOwnPads program s.settings with
    | .error error => return (s, .error error)
    | .ok player => (← s.clearStack).startOnTop player

/-- Suspends the top of the stack and plays a program above it. -/
def push (s : Stage) (program : Program Binary64) :
    Control (Stage × Except PlaybackError PlayerId) := do
  match ← Player.onOwnPads program s.settings with
  | .error error => return (s, .error error)
  | .ok player =>
    let (s, result) ← (← s.suspendTop).startOnTop player
    match result with
    | .ok id => return (s, .ok id)
    | .error error =>
      let (s, restarted) ← s.restartTop
      return (s, restarted.bind fun () => .error error)

/-- Discards the stack and plays a program in its place. -/
def replace (s : Stage) (program : Program Binary64) :
    Control (Stage × Except PlaybackError PlayerId) := do
  match ← Player.onOwnPads program s.settings with
  | .error error => return (s, .error error)
  | .ok player => (← s.clearStack).startOnTop player

/-- Takes a player off the stack and has the one below it start anew. Only the top can be taken
off; for any other player nothing happens, and the answer is false. -/
def pop (s : Stage) (id : PlayerId) : Control (Stage × Except PlaybackError Bool) := do
  match s.stack with
  | [] => return (s, .ok false)
  | top :: rest =>
    if top.id ≠ id then return (s, .ok false)
    else
      discard [top]
      let (s, result) ← { s with stack := rest }.restartTop
      return (s, result.map fun () => true)

/-- Gives a pad to a program until the overlay is removed. An overlay that the pad already carries
is given up. -/
def cover (s : Stage) (pad : Pad) (program : Program Binary64) :
    Control (Stage × Except PlaybackError PlayerId) := do
  match ← Player.onPad pad program s.settings with
  | .error error => return (s, .error error)
  | .ok player =>
    discard (s.overlays.get pad).toList
    let s ← { s with overlays := s.overlays.set pad none }.releaseTop pad
    let (player, result) ← player.start
    match result with
    | .ok () => return ({ s with overlays := s.overlays.set pad (some player) }, .ok player.id)
    | .error error =>
      let (s, resumed) ← s.resumeTop pad
      discard [player]
      return (s, resumed.bind fun () => .error error)

/-- Removes the overlay of a pad and has the top of the stack take up the pad again. The answer
tells whether there was an overlay. -/
def uncover (s : Stage) (pad : Pad) : Control (Stage × Except PlaybackError Bool) := do
  let removed := (s.overlays.get pad).isSome
  discard (s.overlays.get pad).toList
  let (s, result) ← { s with overlays := s.overlays.set pad none }.resumeTop pad
  return (s, result.map fun () => removed)

/-- Removes the overlays of some pads one after another. -/
def uncoverEach (s : Stage) : List Pad → Control (Stage × Except PlaybackError Unit)
  | [] => return (s, .ok ())
  | pad :: rest => do
    let (s, result) ← s.uncover pad
    match result with
    | .ok _ => s.uncoverEach rest
    | .error error => return (s, .error error)

def uncoverAll (s : Stage) : Control (Stage × Except PlaybackError Unit) :=
  s.uncoverEach s.overlaidPads

/-- Stops everything. The stage can be used again. -/
def silence (s : Stage) : Control Stage := do
  discard (s.overlays.entries.map (·.2))
  { s with overlays := .const none }.clearStack

end Stage

end LightShow
