import LightShow.Playback.Error
import LightShow.Program
import LightShow.Playback.Loop

namespace LightShow

/-- Names a player among all players ever made. -/
structure PlayerId where
  number : UInt64
  deriving DecidableEq, Repr

/-- A call in the journal, with the loop that made it. -/
structure JournalEntry where
  loop : Nat
  call : Call
  reply : Reply
  deriving DecidableEq, Repr

/-- Something that happens beside the control of the show. -/
inductive Move where
  | elapse (nanoseconds : Nat)
  | advance (loop : Nat)
  deriving DecidableEq, Repr

/-- The lights, the loops that drive them and all that they share. Loops run beside the control of
the show: the agenda says, for each of the control's actions in turn, what happens before it, so
that every interleaving of loops and control is the run of some agenda. -/
structure Rig where
  actuator : Actuator
  /-- Every loop ever started, by its number. -/
  loops : List Loop
  /-- Every call ever made, latest first. -/
  journal : List JournalEntry
  clock : Nat
  agenda : List (List Move)
  /-- What the system says when it is next asked for a thread: nothing, or why there is none. Where
  the list ends nothing is refused any more. -/
  launches : List (Option String)
  nextPlayer : UInt64

namespace Rig

def new (actuator : Actuator) (agenda : List (List Move)) : Rig where
  actuator := actuator
  loops := []
  journal := []
  clock := 0
  agenda := agenda
  launches := []
  nextPlayer := 1

def answer (rig : Rig) (call : Call) : Reply :=
  rig.actuator (rig.journal.map fun entry => (entry.call, entry.reply)) call

/-- A loop takes a step; its call, if it makes one, goes into the journal. -/
def advance (rig : Rig) (number : Nat) : Rig :=
  match rig.loops[number]? with
  | none => rig
  | some l =>
    let (l, made) := l.step rig.clock rig.answer
    { rig with
      loops := rig.loops.set number l
      journal := match made with
        | some (call, reply) => ⟨number, call, reply⟩ :: rig.journal
        | none => rig.journal }

def move (rig : Rig) : Move → Rig
  | .elapse nanoseconds => { rig with clock := rig.clock + nanoseconds }
  | .advance number => rig.advance number

def run (rig : Rig) (moves : List Move) : Rig := moves.foldl move rig

/-- Starts a loop, unless the system refuses it a thread. The answer is the loop's number, or what
the system says. -/
def launch (rig : Rig) (l : Loop) : Except String Nat × Rig :=
  match rig.launches with
  | some description :: rest => (.error description, { rig with launches := rest })
  | none :: rest =>
    (.ok rig.loops.length, { rig with launches := rest, loops := rig.loops ++ [l] })
  | [] => (.ok rig.loops.length, { rig with loops := rig.loops ++ [l] })

/-- Changes what is known of a loop. -/
def update (rig : Rig) (number : Nat) (f : Loop → Loop) : Rig :=
  { rig with loops := rig.loops.modify number f }

/-- The calls that were carried out on a pad, first to last. -/
def callsOn (rig : Rig) (pad : Pad) : List Action :=
  (rig.journal.reverse.filter fun entry =>
    entry.call.target = .pad pad && entry.reply = .done).map (·.call.action)

end Rig

/-- An action that controls the show. -/
abbrev Control (α : Type) := StateM Rig α

namespace Control

/-- Lets happen what the agenda has before the next action. -/
def interlude : Control Unit :=
  modify fun rig =>
    match rig.agenda with
    | [] => rig
    | moves :: rest => { rig with agenda := rest }.run moves

def newPlayerId : Control PlayerId :=
  modifyGet fun rig => (⟨rig.nextPlayer⟩, { rig with nextPlayer := rig.nextPlayer + 1 })

end Control

/-- A running loop, as the control of the show knows it. -/
structure LoopRef where
  number : Nat
  pad : Pad
  deriving DecidableEq, Repr

namespace LoopRef

/-- Starts a loop that plays the `source` track of a program on a pad. -/
def start (pad : Pad) (program : Program Binary64) (source : Pad) (settings : PlaybackSettings) :
    Control (Except PlaybackError LoopRef) := do
  match program.track source with
  | none => return .error (.noSourceTrack source pad)
  | some track =>
    Control.interlude
    match ← modifyGet fun rig => rig.launch (Loop.new pad track settings rig.clock) with
    | .ok number => return .ok ⟨number, pad⟩
    | .error description => return .error (.threadRefused description)

def state? (loop : LoopRef) (rig : Rig) : Option Loop := rig.loops[loop.number]?

/-- The error of the call that ended the loop, if one did. -/
def fault (loop : LoopRef) (rig : Rig) : Option ActuatorError :=
  (loop.state? rig).bind (·.fault)

/-- True until the loop has ended or has been waited for. -/
def isRunning (loop : LoopRef) (rig : Rig) : Bool :=
  match loop.state? rig with
  | some l => !l.joined && !l.hasEnded
  | none => false

def requestStop (loop : LoopRef) : Control Unit := do
  Control.interlude
  modify fun rig => rig.update loop.number fun l => { l with stopRequested := true }

/-- Waits for the end of a loop that has been asked to stop: at most one call is still to come, and
two steps bring the loop to its end. The answer tells whether it was brought down; only the first
wait can tell. -/
def join (loop : LoopRef) : Control Bool := do
  Control.interlude
  modifyGet fun rig =>
    match loop.state? rig with
    | none => (false, rig)
    | some l =>
      if l.joined then (false, rig)
      else
        let rig := (rig.advance loop.number).advance loop.number
        let panicked := match loop.state? rig with
          | some l => decide (l.phase = .panicked)
          | none => false
        (panicked, rig.update loop.number fun l => { l with joined := true })

/-- Stops the loop and waits for its end. What is wrong with the loop is reported: that it was
brought down, once, or else the error of the call that ended it, each time. -/
def stop (loop : LoopRef) : Control (Except PlaybackError Unit) := do
  loop.requestStop
  if ← loop.join then return .error (.loopPanicked loop.pad)
  match loop.fault (← get) with
  | some error => return .error (.actuator error)
  | none => return .ok ()

end LoopRef

end LightShow
