import LightShow.Playback.Rig

namespace LightShow.Rig

/-- The number of the loop on a pad that has not ended. -/
def activeOn? (rig : Rig) (pad : Pad) : Option Nat :=
  rig.loops.zipIdx.findSome? fun (l, number) =>
    if l.pad = pad ∧ !l.hasEnded then some number else none

/-- How long a loop still has to wait: nothing, unless it waits for a command to be due. -/
def waitOf (rig : Rig) (l : Loop) : Nat :=
  match l.phase, l.command? l.made with
  | .waiting, some command => l.dueTime l.made command - rig.clock
  | _, _ => 0

/-- Has the loop on a pad take a step. If it waits for a command, the time passes until that is
due. -/
def carryOn (pad : Pad) (rig : Rig) : Rig :=
  match rig.activeOn? pad with
  | none => rig
  | some number =>
    match rig.loops[number]? with
    | none => rig
    | some l => rig.run [.elapse (rig.waitOf l), .advance number]

/-- Has the loop on a pad go on until it waits for a command, if it has not come to that yet. -/
def settle (pad : Pad) (rig : Rig) : Rig :=
  match (rig.activeOn? pad).bind (rig.loops[·]?) with
  | some l => if l.phase = .checking then carryOn pad rig else rig
  | none => rig

/-- The number of steps from waiting for one command to waiting for the next. -/
def stepsPerCall : Nat := 3

/-- Has the loop on a pad make its next `calls` calls, or as many as it makes before it ends, and
wait for the command after them. -/
def perform (pad : Pad) (calls : Nat) (rig : Rig) : Rig :=
  Nat.repeat (carryOn pad) (stepsPerCall * calls) (settle pad rig)

end LightShow.Rig
