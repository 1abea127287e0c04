import LightShow.FileSystem.Error

namespace LightShow

/-- The names from the root down to a file or directory, with nothing left to resolve. -/
abbrev Location := List String

/-- Where a part of a path leads. -/
inductive PathStep where
  | stay
  | up
  | down (name : String)
  deriving DecidableEq, Repr

def PathStep.ofPart (part : String) : PathStep :=
  if part = "" ∨ part = "." then .stay
  else if part = ".." then .up
  else .down part

/-- A path as it is written: the parts between its slashes, some of which may be empty. -/
structure Path where
  parts : List String
  deriving DecidableEq, Repr

namespace Path

def ofString (text : String) : Path :=
  ⟨(text.toList.splitOn '/').map String.ofList⟩

/-- The path that leads to a location from the root. -/
def ofLocation : Location → Path
  | [] => ⟨["", ""]⟩
  | location => ⟨"" :: location⟩

def isAbsolute (path : Path) : Bool :=
  match path.parts with
  | "" :: _ :: _ => true
  | _ => false

def text (path : Path) : String := "/".intercalate path.parts

def length (path : Path) : Nat := path.text.utf8ByteSize

def steps (path : Path) : List PathStep := path.parts.map .ofPart

/-- The steps from the root, where a path without a slash in front starts at `here`. -/
def stepsFrom (here : Location) (path : Path) : List PathStep :=
  if path.isAbsolute then path.steps else here.map .down ++ path.steps

/-- The path without the parts that lead nowhere, of which only a `.` in front stays. Two paths with
the same components have the same normal form; links and `..` are left alone. -/
def normalise (path : Path) : Path :=
  let components := path.parts.filter (PathStep.ofPart · ≠ .stay)
  if path.isAbsolute then .ofLocation components
  else if path.parts.head? = some "." then ⟨"." :: components⟩
  else ⟨components⟩

/-- The longest path that the system takes, in bytes. -/
def maxLength : Nat := 4095

/-- Refuses a path that holds the character at which names end for the system. -/
def checkNames (path : Path) : Except FileError Unit :=
  if path.parts.any (·.toList.contains '\x00') then .error .nulInName else .ok ()

/-- Refuses a path that the system does not take, whatever it leads to. -/
def check (path : Path) : Except FileError Unit := do
  path.checkNames
  if maxLength < path.length then throw .nameTooLong

end Path

end LightShow
