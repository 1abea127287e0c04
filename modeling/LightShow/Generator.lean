import LightShow.Cache
import LightShow.CommandLine
import LightShow.Demo.Tracks

namespace LightShow

/-- The files to which the generator writes and from which it reads back. -/
structure FileAccess (m : Type → Type) where
  makeDirectories : String → m (Except FileError Unit)
  write : String → Bytes → m (Except FileError Unit)
  read : String → m (Except FileError Bytes)

/-- Why the demonstration tracks could not be written. -/
inductive GeneratorError where
  | noDirectory (path : String) (error : FileError)
  | notBuilt (name : String) (error : CodecError)
  | notWritten (path : String) (error : FileError)
  | notRead (path : String) (error : CodecError)
  | incomplete (name : String)
  | badLoop (name : String)
  deriving DecidableEq, Repr

def GeneratorError.message : GeneratorError → String
  | noDirectory path error => s!"Failed to create output directory {path}: {error.message}"
  | notBuilt name error => s!"Failed to build {name}: {error.message}"
  | notWritten path error => s!"Failed to write {path}: {error.message}"
  | notRead path error => s!"Failed to re-read {path}: {error.message}"
  | incomplete name => s!"{name} does not define all three pads"
  | badLoop name => s!"{name} does not loop in 5 to 15 seconds"

namespace Generator

/-- The path of a track's file in a directory. -/
def pathIn (out name : String) : String :=
  (if out.toList.getLast? = some '/' then out else out ++ "/") ++ name ++ ".lstf"

/-- The content of a file: the container itself, or an envelope around it. -/
def content (binary : Bool) (container : Bytes) : Bytes :=
  if binary then container else Envelope.toAscii (Envelope.encode container)

/-- Checks a file that has been written: it has to hold a program for all three pads, with a loop of
fair length. -/
def check (name path : String) (raw : Except FileError Bytes) : Except GeneratorError Unit := do
  let program : Show ←
    ((raw.mapError .file) >>= Envelope.normalise >>= Program.parse).mapError (.notRead path)
  if !program.isFull then throw (.incomplete name)
  if !Demo.isFairPeriod (Demo.period program) then throw (.badLoop name)

variable {m : Type → Type} [Monad m]

def writeTrack (files : FileAccess m) (out : String) (binary : Bool) (demo : Demo) :
    m (Except GeneratorError String) := do
  match demo.bytes with
  | .error error => return .error (.notBuilt demo.name error)
  | .ok container =>
    let path := pathIn out demo.name
    match ← files.write path (content binary container) with
    | .error error => return .error (.notWritten path error)
    | .ok () => return (check demo.name path (← files.read path)).map fun () => path

/-- Writes the files of some tracks, up to the first that fails. -/
def writeTracks (files : FileAccess m) (out : String) (binary : Bool) :
    List Demo → m (Except GeneratorError (List String))
  | [] => return .ok []
  | demo :: rest => do
    match ← writeTrack files out binary demo with
    | .error error => return .error error
    | .ok path => return (← writeTracks files out binary rest).map (path :: ·)

/-- Makes a directory and writes every demonstration track into it. The answer names the files. -/
def generate (files : FileAccess m) (out : String) (binary : Bool) :
    m (Except GeneratorError (List String)) := do
  match ← files.makeDirectories out with
  | .error error => return .error (.noDirectory out error)
  | .ok () => writeTracks files out binary Demo.all

/-- How a run of the generator ends. -/
inductive Outcome where
  /-- It has been asked about itself. -/
  | told (text : String)
  | generated (out : String) (paths : List String)
  | failed (error : GeneratorError)
  | refused (error : UsageError)
  deriving DecidableEq, Repr

namespace Outcome

def status : Outcome → UInt8
  | told _ => 0
  | generated .. => 0
  | failed _ => 1
  | refused _ => 2

def text : Outcome → String
  | told text => text
  | generated out paths => s!"Generated {paths.length} demo tracks in {out}\n"
  | failed error => s!"Error: {error.message}\n"
  | refused error => s!"error: {error.message}\n\nFor more information, try '--help'.\n"

end Outcome

/-- Carries out the request of a command line. -/
def carryOut (files : FileAccess m) (request : Except UsageError Request) : m Outcome := do
  match request with
  | .error error => return .refused error
  | .ok .help => return .told helpText
  | .ok .version => return .told versionText
  | .ok (.generate out binary) =>
    match ← generate files out binary with
    | .ok paths => return .generated out paths
    | .error error => return .failed error

/-- Access to the files of a tree, with paths that start from a working directory. -/
def inTree (here : Location) : FileAccess (StateM FileSystem) where
  makeDirectories path := modifyGet fun fs =>
    match fs.makeDirectories here (.ofString path) with
    | .ok fs => (.ok (), fs)
    | .error error => (.error error, fs)
  write path content := modifyGet fun fs =>
    match fs.write here (.ofString path) content with
    | .ok fs => (.ok (), fs)
    | .error error => (.error error, fs)
  read path := do return (← get).read here (.ofString path)

end Generator

end LightShow
