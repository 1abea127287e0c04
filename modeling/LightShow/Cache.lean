import LightShow.Settings
import LightShow.Container
import LightShow.Envelope
import LightShow.FileSystem

namespace LightShow

/-- A value that is handed out to several owners. Two values of one serial number are one and the
same object. -/
structure Shared (α : Type) where
  serial : Nat
  value : α
  deriving DecidableEq, Repr

/-- Decoded tracks by the key under which they were asked for. -/
structure Cache (κ : Type) where
  entries : List (κ × Shared Show)
  deriving DecidableEq, Repr

structure Lookup (κ : Type) where
  cache : Cache κ
  /-- Whether the loader was run. -/
  loaded : Bool
  result : Except CodecError (Shared Show)

namespace Cache

variable {κ : Type} [DecidableEq κ]

def empty : Cache κ := ⟨[]⟩

def get? (c : Cache κ) (key : κ) : Option (Shared Show) := c.entries.lookup key

def contains (c : Cache κ) (key : κ) : Bool := (c.get? key).isSome

def size (c : Cache κ) : Nat := c.entries.length

/-- The track of a key. It is loaded if it is not kept yet, and is then a new object, with the given
serial number; an error of the loader is handed on and leaves no trace. -/
def fetch (c : Cache κ) (serial : Nat) (key : κ) (load : κ → Except CodecError Show) :
    Lookup κ :=
  match c.get? key with
  | some found => ⟨c, false, .ok found⟩
  | none =>
    match load key with
    | .ok program =>
      let program : Shared Show := ⟨serial, program⟩
      ⟨⟨(key, program) :: c.entries⟩, true, .ok program⟩
    | .error error => ⟨c, true, .error error⟩

end Cache

/-- The program in a file, which may be wrapped in an envelope. -/
def Program.load (fs : FileSystem) (here : Location) (path : Path) : Except CodecError Show := do
  let raw ← (fs.read here path).mapError .file
  let data ← Envelope.normalise raw
  Program.parse data

/-- The track in a file. Where paths are resolved, a track is kept under the location of its file,
and a path that leads nowhere is an error even if its track is kept. Elsewhere it is kept under its
path, of which only the components count. -/
def FileCache.load (settings : CacheSettings) (fs : FileSystem) (here : Location) (c : Cache Path)
    (serial : Nat) (path : Path) : Lookup Path :=
  if settings.canonicalizePaths then
    match fs.resolve here path with
    | .error error => ⟨c, false, .error (.file error)⟩
    | .ok location => c.fetch serial (.ofLocation location) (Program.load fs here)
  else c.fetch serial path.normalise fun _ => Program.load fs here path

end LightShow
