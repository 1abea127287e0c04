import LightShow.Binary64.Decimal
import LightShow.Bytes
import LightShow.FileSystem.Error
import LightShow.Settings
import LightShow.Playback.Error
import LightShow.Toml.Document

namespace LightShow

namespace Toml

/-- The whole numbers that a document may hold, whether they are used or not. -/
def leastInteger : Int := -0x80000000000000000000000000000000

/-- One above the largest of those numbers. -/
def integerLimit : Int := 0x100000000000000000000000000000000

mutual

/-- True if every text in a value that should name a number does, and the number has a size that can
be dealt with. -/
def Value.inRange : Value → Bool
  | .integer n => n.any fun n => leastInteger ≤ n && n < integerLimit
  | .float x => x.isSome
  | .array items => allInRange items
  | .table _ entries => entriesInRange entries
  | .tables latest earlier => entriesInRange latest && tablesInRange earlier
  | _ => true

def allInRange : List Value → Bool
  | [] => true
  | item :: rest => item.inRange && allInRange rest

def entriesInRange : List (String × Value) → Bool
  | [] => true
  | (_, item) :: rest => item.inRange && entriesInRange rest

def tablesInRange : List (List (String × Value)) → Bool
  | [] => true
  | table :: rest => entriesInRange table && tablesInRange rest

end

/-- The least whole number of 64 bits. -/
def leastWord : Int := -0x8000000000000000

/-- One above the largest whole number of 64 bits. -/
def wordLimit : Int := 0x10000000000000000

/-- A count: a whole number of at most 64 bits. -/
def Value.count? : Value → Option UInt64
  | .integer (some n) => if 0 ≤ n ∧ n < wordLimit then some (UInt64.ofNat n.toNat) else none
  | _ => none

/-- A number, with a fraction or without; a whole number has at most 64 bits. -/
def Value.number? : Value → Option Binary64
  | .float x => x
  | .integer (some n) => if leastWord ≤ n ∧ n < wordLimit then some (Binary64.ofInt n) else none
  | _ => none

def Value.boolean? : Value → Option Bool
  | .boolean b => some b
  | _ => none

end Toml

/-- A key for a group of settings: its name, and how a value changes the group. -/
structure SettingKey (α : Type) where
  name : String
  change : Toml.Value → α → Option α

namespace SettingKey

variable {α : Type}

/-- Applies the entries of a table. Entries of unknown names are ignored. -/
def applyEntries (keys : List (SettingKey α)) : Toml.Entries → α → Option α
  | [], group => some group
  | (name, item) :: rest, group =>
    match keys.find? (·.name = name) with
    | some key => do applyEntries keys rest (← key.change item group)
    | none => if item.inRange then applyEntries keys rest group else none

/-- Applies values in the order of the keys. Settings without a value are left alone, and so are
values without a key. -/
def applyItems : List (SettingKey α) → List Toml.Value → α → Option α
  | key :: keys, item :: items, group => do
    applyItems keys items (← key.change item group)
  | _, _, group => some group

/-- Applies a value to a group: a table of settings by their names, or an array of settings in the
order of the keys. A date counts as a table in which every name is unknown. -/
def apply (keys : List (SettingKey α)) (group : α) : Toml.Value → Option α
  | .table _ entries => applyEntries keys entries group
  | .array items => applyItems keys items group
  | .dateTime => some group
  | _ => none

end SettingKey

namespace PlaybackSettings

def keys : List (SettingKey PlaybackSettings) :=
  [{ name := "stop_poll_ms"
     change := fun item c => item.count?.map fun stopPollMs => { c with stopPollMs } },
   { name := "min_loop_seconds"
     change := fun item c => item.number?.map fun minLoopSeconds => { c with minLoopSeconds } }]

end PlaybackSettings

namespace CacheSettings

def keys : List (SettingKey CacheSettings) :=
  [{ name := "canonicalize_paths"
     change := fun item c =>
       item.boolean?.map fun canonicalizePaths => { c with canonicalizePaths } }]

end CacheSettings

namespace Settings

def keys : List (SettingKey Settings) :=
  [{ name := "playback"
     change := fun item c =>
       (SettingKey.apply PlaybackSettings.keys .default item).map fun playback =>
         { c with playback } },
   { name := "cache"
     change := fun item c =>
       (SettingKey.apply CacheSettings.keys .default item).map fun cache => { c with cache } }]

/-- The settings that a document describes. What it does not set has its default. -/
def ofText (text : String) : Except PlaybackError Settings :=
  match Toml.parse text.toList >>= fun entries => SettingKey.applyEntries keys entries .default with
  | some settings => .ok settings
  | none => .error .configMalformed

/-- The text that some bytes encode. -/
def textOf (content : Bytes) : Except FileError String :=
  match String.fromUTF8? ⟨content.toArray⟩ with
  | some text => .ok text
  | none => .error .notUtf8

/-- The settings in a file, whose content could be read or not. -/
def load (content : Except FileError Bytes) : Except PlaybackError Settings :=
  match content >>= textOf with
  | .ok text => ofText text
  | .error error => .error (.configUnreadable error)

/-- The settings in a file, or the default if there is no good one. -/
def loadD (content : Except FileError Bytes) : Settings :=
  match load content with
  | .ok settings => settings
  | .error _ => .default

/-- The document that describes the settings. -/
def text (c : Settings) : String :=
  "[playback]\nstop_poll_ms = " ++ toString c.playback.stopPollMs.toNat ++
    "\nmin_loop_seconds = " ++ c.playback.minLoopSeconds.text ++
    "\n\n[cache]\ncanonicalize_paths = " ++ toString c.cache.canonicalizePaths ++ "\n"

end Settings

end LightShow
