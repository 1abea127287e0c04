import LightShow.Bytes
import LightShow.FileSystem.Path

namespace LightShow

/-- A file, a symbolic link, or a directory with its entries in the order of their names. -/
inductive FileTree where
  | file (content : Bytes)
  | link (target : Path)
  | directory (entries : List (String × FileTree))

namespace FileTree

def isDirectory : FileTree → Bool
  | .directory _ => true
  | _ => false

def child? (name : String) : FileTree → Option FileTree
  | .directory entries => entries.lookup name
  | _ => none

/-- What stands at a location below the tree. -/
def get? : Location → FileTree → Option FileTree
  | [], tree => some tree
  | name :: rest, tree => tree.child? name >>= get? rest

/-- Puts an entry into a directory, in place of the one of that name. -/
def putEntry (name : String) (tree : FileTree) :
    List (String × FileTree) → List (String × FileTree)
  | [] => [(name, tree)]
  | (other, t) :: rest =>
    if name = other then (name, tree) :: rest
    else if name < other then (name, tree) :: (other, t) :: rest
    else (other, t) :: putEntry name tree rest

/-- Changes the entries of the directory at a location; elsewhere nothing changes. -/
def editAt (change : List (String × FileTree) → List (String × FileTree)) :
    Location → List (String × FileTree) → List (String × FileTree)
  | [], entries => change entries
  | name :: rest, entries =>
    match entries.lookup name with
    | some (.directory inner) => putEntry name (.directory (editAt change rest inner)) entries
    | _ => entries

mutual

/-- Every file below a location, by its names from there. A directory is walked in the order of its
names. -/
def files (here : Location) : FileTree → List (Location × Bytes)
  | .file content => [(here, content)]
  | .link _ => []
  | .directory entries => filesIn here entries

def filesIn (here : Location) : List (String × FileTree) → List (Location × Bytes)
  | [] => []
  | (name, tree) :: rest => files (here ++ [name]) tree ++ filesIn here rest

end

end FileTree

/-- All files, by the entries of the root directory. -/
structure FileSystem where
  entries : List (String × FileTree)

/-- The directories on the way from the root, with the last one in front. -/
abbrev Trail := List (String × FileTree)

def Trail.location (trail : Trail) : Location := (trail.map (·.1)).reverse

namespace FileSystem

def empty : FileSystem := ⟨[]⟩

def root (fs : FileSystem) : FileTree := .directory fs.entries

def get? (fs : FileSystem) (location : Location) : Option FileTree := fs.root.get? location

def isDirectory (fs : FileSystem) (location : Location) : Bool :=
  (fs.get? location).any FileTree.isDirectory

/-- Puts a tree at a location, in place of what is there. Its directory has to exist. -/
def put (fs : FileSystem) (location : Location) (tree : FileTree) : FileSystem :=
  match location.getLast? with
  | none => fs
  | some name => ⟨FileTree.editAt (FileTree.putEntry name tree) location.dropLast fs.entries⟩

def erase (fs : FileSystem) (location : Location) : FileSystem :=
  match location.getLast? with
  | none => fs
  | some name => ⟨FileTree.editAt (·.filter (·.1 ≠ name)) location.dropLast fs.entries⟩

/-- The longest name that a directory can hold, in bytes. -/
def maxNameLength : Nat := 255

/-- How many symbolic links are followed on the way to one file. -/
def maxLinks : Nat := 40

/-- The tree to which a trail leads. -/
def treeAt (fs : FileSystem) (trail : Trail) : FileTree :=
  match trail with
  | [] => fs.root
  | (_, tree) :: _ => tree

/-- Follows steps from the end of a trail. Where `fresh` is set the last name may be missing. A link
is followed from the directory that holds it. -/
def walk (fs : FileSystem) (fresh : Bool) (links : Nat) (trail : Trail) (steps : List PathStep) :
    Except FileError Location :=
  match steps with
  | [] => .ok trail.location
  | step :: rest =>
    if !(fs.treeAt trail).isDirectory then .error .notDirectory
    else match step with
      | .stay => walk fs fresh links trail rest
      | .up => walk fs fresh links trail.tail rest
      | .down name =>
        if maxNameLength < name.utf8ByteSize then .error .nameTooLong
        else match (fs.treeAt trail).child? name with
          | none =>
            if fresh ∧ rest = [] then .ok (trail.location ++ [name]) else .error .notFound
          | some (.link target) =>
            match links with
            | 0 => .error .tooManyLinks
            | links + 1 =>
              walk fs fresh links (if target.isAbsolute then [] else trail) (target.steps ++ rest)
          | some tree => walk fs fresh links ((name, tree) :: trail) rest
termination_by (links, steps.length)

/-- The location to which steps from the root lead. -/
def follow (fs : FileSystem) (steps : List PathStep) : Except FileError Location :=
  fs.walk false maxLinks [] steps

/-- The location of the file or directory that a path leads to. The path may be of any length, since
it is resolved name by name. -/
def resolve (fs : FileSystem) (here : Location) (path : Path) : Except FileError Location := do
  path.checkNames
  fs.follow (path.stepsFrom here)

def read (fs : FileSystem) (here : Location) (path : Path) : Except FileError Bytes := do
  path.check
  let target ← fs.follow (path.stepsFrom here)
  match fs.get? target with
  | some (.file content) => .ok content
  | some _ => .error .isDirectory
  | none => .error .notFound

/-- Writes a file, which is made if it is missing; its directory has to be there. -/
def write (fs : FileSystem) (here : Location) (path : Path) (content : Bytes) :
    Except FileError FileSystem := do
  path.check
  let target ← fs.walk true maxLinks [] (path.stepsFrom here)
  if fs.isDirectory target then .error .isDirectory
  else .ok (fs.put target (.file content))

/-- Makes every directory on the way along some steps that is not there yet. The last one is not made
if a step that stays follows it, because it would have to be there for that step. -/
def makeOnTheWay (fs : FileSystem) (here : Location) : List PathStep → Except FileError FileSystem
  | [] => if fs.isDirectory here then .ok fs else .error .alreadyExists
  | step :: rest =>
    if !fs.isDirectory here then .error .notDirectory
    else match step with
      | .stay => makeOnTheWay fs here rest
      | .up => makeOnTheWay fs here.dropLast rest
      | .down name =>
        if maxNameLength < name.utf8ByteSize then .error .nameTooLong
        else match fs.get? (here ++ [name]) with
          | none =>
            if rest ≠ [] ∧ rest.all (· = .stay) then .error .notFound
            else makeOnTheWay (fs.put (here ++ [name]) (.directory [])) (here ++ [name]) rest
          | some (.link _) => do
            let target ← fs.follow (here.map .down ++ [.down name])
            makeOnTheWay fs target rest
          | some _ => makeOnTheWay fs (here ++ [name]) rest

/-- Makes every directory on a path that is not there yet. Slashes may follow the last name, but no
`.` as long as its directory is missing. -/
def makeDirectories (fs : FileSystem) (here : Location) (path : Path) :
    Except FileError FileSystem := do
  path.check
  let start := if path.isAbsolute then [] else here
  fs.makeOnTheWay [] (start.map .down ++ (path.parts.filter (· ≠ "")).map .ofPart)

/-- The location of a path's last name, which is not followed if it is a link. -/
def placeOf (fs : FileSystem) (here : Location) (path : Path) : Except FileError Location := do
  path.check
  match (path.stepsFrom here).getLast? with
  | some (.down name) =>
    let parent ← fs.follow (path.stepsFrom here).dropLast
    if fs.isDirectory parent then .ok (parent ++ [name]) else .error .notDirectory
  | _ => .error .isDirectory

def remove (fs : FileSystem) (here : Location) (path : Path) : Except FileError FileSystem := do
  let place ← fs.placeOf here path
  match fs.get? place with
  | none => .error .notFound
  | some (.directory _) => .error .isDirectory
  | some _ => .ok (fs.erase place)

def link (fs : FileSystem) (here : Location) (path target : Path) :
    Except FileError FileSystem := do
  let place ← fs.placeOf here path
  match fs.get? place with
  | none => .ok (fs.put place (.link target))
  | some _ => .error .alreadyExists

/-- Every file below `here`, by its names from there. -/
def filesBelow (fs : FileSystem) (here : Location) : List (Location × Bytes) :=
  match fs.get? here with
  | some tree => tree.files []
  | none => []

end FileSystem

end LightShow
