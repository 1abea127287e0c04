import LightShow.Generator

namespace LightShow

/-- The cause of a system error. -/
def FileError.ofSystem : IO.Error → FileError
  | .noFileOrDirectory .. => .notFound
  | .alreadyExists .. => .alreadyExists
  | .inappropriateType .. => .notDirectory
  | error => .other (toString error)

namespace Generator

def attempt {α : Type} (action : IO α) : IO (Except FileError α) := do
  try return .ok (← action)
  catch error => return .error (.ofSystem error)

/-- Access to the files of the system. -/
def onDisk : FileAccess IO where
  makeDirectories path := attempt (IO.FS.createDirAll path)
  write path content := attempt (IO.FS.writeBinFile path ⟨content.toArray⟩)
  read path := attempt do return (← IO.FS.readBinFile path).toList

end Generator

end LightShow

def main (arguments : List String) : IO UInt32 := do
  let request := LightShow.Request.ofArguments arguments
  let outcome ← LightShow.Generator.carryOut LightShow.Generator.onDisk request
  if outcome.status = 0 then IO.print outcome.text else IO.eprint outcome.text
  return outcome.status.toUInt32
