namespace LightShow

/-- What the generator of demonstration tracks is asked to do. -/
inductive Request where
  | help
  | version
  | generate (out : String) (binary : Bool)
  deriving DecidableEq, Repr

def helpText : String :=
  "Generate the demonstration light show tracks\n\n" ++
  "Options:\n" ++
  "  -o, --out <OUT>  Output directory [default: tracks]\n" ++
  "      --binary     Write raw binary containers instead of the LSTF-TEXT envelope\n" ++
  "  -h, --help       Print help\n" ++
  "  -V, --version    Print version\n"

def versionText : String := "0.1.0\n"

/-- Why the arguments of a command line make no sense. -/
inductive UsageError where
  | unexpectedArgument (text : String)
  | unknownOption (text : String)
  | missingValue (option : String)
  | unexpectedValue (option : String)
  | repeatedOption (option : String)
  deriving DecidableEq, Repr

def UsageError.message : UsageError → String
  | unexpectedArgument text => s!"unexpected argument '{text}'"
  | unknownOption text => s!"unknown option '{text}'"
  | missingValue option => s!"a value is required for '{option}'"
  | unexpectedValue option => s!"no value may be given for '{option}'"
  | repeatedOption option => s!"'{option}' cannot be used more than once"

/-- The options of a command line as far as they have been read. -/
structure Options where
  out : Option String
  binary : Bool
  /-- An option has been read whose value is the next argument. -/
  awaitsValue : Bool
  /-- What follows is no option, whatever it looks like. -/
  closed : Bool
  deriving DecidableEq, Repr

namespace Options

def new : Options := ⟨none, false, false, false⟩

/-- The directory into which tracks are written if none is named. -/
def defaultOut : String := "tracks"

/-- Names the directory. That can be done once, and the name must not be empty. -/
def setOut (o : Options) (value : String) : Except UsageError Options :=
  if o.out.isSome then .error (.repeatedOption "--out")
  else if value = "" then .error (.missingValue "--out")
  else .ok { o with out := some value, awaitsValue := false }

/-- Comes before each option: the value of the last one must be there. -/
def settle (o : Options) : Except UsageError Unit :=
  if o.awaitsValue then .error (.missingValue "--out") else .ok ()

/-- What reading an argument leads to: further arguments, or an answer at once. -/
abbrev Progress := Sum Options Request

/-- Reads an option with a long name, with its value if one is attached. -/
def readLong (o : Options) (name : String) (value : Option String) :
    Except UsageError Progress := do
  o.settle
  match name, value with
  | "out", some value => return .inl (← o.setOut value)
  | "out", none => return .inl { o with awaitsValue := true }
  | "binary", none =>
    if o.binary then throw (.repeatedOption "--binary")
    return .inl { o with binary := true }
  | "help", none => return .inr .help
  | "version", none => return .inr .version
  | "binary", some _ => throw (.unexpectedValue "--binary")
  | "help", some _ => throw (.unexpectedValue "--help")
  | "version", some _ => throw (.unexpectedValue "--version")
  | name, _ => throw (.unknownOption ("--" ++ name))

/-- Reads the option with a short name at the front of some letters. All that follows the name of
the directory's option is its value; an equals sign may stand between them. -/
def readShort (o : Options) (letters : List Char) : Except UsageError Progress := do
  o.settle
  match letters with
  | 'o' :: [] => return .inl { o with awaitsValue := true }
  | 'o' :: '=' :: value => return .inl (← o.setOut (String.ofList value))
  | 'o' :: value => return .inl (← o.setOut (String.ofList value))
  | 'h' :: _ => return .inr .help
  | 'V' :: _ => return .inr .version
  | letters => throw (.unknownOption ("-" ++ String.ofList letters))

def read (o : Options) (argument : String) : Except UsageError Progress :=
  if o.closed then .error (.unexpectedArgument argument)
  else match argument.toList with
    | ['-', '-'] => .ok (.inl { o with closed := true })
    | '-' :: '-' :: text =>
      let name := String.ofList (text.takeWhile (· ≠ '='))
      match text.dropWhile (· ≠ '=') with
      | _ :: value => o.readLong name (some (String.ofList value))
      | [] => o.readLong name none
    | '-' :: letter :: letters => o.readShort (letter :: letters)
    | _ =>
      if o.awaitsValue then (o.setOut argument).map .inl
      else .error (.unexpectedArgument argument)

/-- Reads the arguments one after another. The first mistake counts, unless the answer is clear
before it. -/
def readAll (o : Options) : List String → Except UsageError Request
  | [] => do
    o.settle
    return .generate (o.out.getD defaultOut) o.binary
  | argument :: rest => do
    match ← o.read argument with
    | .inl o => o.readAll rest
    | .inr request => return request

end Options

/-- The request that a command line makes. -/
def Request.ofArguments (arguments : List String) : Except UsageError Request :=
  Options.new.readAll arguments

end LightShow
