import ArithTree.Program

/-!
# The executable

Reads the files that the command line names, runs the program on them, and prints what it says.
Nothing is decided here.
-/

set_option autoImplicit false

namespace ArithTree

def Command.paths : Command → List String
  | .demo => []
  | .help => []
  | .eval tree options => tree :: Program.localConfigPath :: options.config?.toList
  | .transform trees options => trees ++ Program.localConfigPath :: options.config?.toList

def ReadError.ofCode (code : UInt32) (details : String) : ReadError :=
  let number := if code < 0x80000000 then code else 0 - code
  match number with
  | 2 => .notFound
  | 13 => .other "Permission denied (os error 13)"
  | 20 => .notDirectory
  | 21 => .isDirectory
  | 36 => .nameTooLong
  | 40 => .linkLoop
  | _ => .other (details ++ " (os error " ++ toString number ++ ")")

def ReadError.ofIO : IO.Error → ReadError
  | .noFileOrDirectory _ code details => .ofCode code details
  | .inappropriateType _ code details => .ofCode code details
  | .invalidArgument _ code details => .ofCode code details
  | .permissionDenied _ code details => .ofCode code details
  | .resourceExhausted _ code details => .ofCode code details
  | e => .other (toString e)

def readPath (path : String) : IO (Except ReadError String) := do
  if path.contains '\x00' then return .error .nulInName
  try
    match String.fromUTF8? (← IO.FS.readBinFile path) with
    | some text => return .ok text
    | none => return .error .notText
  catch e => return .error (.ofIO e)

/-- Whether a path that was read in this way leads to a regular file, be it one that may not be
opened. -/
def isFileRead : Except ReadError String → Bool
  | .ok _ => true
  | .error .notText => true
  | .error (.other _) => true
  | .error _ => false

def Files.ofRead (found : List (String × Except ReadError String)) : Files where
  read path := (found.lookup path).getD (.error .notFound)
  isFile path := (found.lookup path).any isFileRead

/-- A length of time in the unit that leaves at least one digit before the point. -/
def writeDuration (nanoseconds : Nat) : String :=
  let scaled (unit : Nat) (places : Nat) (name : String) : String :=
    let fraction := Number.digits (nanoseconds % unit)
    let padded := List.replicate (places - fraction.length) '0' ++ fraction
    let shown := Number.dropTrailingZeros padded
    String.ofList (Number.digits (nanoseconds / unit) ++ if shown = [] then [] else '.' :: shown)
      ++ name
  if 1000000000 ≤ nanoseconds then scaled 1000000000 9 "s"
  else if 1000000 ≤ nanoseconds then scaled 1000000 6 "ms"
  else if 1000 ≤ nanoseconds then scaled 1000 3 "µs"
  else scaled 1 0 "ns"

def programName : String := "exprw"

/-- The reader of configurations does not say what is wrong with a text that is no TOML. -/
def notToml (_ : String) : String :=
  "TOML parse error"

def printAll (words : List String) : IO Unit := do
  let paths :=
    match Command.ofWords words with
    | .ok command => command.paths
    | .error _ => []
  let found ← paths.mapM fun path => do return (path, ← readPath path)
  let start ← IO.monoNanosNow
  let out ← IO.getStdout
  let setting : Program.Setting := { files := .ofRead found, tomlError := notToml }
  for output in Program.run setting (programName :: words) do
    out.putStr (output.render (writeDuration ((← IO.monoNanosNow) - start)))

end ArithTree

def main (words : List String) : IO Unit :=
  ArithTree.printAll words
