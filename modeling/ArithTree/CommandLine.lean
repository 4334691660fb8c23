import ArithTree.Text

/-!
# The command line

The words after a command form a list of arguments: trees, options with their values, and flags.
An option takes the word after it as its value. The words are read from left to right, and the
first that fits into no argument is an error; what a command needs of its arguments is checked
afterwards.
-/

set_option autoImplicit false

namespace ArithTree

inductive Flag
  | json | hideTimers
  deriving DecidableEq, Repr

def Flag.text : Flag → String
  | .json => "--json"
  | .hideTimers => "--hide-timers"

def Flag.ofText? (word : String) : Option Flag :=
  if word = "--json" then some .json
  else if word = "--hide-timers" then some .hideTimers
  else none

inductive Argument
  | tree (path : String)
  | config (path : String)
  | binding (text name : String) (value : Int64)
  | flag (f : Flag)
  deriving DecidableEq

structure Options where
  config? : Option String := none
  bindings : List (String × Int64) := []
  deriving DecidableEq

inductive Command
  | demo
  | help
  | eval (tree : String) (options : Options)
  | transform (trees : List String) (options : Options)
  deriving DecidableEq

inductive ArgumentError
  | unknownCommand (word : String)
  | missingConfig
  | missingVar
  | unknownFlag (word : String)
  | noEquals (word : String)
  | emptyName (word : String)
  | notWhole (word : String)
  | noTreeForEval
  | manyTreesForEval
  | noTreeToTransform
  deriving DecidableEq

def invalidBinding (word problem : String) : String :=
  "Invalid --var value: '" ++ word ++ "'. " ++ problem

def ArgumentError.text : ArgumentError → String
  | .unknownCommand word => "Invalid command: '" ++ word ++ "'"
  | .missingConfig => "Missing value for --config"
  | .missingVar => "Missing value for --var"
  | .unknownFlag word =>
      "Unknown flag: '" ++ word
        ++ "'. Supported flags are --config, --var, --json, --hide-timers."
  | .noEquals word => invalidBinding word "Bindings are written as name=value."
  | .emptyName word => invalidBinding word "The name is empty."
  | .notWhole word => invalidBinding word "The value must be a whole number."
  | .noTreeForEval => "Missing expression tree file for eval"
  | .manyTreesForEval => "Eval accepts exactly one expression tree file"
  | .noTreeToTransform => "Missing expression tree file for rewrite"

def isDashed (word : String) : Bool :=
  match word.toList with
  | '-' :: '-' :: _ => true
  | _ => false

def splitEquals : List Char → Option (List Char × List Char)
  | [] => none
  | c :: rest =>
      if c = '=' then some ([], rest)
      else (splitEquals rest).map fun (before, after) => (c :: before, after)

/-- A name and a whole number of 64 bits with an equals sign between them. White space around
either is left out. -/
def readBinding (word : String) : Except ArgumentError (String × Int64) :=
  match splitEquals word.toList with
  | none => .error (.noEquals word)
  | some (before, after) =>
    match Text.trim before with
    | [] => .error (.emptyName word)
    | name =>
      match (Number.readInt? (Text.trim after)).bind Number.word? with
      | some value => .ok (String.ofList name, value)
      | none => .error (.notWhole word)

def readArguments : List String → Except ArgumentError (List Argument)
  | [] => .ok []
  | word :: rest =>
    if word = "--config" then
      match rest with
      | [] => .error .missingConfig
      | path :: rest =>
        if isDashed path then .error .missingConfig
        else do
          let arguments ← readArguments rest
          .ok (.config path :: arguments)
    else if word = "--var" then
      match rest with
      | [] => .error .missingVar
      | text :: rest => do
        let (name, value) ← readBinding text
        let arguments ← readArguments rest
        .ok (.binding text name value :: arguments)
    else
      match Flag.ofText? word with
      | some f => do
        let arguments ← readArguments rest
        .ok (.flag f :: arguments)
      | none =>
        if isDashed word then .error (.unknownFlag word)
        else do
          let arguments ← readArguments rest
          .ok (.tree word :: arguments)

structure RunArguments where
  trees : List String := []
  options : Options := {}
  deriving DecidableEq

/-- Takes in one argument. Trees and bindings gather; a configuration replaces the one before. -/
def RunArguments.add (r : RunArguments) : Argument → RunArguments
  | .tree path => { r with trees := r.trees ++ [path] }
  | .config path => { r with options := { r.options with config? := some path } }
  | .binding _ name value =>
      { r with options := { r.options with bindings := r.options.bindings ++ [(name, value)] } }
  | .flag _ => r

def RunArguments.ofArguments (arguments : List Argument) : RunArguments :=
  arguments.foldl RunArguments.add {}

def readRun (words : List String) : Except ArgumentError RunArguments :=
  (readArguments words).map RunArguments.ofArguments

def Command.ofEval (r : RunArguments) : Except ArgumentError Command :=
  match r.trees with
  | [] => .error .noTreeForEval
  | [path] => .ok (.eval path r.options)
  | _ => .error .manyTreesForEval

def Command.ofTransform (r : RunArguments) : Except ArgumentError Command :=
  match r.trees with
  | [] => .error .noTreeToTransform
  | paths => .ok (.transform paths r.options)

def Command.ofWords : List String → Except ArgumentError Command
  | [] => .ok .demo
  | word :: rest =>
    if word = "demo" then .ok .demo
    else if word = "help" then .ok .help
    else if word = "eval" then readRun rest >>= Command.ofEval
    else if word = "rewrite" then readRun rest >>= Command.ofTransform
    else .error (.unknownCommand word)

/-- All words that are flags, wherever they stand. -/
def flagsOf (words : List String) : List Flag :=
  words.filterMap Flag.ofText?

end ArithTree
