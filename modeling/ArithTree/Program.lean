import ArithTree.CommandLine
import ArithTree.Console
import ArithTree.Files
import ArithTree.Json.Tree

/-!
# The program

What the program prints for a given command line and files. All that can go wrong is printed as
well; nothing is printed for a step after one that failed. A traced program also prints a line
for each note of its passes and each value that it finds.
-/

set_option autoImplicit false

namespace ArithTree.Program

open Console

/-- The files that there are, how a text that is no TOML is refused, and whether the program is
traced. -/
structure Setting where
  files : Files
  tomlError : String → String
  traced : Bool := false

def say (text : String) : Output := .line [plain text]

def sayValue (value : Int64) : Output :=
  .line [plain "Result: ", styled .green (Number.writeWord value)]

def valueOf (setting : Setting) (env : Environment) (e : Expr) :
    List Output × Except Fault Int64 :=
  if setting.traced then
    let (found, result) := evaluateNoted env e
    (found.map fun (node, value) => say (Note.evaluated node value).text, result)
  else ([], evaluate env e)

def transformed (setting : Setting) (p : Pipeline) (es : List Expr) :
    List Output × Except Report (List Expr) :=
  if setting.traced then
    let runs := es.map p.applyNoted
    (runs.flatMap fun run => run.1.map fun note => say note.text, firstFailure (runs.map Prod.snd))
  else ([], p.applyAll es)

def localConfig : String := "exprw.toml"

def localConfigPath : String := "./" ++ localConfig

def chooseConfig (setting : Setting) (options : Options) : Except Report Config :=
  match options.config? with
  | some path => setting.files.loadConfig setting.tomlError path
  | none =>
    if setting.files.isFile localConfigPath then
      setting.files.loadConfig setting.tomlError localConfigPath
    else .ok .standard

/-- The bindings of the command line come after those of the chosen configuration. -/
def effectiveConfig (setting : Setting) (options : Options) : Except Report Config :=
  (chooseConfig setting options).map fun c =>
    { c with environment := c.environment.bindAll options.bindings }

def treeLine (flags : List Flag) (label : String) (e : Expr) : Output :=
  say (label ++ if flags.contains .json then e.toJson else e.formula)

def elapsedLine (flags : List Flag) : List Output :=
  if flags.contains .hideTimers then [] else [.elapsed]

def demoTree : Expr :=
  .binary .add (.const 1) (.binary .multiply (.const 2) (.const 3))

def showValue (setting : Setting) (env : Environment) (e : Expr) (next : List Output) :
    List Output :=
  match valueOf setting env e with
  | (lines, .ok value) => lines ++ sayValue value :: next
  | (lines, .error fault) => lines ++ reportLines fault.report

def runDemo (setting : Setting) : List Output :=
  let pipeline := Config.standard.pipeline
  say ("Original: " ++ demoTree.outline) ::
    showValue setting .empty demoTree (
      match transformed setting pipeline [demoTree] with
      | (lines, .error r) => lines ++ reportLines r
      | (lines, .ok es) =>
        lines ++ es.flatMap fun e =>
          say ("Rewritten: " ++ e.outline) :: showValue setting .empty e [])

def runEval (setting : Setting) (flags : List Flag) (path : String) (options : Options) :
    List Output :=
  match effectiveConfig setting options with
  | .error r => reportLines r
  | .ok config =>
    match setting.files.loadTree path with
    | .error r => reportLines r
    | .ok e =>
      match valueOf setting config.environment e with
      | (lines, .error fault) => lines ++ reportLines fault.report
      | (lines, .ok value) =>
          lines ++ treeLine flags "Expression: " e :: sayValue value :: elapsedLine flags

def loadTrees (files : Files) (paths : List String) : Except (List Report) (List Expr) :=
  let loaded := paths.map files.loadTree
  match loaded.filterMap fun | .error r => some r | .ok _ => none with
  | [] => .ok (loaded.filterMap Except.toOption)
  | reports => .error reports

/-- What is printed for a tree that the pipeline has returned. If it has no value, that is only
noted. -/
def treeBlock (setting : Setting) (flags : List Flag) (env : Environment) (path : String)
    (e : Expr) : List Output :=
  .line [styled .bold path] :: treeLine flags "Rewritten: " e ::
    match valueOf setting env e with
    | (lines, .ok value) => lines ++ [sayValue value]
    | (lines, .error fault) =>
        lines ++ [.line [styled .yellow "Not evaluated: ", styled .yellow fault.report.headline]]

def runTransform (setting : Setting) (flags : List Flag) (paths : List String) (options : Options) :
    List Output :=
  match effectiveConfig setting options with
  | .error r => reportLines r
  | .ok config =>
    match loadTrees setting.files paths with
    | .error reports => reports.flatMap reportLines
    | .ok es =>
      let names := ", ".intercalate config.pipeline.passNames
      .line [styled .gray "Passes: ", styled .gray names] ::
        match transformed setting config.pipeline es with
        | (lines, .error r) => lines ++ reportLines r
        | (lines, .ok es) =>
            lines
              ++ (paths.zip es).flatMap (fun (path, e) =>
                treeBlock setting flags config.environment path e)
              ++ elapsedLine flags

def titleLines : List Output :=
  [.line [styled .gray "------------------------------------"],
    .line [⟨[.green, .bold], "Expression tree evaluator and rewriter"⟩],
    .line [plain "Usage: ", styled .bold "<command>", styled .italic "<args>"]]

def commandLines : List Output :=
  [.line [⟨[.green, .bold], "\nCommands:"⟩],
    say "  demo                  - Folds and rewrites 1 + 2 * 3 (default)",
    say "  eval <tree.json>      - Evaluates a tree",
    say "  rewrite <tree.json>.. - Runs the configured passes over one or more trees",
    say "  help                  - Shows this message",
    .line [⟨[.green, .bold], "\nFlags:"⟩],
    say ("  --config <file.toml>  (default: ./" ++ localConfig ++ " if present)"),
    say "  --var <name=value>    (repeatable)",
    say "  --json",
    say "  --hide-timers"]

def runCommand (setting : Setting) (flags : List Flag) : Command → List Output
  | .demo => runDemo setting
  | .help => titleLines ++ commandLines
  | .eval tree options => runEval setting flags tree options
  | .transform trees options => runTransform setting flags trees options

/-- All that the program prints. The first of the words is its own name; it takes no part in the
command, but flags are looked for among all words. -/
def run (setting : Setting) (words : List String) : List Output :=
  match Command.ofWords words.tail with
  | .error e => .line [styled .red e.text] :: commandLines
  | .ok command => runCommand setting (flagsOf words) command

end ArithTree.Program
