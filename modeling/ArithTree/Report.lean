/-!
# Reports

What the program says when it cannot do what was asked: a kind of failure, a message, and
details. A detail is attached at most once; attaching it again replaces its value. Reports show
their details in one fixed order, whatever the order in which they were attached.
-/

set_option autoImplicit false

namespace ArithTree

inductive Kind
  | undefinedVariable | divisionByZero | config | file
  deriving DecidableEq, Repr

def Kind.title : Kind → String
  | .undefinedVariable => "Undefined Variable"
  | .divisionByZero => "Division By Zero"
  | .config => "Malformed Config"
  | .file => "File Error"

inductive Detail
  | variable | stage | expression | suggestion
  deriving DecidableEq, Repr

namespace Detail

def label : Detail → String
  | .variable => "Variable"
  | .stage => "Stage"
  | .expression => "Expression"
  | .suggestion => "Suggestion"

def rank : Detail → Nat
  | .variable => 0
  | .stage => 1
  | .expression => 2
  | .suggestion => 3

def all : List Detail := [.variable, .stage, .expression, .suggestion]

end Detail

structure Report where
  kind : Kind
  message : String
  details : List (Detail × String) := []
  deriving DecidableEq

namespace Report

/-- Replaces the value of a detail where it stands, or puts it at the end. -/
def put (detail : Detail) (value : String) : List (Detail × String) → List (Detail × String)
  | [] => [(detail, value)]
  | (other, old) :: rest =>
      if other = detail then (detail, value) :: rest else (other, old) :: put detail value rest

def attach (r : Report) (detail : Detail) (value : String) : Report :=
  { r with details := put detail value r.details }

def detail? (r : Report) (detail : Detail) : Option String :=
  r.details.lookup detail

def headline (r : Report) : String :=
  r.kind.title ++ ": " ++ r.message

def shown (r : Report) : List (Detail × String) :=
  r.details.mergeSort fun a b => a.1.rank ≤ b.1.rank

def within (path : String) (r : Report) : Report :=
  { r with message := path ++ ": " ++ r.message }

def ofFile (path message : String) : Report :=
  ⟨.file, path ++ ": " ++ message, []⟩

def ofConfig (message : String) : Report :=
  ⟨.config, message, []⟩

end Report
end ArithTree
