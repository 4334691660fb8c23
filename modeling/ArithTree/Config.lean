import ArithTree.Environment
import ArithTree.Pass.Constants
import ArithTree.Pass.Folding

/-!
# Configurations

The passes to run, in order, and the values of variables.
-/

set_option autoImplicit false

namespace ArithTree

inductive PassSetting
  | fold
  | replace (value : Int64)
  deriving DecidableEq

def PassSetting.pass : PassSetting → Pass
  | .fold => foldingPass
  | .replace value => replacementPass value

structure Config where
  passes : List PassSetting := []
  environment : Environment := .empty

namespace Config

def standardConstant : Int64 := 42

def standard : Config where
  passes := [.fold, .replace standardConstant]

def bind (c : Config) (name : String) (value : Int64) : Config :=
  { c with environment := c.environment.bind name value }

def addPass (c : Config) (pass : PassSetting) : Config :=
  { c with passes := c.passes ++ [pass] }

def pipeline (c : Config) : Pipeline :=
  .ofPasses (c.passes.map PassSetting.pass)

def agrees (a b : Config) : Bool :=
  a.passes = b.passes && a.environment.agrees b.environment

end Config
end ArithTree
