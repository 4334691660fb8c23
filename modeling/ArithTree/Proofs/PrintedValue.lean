import ArithTree.Proofs.Evaluation
import ArithTree.Proofs.Transform
import Mathlib

/-!
# What evaluating a file prints

The configuration is chosen first, and the bindings of the command line come on top of it. Then
there are four outcomes: a report on the configuration, on the file of the tree or on its value,
and nothing else; or the tree and its value. Of the configuration only the environment matters.
-/

set_option autoImplicit false

namespace ArithTree.Program

open Console

end ArithTree.Program
