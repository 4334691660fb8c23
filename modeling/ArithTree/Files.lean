import ArithTree.Config.Decoding
import ArithTree.Json.Tree

/-!
# Files

What the program sees of a file system: the text of a file, or why it cannot be read, and
whether a path leads to a regular file. Trees and configurations are loaded through it; every
report on a file begins with its path.
-/

set_option autoImplicit false

namespace ArithTree

inductive ReadError
  | notFound
  | notDirectory
  | isDirectory
  | nameTooLong
  | linkLoop
  | nulInName
  | notText
  | other (text : String)
  deriving DecidableEq

def ReadError.text : ReadError → String
  | .notFound => "No such file or directory (os error 2)"
  | .notDirectory => "Not a directory (os error 20)"
  | .isDirectory => "Is a directory (os error 21)"
  | .nameTooLong => "File name too long (os error 36)"
  | .linkLoop => "Too many levels of symbolic links (os error 40)"
  | .nulInName => "file name contained an unexpected NUL byte"
  | .notText => "stream did not contain valid UTF-8"
  | .other text => text

structure Files where
  read : String → Except ReadError String
  isFile : String → Bool

namespace Files

def loadTree (files : Files) (path : String) : Except Report Expr :=
  match files.read path with
  | .error e => .error (.ofFile path ("Could not read expression tree: " ++ e.text))
  | .ok text => (Expr.ofJson text).mapError (Report.within path)

def loadConfig (files : Files) (tomlError : String → String) (path : String) :
    Except Report Config :=
  match files.read path with
  | .error e => .error (.ofFile path ("Could not read config file: " ++ e.text))
  | .ok text => (Config.ofToml tomlError text).mapError (Report.within path)

end Files
end ArithTree
