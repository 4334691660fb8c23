import ArithTree.Report

/-!
# Styled lines

A line is made of pieces. A piece with a style switches the style on before its text; the end of
the line switches all styles off.
-/

set_option autoImplicit false

namespace ArithTree.Console

inductive Style
  | red | green | yellow | gray | bold | italic
  deriving DecidableEq

def Style.code : Style → String
  | .red => "31"
  | .green => "32"
  | .yellow => "33"
  | .gray => "90"
  | .bold => "1"
  | .italic => "3"

def Style.sequence (s : Style) : String :=
  "\x1b[" ++ s.code ++ "m"

structure Piece where
  styles : List Style
  text : String
  deriving DecidableEq

def plain (text : String) : Piece := ⟨[], text⟩

def styled (style : Style) (text : String) : Piece := ⟨[style], text⟩

/-- A line of the program's output. What a line of elapsed time says is known only when it is
printed. -/
inductive Output
  | line (pieces : List Piece)
  | elapsed
  deriving DecidableEq

def Piece.render (p : Piece) : String :=
  String.join (p.styles.map Style.sequence) ++ p.text

def renderLine (pieces : List Piece) : String :=
  String.join (pieces.map Piece.render) ++ "\x1b[0m\n"

def Output.render (time : String) : Output → String
  | .line pieces => renderLine pieces
  | .elapsed => renderLine [styled .gray "Finished in: ", styled .gray time]

def render (time : String) (outputs : List Output) : String :=
  String.join (outputs.map (Output.render time))

@[simp]
theorem render_cons (time : String) (output : Output) (outputs : List Output) :
    render time (output :: outputs) = output.render time ++ render time outputs := by
  rw [render, render, List.map_cons, String.join_cons]

theorem render_plain (time : String) (texts : List String) :
    render time (texts.map fun text => .line [⟨[], text⟩]) =
      String.join (texts.map fun text => text ++ "\x1b[0m\n") := by
  rw [render, List.map_map]
  rfl

def kindStyle : Kind → Style
  | .undefinedVariable => .red
  | .divisionByZero => .red
  | .config => .yellow
  | .file => .yellow

def heading (r : Report) : Output :=
  .line [styled (kindStyle r.kind) r.kind.title, styled (kindStyle r.kind) ": ", plain r.message]

def detailLine (detail : Detail) (value : String) : Output :=
  .line [styled .gray "    ", styled .gray detail.label, styled .gray ": ", plain value]

def reportLines (r : Report) : List Output :=
  heading r :: r.shown.map fun d => detailLine d.1 d.2

end ArithTree.Console
