import ScriptMachine.Diagnostic.Basic

/-!
# Diagnostics on a terminal

`Diagnostic.toTerminal` shows a diagnostic on a few lines: severity, code and message, then the place,
then notes and suggestion. In colour, some pieces are set between the escape sequence of a `Style` and the
one that ends all styles; without colour the same pieces stand alone.
-/

set_option autoImplicit false
set_option relaxedAutoImplicit false

namespace ScriptMachine

/-- The ways in which a piece of text can stand out. -/
inductive Style where
  | bold
  | boldRed
  | cyan
  | dim
  deriving DecidableEq, Repr

namespace Style

/-- The escape sequence that starts a style. -/
def opening : Style → String
  | .bold => "\x1b[1m"
  | .boldRed => "\x1b[1;31m"
  | .cyan => "\x1b[36m"
  | .dim => "\x1b[2m"

/-- The escape sequence that ends every style. -/
def closing : String :=
  "\x1b[0m"

/-- A piece of text in a style, if there is colour. -/
def paint (style : Style) (colour : Bool) (piece : String) : String :=
  if colour then style.opening ++ piece ++ closing else piece

end Style

namespace Diagnostic

/-- The severity, with the code of the kind where there is one. -/
def head (diagnostic : Diagnostic) : String :=
  match diagnostic.code with
  | some code => diagnostic.severity.name ++ "[" ++ code ++ "]"
  | none => diagnostic.severity.name

/-- The head in the style of its severity. -/
def paintedHead (diagnostic : Diagnostic) (colour : Bool) : String :=
  match diagnostic.severity with
  | .error => Style.boldRed.paint colour diagnostic.head
  | .warning => Style.bold.paint colour (Style.cyan.paint colour diagnostic.head)

/-- The line that shows the place, if anything of it is known. -/
def placeLine (diagnostic : Diagnostic) (colour : Bool) : String :=
  let arrow := "  " ++ Style.cyan.paint colour "-->" ++ " "
  match diagnostic.source, diagnostic.line with
  | some source, some line => arrow ++ source ++ ":" ++ toString line.toNat ++ "\n"
  | none, some line => arrow ++ "line " ++ toString line.toNat ++ "\n"
  | some source, none => arrow ++ source ++ "\n"
  | none, none => ""

/-- A remark below the message. -/
def remarkLine (colour : Bool) (kind content : String) : String :=
  "  " ++ Style.dim.paint colour "=" ++ " " ++ kind ++ ": " ++ content ++ "\n"

/-- The text of a diagnostic on a terminal. -/
def toTerminal (diagnostic : Diagnostic) (colour : Bool) : String :=
  diagnostic.paintedHead colour ++ ": " ++ Style.bold.paint colour diagnostic.message ++ "\n" ++
    diagnostic.placeLine colour ++
    String.join (diagnostic.notes.map (remarkLine colour "note")) ++
    (match diagnostic.suggestion with
      | some suggestion => remarkLine colour "suggestion" suggestion
      | none => "")

end Diagnostic

end ScriptMachine
