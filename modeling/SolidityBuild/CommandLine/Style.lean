import SolidityBuild.Notice

/-! # Style: colours on a terminal -/

namespace SolidityBuild

namespace CommandLine

/-- When to use colours. -/
inductive ColorChoice where
  | always
  | never
  | auto
deriving DecidableEq, Inhabited

/-- What a command line has from its environment. -/
structure Environment where
  /-- whether colours are refused -/
  noColor : Bool := false
  /-- the kind of terminal -/
  term : Option String := none
deriving DecidableEq, Inhabited

namespace ColorChoice

/-- The word for a choice. -/
def word : ColorChoice → String
  | always => "Always"
  | never => "Never"
  | auto => "Auto"

/-- The choice by a flag, which an environment without colours overrides. -/
def ofFlag (env : Environment) (flag : Option String) : ColorChoice :=
  if env.noColor then never
  else match flag with
    | some "always" => always
    | some "never" => never
    | _ => auto

/-- Whether a choice means colours; the automatic one asks for a terminal that is not
    dumb. -/
def isOn (env : Environment) : ColorChoice → Bool
  | always => true
  | never => false
  | auto => !env.noColor && env.term.isSome && env.term != some "dumb"

end ColorChoice

/-- A colour. -/
inductive Color where
  | red
  | green
  | yellow
  | cyan
  | white
deriving DecidableEq, Inhabited

/-- The digit of a colour in an escape sequence. -/
def Color.digit : Color → Char
  | red => '1'
  | green => '2'
  | yellow => '3'
  | cyan => '6'
  | white => '7'

/-- An escape sequence for some display attributes. -/
def escape (attributes : String) : String :=
  "\x1b[" ++ attributes ++ "m"

/-- A text in a colour, and as plain text when colours are off. -/
def styled (on : Bool) (color : Color) (bold : Bool) (text : String) : String :=
  if on then
    escape "0" ++ (if bold then escape "1" else "") ++ escape (String.ofList ['3', color.digit]) ++
      text ++ escape "0"
  else text

/-- The colour of a severity. -/
def severityColor : Severity → Color
  | .error => .red
  | .warning => .yellow
  | .info => .cyan

/-- A diagnostic on one line, with its range. -/
def renderDiagnostic (on : Bool) (d : Diagnostic) : String :=
  let place := match d.path, d.range with
    | some path, some (start, stop) =>
      path.text ++ ":" ++ toString start ++ "-" ++ toString stop ++ ": "
    | some path, none => path.text ++ ": "
    | none, _ => ""
  place ++ styled on (severityColor d.severity) true d.label ++ ": " ++ d.message ++ "\n"

/-- A notice as it is shown when messages up to a level are. -/
def render (on : Bool) (shown : Level) : Notice → String
  | .log level text =>
    if level.rank ≤ shown.rank then level.name ++ " - " ++ text ++ "\n" else ""
  | .diagnostic d => renderDiagnostic on d

end CommandLine

end SolidityBuild
