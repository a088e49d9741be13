import Directive.Fault

/-!
# Diagnostics

The summary of a fault for the program that runs scripts.

* `Diagnostic.ofFault`: the summary;
* `Diagnostic.render`: `file:line:column: kind error: message`;
* `exitCodeFor`: the exit code, 0 if there is nothing to report.
-/

namespace Directive

structure Diagnostic where
  kind : FaultKind
  message : String
  line : Option Int := none
  column : Option Int := none
  sourceLine : Option String := none
deriving DecidableEq

namespace Diagnostic

def ofFault (f : Fault) : Diagnostic :=
  { kind := f.kind, message := f.message, line := f.place.line, column := f.place.column,
    sourceLine := f.place.sourceLine }

def exitCode (d : Diagnostic) : Nat := d.kind.exitCode

def location (d : Diagnostic) (file : String) : String :=
  match d.line, d.column with
  | some l, some c => file ++ ":" ++ toString l ++ ":" ++ toString c
  | some l, none => file ++ ":" ++ toString l
  | none, _ => file

def source (d : Diagnostic) (detail : Detail) : List String :=
  match detail, d.sourceLine with
  | .developer, some s => quotedSource s d.column
  | _, _ => []

/-- The file name that stands for a script without one. -/
def unnamedFile : String := "<script>"

def render (d : Diagnostic) (detail : Detail) (file : String) : String :=
  "\n".intercalate
    ((d.location file ++ ": " ++ d.kind.name ++ " error: " ++ d.message) :: d.source detail)

end Diagnostic

def exitCodeFor : Option Diagnostic → Nat
  | none => 0
  | some d => d.exitCode

end Directive
