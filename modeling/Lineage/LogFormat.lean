import Lineage.Text.Blank
import Lineage.Text.Lower

/-!
# Formats of log lines

A format is named by a word of any case with blanks around it.
-/

namespace Lineage

/-- How log lines are written. -/
inductive LogFormat
  | json
  | pretty
  | compact
  deriving DecidableEq, Repr, Inhabited

namespace LogFormat

/-- A text that names no format: trimmed, and its ASCII letters in lowercase. -/
structure Unknown where
  text : String
  deriving DecidableEq, Repr

/-- The refusal in words. -/
def Unknown.message (e : Unknown) : String := "unknown log format '" ++ e.text ++ "'"

/-- The format that a text names. -/
def read (s : String) : Except Unknown LogFormat :=
  match String.ofList (Text.lowerAscii (Text.trim s.toList)) with
  | "json" => .ok json
  | "pretty" => .ok pretty
  | "compact" => .ok compact
  | word => .error ⟨word⟩

/-- The format that a variable names; JSON if it is not set or names none. -/
def ofVariable (value : Option String) : LogFormat :=
  match value with
  | none => json
  | some s =>
    match read s with
    | .ok format => format
    | .error _ => json

end LogFormat

end Lineage
