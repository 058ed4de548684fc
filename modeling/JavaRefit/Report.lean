/-
What is told to a person or to another program: places, notes and
failures.

Each has one line of text for people (`human`) and one JSON object for
programs (`toJson`).

Chain: after the JSON layer; read by the parse failures, the stub and
option errors, the catch rule and the command line.
-/
import JavaRefit.Json.Basic

namespace JavaRefit

-- ================================================================ places

/-- A place in a file, as far as it is known. -/
structure Span where
  file : Option String
  line : Option Int
  column : Option Int
deriving DecidableEq, Repr

namespace Span

/-- No place at all. -/
def unknown : Span := ⟨none, none, none⟩

/-- The parts that are known, with colons between them. -/
def human (s : Span) : String :=
  String.intercalate ":"
    (s.file.toList ++ s.line.toList.map toString ++
      s.column.toList.map toString)

/-- The place with its file filled in where it is missing. -/
def orFile (s : Span) (file : Option String) : Span :=
  { s with file := s.file.or file }

/-- A number or nothing. -/
private def ofInt? : Option Int → Json
  | some n => .int n
  | none => .null

def toJson (s : Span) : Json :=
  .obj [("file", .ofText? s.file), ("line", ofInt? s.line),
    ("column", ofInt? s.column)]

end Span

-- ================================================================= notes

/-- A remark of a pass that goes on with its work. -/
structure Diagnostic where
  message : String
  code : Option String
  /-- The pass that made the remark. -/
  phase : Option String
  severity : String
  span : Span
  notes : List String
deriving DecidableEq, Repr

namespace Diagnostic

/-- The place, the severity, the code in brackets and the message; the place
and the code only where there are any. -/
def human (d : Diagnostic) : String :=
  let place := d.span.human
  let head := if place = "" then "" else place ++ ": "
  let code := match d.code with
    | none => ""
    | some c => if c = "" then "" else "[" ++ c ++ "] "
  head ++ d.severity ++ ": " ++ code ++ d.message

def toJson (d : Diagnostic) : Json :=
  .obj [("message", .str d.message), ("code", .ofText? d.code),
    ("phase", .ofText? d.phase),
    ("severity", .str d.severity), ("span", d.span.toJson),
    ("notes", .ofTexts d.notes)]

end Diagnostic

-- ============================================================== failures

/-- The end of an operation that cannot go on, with a stable code for
programs. -/
structure Failure where
  code : String
  message : String
  path : Option String
  span : Option Span
deriving DecidableEq, Repr

namespace Failure

/-- The code in brackets and the message, then the place if its line is known,
else the path if there is one. -/
def human (f : Failure) : String :=
  let head := "[" ++ f.code ++ "] " ++ f.message
  let path := match f.path with
    | none => ""
    | some p => if p = "" then "" else " path=" ++ p
  match f.span with
  | none => head ++ path
  | some s => if s.line.isSome then head ++ " at=" ++ s.human else head ++ path

def toJson (f : Failure) : Json :=
  .obj [("reason_code", .str f.code), ("message", .str f.message),
    ("path", .ofText? f.path),
    ("span", match f.span with | none => .null | some s => s.toJson)]

end Failure

end JavaRefit
