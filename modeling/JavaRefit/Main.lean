/-
The program: reads the files a command asks for, does what the command
does, and writes what it writes.

Chain: last of the model, after `Batch`; the proofs about the command line
read it.
-/
import JavaRefit.CommandLine.Batch

namespace JavaRefit.CommandLine

/-- What is printed to whom asks for help, or for something that makes no
sense. -/
def usageText : String :=
  "usage: javarefit run [--recipe NAME] [--config FILE] [--classpath FILE]... [--write] " ++
    "[--json] FILE...\n       javarefit list [--json]\n"

/-- The files a command may read. -/
def Command.paths : Command → List String
  | .list _ => []
  | .run o => (o.config.toList ++ o.classPaths).filterMap id ++ o.files

/-- Why a file was not read or written. -/
def ReadError.ofIO : IO.Error → ReadError
  | .noFileOrDirectory .. => .missing
  | .inappropriateType _ 20 _ => .underFile
  | .inappropriateType _ 21 _ => .isDirectory
  | .invalidArgument _ 36 _ => .nameTooLong
  | e => .other (toString e)

/-- The text of a file. -/
def readFile (path : String) : IO (Except ReadError String) := do
  if path.toList.contains '\x00' then return .error .zeroInPath
  try
    match String.fromUTF8? (← IO.FS.readBinFile path) with
    | some text => return .ok text
    | none => return .error (.undecodable "bytes that are not UTF-8")
  catch e => return .error (.ofIO e)

/-- All files a command may read. -/
def readFiles (c : Command) : IO Files := do
  let texts ← c.paths.mapM fun path => do return (path, ← readFile path)
  return fun path => (texts.lookup path).getD (.error .missing)

/-- Writes a text to a file, which is emptied first. -/
def writeFile (path text : String) : IO (Option WriteError) := do
  try
    if Text.isEncodable text then
      IO.FS.writeFile path text
      return none
    else
      IO.FS.writeFile path ""
      return some .unencodable
  catch e => return some (.failed ((ReadError.ofIO e).message path))

/-- Writes files one after the other, up to the first that cannot be
written. -/
def writeFiles : List (String × String) → IO (Option (String × WriteError))
  | [] => return none
  | (path, text) :: rest => do
    match ← writeFile path text with
    | none => writeFiles rest
    | some e => return some (path, e)

/-- The code that a command exits with. -/
def Status.exitCode : Status → UInt32
  | exit code => code.toUInt32
  | raised _ => 1
  | unencodable => 1

/-- What is told of an end that no report is made of. -/
def Status.remark : Status → String
  | exit _ => ""
  | raised e => e.message ++ "\n"
  | unencodable => "a text has a half of a character in it\n"

/-- Obeys a command. -/
def obey (c : Command) : IO UInt32 := do
  let plan := c.plan (← readFiles c)
  let ending := plan.ending (← writeFiles plan.writes)
  IO.print ending.out
  IO.eprint (Text.withoutHalves ending.err ++ ending.status.remark)
  return ending.status.exitCode

end JavaRefit.CommandLine

open JavaRefit.CommandLine in
/-- Obeys a command line. -/
def main (args : List String) : IO UInt32 := do
  match Command.ofTexts args with
  | .ok c => obey c
  | .error .help =>
    IO.print usageText
    return 0
  | .error .misuse =>
    IO.eprint usageText
    return 2
