/-
Files to read and to write, as values.

All that a command learns of the world is the text of the files it asks
for, or why there is none. A directory is one such world: some files by
their paths, all of them below it, and nothing known of what it lies in
but that this is a directory too. In a folder each file is just a text. On
a disk one may also hold bytes that are no text, may not be there to be
read, and may not take what is written to it.

Paths are taken in their shortest form: no empty segments and no `.` in
it, though two slashes in front stay two, and more become one. What is
left of a path to the place itself is `.`.

A path is followed step by step, and the first step that leads nowhere is
the one reported. Only two faults are those of the path as a whole: a
zero character, and more than 4095 bytes.

A file that is written is emptied first. So it is not what it was, and not
what it was to be, where the text has no code or the writing breaks off.

Chain: first of the command line layer, after the text layer; read by
`Command` and `Batch`.
-/
import JavaRefit.Text.Dotted
import JavaRefit.Text.Quoted

namespace JavaRefit.CommandLine

-- ================================================================= paths

namespace Path

/-- The slashes in front of a path. -/
def root (path : List Char) : List Char :=
  match (path.takeWhile (· == '/')).length with
  | 0 => []
  | 2 => ['/', '/']
  | _ => ['/']

/-- The segments of a path that lead anywhere. -/
def steps (path : List Char) : List (List Char) :=
  (Text.splitAtEach '/' path).filter fun s => !s.isEmpty && s != ['.']

/-- The shortest form of a path. -/
def shortest (path : String) : String :=
  let cs := path.toList
  match root cs, steps cs with
  | [], [] => "."
  | root, steps => String.ofList (root ++ ['/'].intercalate steps)

end Path

-- =============================================================== reading

/-- Why a file cannot be read. -/
inductive ReadError where
  | missing
  | isDirectory
  | underFile
  | nameTooLong
  /-- The path has a zero character in it and is not even looked for. -/
  | zeroInPath
  /-- Its bytes are the code of no text. -/
  | undecodable (reason : String)
  | other (reason : String)
deriving DecidableEq, Repr

/-- The wording for the file at a path. -/
def ReadError.message (path : String) : ReadError → String
  | missing => "[Errno 2] No such file or directory: " ++ Text.quoted path
  | underFile => "[Errno 20] Not a directory: " ++ Text.quoted path
  | isDirectory => "[Errno 21] Is a directory: " ++ Text.quoted path
  | nameTooLong => "[Errno 36] File name too long: " ++ Text.quoted path
  | zeroInPath => "embedded null byte"
  | undecodable reason => reason
  | other reason => reason

/-- The files there are: the text at a path, or why there is none. -/
abbrev Files := String → Except ReadError String

/-- The text of a file, with all line ends made line feeds. -/
def Files.text (files : Files) (path : String) : Except ReadError String :=
  (fun s => String.ofList (Text.unifyLineEnds s.toList)) <$> files path

-- =========================================================== directories

/-- A directory: files by their paths, with what is known of each. -/
abbrev Directory (α : Type) := List (String × α)

namespace Directory

variable {α : Type}

/-- Where a path has led to: to something in the directory by the steps
from there, or to a directory that this one lies in. -/
inductive Place where
  | inside (steps : List (List Char))
  | above
deriving DecidableEq, Repr

/-- How many bytes one step of a path may have. -/
def stepLimit : Nat := 255

/-- How many bytes a path may have. -/
def pathLimit : Nat := 4095

/-- The file that some steps lead to. -/
def at? (d : Directory α) (steps : List (List Char)) : Option α :=
  (d.find? fun e => Path.steps e.1.toList == steps).map Prod.snd

/-- The steps lead towards some file, or to one. -/
def leadsOn (d : Directory α) (steps : List (List Char)) : Bool :=
  steps.isEmpty || d.any fun e => steps.isPrefixOf (Path.steps e.1.toList)

/-- Where one step from a place leads. -/
def step (d : Directory α) (place : Place) (name : List Char) :
    Except ReadError Place :=
  let isUp := name == ['.', '.']
  let reach (next : Place) (isThere : Bool) : Except ReadError Place :=
    if stepLimit < (String.ofList name).utf8ByteSize then .error .nameTooLong
    else if isThere then .ok next
    else .error .missing
  match place with
  | .above => reach .above isUp
  | .inside steps =>
    if (d.at? steps).isSome then .error .underFile
    else if isUp then
      .ok (if steps.isEmpty then .above else .inside steps.dropLast)
    else reach (.inside (steps ++ [name])) (d.leadsOn (steps ++ [name]))

/-- Where a path leads. -/
def follow (d : Directory α) (path : String) : Except ReadError Place :=
  if path.toList.contains '\x00' then .error .zeroInPath
  else if pathLimit < path.utf8ByteSize then .error .nameTooLong
  else
    let start :=
      if (Path.root path.toList).isEmpty then Place.inside [] else .above
    (Path.steps path.toList).foldlM d.step start

/-- The file at a path. What is no file and yet leads on is a directory. -/
def get (d : Directory α) (path : String) : Except ReadError α := do
  match ← d.follow path with
  | .above => throw .isDirectory
  | .inside steps =>
    match d.at? steps with
    | some file => return file
    | none => throw .isDirectory

/-- The directory after the file at a path was changed. -/
def change (d : Directory α) (path : String) (f : α → α) : Directory α :=
  match d.follow path with
  | .ok (.inside steps) =>
    d.map fun e => if Path.steps e.1.toList = steps then (e.1, f e.2) else e
  | _ => d

theorem length_change (d : Directory α) (path : String) (f : α → α) :
    (d.change path f).length = d.length := by
  unfold change
  split <;> simp

end Directory

-- =============================================================== folders

/-- A folder: texts by their paths. -/
abbrev Folder := Directory String

namespace Folder

/-- The files of a folder. -/
def files (f : Folder) : Files :=
  f.get

/-- The folder after a text is written to one of its files. -/
def write (f : Folder) (path text : String) : Folder :=
  f.change path fun _ => text

/-- The folder after some texts are written, one after the other. -/
def writeAll (f : Folder) (writes : List (String × String)) : Folder :=
  writes.foldl (fun f w => f.write w.1 w.2) f

/-- The files of which the text is another than in an earlier state of the
folder. -/
def changedSince (f earlier : Folder) : Folder :=
  ((f.zip earlier).filter fun p => p.1.2 != p.2.2).map Prod.fst

end Folder

-- ================================================================== disks

/-- What a file holds. -/
inductive Content where
  | text (s : String)
  /-- Bytes that are the code of no text, and why. -/
  | bytes (reason : String)
deriving DecidableEq, Repr

/-- Why a file does not take what is written to it. -/
inductive WriteFault where
  /-- It cannot be opened, and stays what it is. -/
  | refused (reason : String)
  /-- The writing breaks off and leaves something of the text. -/
  | broken (reason : String) (left : Content)
deriving DecidableEq, Repr

/-- A file of a disk. -/
structure Stored where
  content : Content
  /-- Why it cannot be opened to be read. -/
  unreadable : Option String
  fault : Option WriteFault
deriving DecidableEq, Repr

/-- Why a text was not written. -/
inductive WriteError where
  | failed (reason : String)
  /-- The text has a half of a character in it. -/
  | unencodable
deriving DecidableEq, Repr

namespace Stored

/-- A file with a text, which can be read and written. -/
def plain (text : String) : Stored :=
  ⟨.text text, none, none⟩

/-- The text of a file. -/
def read (s : Stored) : Except ReadError String :=
  match s.unreadable, s.content with
  | some reason, _ => .error (.other reason)
  | none, .text text => .ok text
  | none, .bytes reason => .error (.undecodable reason)

/-- The file after a text is written to it, and why that did not succeed.
It is opened and emptied, then the text is encoded, then its code is
written. -/
def write (s : Stored) (text : String) : Stored × Option WriteError :=
  match s.fault with
  | some (.refused reason) => (s, some (.failed reason))
  | fault =>
    if Text.isEncodable text then
      match fault with
      | some (.broken reason left) =>
        ({ s with content := left }, some (.failed reason))
      | _ => ({ s with content := .text text }, none)
    else ({ s with content := .text "" }, some .unencodable)

end Stored

/-- A disk: what is stored, by paths. -/
abbrev Disk := Directory Stored

namespace Disk

/-- The files of a disk. -/
def files (d : Disk) : Files := fun path => do
  (← d.get path).read

/-- The disk after a text is written to one of its files, and why that did
not succeed. -/
def write (d : Disk) (path text : String) : Disk × Option WriteError :=
  match d.get path with
  | .ok s => (d.change path fun s => (s.write text).1, (s.write text).2)
  | .error e => (d, some (.failed (e.message path)))

/-- The disk after some texts are written, one after the other and up to
the first that is not written, with the path of that. -/
def writeAll (d : Disk) :
    List (String × String) → Disk × Option (String × WriteError)
  | [] => (d, none)
  | w :: writes =>
    match d.write w.1 w.2 with
    | (d', none) => writeAll d' writes
    | (d', some e) => (d', some (w.1, e))

end Disk

/-- A folder on a disk, every file of which can be read and written. -/
def Folder.disk (f : Folder) : Disk :=
  f.map fun e => (e.1, .plain e.2)

end JavaRefit.CommandLine
