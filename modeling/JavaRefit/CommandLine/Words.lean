/-
The words of a command line: options, what they are given, and the rest.

An option is written `--name`, or with any beginning of the name that no
other option of the command shares; its value follows it after `=` or is
the next word. `-h` and `--help` ask for help. Behind the word `--` all
words are plain. So are, in front of it, a single `-`, a negative number,
and what has a space in it and is no option. The value `--` after `=` is
taken for the separator, and so the option is given nothing.

The plain words stand together: those after a further option are one too
many.

Chain: command line layer, after the text layer; read by `Command`.
-/
import JavaRefit.Text.CharClass

namespace JavaRefit.CommandLine

/-- Why a command line is not obeyed: it asks for help, or it makes no sense. -/
inductive Usage where
  | help | misuse
deriving DecidableEq, Repr

/-- The names of the options of a command, those that stand alone and those
that have a value. Help is an option of every command. -/
structure OptionNames where
  flags : List String
  valued : List String

namespace OptionNames

/-- A command without options of its own. -/
def none : OptionNames := ⟨[], []⟩

/-- All names. -/
def all (o : OptionNames) : List String :=
  "help" :: o.flags ++ o.valued

/-- The names that a word may stand for: the one it spells, else all that it
begins. -/
def meant (o : OptionNames) (written : List Char) : List String :=
  match o.all.filter fun n => n.toList == written with
  | [] => o.all.filter fun n => written.isPrefixOf n.toList
  | exact => exact

end OptionNames

/-- A word of a command line. -/
inductive Word where
  | plain (text : String)
  | separator
  | help
  | flag (name : String)
  | valued (name : String) (value : Option String)
  /-- No option of the command. -/
  | stray
  /-- An option with a value that it does not have. -/
  | overfull
deriving DecidableEq, Repr

namespace Word

/-- Digits, at least one, and perhaps a line feed behind them. -/
def isDigits (cs : List Char) : Bool :=
  match cs with
  | [] => false
  | c :: cs =>
      Text.isDecimalDigit c && (cs.isEmpty || cs == ['\n'] || isDigits cs)

/-- A number without a sign: digits, or a point with digits after it. -/
def isNumber (cs : List Char) : Bool :=
  isDigits cs ||
    match cs.dropWhile Text.isDecimalDigit with
    | '.' :: digits => isDigits digits
    | _ => false

/-- The option of a name, with what stands behind it after `=`. -/
def ofOption (o : OptionNames) (name : String) (value : Option String) : Word :=
  if o.valued.contains name then valued name value
  else if value.isSome then overfull
  else if name = "help" then help
  else flag name

/-- The short form of help, given what follows `-h` in the word. Letters after
it, or after `=`, are other short forms, of which there is none but itself. -/
def ofShortHelp (cs : List Char) : Word :=
  let more := match cs with
    | '=' :: value => !value.isEmpty && value.all (· == 'h')
    | letters => letters.all (· == 'h')
  if more then help else overfull

/-- A word in front of the separator. A beginning that several options share
makes no sense. -/
def read (o : OptionNames) (text : String) : Except Usage Word :=
  match text.toList with
  | '-' :: '-' :: written =>
    let value := match written.dropWhile (· != '=') with
      | _ :: value => some (String.ofList value)
      | [] => none
    match o.meant (written.takeWhile (· != '=')) with
    | [name] => .ok (ofOption o name value)
    | [] => .ok (if written.contains ' ' then plain text else stray)
    | _ => .error .misuse
  | '-' :: 'h' :: cs => .ok (ofShortHelp cs)
  | '-' :: c :: cs =>
    .ok (if isNumber (c :: cs) || (c :: cs).contains ' '
      then plain text else stray)
  | _ => .ok (plain text)

/-- All words of a command. -/
def readAll (o : OptionNames) : List String → Except Usage (List Word)
  | [] => .ok []
  | text :: texts =>
    if text = "--" then .ok (separator :: texts.map plain)
    else do return (← read o text) :: (← readAll o texts)

end Word

/-- What an option is given: a text, or nothing. -/
abbrev Given := Option String

/-- What a value after `=` gives. -/
def Given.ofAttached (value : String) : Given :=
  if value = "--" then none else some value

/-- What the words of a command come to. -/
structure Arguments where
  flags : List String
  /-- The options with what they are given, in order. -/
  values : List (String × Given)
  plain : List String
  /-- Some word is one too many. -/
  isOverfull : Bool
deriving DecidableEq, Repr

/-- Whether plain words are still awaited, are being taken, or are not taken
any more. -/
inductive Intake where
  | awaited | open | closed
deriving DecidableEq, Repr

/-- The intake of plain words after an option. -/
def Intake.afterOption : Intake → Intake
  | awaited => awaited
  | _ => closed

namespace Arguments

/-- No words. -/
def empty : Arguments := ⟨[], [], [], false⟩

/-- The arguments with those of further words. Help and misuse count where they
stand, but what is one too many is only noted. -/
def takeWords : Intake → Arguments → List Word → Except Usage Arguments
  | _, a, [] => .ok a
  | intake, a, .plain text :: ws =>
    if intake = .closed then takeWords .closed { a with isOverfull := true } ws
    else takeWords .open { a with plain := a.plain ++ [text] } ws
  | intake, a, .separator :: ws =>
    takeWords intake { a with isOverfull :=
      a.isOverfull || intake = .closed } ws
  | _, _, .help :: _ => .error .help
  | intake, a, .flag name :: ws =>
    takeWords intake.afterOption { a with flags := a.flags ++ [name] } ws
  | intake, a, .valued name (some value) :: ws =>
    takeWords intake.afterOption
      { a with values := a.values ++ [(name, Given.ofAttached value)] } ws
  | intake, a, .valued name none :: .plain value :: ws =>
    takeWords intake.afterOption { a with values :=
      a.values ++ [(name, some value)] } ws
  | _, _, .valued _ none :: _ => .error .misuse
  | intake, a, .stray :: ws =>
      takeWords intake.afterOption { a with isOverfull := true } ws
  | _, _, .overfull :: _ => .error .misuse

/-- The arguments of a command that has such options. Where no plain words are
taken, each of them is one too many. -/
def read (o : OptionNames) (takesPlain : Bool) (texts : List String) :
    Except Usage Arguments := do
  takeWords (if takesPlain then .awaited else .closed) empty
    (← Word.readAll o texts)

end Arguments

end JavaRefit.CommandLine
