/-
Cutting a text into tokens.

Trivia is a run of blanks (space, tab, form feed, carriage return, line
feed), comments to the end of the line, and comments between `/*` and the
first `*/` after it; a `/*` that nothing closes is two symbols. A word is
the longest the text starts with, and a name is a keyword exactly when
the whole of it is reserved.

Every scanner returns what it took and what is left, and the two put
together are what it was given.

Chain: after `Token`; read by the parser of whole files.
-/
import JavaRefit.Text.CharClass
import JavaRefit.Token

namespace JavaRefit.Token

-- ================================================================ trivia

/-- A blank between words. -/
def isTriviaBlank (c : Char) : Bool :=
  c == ' ' || c == '\t' || c == '\x0c' || c == '\r' || c == '\n'

/-- Somewhere the text has the end of a comment. -/
def closesComment : List Char → Bool
  | '*' :: '/' :: _ => true
  | _ :: cs => closesComment cs
  | [] => false

/-- Where in the trivia a scanner is. -/
inductive TriviaState where
  | between | inLine | inBlock
deriving DecidableEq, Repr

/-- The trivia in front of a text, and the rest. -/
def spanTrivia : TriviaState → List Char → List Char × List Char
  | _, [] => ([], [])
  | .between, '/' :: '/' :: cs =>
    let (a, b) := spanTrivia .inLine cs
    ('/' :: '/' :: a, b)
  | .between, '/' :: '*' :: cs =>
    if closesComment cs then
      let (a, b) := spanTrivia .inBlock cs
      ('/' :: '*' :: a, b)
    else ([], '/' :: '*' :: cs)
  | .inBlock, '*' :: '/' :: cs =>
    let (a, b) := spanTrivia .between cs
    ('*' :: '/' :: a, b)
  | .inBlock, c :: cs =>
    let (a, b) := spanTrivia .inBlock cs
    (c :: a, b)
  | .inLine, c :: cs =>
    let (a, b) := spanTrivia (if c = '\n' then .between else .inLine) cs
    (c :: a, b)
  | .between, c :: cs =>
    if isTriviaBlank c then
      let (a, b) := spanTrivia .between cs
      (c :: a, b)
    else ([], c :: cs)

-- ================================================================= words

/-- A character a name may start with. -/
def isNameStart (c : Char) : Bool :=
  c.isAlpha || c == '_' || c == '$'

/-- A character a name may go on with. -/
def isNamePart (c : Char) : Bool :=
  isNameStart c || c.isDigit

/-- The letter that may end a number. -/
def isNumberSuffix (c : Char) : Bool :=
  c == 'l' || c == 'L' || c == 'f' || c == 'F' || c == 'd' || c == 'D'

/-- The rest of a string after its opening quote, up to and with the closing
one. -/
def spanString : List Char → Option (List Char × List Char)
  | [] => none
  | '"' :: cs => some (['"'], cs)
  | '\\' :: c :: cs =>
    if c = '\n' then none else (spanString cs).map fun (a, b) =>
      ('\\' :: c :: a, b)
  | c :: cs =>
    if c = '\n' ∨ c = '\\' then none else (spanString cs).map
      fun (a, b) => (c :: a, b)

/-- A character literal in front of a text. -/
def spanCharacter : List Char → Option (List Char × List Char)
  | '\'' :: '\\' :: c :: '\'' :: cs =>
    if c = '\n' then none else some (['\'', '\\', c, '\''], cs)
  | '\'' :: c :: '\'' :: cs =>
    if c = '\n' ∨ c = '\\' ∨ c = '\'' then none else some (['\'', c, '\''], cs)
  | _ => none

/-- The fraction of a number: a point with a digit after it, and all digits
after that. -/
def spanFraction : List Char → List Char × List Char
  | '.' :: cs =>
    let ds := cs.takeWhile Text.isDecimalDigit
    if ds.isEmpty then ([], '.' :: cs)
      else ('.' :: ds, cs.dropWhile Text.isDecimalDigit)
  | cs => ([], cs)

/-- The suffix of a number. -/
def spanSuffix : List Char → List Char × List Char
  | c :: cs => if isNumberSuffix c then ([c], cs) else ([], c :: cs)
  | [] => ([], [])

/-- A number in front of a text that starts with a digit. -/
def spanNumber (cs : List Char) : List Char × List Char :=
  let whole := cs.takeWhile Text.isDecimalDigit
  let (fraction, afterFraction) :=
    spanFraction (cs.dropWhile Text.isDecimalDigit)
  let (suffix, rest) := spanSuffix afterFraction
  (whole ++ fraction ++ suffix, rest)

/-- The symbols of two characters. -/
def doubleSymbols : List (Char × Char) :=
  [('|', '|'), ('&', '&'), ('=', '='), ('!', '='), ('<', '='), ('>', '=')]

/-- The symbols of one character. -/
def singleSymbols : List Char :=
  ['.', '*', ',', ';', '(', ')', '\x7b', '\x7d', '[', ']', '<', '>', '@', '|',
    '=', '+', '-', '/',
   '%', '!']

/-- A symbol in front of a text, the longer one first. -/
def spanSymbol : List Char → Option (List Char × List Char)
  | a :: b :: cs =>
    if doubleSymbols.contains (a, b) then some ([a, b], cs)
    else if singleSymbols.contains a then some ([a], b :: cs)
    else none
  | [a] => if singleSymbols.contains a then some ([a], []) else none
  | [] => none

/-- The word of a whole name. -/
def nameWord (s : String) : Word :=
  if reserved.contains s then .keyword s else .name s

/-- The word in front of a text, and the rest; nothing when no word starts
there. -/
def spanWord : List Char → Option (Word × List Char)
  | [] => none
  | c :: cs =>
    if isNameStart c then
      some (nameWord (String.ofList (c :: cs.takeWhile isNamePart)),
        cs.dropWhile isNamePart)
    else if Text.isDecimalDigit c then
      let (digits, rest) := spanNumber (c :: cs)
      some (.literal (String.ofList digits), rest)
    else if c = '"' then
      (spanString cs).map fun (a, b) => (.literal (String.ofList (c :: a)), b)
    else if c = '\'' then
      (spanCharacter (c :: cs)).map fun (a, b) =>
        (.literal (String.ofList a), b)
    else (spanSymbol (c :: cs)).map fun (a, b) => (.symbol (String.ofList a), b)

-- ==================================================== what scanners keep

theorem spanTrivia_append (state : TriviaState) (cs : List Char) :
    (spanTrivia state cs).1 ++ (spanTrivia state cs).2 = cs := by
  fun_induction spanTrivia state cs <;> simp_all

theorem spanString_append {cs a b : List Char}
    (h : spanString cs = some (a, b)) : a ++ b = cs := by
  fun_induction spanString cs generalizing a b with
  | case1 => simp at h
  | case2 cs => simp at h; obtain ⟨rfl, rfl⟩ := h; rfl
  | case3 => simp at h
  | case4 c cs hc ih =>
    obtain ⟨⟨x, y⟩, hx, he⟩ := Option.map_eq_some_iff.1 h
    simp at he; obtain ⟨rfl, rfl⟩ := he
    simp [ih hx]
  | case5 => simp at h
  | case6 c cs _ _ hc ih =>
    obtain ⟨⟨x, y⟩, hx, he⟩ := Option.map_eq_some_iff.1 h
    simp at he; obtain ⟨rfl, rfl⟩ := he
    simp [ih hx]

theorem spanCharacter_append {cs a b : List Char}
    (h : spanCharacter cs = some (a, b)) : a ++ b = cs := by
  fun_cases spanCharacter cs <;> simp_all [spanCharacter] <;>
    (obtain ⟨rfl, rfl⟩ := h; rfl)

theorem spanFraction_append (cs : List Char) :
    (spanFraction cs).1 ++ (spanFraction cs).2 = cs := by
  unfold spanFraction
  split
  · simp only []
    split <;> simp [List.takeWhile_append_dropWhile]
  · simp

theorem spanSuffix_append (cs : List Char) :
    (spanSuffix cs).1 ++ (spanSuffix cs).2 = cs := by
  unfold spanSuffix
  split
  · split <;> simp
  · simp

theorem spanNumber_append (cs : List Char) :
    (spanNumber cs).1 ++ (spanNumber cs).2 = cs := by
  simp only [spanNumber, List.append_assoc]
  rw [spanSuffix_append, spanFraction_append, List.takeWhile_append_dropWhile]

theorem spanSymbol_append {cs a b : List Char}
    (h : spanSymbol cs = some (a, b)) : a ++ b = cs := by
  unfold spanSymbol at h
  split at h
  · split at h
    · simp at h; obtain ⟨rfl, rfl⟩ := h; rfl
    · split at h
      · simp at h; obtain ⟨rfl, rfl⟩ := h; rfl
      · simp at h
  · split at h
    · simp at h; obtain ⟨rfl, rfl⟩ := h; rfl
    · simp at h
  · simp at h

@[simp] theorem nameWord_text (s : String) : (nameWord s).text = s := by
  unfold nameWord; split <;> rfl

/-- A word and the rest are the text it was taken from. -/
theorem spanWord_append {cs rest : List Char} {w : Word}
    (h : spanWord cs = some (w, rest)) : w.text.toList ++ rest = cs := by
  unfold spanWord at h
  split at h
  · simp at h
  · rename_i c cs
    split at h
    · simp at h; obtain ⟨rfl, rfl⟩ := h
      simp [List.takeWhile_append_dropWhile]
    · split at h
      · simp at h; obtain ⟨rfl, rfl⟩ := h
        simpa [Word.text] using spanNumber_append (c :: cs)
      · split at h
        · obtain ⟨⟨a, b⟩, hx, he⟩ := Option.map_eq_some_iff.1 h
          simp at he; obtain ⟨rfl, rfl⟩ := he
          simp [Word.text, spanString_append hx]
        · split at h
          · obtain ⟨⟨a, b⟩, hx, he⟩ := Option.map_eq_some_iff.1 h
            simp at he; obtain ⟨rfl, rfl⟩ := he
            simp [Word.text, spanCharacter_append hx]
          · obtain ⟨⟨a, b⟩, hx, he⟩ := Option.map_eq_some_iff.1 h
            simp at he; obtain ⟨rfl, rfl⟩ := he
            simp [Word.text, spanSymbol_append hx]

theorem spanNumber_ne_nil {c : Char} (cs : List Char)
    (h : Text.isDecimalDigit c = true) : (spanNumber (c :: cs)).1 ≠ [] := by
  simp [spanNumber, h]

theorem spanCharacter_ne_nil {cs a b : List Char}
    (h : spanCharacter cs = some (a, b)) : a ≠ [] := by
  fun_cases spanCharacter cs <;> simp_all [spanCharacter] <;>
    (obtain ⟨rfl, rfl⟩ := h; simp)

theorem spanSymbol_ne_nil {cs a b : List Char}
    (h : spanSymbol cs = some (a, b)) : a ≠ [] := by
  unfold spanSymbol at h
  split at h
  · split at h
    · simp at h; obtain ⟨rfl, rfl⟩ := h; simp
    · split at h
      · simp at h; obtain ⟨rfl, rfl⟩ := h; simp
      · simp at h
  · split at h
    · simp at h; obtain ⟨rfl, rfl⟩ := h; simp
    · simp at h
  · simp at h

/-- A word is not empty. -/
theorem spanWord_ne_nil {cs rest : List Char} {w : Word}
    (h : spanWord cs = some (w, rest)) : w.text.toList ≠ [] := by
  unfold spanWord at h
  split at h
  · simp at h
  · rename_i c cs
    split at h
    · simp at h; obtain ⟨rfl, rfl⟩ := h
      simp
    · split at h
      · rename_i hd
        simp at h; obtain ⟨rfl, rfl⟩ := h
        simpa [Word.text] using spanNumber_ne_nil cs hd
      · split at h
        · obtain ⟨⟨a, b⟩, hx, he⟩ := Option.map_eq_some_iff.1 h
          simp at he; obtain ⟨rfl, rfl⟩ := he
          simp [Word.text]
        · split at h
          · obtain ⟨⟨a, b⟩, hx, he⟩ := Option.map_eq_some_iff.1 h
            simp at he; obtain ⟨rfl, rfl⟩ := he
            simpa [Word.text] using spanCharacter_ne_nil hx
          · obtain ⟨⟨a, b⟩, hx, he⟩ := Option.map_eq_some_iff.1 h
            simp at he; obtain ⟨rfl, rfl⟩ := he
            simpa [Word.text] using spanSymbol_ne_nil hx

/-- What follows a word is shorter than what the word starts. -/
theorem length_lt_of_spanWord {cs rest : List Char} {w : Word}
    (h : spanWord cs = some (w, rest)) : rest.length < cs.length := by
  have happ := congrArg List.length (spanWord_append h)
  have hpos := List.length_pos_iff.2 (spanWord_ne_nil h)
  simp only [List.length_append] at happ
  omega

-- ================================================================ tokens

/-- The tokens of a text. -/
def scanChars (cs : List Char) : TokenRun :=
  let trivia := String.ofList (spanTrivia .between cs).1
  match _h : (spanTrivia .between cs).2 with
  | [] => ⟨[], trivia, none⟩
  | c :: rest =>
    match _hw : spanWord (c :: rest) with
    | none => ⟨[], trivia, some c⟩
    | some (w, after) =>
      let run := scanChars after
      { run with tokens := ⟨trivia, w⟩ :: run.tokens }
termination_by cs.length
decreasing_by
  have hlt := length_lt_of_spanWord _hw
  have happ := congrArg List.length (spanTrivia_append .between cs)
  rw [_h, List.length_append] at happ
  omega

/-- The tokens of a source text. -/
def scan (source : String) : TokenRun :=
  scanChars source.toList

end JavaRefit.Token
