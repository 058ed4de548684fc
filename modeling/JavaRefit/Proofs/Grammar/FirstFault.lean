/-
A failure is at the first place where no file goes on.

What the reader of files has read when it stops is the start of some file,
since it tracks the words of files; and with the token at which it stops
it is not, since the same reader stops there whatever comes behind. So a
failure names that token, or the character at which the tokens end, or
the end of the text, and just one of these is at fault
(`parseTree_firstFault`).

Chain: after `TrackedUnit` and `Language`; nothing further reads it.
-/
import JavaRefit.Proofs.Grammar.Language
import JavaRefit.Proofs.Grammar.TrackedUnit
import JavaRefit.Proofs.Token.Separated

namespace JavaRefit

open Token

-- ================================================================ places

namespace Text.Location

/-- The place is right behind a text: its line is one more than the line ends
in the text, its column one more than the characters since the last of them. -/
structure IsBehind (before : List Char) (place : Location) : Prop where
  line : place.line = 1 + before.count '\n'
  column : ∃ lines current, before = lines ++ current ∧
    (lines = [] ∨ ∃ ls, lines = ls ++ ['\n']) ∧
    '\n' ∉ current ∧ place.column = 1 + current.length

/-- The position after some characters is behind them. -/
theorem after_isBehind (before : List Char) :
    (after before).IsBehind before := by
  refine ⟨rfl, (before.reverse.dropWhile (· != '\n')).reverse,
    (before.reverse.takeWhile (· != '\n')).reverse, ?_, ?_, ?_, ?_⟩
  · rw [← List.reverse_append, List.takeWhile_append_dropWhile,
      List.reverse_reverse]
  · cases h : before.reverse.dropWhile (· != '\n') with
    | nil => exact .inl rfl
    | cons c cs =>
        have hc := List.head?_dropWhile_not (· != '\n') before.reverse
        rw [h] at hc
        have hc : c = '\n' := by simpa using hc
        exact .inr ⟨cs.reverse, by rw [List.reverse_cons, hc]⟩
  · intro h
    rw [List.mem_reverse] at h
    simpa using List.mem_takeWhile_imp h
  · rw [List.length_reverse]
    rfl

end Text.Location

-- ============================================================= characters

namespace Token

/-- Neither a word nor trivia starts the text. -/
structure StartsNothing (cs : List Char) : Prop where
  word : spanWord cs = none
  trivia : spanTrivia .between cs = ([], cs)

/-- The trivia in front of a text is all the trivia there is. -/
theorem spanTrivia_snd {cs : List Char} (h : (spanTrivia .between cs).2 ≠ []) :
    spanTrivia .between (spanTrivia .between cs).2 =
      ([], (spanTrivia .between cs).2) := by
  have hagain := spanTrivia_append_of_clean (clean_spanTrivia h)
    (spanTrivia .between cs).2
  rw [spanTrivia_append] at hagain
  have hfst := congrArg Prod.fst hagain
  have hsnd := congrArg Prod.snd hagain
  exact Prod.ext (List.self_eq_append_right.1 hfst) hsnd.symm

/-- A character that stops the tokens starts neither a word nor trivia. -/
theorem startsNothing_scanChars {cs : List Char} {c : Char}
    (h : (scanChars cs).stop = some c) :
    ∃ behind, cs = chars (scanChars cs).tokens (scanChars cs).tail ++
      c :: behind ∧ StartsNothing (c :: behind) := by
  fun_induction scanChars cs with
  | case1 => cases h
  | case2 cs lead d rest hrest hword =>
      cases h
      have hcs := spanTrivia_append .between cs
      have hnone :=
        @spanTrivia_snd cs (by rw [hrest]; exact List.cons_ne_nil _ _)
      rw [hrest] at hcs hnone
      exact ⟨rest, by simpa [chars_nil, lead] using hcs.symm, hword, hnone⟩
  | case3 cs lead d rest hrest w after hword run ih =>
      obtain ⟨behind, hafter, hnothing⟩ := ih h
      refine ⟨behind, ?_, hnothing⟩
      have hcs := spanTrivia_append .between cs
      rw [hrest, ← spanWord_append hword, hafter] at hcs
      simpa [chars_cons, lead, run] using hcs.symm

end Token

-- ======================================================= what can go on

/-- Some file goes on from the tokens. -/
def Viable (ts : List Token) : Prop :=
  ∃ us, Derivable (ts ++ us)

/-- Derivable tokens are the beginning of derivable ones. -/
theorem Derivable.viable {ts : List Token} (h : Derivable ts) : Viable ts :=
  ⟨[], by rwa [List.append_nil]⟩

/-- A beginning of viable tokens is viable. -/
theorem Viable.of_append {ts us : List Token} (h : Viable (ts ++ us)) :
    Viable ts := by
  obtain ⟨vs, h⟩ := h
  exact ⟨us ++ vs, by rwa [← List.append_assoc]⟩

namespace Parser

variable {close : Trivia} {path : Option String} {ts : List Token} {left : Nat}

/-- The tokens read before a failure are the start of some file. -/
theorem viable_of_unit_eq_error (h : unit close path ts = .error left) :
    left ≤ ts.length ∧ Viable (ts.take (ts.length - left)) := by
  obtain ⟨c, r, vs, heq, rfl, -, cu, hcu⟩ :=
    (Tracks.unit close path : Tracks (ts.length + 1) 0 _ _ _).viable
      (Nat.lt_succ_self _) h
  have hlength := congrArg List.length heq
  rw [length_wordsOf, List.length_append] at hlength
  have hread : wordsOf (ts.take (ts.length - r.length)) = c := by
    rw [wordsOf, List.map_take, ← wordsOf, heq, List.take_left']
    omega
  have hwords : SameWords ((c ++ vs).map Word.bare)
      (ts.take (ts.length - r.length) ++ vs.map Word.bare) := by
    rw [SameWords, List.map_append, List.map_append, List.map_append, ← hread]
    exact congrArg (· ++ _) (SameWords.bare rfl).symm
  obtain ⟨cu', hcu', -⟩ : ∃ cu', SpellsUnit close path _ cu' ∧ _ :=
    hcu.respaced hwords
  exact ⟨by omega, vs.map Word.bare, hcu'.derives.derivable⟩

/-- With the token at which the reader stops, the tokens are the start of no
file. -/
theorem not_viable_of_unit_eq_error {read rest : List Token} {t : Token}
    (h : unit close path (read ++ t :: rest) = .error (t :: rest).length) :
    ¬Viable (read ++ [t]) := by
  rintro ⟨us, hus⟩
  obtain ⟨cu, hcu⟩ := hus.derives close path
  obtain ⟨classes, hspells⟩ := hcu.read
  have herror : unit close path (read ++ [t] ++ rest) =
      .error (1 + rest.length) := by
    simpa [Nat.add_comm] using h
  have hfails := (Tracks.unit close path).fails
    (Nat.lt_succ_self (read ++ [t] ++ rest).length)
    (Nat.lt_succ_self (read ++ [t] ++ us).length) herror Nat.one_pos
  rw [unit_complete hspells] at hfails
  cases hfails

end Parser

-- ============================================================== failures

/-- The failure says what is unexpected, and that it is right behind some part
of the text. -/
def Failure.PointsAt (f : Failure) (path : Option String) (what : String)
    (before : List Char) : Prop :=
  ∃ place : Text.Location, place.IsBehind before ∧
    f = ⟨"parse-error",
      "unsupported or invalid Java syntax: unexpected " ++ what, path,
      some ⟨path.filter (· != ""), some place.line, some place.column⟩⟩

/-- A failure at a word. The text up to the word has been cut into tokens,
which are the start of some file; with the token of the word, they are not. -/
structure FaultAtWord (source : String) (path : Option String) (f : Failure)
    (read : List Token) (t : Token) : Prop where
  text : ∃ behind,
    source.toList = chars read t.lead ++ (t.word.text.toList ++ behind)
  tokens : ∃ rest, (scan source).tokens = read ++ t :: rest
  points : f.PointsAt path (Text.quoted t.word.text) (chars read t.lead)
  viable : Viable read
  unviable : ¬Viable (read ++ [t])

/-- A failure at a character. Nothing starts there, and the tokens before it
are the start of some file. -/
structure FaultAtCharacter (source : String) (path : Option String)
    (f : Failure) (c : Char) : Prop where
  text : ∃ behind, source.toList =
    chars (scan source).tokens (scan source).tail ++ c :: behind ∧
    StartsNothing (c :: behind)
  points : f.PointsAt path ("character " ++ Text.quoted (String.singleton c))
    (chars (scan source).tokens (scan source).tail)
  viable : Viable (scan source).tokens

/-- A failure at the end. The text is cut into tokens, which are the start of
some file but no file themselves. -/
structure FaultAtEnd (source : String) (path : Option String)
    (f : Failure) : Prop where
  text : source.toList = chars (scan source).tokens (scan source).tail
  points : f =
    ⟨"parse-error", "unsupported or invalid Java syntax: unexpected ''", path,
    some ⟨path.filter (· != ""), some (-1), some (-1)⟩⟩
  viable : Viable (scan source).tokens
  underivable : ¬Derivable (scan source).tokens

variable {source : String} {path : Option String} {f : Failure}

/-- After a fault at a word the tokens of the text begin no derivable ones. -/
theorem FaultAtWord.not_viable {read : List Token} {t : Token}
    (h : FaultAtWord source path f read t) : ¬Viable (scan source).tokens := by
  obtain ⟨rest, hrest⟩ := h.tokens
  rw [hrest, ← List.singleton_append, ← List.append_assoc]
  exact fun hviable => h.unviable hviable.of_append

/-- A fault at the end of the text is none at a character. -/
theorem FaultAtEnd.not_character {c : Char} (h : FaultAtEnd source path f) :
    ¬FaultAtCharacter source path f c := by
  rintro ⟨⟨behind, htext, -⟩, -, -⟩
  rw [h.text, List.self_eq_append_right] at htext
  cases htext

/-- The characters up to a token, of the token, and after it. -/
theorem Token.chars_append_cons (read rest : List Token) (t : Token)
    (tail : Trivia) :
    chars (read ++ t :: rest) tail =
      chars read t.lead ++ (t.word.text.toList ++ chars rest tail) := by
  induction read with
  | nil => rw [List.nil_append, chars_cons, chars_nil]
  | cons u read ih =>
      rw [List.cons_append, chars_cons, ih, chars_cons]
      simp only [List.append_assoc]

/-- Where the reader of files stops at a token. -/
theorem faultAtWord {read rest : List Token} {t : Token}
    (htokens : (scan source).tokens = read ++ t :: rest)
    (hunit : Parser.unit (scan source).tail path (read ++ t :: rest) =
      .error (t :: rest).length)
    (hf : (ParseError.unexpectedWord t.word.text
      (TokenRun.locationAfter read t.lead)).failure? path =
      some f) : FaultAtWord source path f read t := by
  cases hf
  refine ⟨?_, ⟨rest, htokens⟩, ⟨_, Text.Location.after_isBehind _, rfl⟩, ?_,
    Parser.not_viable_of_unit_eq_error hunit⟩
  · obtain ⟨left, hsource, -⟩ := scanChars_text source.toList
    refine ⟨chars rest (scan source).tail ++ left, ?_⟩
    rw [← List.append_assoc, ← List.append_assoc,
      List.append_assoc (chars read _), ← chars_append_cons, ← htokens]
    exact hsource
  · have hviable := (Parser.viable_of_unit_eq_error hunit).2
    rwa [List.length_append, Nat.add_sub_cancel, List.take_left] at hviable

/-- Where the tokens end at a character. -/
theorem faultAtCharacter {c : Char} (hstop : (scan source).stop = some c)
    (hviable : Viable (scan source).tokens)
    (hf : (ParseError.unexpectedCharacter c
      (TokenRun.locationAfter (scan source).tokens (scan source).tail)).failure?
        path = some f) :
    FaultAtCharacter source path f c := by
  cases hf
  refine ⟨startsNothing_scanChars hstop,
    ⟨_, Text.Location.after_isBehind _, ?_⟩, hviable⟩
  rw [← String.append_assoc]
  rfl

/-- Where the text ends. -/
theorem faultAtEnd (hstop : (scan source).stop = none)
    (hviable : Viable (scan source).tokens)
    (hderivable : ¬Derivable (scan source).tokens)
    (hf : ParseError.unexpectedEnd.failure? path = some f) :
    FaultAtEnd source path f := by
  cases hf
  refine ⟨?_, rfl, hviable, hderivable⟩
  rw [chars, scan_text hstop]

/-- A failure to read a text is at a token, at a character or at the end. -/
theorem fault_of_parseTree {e : ParseError}
    (he : parseTree source path = .error e) (hf : e.failure? path = some f) :
    (∃ read t, FaultAtWord source path f read t) ∨
    (∃ c, FaultAtCharacter source path f c) ∨
      FaultAtEnd source path f := by
  rw [parseTree] at he
  cases hunit : Parser.unit (scan source).tail path (scan source).tokens with
  | error left =>
      rw [hunit] at he
      cases he
      obtain ⟨hle, hviable⟩ := Parser.viable_of_unit_eq_error hunit
      have hsplit := List.take_append_drop ((scan source).tokens.length - left)
        (scan source).tokens
      have hlength := List.length_drop (i := (scan source).tokens.length - left)
        (l := (scan source).tokens)
      unfold TokenRun.errorAt at hf
      dsimp only at hf
      cases hdrop : (scan source).tokens.drop
        ((scan source).tokens.length - left) with
      | cons t rest =>
          rw [hdrop] at hf hsplit hlength
          refine .inl ⟨_, t, faultAtWord hsplit.symm ?_ hf⟩
          rw [hsplit, hunit]
          exact congrArg Except.error (by omega)
      | nil =>
          rw [hdrop, List.append_nil] at hsplit
          rw [hsplit] at hviable
          rw [hdrop, hsplit] at hf
          cases hstop : (scan source).stop with
          | some c =>
              rw [hstop] at hf
              exact .inr (.inl ⟨c, faultAtCharacter hstop hviable hf⟩)
          | none =>
              rw [hstop] at hf
              exact .inr (.inr (faultAtEnd hstop hviable
                (Parser.unit_eq_error_iff.1 ⟨left, hunit⟩) hf))
  | ok r =>
      obtain ⟨cu, rest⟩ := r
      rw [hunit] at he
      have hviable : Viable (scan source).tokens :=
        (Parser.unit_sound hunit).2.derives.derivable.viable
      cases hstop : (scan source).stop with
      | some c =>
          simp only [hstop, Option.isSome_some, if_true] at he
          cases he
          simp only [TokenRun.errorAt, Nat.sub_zero, List.drop_length,
            List.take_length, hstop] at hf
          exact .inr (.inl ⟨c, faultAtCharacter hstop hviable hf⟩)
      | none =>
          -- What is left is an import of a single word, and that has no place.
          simp only [hstop, Option.isSome_none, Bool.false_eq_true,
            if_false] at he
          split at he <;> cases he
          cases hf

/-- Where a text is not read, the failure is at the first place at which no
file goes on: exactly one of these holds. It names a token and points at it;
the text before it is cut into tokens that are the start of some file, and with
the token they are not. It names a character and points at it; nothing starts
there, and the tokens before it are the start of some file. Or it is at the end
of the text, whose tokens are the start of some file and no file themselves. -/
theorem parseTree_firstFault {e : ParseError}
    (he : parseTree source path = .error e) (hf : e.failure? path = some f) :
    ((∃ read t, FaultAtWord source path f read t) ∧
      (¬∃ c, FaultAtCharacter source path f c) ∧
        ¬FaultAtEnd source path f) ∨
      ((¬∃ read t, FaultAtWord source path f read t) ∧
        (∃ c, FaultAtCharacter source path f c) ∧ ¬FaultAtEnd source path f) ∨
      ((¬∃ read t, FaultAtWord source path f read t) ∧
        (¬∃ c, FaultAtCharacter source path f c) ∧
        FaultAtEnd source path f) := by
  have hword (hviable : Viable (scan source).tokens) :
      ¬∃ read t, FaultAtWord source path f read t :=
    fun ⟨_, _, h⟩ => h.not_viable hviable
  obtain ⟨read, t, h⟩ | ⟨c, h⟩ | h := fault_of_parseTree he hf
  · exact .inl ⟨⟨read, t, h⟩, fun ⟨_, hc⟩ => hword hc.viable ⟨read, t, h⟩,
      fun hend => hword hend.viable ⟨read, t, h⟩⟩
  · exact .inr (.inl ⟨hword h.viable, ⟨c, h⟩, fun hend => hend.not_character h⟩)
  · exact .inr (.inr ⟨hword h.viable, fun ⟨_, hc⟩ => h.not_character hc, h⟩)

/-- A variable without its value, in the second line. -/
def valuelessText : String :=
  "class A \x7b\n  int x = ;\n\x7d\n"

/-- The semicolon is at fault, at its place. -/
theorem parseTree_firstFault_valueless :
    parseTree valuelessText (some "A.java") =
      .error (.unexpectedWord ";" ⟨2, 11⟩) ∧
      ∃ read t, FaultAtWord valuelessText (some "A.java")
        ⟨"parse-error", "unsupported or invalid Java syntax: unexpected ';'",
          some "A.java", some ⟨some "A.java", some 2, some 11⟩⟩ read t := by
  have hread : (match parseTree valuelessText (some "A.java") with
      | .error e => e == .unexpectedWord ";" ⟨2, 11⟩
      | .ok _ => false) = true := by decide +kernel
  have hstop : (scan valuelessText).stop = none := by decide +kernel
  cases htree : parseTree valuelessText (some "A.java") with
  | ok cu => rw [htree] at hread; cases hread
  | error e =>
      rw [htree] at hread
      obtain rfl : e = .unexpectedWord ";" ⟨2, 11⟩ := eq_of_beq hread
      have hfailure :
          (ParseError.unexpectedWord ";" ⟨2, 11⟩).failure? (some "A.java") =
          some ⟨"parse-error",
            "unsupported or invalid Java syntax: unexpected ';'", some "A.java",
            some ⟨some "A.java", some 2, some 11⟩⟩ := by decide +kernel
      refine ⟨rfl, ?_⟩
      obtain ⟨hword, -⟩ | ⟨-, ⟨c, hc⟩, -⟩ | ⟨-, -, hend⟩ :=
        parseTree_firstFault htree hfailure
      · exact hword
      · obtain ⟨behind, htext, -⟩ := hc.text
        rw [chars, scan_text hstop, List.self_eq_append_right] at htext
        cases htext
      · exact absurd hend.points (by decide +kernel)

end JavaRefit
