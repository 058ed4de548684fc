/-
Readers read whatever the rules allow.

`Complete p R P`: tokens that spell something are read as that, whatever
comes after them, as long as it does not start with a word of `P`. Those
are the words by which what is read could go on. A reader bounded in
depth reads what is shorter than its bound, so its property is one of
tokens below some length, and the induction is on the bound.

What is built from the left, names, arrays and chains of calls, is read
by a loop that is handed what was read before. For each of these there is
a statement about the loop: after the tokens of the longer thing it is
where it would be after the tokens of the shorter one.

Chain: after `First` and `Operators`; up to declarations here, statements
after the other direction.
-/
import JavaRefit.Proofs.Grammar.First
import JavaRefit.Proofs.Grammar.Operators
import JavaRefit.Proofs.Reading.Basic

namespace JavaRefit

open Spelling

/-- The next word, where there is one, is not of some class. -/
def Stops (P : Word → Bool) (ts : List Token) : Prop :=
  ∀ t ∈ ts.head?, P t.word = false

namespace Stops

variable {P Q : Word → Bool} {ts us : List Token}

@[simp] theorem nil : Stops P [] :=
  fun _ h => by cases h

@[simp] theorem cons {t : Token} : Stops P (t :: ts) ↔ P t.word = false := by
  simp [Stops]

/-- A narrower test stops as well. -/
theorem imp (hPQ : ∀ w, P w = false → Q w = false) (h : Stops P ts) :
    Stops Q ts :=
  fun t ht => hPQ _ (h t ht)

end Stops

/-- Tokens that start with a word of one class stop one that has none of its
words. -/
theorem Opens.stops {P Q : Word → Bool} {ts : List Token} (us : List Token)
    (h : Opens Q ts) (hPQ : ∀ w, Q w = true → P w = false) :
    Stops P (ts ++ us) := by
  obtain ⟨t, rest, rfl, ht⟩ := h
  rw [List.cons_append, Stops.cons]
  exact hPQ _ ht

namespace Word

/-- A name goes on with the word. -/
def extendsName (w : Word) : Bool :=
  w == .symbol "."

/-- A class type goes on with the word. -/
def extendsClassType (w : Word) : Bool :=
  w.extendsName || w == .symbol "<"

/-- A type goes on with the word. -/
def extendsType (w : Word) : Bool :=
  w.extendsClassType || w == .symbol "["

/-- An expression without operators around it goes on with the word. -/
def extendsPostfix (w : Word) : Bool :=
  w == .symbol "." || w == .symbol "("

/-- The word is an operator between operands. -/
def isBinaryOp (w : Word) : Bool :=
  (Parser.asBinaryOp ⟨"", w⟩).isSome

/-- An expression goes on with the word. -/
def extendsExpr (w : Word) : Bool :=
  w.extendsPostfix || w == .symbol "=" || w.isBinaryOp

end Word

namespace Parser

variable {α β : Type}

-- ============================================================== the rule

/-- Tokens below some length that spell something are read as that, before what
does not go on with a word of the class. -/
def CompleteBelow (n : Nat) (p : Parser α) (R : Spelling α)
    (P : Word → Bool) : Prop :=
  ∀ ⦃us : List Token⦄ ⦃a : α⦄, us.length < n → R us a → ∀ rest, Stops P rest →
    p (us ++ rest) = .ok (a, rest)

/-- Tokens that spell something are read as that, before what does not go on
with a word of the class. -/
def Complete (p : Parser α) (R : Spelling α) (P : Word → Bool) : Prop :=
  ∀ ⦃us : List Token⦄ ⦃a : α⦄, R us a → ∀ rest, Stops P rest →
    p (us ++ rest) = .ok (a, rest)

/-- What is complete is so for all lengths. -/
theorem Complete.below {p : Parser α} {R : Spelling α} {P : Word → Bool}
    (h : Complete p R P) (n : Nat) : CompleteBelow n p R P :=
  fun _ _ _ hR => h hR

/-- What is complete up to a length is so up to a smaller one. -/
theorem CompleteBelow.mono {m n : Nat} {p : Parser α} {R : Spelling α}
    {P : Word → Bool} (h : CompleteBelow n p R P) (hle : m ≤ n) :
    CompleteBelow m p R P :=
  fun _ _ hlt hR => h (Nat.lt_of_lt_of_le hlt hle) hR

-- ========================================================= single tokens

/-- After a success the second parser goes on with the value. -/
theorem bind_ok {p : Parser α} {f : α → Parser β} {ts mid : List Token} {a : α}
    (h : p ts = .ok (a, mid)) : (p >>= f) ts = f a mid := by
  show (p ts >>= fun r => f r.1 r.2) = _
  rw [h]
  rfl

/-- A look ahead reads nothing. -/
theorem ahead_ok (f : List Token → Bool) (ts : List Token) :
    ahead f ts = .ok (f ts, ts) := rfl

/-- A token that a test lets through is taken. -/
theorem take_ok {f : Token → Option α} {t : Token} {a : α} (h : f t = some a)
    (rest : List Token) : take f (t :: rest) = .ok (a, rest) := by
  simp [take, h]

/-- So is it where the token may be absent. -/
theorem take?_ok {f : Token → Option α} {t : Token} {a : α} (h : f t = some a)
    (rest : List Token) : take? f (t :: rest) = .ok (some a, rest) := by
  simp [take?, h]

/-- A token is not taken when its word is not of the class that passes the
test. -/
theorem take?_none {f : Token → Option α} {P : Word → Bool}
    (hf : ∀ t a, f t = some a → P t.word = true) {ts : List Token}
    (h : Stops P ts) :
    take? f ts = .ok (none, ts) := by
  cases ts with
  | nil => rfl
  | cons t ts =>
      cases ha : f t with
      | none => simp [take?, ha]
      | some a =>
          rw [Stops.cons, hf t a ha] at h
          cases h

/-- A word is read where it stands. -/
theorem word_ok (lead : Trivia) (w : Word) (rest : List Token) :
    word w (⟨lead, w⟩ :: rest) = .ok (lead, rest) :=
  take_ok (if_pos rfl) rest

theorem symbol_ok (lead : Trivia) (s : String) (rest : List Token) :
    symbol s (⟨lead, .symbol s⟩ :: rest) = .ok (lead, rest) :=
  word_ok lead _ rest

theorem keyword_ok (lead : Trivia) (s : String) (rest : List Token) :
    keyword s (⟨lead, .keyword s⟩ :: rest) = .ok (lead, rest) :=
  word_ok lead _ rest

theorem word?_ok (lead : Trivia) (w : Word) (rest : List Token) :
    word? w (⟨lead, w⟩ :: rest) = .ok (some lead, rest) :=
  take?_ok (if_pos rfl) rest

theorem symbol?_ok (lead : Trivia) (s : String) (rest : List Token) :
    symbol? s (⟨lead, .symbol s⟩ :: rest) = .ok (some lead, rest) :=
  word?_ok lead _ rest

theorem keyword?_ok (lead : Trivia) (s : String) (rest : List Token) :
    keyword? s (⟨lead, .keyword s⟩ :: rest) = .ok (some lead, rest) :=
  word?_ok lead _ rest

/-- An optional word is absent where another stands. -/
theorem word?_none {w : Word} {ts : List Token} (h : Stops (· == w) ts) :
    word? w ts = .ok (none, ts) :=
  take?_none (fun t lead ht => by
    rw [leadOf_eq_some ht]; exact beq_self_eq_true w) h

theorem symbol?_none {s : String} {ts : List Token}
    (h : Stops (· == .symbol s) ts) : symbol? s ts = .ok (none, ts) :=
  word?_none h

theorem keyword?_none {s : String} {ts : List Token}
    (h : Stops (· == .keyword s) ts) : keyword? s ts = .ok (none, ts) :=
  word?_none h

theorem ident_ok (i : Ident) (rest : List Token) :
    ident (⟨i.lead, .name i.name⟩ :: rest) = .ok (i, rest) := rfl

/-- A look ahead sees the word that opens what follows. -/
theorem isNext_true {w : Word} {ts : List Token} (h : Opens (· == w) ts) :
    isNext w ts = .ok (true, ts) := by
  obtain ⟨t, rest, rfl, ht⟩ := h
  simp [isNext, ahead, eq_of_beq ht]

/-- A look ahead does not see a word that does not follow. -/
theorem isNext_false {w : Word} {ts : List Token} (h : Stops (· == w) ts) :
    isNext w ts = .ok (false, ts) := by
  cases ts with
  | nil => rfl
  | cons t ts =>
      rw [Stops.cons, beq_eq_false_iff_ne] at h
      simp [isNext, ahead, h]

/-- The trivia in front of what is spelled is detached. -/
theorem takeLead_ok {lead : Trivia} {us xs : List Token} (h : Led lead us xs)
    (rest : List Token) : takeLead (xs ++ rest) = .ok (lead, us ++ rest) := by
  cases h
  rfl

-- ================================================================= lists

section

variable {element : Parser α} {R : Spelling α} {P Q : Word → Bool} {n : Nat}

/-- Elements with a separator between them, by as many turns as there are
tokens. -/
theorem padded_complete (he : CompleteBelow n element R P) {separator : String}
    (hsep : P (.symbol separator) = false) {us : List Token}
    {ps : List (RightPadded α)} (hlt : us.length < n)
    (h : Padded R separator us ps) {turns : Nat} (hturns : us.length < turns)
    (rest : List Token) (hrest : Stops P rest)
    (hno : Stops (· == .symbol separator) rest) :
    padded element separator turns (us ++ rest) = .ok (ps, rest) := by
  induction h generalizing turns with
  | @last us a ha =>
      obtain ⟨turns, rfl⟩ : ∃ k, turns = k + 1 := ⟨turns - 1, by omega⟩
      rw [padded, bind_ok (he hlt ha rest hrest), bind_ok (symbol?_none hno)]
      rfl
  | @cons us vs a after ps ha _ ih =>
      simp only [List.length_append, List.length_cons] at hlt hturns
      obtain ⟨turns, rfl⟩ : ∃ k, turns = k + 1 := ⟨turns - 1, by omega⟩
      rw [padded, List.append_assoc, List.cons_append,
        bind_ok (he (by omega) ha _ (Stops.cons.2 hsep)),
        bind_ok (symbol?_ok after separator _)]
      show (padded element separator turns >>= _) (vs ++ rest) = _
      rw [bind_ok (ih (by omega) (by omega))]
      rfl

/-- Elements with a separator between them, by a reader that counts its turns
itself. -/
theorem bounded_padded_complete (he : CompleteBelow n element R P)
    {separator : String} (hsep : P (.symbol separator) = false)
    {us : List Token} {ps : List (RightPadded α)} (hlt : us.length < n)
    (h : Padded R separator us ps) (rest : List Token) (hrest : Stops P rest)
    (hno : Stops (· == .symbol separator) rest) :
    bounded (padded element separator) (us ++ rest) = .ok (ps, rest) :=
  padded_complete he hsep hlt h (by rw [List.length_append]; omega)
    rest hrest hno

/-- Elements between delimiters are read as spelled if no separator or
delimiter goes on with an element. -/
theorem delimited_complete (he : CompleteBelow n element R P)
    (hfirst : ∀ ⦃us a⦄, R us a → Opens Q us) {opening closing : String}
    (hcomma : P (.symbol ",") = false) (hclosing : P (.symbol closing) = false)
    (hQ : Q (.symbol closing) = false) (hne : "," ≠ closing) {us : List Token}
    {c : Container α} (hlt : us.length ≤ n)
    (h : Delimited R opening closing us c) (rest : List Token) :
    delimited element opening closing (us ++ rest) = .ok (c, rest) := by
  cases h with
  | none =>
      rw [delimited, List.cons_append, bind_ok (symbol_ok _ _ _),
        List.cons_append, bind_ok (symbol?_ok _ _ _)]
      rfl
  | @some before us ps close h =>
      have hstart : Stops (· == .symbol closing)
          (us ++ (⟨close, .symbol closing⟩ :: rest)) := by
        refine (opens_padded hfirst h).stops _ fun w hw =>
          beq_eq_false_iff_ne.2 ?_
        rintro rfl
        rw [hQ] at hw
        cases hw
      have hend : Stops (· == .symbol ",")
          (⟨close, .symbol closing⟩ :: rest) := by
        simpa using Ne.symm hne
      simp only [List.length_cons, List.length_append, List.length_nil] at hlt
      rw [delimited, List.cons_append, bind_ok (symbol_ok _ _ _),
        List.append_assoc, List.cons_append, List.nil_append,
        bind_ok (symbol?_none hstart)]
      show (bounded (padded element ",") >>= _) _ = _
      rw [bind_ok (bounded_padded_complete he hcomma (by omega) h _
        (Stops.cons.2 hclosing) hend), bind_ok (symbol_ok close closing rest)]
      rfl

/-- What a keyword introduces is read as spelled, or is absent where no such
keyword stands. -/
theorem afterKeyword?_complete (he : Complete element R P)
    (hcomma : P (.symbol ",") = false) {word : String} {us : List Token}
    {o : Option (Container α)} (h : AfterKeyword R word us o)
    (rest : List Token) (hrest : Stops P rest)
    (hno : Stops (· == .symbol ",") rest)
    (hword : Stops (· == .keyword word) rest) :
    afterKeyword? element word (us ++ rest) = .ok (o, rest) := by
  cases h with
  | none =>
      rw [afterKeyword?, List.nil_append, bind_ok (keyword?_none hword)]
      rfl
  | @some before us ps h =>
      rw [afterKeyword?, List.cons_append, bind_ok (keyword?_ok _ _ _)]
      show (bounded (padded element ",") >>= _) _ = _
      rw [bind_ok (bounded_padded_complete (he.below _) hcomma
        (Nat.lt_succ_self _) h _ hrest hno)]
      rfl

/-- Elements as long as one more starts, by as many turns as there are
tokens. -/
theorem manyWhile_complete (he : CompleteBelow n element R P)
    (hfirst : ∀ ⦃us a⦄, R us a → Opens Q us)
    (hQP : ∀ w, Q w = true → P w = false) {starts : List Token → Bool}
    (hstarts : ∀ ⦃us⦄, Opens Q us → starts us = true) {us : List Token}
    {as : List α} (hlt : us.length < n) (h : Many R us as) {turns : Nat}
    (hturns : us.length < turns) (rest : List Token) (hrest : Stops P rest)
    (hno : starts rest = false) :
    manyWhile starts element turns (us ++ rest) = .ok (as, rest) := by
  induction h generalizing turns with
  | nil =>
      obtain ⟨turns, rfl⟩ : ∃ k, turns = k + 1 := ⟨turns - 1, by omega⟩
      rw [manyWhile, List.nil_append, bind_ok (ahead_ok starts rest), hno]
      rfl
  | @cons us vs a as ha has ih =>
      have hpos := (hfirst ha).length_pos
      simp only [List.length_append] at hlt hturns
      obtain ⟨turns, rfl⟩ : ∃ k, turns = k + 1 := ⟨turns - 1, by omega⟩
      have hstop : Stops P (vs ++ rest) := by
        cases has with
        | nil => exact hrest
        | cons hb _ => exact (hfirst hb).append.stops _ hQP
      rw [manyWhile, List.append_assoc, bind_ok (ahead_ok starts _),
        hstarts (hfirst ha).append]
      show (element >>= _) (us ++ (vs ++ rest)) = _
      rw [bind_ok (he (by omega) ha _ hstop),
        bind_ok (ih (by omega) (by omega))]
      rfl

/-- Elements up to a closing symbol, by as many turns as there are tokens. -/
theorem untilSymbol_complete (he : CompleteBelow n element R P)
    (hfirst : ∀ ⦃us a⦄, R us a → Opens Q us)
    (hQP : ∀ w, Q w = true → P w = false) {closing : String}
    (hQ : Q (.symbol closing) = false) (hclosing : P (.symbol closing) = false)
    {us : List Token} {as : List α} (hlt : us.length < n) (h : Many R us as)
    {turns : Nat} (hturns : us.length < turns) (close : Trivia)
    (rest : List Token) :
    untilSymbol element closing turns (us ++ ⟨close, .symbol closing⟩ :: rest) =
      .ok ((as, close), rest) := by
  induction h generalizing turns with
  | nil =>
      obtain ⟨turns, rfl⟩ : ∃ k, turns = k + 1 := ⟨turns - 1, by omega⟩
      rw [untilSymbol, List.nil_append, bind_ok (symbol?_ok _ _ _)]
      rfl
  | @cons us vs a as ha has ih =>
      have hpos := (hfirst ha).length_pos
      simp only [List.length_append] at hlt hturns
      obtain ⟨turns, rfl⟩ : ∃ k, turns = k + 1 := ⟨turns - 1, by omega⟩
      have hstart : Stops (· == .symbol closing)
          (us ++ (vs ++ ⟨close, .symbol closing⟩ :: rest)) := by
        refine (hfirst ha).stops _ fun w hw => beq_eq_false_iff_ne.2 ?_
        rintro rfl
        rw [hQ] at hw
        cases hw
      have hstop : Stops P (vs ++ ⟨close, .symbol closing⟩ :: rest) := by
        cases has with
        | nil => exact Stops.cons.2 hclosing
        | cons hb _ => exact (hfirst hb).append.stops _ hQP
      rw [untilSymbol, List.append_assoc, bind_ok (symbol?_none hstart)]
      show (element >>= _) (us ++ (vs ++ _)) = _
      rw [bind_ok (he (by omega) ha _ hstop),
        bind_ok (ih (by omega) (by omega))]
      rfl

end

/-- A block is read as spelled: the loop stops at the brace, which opens no
element. -/
theorem braced_complete {element : Parser (RightPadded α)}
    {R : Spelling (RightPadded α)} {P Q : Word → Bool} {n : Nat}
    (he : CompleteBelow n element R P) (hfirst : ∀ ⦃us a⦄, R us a → Opens Q us)
    (hQP : ∀ w, Q w = true → P w = false) (hQ : Q (.symbol "\x7d") = false)
    (hclosing : P (.symbol "\x7d") = false) {us : List Token} {b : Block α}
    (hlt : us.length ≤ n) (h : Braced R us b) (rest : List Token) :
    braced element (us ++ rest) = .ok (b, rest) := by
  cases h with
  | @mk lead us ps close h =>
      simp only [List.length_cons, List.length_append, List.length_nil] at hlt
      rw [braced, List.cons_append, bind_ok (symbol_ok _ _ _),
        List.append_assoc, List.cons_append, List.nil_append]
      show (bounded (untilSymbol element "\x7d") >>= _) _ = _
      have hread : bounded (untilSymbol element "\x7d")
          (us ++ ⟨close, .symbol "\x7d"⟩ :: rest) = .ok ((ps, close), rest) :=
        untilSymbol_complete he hfirst hQP hQ hclosing (by omega) h
          (by simp only [List.length_append]; omega) close rest
      rw [bind_ok hread]
      rfl

-- ================================================================= names

/-- After the dots and words of a name the loop is where it is with the whole
name. -/
theorem nameRest_steps (starMayEnd : Bool) {us : List Token} {n : Name}
    (h : SpellsName us n) :
    ∃ (i : Ident) (vs : List Token) (k : Nat),
      us = ⟨i.lead, .name i.name⟩ :: vs ∧ k ≤ vs.length ∧
      ∀ m rest, nameRest starMayEnd (m + k) (.simple i none) (vs ++ rest) =
        nameRest starMayEnd m n rest := by
  induction h with
  | simple i => exact ⟨i, [], 0, rfl, Nat.le_refl 0, fun m rest => rfl⟩
  | @dot us n dot last _ ih =>
      obtain ⟨i, vs, k, rfl, hk, hsteps⟩ := ih
      refine ⟨i, vs ++ [⟨dot, .symbol "."⟩, ⟨last.lead, .name last.name⟩],
        k + 1, rfl, ?_, ?_⟩
      · simp only [List.length_append, List.length_cons]
        omega
      · intro m rest
        have hno : Stops (· == .symbol "*")
            (⟨last.lead, .name last.name⟩ :: rest) :=
          Stops.cons.2 rfl
        rw [show m + (k + 1) = m + 1 + k by omega, List.append_assoc, hsteps,
          List.cons_append, List.cons_append, List.nil_append, nameRest,
          bind_ok (symbol?_ok _ _ _)]
        show (isNext (.symbol "*") >>= _) _ = _
        rw [bind_ok (isNext_false hno), Bool.and_false]
        show (ident >>= _) _ = _
        rw [bind_ok (ident_ok last rest)]

/-- A name is read as spelled, unless a dot follows. -/
theorem name_complete : Complete name SpellsName Word.extendsName := by
  intro us n h rest hrest
  obtain ⟨i, vs, k, rfl, hk, hsteps⟩ := nameRest_steps false h
  rw [name, List.cons_append, bind_ok (ident_ok i _)]
  show nameRest false ((vs ++ rest).length + 1) _ _ = _
  rw [List.length_append,
    show vs.length + rest.length + 1 =
      vs.length - k + rest.length + 1 +
        k by omega, hsteps, nameRest, bind_ok (symbol?_none hrest)]
  rfl

/-- The name of an import is read as spelled, unless a dot follows. -/
theorem importName_complete :
    Complete importName SpellsImportName Word.extendsName := by
  intro us n h rest hrest
  cases h with
  | named h =>
      obtain ⟨i, vs, k, rfl, hk, hsteps⟩ := nameRest_steps true h
      rw [importName, List.cons_append, bind_ok (ident_ok i _)]
      show nameRest true ((vs ++ rest).length + 1) _ _ = _
      rw [List.length_append,
        show vs.length + rest.length + 1 =
          vs.length - k + rest.length + 1 + k by omega, hsteps,
        nameRest, bind_ok (symbol?_none hrest)]
      rfl
  | @star us n dot lead h =>
      obtain ⟨i, vs, k, rfl, hk, hsteps⟩ := nameRest_steps true h
      rw [importName, List.cons_append, List.cons_append,
        bind_ok (ident_ok i _)]
      show nameRest true ((vs ++ _ ++ rest).length + 1) _ _ = _
      rw [List.length_append, List.length_append, List.length_cons,
        show ∀ a, vs.length + (a + 1) + rest.length + 1 =
          vs.length - k + a + 1 + rest.length + 1 + k by omega,
        List.append_assoc, hsteps, nameRest, List.cons_append,
        bind_ok (symbol?_ok _ _ _)]
      show (isNext (.symbol "*") >>= _) _ = _
      rw [List.cons_append,
        bind_ok (isNext_true (.cons (beq_self_eq_true (Word.symbol "*"))))]
      show (symbol "*" >>= _) _ = _
      rw [bind_ok (symbol_ok _ _ _)]
      rfl

-- ================================================================= types

/-- The words of primitive types are no names. -/
theorem asPrimitive_not_isName (t : Token) (p : TypeTree)
    (h : asPrimitive t = some p) : (!t.word.isName) = true := by
  unfold asPrimitive at h
  split at h
  next s hs => rw [hs]; rfl
  next => cases h

section

variable {argument : Parser TypeTree} {R : Spelling TypeTree} {n : Nat}
  (ha : CompleteBelow n argument R Word.extendsType)
    (hfirst : ∀ ⦃us a⦄, R us a → Opens Word.opensType us)
include ha hfirst

/-- Arguments of a type are read as spelled if there is fuel for their
tokens. -/
theorem typeArguments_complete {us : List Token} {c : Container TypeTree}
    (hlt : us.length ≤ n) (h : Delimited R "<" ">" us c) (rest : List Token) :
    delimited argument "<" ">" (us ++ rest) = .ok (c, rest) :=
  delimited_complete ha hfirst rfl rfl rfl (by decide) hlt h rest

/-- A class type is read as spelled, unless what follows could go on with it. -/
theorem classTypeWith_complete {us : List Token} {t : TypeTree}
    (hlt : us.length ≤ n) (h : ClassTypeWith R us t) (rest : List Token)
    (hrest : Stops Word.extendsClassType rest) :
    classTypeWith argument (us ++ rest) = .ok (t, rest) := by
  cases h with
  | named h =>
      have hname : Stops Word.extendsName rest := hrest.imp fun w hw => by
        simp_all [Word.extendsClassType]
      have hno : Stops (· == .symbol "<") rest := hrest.imp fun w hw => by
        simp_all [Word.extendsClassType]
      rw [classTypeWith, bind_ok (name_complete h rest hname),
        bind_ok (isNext_false hno)]
      rfl
  | generic h hargs =>
      rw [List.length_append] at hlt
      rw [classTypeWith, List.append_assoc,
        bind_ok
          (name_complete h _ ((opens_delimited hargs).stops rest fun w hw => by
          rw [eq_of_beq hw]; rfl)),
        bind_ok (isNext_true (opens_delimited hargs).append)]
      show (delimited argument "<" ">" >>= _) _ = _
      rw [bind_ok (typeArguments_complete ha hfirst (by omega) hargs rest)]
      rfl

omit ha hfirst in
/-- A type is an element type and the brackets after it. -/
theorem dimensions_steps {us : List Token} {t : TypeTree}
    (h : TypeWith R us t) : ∃ us₀ vs t₀ k, us = us₀ ++ vs ∧ k ≤ vs.length ∧
      ((∃ tok, us₀ = [tok] ∧ asPrimitive tok = some t₀) ∨
        ClassTypeWith R us₀ t₀) ∧
      (vs = [] ∨ Opens (· == .symbol "[") vs) ∧
      ∀ m rest, dimensions (m + k) t₀ (vs ++ rest) = dimensions m t rest := by
  induction h with
  | @primitive tok p hp =>
      exact ⟨[tok], [], p, 0, rfl, Nat.le_refl 0, .inl ⟨tok, rfl, hp⟩, .inl rfl,
        fun _ _ => rfl⟩
  | @classType us t ht =>
      exact ⟨us, [], t, 0, (List.append_nil us).symm, Nat.le_refl 0,
        .inr ht, .inl rfl, fun _ _ => rfl⟩
  | @array us t before inner _ ih =>
      obtain ⟨us₀, vs, t₀, k, rfl, hk, hbase, hvs, hsteps⟩ := ih
      refine ⟨us₀, vs ++ [⟨before, .symbol "["⟩, ⟨inner, .symbol "]"⟩], t₀,
        k + 1, by simp, ?_, hbase, .inr ?_, ?_⟩
      · simp only [List.length_append, List.length_cons]
        omega
      · rcases hvs with rfl | hvs
        · exact .cons rfl
        · exact hvs.append
      · intro m rest
        rw [show m + (k + 1) = m + 1 + k by omega, List.append_assoc, hsteps,
          List.cons_append, List.cons_append, List.nil_append, dimensions,
          bind_ok (symbol?_ok _ _ _)]
        show (symbol "]" >>= _) _ = _
        rw [bind_ok (symbol_ok _ _ _)]

/-- A type is read as spelled, unless what follows could go on with it. -/
theorem typeTreeWith_complete {us : List Token} {t : TypeTree}
    (hlt : us.length ≤ n) (h : TypeWith R us t) (rest : List Token)
    (hrest : Stops Word.extendsType rest) :
    typeTreeWith argument (us ++ rest) = .ok (t, rest) := by
  obtain ⟨us₀, vs, t₀, k, rfl, hk, hbase, hvs, hsteps⟩ := dimensions_steps h
  have hclass : Stops Word.extendsClassType (vs ++ rest) := by
    rcases hvs with rfl | hvs
    · exact hrest.imp fun w hw => by simp_all [Word.extendsType]
    · exact hvs.stops rest fun w hw => by rw [eq_of_beq hw]; rfl
  have hno : Stops (· == .symbol "[") rest := hrest.imp fun w hw => by
    simp_all [Word.extendsType]
  have hdims : bounded (fun n => dimensions n t₀) (vs ++ rest) =
      .ok (t, rest) := by
    show dimensions ((vs ++ rest).length + 1) t₀ _ = _
    rw [List.length_append,
      show vs.length + rest.length + 1 =
        vs.length - k + rest.length + 1 + k by omega, hsteps,
      dimensions, bind_ok (symbol?_none hno)]
    rfl
  rw [List.length_append] at hlt
  rw [typeTreeWith, List.append_assoc]
  rcases hbase with ⟨tok, rfl, htok⟩ | hbase
  · rw [List.cons_append, List.nil_append, bind_ok (take?_ok htok _)]
    exact hdims
  · have hnone : Stops (fun w => !w.isName) (us₀ ++ (vs ++ rest)) := by
      obtain ⟨s, rest', rfl⟩ := opens_classType hbase
      exact Stops.cons.2 rfl
    rw [bind_ok (take?_none asPrimitive_not_isName hnone)]
    show (classTypeWith argument >>= _) _ = _
    rw [bind_ok (classTypeWith_complete ha hfirst (by omega) hbase _ hclass)]
    exact hdims

end

/-- By induction on the depth: the fuel of nested arguments is what is left of
the tokens. -/
theorem typeTreeOfDepth_complete (m n : Nat) :
    CompleteBelow m (typeTreeOfDepth m) (SpellsTypeAt n) Word.extendsType := by
  induction m generalizing n with
  | zero => intro us t hlt; exact absurd hlt (Nat.not_lt_zero _)
  | succ m ih =>
      intro us t hlt h rest hrest
      cases n with
      | zero => exact h.elim
      | succ n =>
          exact typeTreeWith_complete (ih n) (fun _ _ h => opens_type ⟨n, h⟩)
            (Nat.le_of_lt_succ hlt)
            h rest hrest

/-- A type is read as spelled, unless what follows could go on with it. -/
theorem typeTree_complete : Complete typeTree SpellsType Word.extendsType := by
  rintro us t ⟨n, h⟩ rest hrest
  exact typeTreeOfDepth_complete _ n (by rw [List.length_append]; omega)
    h rest hrest

theorem classType_complete :
    Complete classType SpellsClassType Word.extendsClassType :=
  fun _ _ h rest hrest =>
    classTypeWith_complete (typeTree_complete.below _) (fun _ _ => opens_type)
    (Nat.le_refl _) h rest hrest

/-- The type of a catch parameter goes on with the word. -/
def extendsCatchType (w : Word) : Bool :=
  w.extendsClassType || w == .symbol "|"

/-- Alternatives are read as spelled, unless another bar follows. -/
theorem catchType_complete :
    Complete catchType SpellsCatchType extendsCatchType := by
  intro us t h rest hrest
  have hclass : Stops Word.extendsClassType rest := hrest.imp fun w hw => by
    simp_all [extendsCatchType]
  have hno : Stops (· == .symbol "|") rest := hrest.imp fun w hw => by
    simp_all [extendsCatchType]
  cases h with
  | single h =>
      rw [catchType,
        bind_ok (bounded_padded_complete (classType_complete.below _) rfl
        (Nat.lt_succ_self _) (.last h) rest hclass hno)]
      rfl
  | union h =>
      rw [catchType,
        bind_ok (bounded_padded_complete (classType_complete.below _) rfl
        (Nat.lt_succ_self _) h rest hclass hno)]
      rfl

-- =========================================================== expressions

/-- The operators in front of an operand. -/
def isUnaryOp (w : Word) : Bool :=
  w == .symbol "!" || w == .symbol "-"

/-- What is read as a unary operator looks like one. -/
theorem asUnaryOp_isUnaryOp {t : Token} {op : LeftPadded UnaryOp}
    (h : asUnaryOp t = some op) : isUnaryOp t.word = true := by
  rcases asUnaryOp_word h with h | h <;> rw [h] <;> rfl

/-- No postfix expression opens with a unary operator. -/
theorem opensPostfix_not_unary (w : Word) (h : w.opensPostfix = true) :
    isUnaryOp w = false := by
  cases w with
  | symbol s =>
      rw [Word.opensPostfix, beq_iff_eq] at h
      rw [h]
      rfl
  | _ => rfl

/-- What is read as a binary operator looks like one. -/
theorem asBinaryOp_isBinaryOp (t : Token) (op : LeftPadded BinaryOp)
    (h : asBinaryOp t = some op) : t.word.isBinaryOp = true := by
  unfold asBinaryOp at h
  split at h
  next s hs =>
    obtain ⟨o, ho, -⟩ := Option.map_eq_some_iff.1 h
    rw [hs]
    simp [Word.isBinaryOp, asBinaryOp, ho]
  next => cases h

/-- The sign of an assignment is no binary operator. -/
theorem isBinaryOp_ne_assign {w : Word} (h : w.isBinaryOp = true) :
    (w == .symbol "=") = false := by
  refine beq_eq_false_iff_ne.2 ?_
  rintro rfl
  cases h

/-- Where no unary operator stands none is seen. -/
theorem startsUnary_eq_false {ts : List Token} (h : Stops isUnaryOp ts) :
    startsUnary ts = false := by
  cases ts with
  | nil => rfl
  | cons t ts =>
      cases hop : asUnaryOp t with
      | none => simp [startsUnary, hop]
      | some op =>
          rw [Stops.cons, asUnaryOp_isUnaryOp hop] at h
          cases h

/-- A binary operator does not go on with a postfix expression. -/
theorem isBinaryOp_not_extendsPostfix {w : Word} (h : w.isBinaryOp = true) :
    w.extendsPostfix = false := by
  rw [Word.extendsPostfix, Bool.or_eq_false_iff]
  constructor <;> refine beq_eq_false_iff_ne.2 ?_ <;> rintro rfl <;> cases h

/-- Operators and operands do not go on what is in front of them. -/
theorem stops_operands_append {R : Spelling Expr} {us rest : List Token}
    {run : List Operand} (h : OperandsWith R us run)
    (hrest : Stops Word.extendsExpr rest) :
    Stops Word.extendsPostfix (us ++ rest) := by
  cases h with
  | nil => exact hrest.imp fun w hw => by simp_all [Word.extendsExpr]
  | cons hop _ _ =>
      exact Stops.cons.2 (isBinaryOp_not_extendsPostfix
        (asBinaryOp_isBinaryOp _ _ hop))

/-- Where an expression starts with an opening parenthesis, one is read up to
the closing one. -/
theorem primaryWith_parenthesis (nested : Parser Expr) (lead : Trivia)
    (ts : List Token) : primaryWith nested (⟨lead, .symbol "("⟩ :: ts) =
      (nested >>= fun inner => symbol ")" >>= fun after =>
        pure (.parens lead ⟨inner, after⟩ none) : Parser Expr) ts := rfl

/-- At its keyword an instance creation is read. -/
theorem primaryWith_new (nested : Parser Expr) (lead : Trivia)
    (ts : List Token) : primaryWith nested (⟨lead, .keyword "new"⟩ :: ts) =
      (classType >>= fun base => argumentsWith nested >>= fun args =>
        pure (.new lead base args none none) : Parser Expr) ts := rfl

/-- A name is a call where a parenthesis follows, else a word. -/
theorem primaryWith_name (nested : Parser Expr) (i : Ident) (ts : List Token) :
    primaryWith nested (⟨i.lead, .name i.name⟩ :: ts) =
      (isNext (.symbol "(") >>= fun called =>
        if called then argumentsWith nested >>= fun args =>
          pure (.call i.lead none ⟨"", i.name⟩ args none)
        else pure (.ident i none) : Parser Expr) ts := rfl

/-- A class literal ends a chain of words. -/
theorem postfixRest_class (nested : Parser Expr) (n : Nat) (target : Expr)
    (dot lead : Trivia) (ts : List Token) :
    postfixRest nested (n + 1) target
      (⟨dot, .symbol "."⟩ :: ⟨lead, .keyword "class"⟩ :: ts) =
      postfixRest nested n
        (.access target.lead (target.withLead "") ⟨dot, ⟨lead, "class"⟩⟩ none)
          ts := rfl

/-- A selected word is a call where a parenthesis follows. -/
theorem postfixRest_name (nested : Parser Expr) (n : Nat) (target : Expr)
    (dot : Trivia) (i : Ident) (ts : List Token) :
    postfixRest nested (n + 1) target
      (⟨dot, .symbol "."⟩ :: ⟨i.lead, .name i.name⟩ :: ts) =
      (isNext (.symbol "(") >>= fun called =>
        if called then argumentsWith nested >>= fun args =>
          postfixRest nested n (.call target.lead
            (some ⟨target.withLead "", dot⟩) i args none)
        else postfixRest nested n
          (.access target.lead (target.withLead "") ⟨dot, i⟩ none)
          : Parser Expr) ts := rfl

section

variable {nested : Parser Expr} {R : Spelling Expr} {n : Nat}
  (hn : CompleteBelow n nested R Word.extendsExpr)
  (hfirst : ∀ ⦃us e⦄, R us e → Opens Word.opensExpr us)
include hn hfirst

/-- Arguments are read as spelled if there is fuel for their tokens. -/
theorem argumentsWith_complete {us : List Token} {c : Container Expr}
    (hlt : us.length ≤ n) (h : Delimited R "(" ")" us c) (rest : List Token) :
    argumentsWith nested (us ++ rest) = .ok (c, rest) :=
  delimited_complete hn hfirst rfl rfl rfl (by decide) hlt h rest

/-- An expression without operators is a start and the accesses and calls after
it. -/
theorem postfixRest_steps {us : List Token} {e : Expr} (hlt : us.length ≤ n)
    (h : PostfixWith R us e) :
    ∃ us₀ vs start k, us = us₀ ++ vs ∧ k ≤ vs.length ∧
    (vs = [] ∨ Opens (· == .symbol ".") vs) ∧
      (∀ rest, Stops (· == .symbol "(") rest →
        primaryWith nested (us₀ ++ rest) = .ok (start, rest)) ∧
      ∀ m rest, Stops (· == .symbol "(") rest →
        postfixRest nested (m + k) start (vs ++ rest) =
          postfixRest nested m e rest := by
  induction h with
  | @literal t e ht =>
      refine ⟨[t], [], e, 0, rfl, Nat.le_refl 0, .inl rfl, fun rest _ => ?_,
        fun _ _ _ => rfl⟩
      rw [primaryWith, List.cons_append, bind_ok (take?_ok ht _)]
      rfl
  | @this lead =>
      refine ⟨[⟨lead, .keyword "this"⟩], [], _, 0, rfl, Nat.le_refl 0, .inl rfl,
        fun rest _ => ?_, fun _ _ _ => rfl⟩
      rfl
  | name i =>
      refine ⟨[⟨i.lead, .name i.name⟩], [], _, 0, rfl, Nat.le_refl 0, .inl rfl,
        fun rest hrest => ?_, fun _ _ _ => rfl⟩
      rw [List.cons_append, List.nil_append, primaryWith_name,
        bind_ok (isNext_false hrest)]
      rfl
  | @parens lead us e after he =>
      refine ⟨⟨lead, .symbol "("⟩ :: (us ++ [⟨after, .symbol ")"⟩]), [], _, 0,
        by simp, Nat.le_refl 0, .inl rfl, fun rest _ => ?_, fun _ _ _ => rfl⟩
      simp only [List.length_cons, List.length_append, List.length_nil] at hlt
      rw [List.cons_append, primaryWith_parenthesis, List.append_assoc,
        List.cons_append, List.nil_append, bind_ok
          (hn (by omega) he _ (Stops.cons.2 rfl)), bind_ok (symbol_ok _ _ _)]
      rfl
  | @new lead us t vs args ht hargs =>
      refine ⟨⟨lead, .keyword "new"⟩ :: (us ++ vs), [], _, 0, by simp,
        Nat.le_refl 0, .inl rfl, fun rest _ => ?_, fun _ _ _ => rfl⟩
      simp only [List.length_cons, List.length_append] at hlt
      rw [List.cons_append, primaryWith_new, List.append_assoc,
        bind_ok (classType_complete ht _ ((opens_delimited hargs).stops rest
        fun w hw => by rw [eq_of_beq hw]; rfl)),
        bind_ok (argumentsWith_complete hn hfirst (by omega) hargs rest)]
      rfl
  | @bareCall i vs args hargs =>
      refine ⟨⟨i.lead, .name i.name⟩ :: vs, [], _, 0, by simp,
        Nat.le_refl 0, .inl rfl, fun rest _ => ?_, fun _ _ _ => rfl⟩
      simp only [List.length_cons] at hlt
      rw [List.cons_append, primaryWith_name,
        bind_ok (isNext_true (opens_delimited hargs).append), if_pos rfl,
        bind_ok (argumentsWith_complete hn hfirst (by omega) hargs rest)]
      rfl
  | @classLiteral us e dot lead _ ih =>
      simp only [List.length_append, List.length_cons] at hlt
      obtain ⟨us₀, vs, start, k, rfl, hk, hvs, hstart, hsteps⟩ := ih (by omega)
      refine ⟨us₀, vs ++ [⟨dot, .symbol "."⟩, ⟨lead, .keyword "class"⟩], start,
        k + 1, by simp, ?_, .inr ?_, hstart, fun m rest hrest => ?_⟩
      · simp only [List.length_append, List.length_cons]
        omega
      · rcases hvs with rfl | hvs
        · exact .cons rfl
        · exact hvs.append
      · rw [show m + (k + 1) = m + 1 + k by omega, List.append_assoc,
          List.cons_append, hsteps _ _ (Stops.cons.2 rfl)]
        exact postfixRest_class nested m e dot lead rest
  | @access us e dot i _ ih =>
      simp only [List.length_append, List.length_cons] at hlt
      obtain ⟨us₀, vs, start, k, rfl, hk, hvs, hstart, hsteps⟩ := ih (by omega)
      refine ⟨us₀, vs ++ [⟨dot, .symbol "."⟩, ⟨i.lead, .name i.name⟩], start,
        k + 1, by simp, ?_, .inr ?_, hstart, fun m rest hrest => ?_⟩
      · simp only [List.length_append, List.length_cons]
        omega
      · rcases hvs with rfl | hvs
        · exact .cons rfl
        · exact hvs.append
      · rw [show m + (k + 1) = m + 1 + k by omega, List.append_assoc,
          List.cons_append, hsteps _ _ (Stops.cons.2 rfl), List.cons_append,
          List.nil_append, postfixRest_name,
          bind_ok (isNext_false hrest)]
        rfl
  | @call us e dot ws args i _ hargs ih =>
      simp only [List.length_append, List.length_cons] at hlt
      obtain ⟨us₀, vs, start, k, rfl, hk, hvs, hstart, hsteps⟩ := ih (by omega)
      refine ⟨us₀, vs ++ ⟨dot, .symbol "."⟩ :: ⟨i.lead, .name i.name⟩ :: ws,
        start, k + 1, by simp, ?_, .inr ?_, hstart, fun m rest hrest => ?_⟩
      · simp only [List.length_append, List.length_cons]
        omega
      · rcases hvs with rfl | hvs
        · exact .cons rfl
        · exact hvs.append
      · rw [show m + (k + 1) = m + 1 + k by omega, List.append_assoc,
          List.cons_append, hsteps _ _ (Stops.cons.2 rfl), List.cons_append,
          postfixRest_name,
          bind_ok (isNext_true (opens_delimited hargs).append), if_pos rfl,
          bind_ok (argumentsWith_complete hn hfirst (by omega) hargs rest)]

/-- A postfix expression is read as spelled, unless what follows could go on
with it. -/
theorem postfixWith_complete {us : List Token} {e : Expr} (hlt : us.length ≤ n)
    (h : PostfixWith R us e) (rest : List Token)
    (hrest : Stops Word.extendsPostfix rest) :
    postfixWith nested (us ++ rest) = .ok (e, rest) := by
  obtain ⟨us₀, vs, start, k, rfl, hk, hvs, hstart, hsteps⟩ :=
    postfixRest_steps hn hfirst hlt h
  have hcall : Stops (· == .symbol "(") rest := hrest.imp fun w hw => by
    simp_all [Word.extendsPostfix]
  have hdot : Stops (· == .symbol ".") rest := hrest.imp fun w hw => by
    simp_all [Word.extendsPostfix]
  have hmid : Stops (· == .symbol "(") (vs ++ rest) := by
    rcases hvs with rfl | hvs
    · exact hcall
    · exact hvs.stops rest fun w hw => by rw [eq_of_beq hw]; rfl
  rw [postfixWith, List.append_assoc, bind_ok (hstart _ hmid)]
  show postfixRest nested ((vs ++ rest).length + 1) start _ = _
  rw [List.length_append,
    show vs.length + rest.length + 1 =
      vs.length - k + rest.length + 1 + k by omega,
    hsteps _ _ hcall, postfixRest, bind_ok (symbol?_none hdot)]
  rfl

/-- An operand, by as many turns as there are tokens. -/
theorem operandWith_complete {us : List Token} {e : Expr} (hlt : us.length ≤ n)
    (h : OperandWith R us e) {turns : Nat} (hturns : us.length < turns)
    (rest : List Token) (hrest : Stops Word.extendsPostfix rest) :
    operandWith nested turns (us ++ rest) = .ok (e, rest) := by
  induction h generalizing turns with
  | bare h =>
      obtain ⟨turns, rfl⟩ : ∃ k, turns = k + 1 := ⟨turns - 1, by omega⟩
      have hnone := (opens_postfixWith h).stops rest opensPostfix_not_unary
      rw [operandWith,
        bind_ok (take?_none (fun _ _ => asUnaryOp_isUnaryOp) hnone)]
      exact postfixWith_complete hn hfirst hlt h rest hrest
  | unary hop _ ih =>
      rw [List.length_cons] at hlt hturns
      obtain ⟨turns, rfl⟩ : ∃ k, turns = k + 1 := ⟨turns - 1, by omega⟩
      rw [operandWith, List.cons_append, bind_ok (take?_ok hop _)]
      show (operandWith nested turns >>= _) _ = _
      rw [bind_ok (ih (by omega) (by omega))]
      rfl

/-- The tokens themselves are fuel enough for an operand. -/
theorem bounded_operandWith_complete {us : List Token} {e : Expr}
    (hlt : us.length ≤ n) (h : OperandWith R us e) (rest : List Token)
    (hrest : Stops Word.extendsPostfix rest) :
    bounded (operandWith nested) (us ++ rest) = .ok (e, rest) :=
  operandWith_complete hn hfirst hlt h (by rw [List.length_append]; omega)
    rest hrest

/-- Operators and operands, by as many turns as there are tokens. -/
theorem operandsWith_complete {us : List Token} {run : List Operand}
    (hlt : us.length ≤ n) (h : OperandsWith (OperandWith R) us run)
    {turns : Nat} (hturns : us.length < turns) (rest : List Token)
    (hrest : Stops Word.extendsExpr rest) :
    operandsWith nested turns (us ++ rest) = .ok (run, rest) := by
  induction h generalizing turns with
  | nil =>
      obtain ⟨turns, rfl⟩ : ∃ k, turns = k + 1 := ⟨turns - 1, by omega⟩
      have hnone : Stops Word.isBinaryOp rest := hrest.imp fun w hw => by
        simp_all [Word.extendsExpr]
      rw [operandsWith, List.nil_append,
        bind_ok (take?_none asBinaryOp_isBinaryOp hnone)]
      rfl
  | @cons t op us e vs run hop he hrun ih =>
      simp only [List.length_cons, List.length_append] at hlt hturns
      obtain ⟨turns, rfl⟩ : ∃ k, turns = k + 1 := ⟨turns - 1, by omega⟩
      have hmid := stops_operands_append hrun hrest
      rw [operandsWith, List.cons_append, bind_ok (take?_ok hop _)]
      show (bounded (operandWith nested) >>= _) _ = _
      rw [List.append_assoc,
        bind_ok (bounded_operandWith_complete hn hfirst (by omega) he _ hmid),
        bind_ok (ih (by omega) (by omega))]
      rfl

/-- The tokens themselves are fuel enough for operands in a row. -/
theorem bounded_operandsWith_complete {us : List Token} {run : List Operand}
    (hlt : us.length ≤ n) (h : OperandsWith (OperandWith R) us run)
    (rest : List Token) (hrest : Stops Word.extendsExpr rest) :
    bounded (operandsWith nested) (us ++ rest) = .ok (run, rest) :=
  operandsWith_complete hn hfirst hlt h (by rw [List.length_append]; omega)
    rest hrest

/-- An expression is read as spelled, unless what follows could go on with
it. -/
theorem expressionWith_complete {us : List Token} {e : Expr}
    (hlt : us.length ≤ n) (h : ExpressionWith R us e) (rest : List Token)
    (hrest : Stops Word.extendsExpr rest) :
    expressionWith nested (us ++ rest) = .ok (e, rest) := by
  cases h with
  | binary h =>
      obtain ⟨us₁, us₂, first, run, rfl, hone, hrun, rfl⟩ := exists_group_eq h
      have hmid := stops_operands_append hrun hrest
      rw [List.length_append] at hlt
      rw [expressionWith, List.append_assoc, bind_ok (ahead_ok startsUnary _)]
      cases hone with
      | @unary t op us e hop he =>
          have hstarts : startsUnary (t :: us ++ (us₂ ++ rest)) = true := by
            simp [startsUnary, hop]
          rw [hstarts, if_pos rfl,
            bind_ok (bounded_operandWith_complete hn hfirst (by omega)
              (.unary hop he) _ hmid),
            bind_ok (bounded_operandsWith_complete hn hfirst (by omega)
              hrun rest hrest)]
          rfl
      | bare hone =>
          have hno : Stops (· == .symbol "=") (us₂ ++ rest) := by
            cases hrun with
            | nil => exact hrest.imp fun w hw => by simp_all [Word.extendsExpr]
            | cons hop _ _ =>
                exact Stops.cons.2 (isBinaryOp_ne_assign
                  (asBinaryOp_isBinaryOp _ _ hop))
          rw [startsUnary_eq_false
            ((opens_postfixWith hone).stops _ opensPostfix_not_unary),
            if_neg Bool.false_ne_true,
            bind_ok (postfixWith_complete hn hfirst (by omega) hone _ hmid),
            bind_ok (symbol?_none hno)]
          show (bounded (operandsWith nested) >>= _) _ = _
          rw [bind_ok (bounded_operandsWith_complete hn hfirst (by omega)
            hrun rest hrest)]
          rfl
  | @assign us e before vs value he hvalue =>
      simp only [List.length_append, List.length_cons] at hlt
      rw [expressionWith, List.append_assoc, bind_ok (ahead_ok startsUnary _),
        startsUnary_eq_false ((opens_postfixWith he).stops _
          opensPostfix_not_unary),
        if_neg Bool.false_ne_true, List.cons_append,
        bind_ok (postfixWith_complete hn hfirst (by omega) he _
          (Stops.cons.2 rfl)),
        bind_ok (symbol?_ok _ _ _)]
      show (nested >>= _) _ = _
      rw [bind_ok (hn (by omega) hvalue rest hrest)]
      rfl

end

/-- By induction on the depth: the fuel of a nested expression is what is left
of the tokens. -/
theorem expressionOfDepth_complete (m n : Nat) :
    CompleteBelow m (expressionOfDepth m) (SpellsExprAt n)
      Word.extendsExpr := by
  induction m generalizing n with
  | zero => intro us e hlt; exact absurd hlt (Nat.not_lt_zero _)
  | succ m ih =>
      intro us e hlt h rest hrest
      cases n with
      | zero => exact h.elim
      | succ n =>
          exact expressionWith_complete (ih n) (fun _ _ h => opens_expr ⟨n, h⟩)
            (Nat.le_of_lt_succ hlt) h rest hrest

/-- An expression is read as spelled, unless what follows could go on with
it. -/
theorem expression_complete :
    Complete expression SpellsExpr Word.extendsExpr := by
  rintro us e ⟨n, h⟩ rest hrest
  exact expressionOfDepth_complete _ n (by rw [List.length_append]; omega)
    h rest hrest

-- ========================================================== declarations

/-- At its sign an annotation is read, with arguments where a parenthesis
follows. -/
theorem modifier_annotated (lead : Trivia) (ts : List Token) :
    modifier (⟨lead, .symbol "@"⟩ :: ts) =
      (name >>= fun type => isNext (.symbol "(") >>= fun called =>
        if called then delimited expression "(" ")" >>= fun args =>
          pure (.annotated lead type (some args))
        else pure (.annotated lead type none) : Parser Modifier) ts := rfl

/-- A modifier is read as spelled, unless what follows could go on with it. -/
theorem modifier_complete :
    Complete modifier SpellsModifier Word.extendsPostfix := by
  intro us m h rest hrest
  cases h with
  | word h =>
      rw [modifier, List.cons_append, bind_ok (take?_ok h _)]
      rfl
  | @marker lead us n h =>
      have hname : Stops Word.extendsName rest := hrest.imp fun w hw => by
        simp_all [Word.extendsPostfix, Word.extendsName]
      have hno : Stops (· == .symbol "(") rest := hrest.imp fun w hw => by
        simp_all [Word.extendsPostfix]
      rw [List.cons_append, modifier_annotated,
        bind_ok (name_complete h _ hname), bind_ok (isNext_false hno)]
      rfl
  | @called lead us n vs args h hargs =>
      have hname : Stops Word.extendsName (vs ++ rest) :=
        (opens_delimited hargs).stops rest fun w hw => by rw [eq_of_beq hw]; rfl
      rw [List.cons_append, modifier_annotated, List.append_assoc,
        bind_ok (name_complete h _ hname),
        bind_ok (isNext_true (opens_delimited hargs).append),
        if_pos rfl, bind_ok (delimited_complete (expression_complete.below _)
          (fun _ _ => opens_expr) rfl rfl rfl (by decide)
            (Nat.le_refl _) hargs rest)]
      rfl

/-- Whether a modifier starts is told by the first word. -/
theorem startsModifier_cons (t : Token) (ts : List Token) :
    startsModifier (t :: ts) = t.word.opensModifier := by
  obtain ⟨lead, w⟩ := t
  cases w with
  | keyword s =>
      by_cases h : s ∈ Token.modifierWords <;>
        simp [startsModifier, asModifierWord, Word.opensModifier, h]
  | symbol s =>
      show (false || decide (Word.symbol s = .symbol "@")) = (s == "@")
      rw [Bool.false_or, Bool.eq_iff_iff, decide_eq_true_iff, beq_iff_eq,
        Word.symbol.injEq]
  | _ => rfl

theorem startsModifier_eq_false {ts : List Token}
    (h : Stops Word.opensModifier ts) : startsModifier ts = false := by
  cases ts with
  | nil => rfl
  | cons t ts =>
      rw [startsModifier_cons]
      exact Stops.cons.1 h

/-- No modifier goes on with a postfix expression. -/
theorem opensModifier_not_extendsPostfix (w : Word)
    (h : w.opensModifier = true) : w.extendsPostfix = false := by
  cases w with
  | symbol s =>
      rw [Word.opensModifier, beq_iff_eq] at h
      rw [h]
      rfl
  | _ => rfl

/-- Modifiers go on with the word. -/
def extendsModifiers (w : Word) : Bool :=
  w.opensModifier || w.extendsPostfix

/-- Modifiers are read as spelled, unless another one follows. -/
theorem modifiers_complete :
    Complete modifiers (Many SpellsModifier) extendsModifiers := by
  intro us ms h rest hrest
  have hend : Stops Word.extendsPostfix rest := hrest.imp fun w hw => by
    simp_all [extendsModifiers]
  have hno : Stops Word.opensModifier rest := hrest.imp fun w hw => by
    simp_all [extendsModifiers]
  refine manyWhile_complete (modifier_complete.below _) opens_modifier
    opensModifier_not_extendsPostfix (fun us hus => ?_) (Nat.lt_succ_self _) h
    (by rw [List.length_append]; omega) rest hend (startsModifier_eq_false hno)
  obtain ⟨t, us, rfl, ht⟩ := hus
  rw [startsModifier_cons, ht]

/-- What a type may start with goes on no modifiers. -/
theorem opensType_not_extendsModifiers (w : Word) (h : w.opensType = true) :
    extendsModifiers w = false := by
  have hdisjoint : ∀ s ∈ Token.primitiveWords,
      s ∉ Token.modifierWords := by decide
  cases w with
  | keyword s =>
      have hno := hdisjoint s (List.contains_iff_mem.1 h)
      simp [extendsModifiers, Word.opensModifier, Word.extendsPostfix, hno]
  | name s => rfl
  | _ => cases h

/-- A declarator is read as spelled, unless what follows could go on with its
value. -/
theorem declarator_complete :
    Complete declarator SpellsDeclarator Word.extendsExpr := by
  intro us v h rest hrest
  cases h with
  | bare i =>
      have hno : Stops (· == .symbol "=") rest := hrest.imp fun w hw => by
        simp_all [Word.extendsExpr]
      rw [declarator, List.cons_append, bind_ok (ident_ok i _)]
      show (symbol? "=" >>= _) _ = _
      rw [List.nil_append, bind_ok (symbol?_none hno)]
      rfl
  | @initialized i before us e h =>
      rw [declarator, List.cons_append, bind_ok (ident_ok i _)]
      show (symbol? "=" >>= _) _ = _
      rw [List.cons_append, bind_ok (symbol?_ok _ _ _)]
      show (expression >>= _) _ = _
      rw [bind_ok (expression_complete h rest hrest)]
      rfl

/-- Declarators are read as spelled, unless another one follows. -/
theorem declarators_complete {us : List Token}
    {ds : List (RightPadded Variable)} (h : Padded SpellsDeclarator "," us ds)
    (rest : List Token) (hrest : Stops Word.extendsExpr rest)
    (hno : Stops (· == .symbol ",") rest) :
    bounded (padded declarator ",") (us ++ rest) = .ok (ds, rest) :=
  bounded_padded_complete (declarator_complete.below _) rfl (Nat.lt_succ_self _)
    h rest hrest hno

/-- Variables that are declared start with a name. -/
theorem opens_declarators {us : List Token} {ds : List (RightPadded Variable)}
    (h : Padded SpellsDeclarator "," us ds) : Opens Word.isName us :=
  opens_padded (fun us v hv => by
    obtain ⟨lead, s, rest, rfl⟩ := opens_declarator hv
    exact .cons rfl) h

/-- A name does not go on with a type. -/
theorem isName_not_extendsType (w : Word) (h : w.isName = true) :
    w.extendsType = false := by
  cases w with
  | name s => rfl
  | _ => cases h

/-- A declaration goes on with the word. -/
def extendsDeclaration (w : Word) : Bool :=
  w.extendsExpr || w == .symbol ","

/-- A declaration is read as spelled, unless what follows could go on with
it. -/
theorem declaration_complete :
    Complete declaration SpellsDeclaration extendsDeclaration := by
  intro xs d h rest hrest
  obtain ⟨hms, ht, hds, hled⟩ := h
  rw [declaration, bind_ok (takeLead_ok hled rest), List.append_assoc,
    List.append_assoc,
    bind_ok (modifiers_complete hms _
      ((opens_type ht).stops _ opensType_not_extendsModifiers)),
    bind_ok (typeTree_complete ht _
      ((opens_declarators hds).stops _ isName_not_extendsType)),
    bind_ok (declarators_complete hds rest
      (hrest.imp fun w hw => by simp_all [extendsDeclaration])
      (hrest.imp fun w hw => by simp_all [extendsDeclaration]))]
  rfl

/-- A parameter is read as spelled, unless what follows could go on with its
type. -/
theorem parameter_complete {type : Parser TypeTree} {R : Spelling TypeTree}
    {P : Word → Bool} (ht : Complete type R P)
    (hfirst : ∀ ⦃us t⦄, R us t → Opens Word.opensType us)
    (hP : ∀ s, P (.name s) = false) {us : List Token} {d : Variables}
    (h : ParameterWith R us d) (rest : List Token) :
    parameter type (us ++ rest) = .ok (d, rest) := by
  obtain ⟨i, hms, hR, hled⟩ := h
  rw [parameter, bind_ok (takeLead_ok hled rest), List.append_assoc,
    List.append_assoc,
    bind_ok (modifiers_complete hms _
      ((hfirst hR).stops _ opensType_not_extendsModifiers)),
    List.cons_append, List.nil_append, bind_ok (ht hR _ (Stops.cons.2 (hP _))),
    bind_ok (ident_ok i _)]
  rfl

end Parser

end JavaRefit
