/-
The words that trees start with.

One word decides how to read on, because what may stand in a place starts
with different words. Here are the words that each kind of tree starts
with, and the kinds that no word starts both of.

Chain: after `Rules`; both directions of reading use it.
-/
import JavaRefit.Proofs.Grammar.Rules
import JavaRefit.Proofs.Reading.Expr

namespace JavaRefit

open Spelling

-- =============================================================== classes

namespace Word

/-- The word is a name. -/
def isName : Word → Bool
  | name _ => true
  | _ => false

/-- A type may start with the word. -/
def opensType : Word → Bool
  | name _ => true
  | keyword s => Token.primitiveWords.contains s
  | _ => false

/-- A modifier may start with the word. -/
def opensModifier : Word → Bool
  | keyword s => Token.modifierWords.contains s
  | symbol s => s == "@"
  | _ => false

/-- An expression without operators around it may start with the word. -/
def opensPostfix : Word → Bool
  | name _ => true
  | literal _ => true
  | keyword s => Token.literalWords.contains s || s == "this" || s == "new"
  | symbol s => s == "("

/-- An expression may start with the word. -/
def opensExpr (w : Word) : Bool :=
  w.opensPostfix || w == .symbol "!" || w == .symbol "-"

/-- A declaration may start with the word. -/
def opensDeclaration (w : Word) : Bool :=
  w.opensModifier || w.opensType

/-- A statement that is a declaration or an expression may start with the
word. -/
def opensSimple (w : Word) : Bool :=
  w.opensDeclaration || w.opensExpr

/-- A statement that starts with neither `if` nor `while` may start with the
word. -/
def opensPlain (w : Word) : Bool :=
  w.opensSimple || w == .symbol "\x7b" || w == .symbol ";" || w ==
    .keyword "try" ||
    w == .keyword "throw" || w == .keyword "return"

/-- A statement may start with the word. -/
def opensStmt (w : Word) : Bool :=
  w.opensPlain || w == .keyword "if" || w == .keyword "while"

/-- The word says what kind a class is. -/
def isClassWord (w : Word) : Bool :=
  w == .keyword "class" || w == .keyword "interface"

/-- What follows the modifiers of a member may start with the word. -/
def opensAfterModifiers (w : Word) : Bool :=
  w.isClassWord || w == .keyword "void" || w.opensType

end Word

/-- The tokens start with a word of some class. -/
def Opens (P : Word → Bool) (ts : List Token) : Prop :=
  ∃ t rest, ts = t :: rest ∧ P t.word = true

namespace Opens

variable {P Q : Word → Bool} {ts us : List Token}

/-- A token that satisfies the test opens whatever follows it. -/
theorem cons {t : Token} (h : P t.word = true) : Opens P (t :: ts) :=
  ⟨t, ts, rfl, h⟩

/-- What opens the first tokens opens them all. -/
theorem append (h : Opens P ts) : Opens P (ts ++ us) := by
  obtain ⟨t, rest, rfl, ht⟩ := h
  exact ⟨t, rest ++ us, rfl, ht⟩

/-- A wider test opens as well. -/
theorem imp (hPQ : ∀ w, P w = true → Q w = true) (h : Opens P ts) :
    Opens Q ts := by
  obtain ⟨t, rest, rfl, ht⟩ := h
  exact ⟨t, rest, rfl, hPQ _ ht⟩

/-- What opens is not empty. -/
theorem ne_nil (h : Opens P ts) : ts ≠ [] := by
  obtain ⟨t, rest, rfl, -⟩ := h
  exact List.cons_ne_nil _ _

theorem length_pos (h : Opens P ts) : 0 < ts.length :=
  List.length_pos_iff.2 h.ne_nil

/-- Trivia in front makes no difference. -/
theorem led {lead : Trivia} (hled : Led lead ts us) (h : Opens P ts) :
    Opens P us := by
  obtain ⟨t, rest, rfl, ht⟩ := h
  cases hled
  exact ⟨_, _, rfl, ht⟩

end Opens

-- ================================================================= lists

section

variable {α : Type} {R : Spelling α} {P : Word → Bool}
  (hR : ∀ ⦃us a⦄, R us a → Opens P us)
include hR

/-- Elements between separators open as the first of them does. -/
theorem opens_padded {separator : String} {us : List Token}
    {ps : List (RightPadded α)} (h : Padded R separator us ps) :
    Opens P us := by
  cases h with
  | last h => exact hR h
  | cons h _ => exact (hR h).append

/-- A list that may be empty starts like an element or is what follows it. -/
theorem opens_many_append {Q : Word → Bool} {us vs : List Token} {as : List α}
    (h : Many R us as) (hP : ∀ w, P w = true → Q w = true) (hvs : Opens Q vs) :
    Opens Q (us ++ vs) := by
  cases h with
  | nil => exact hvs
  | cons h _ => exact ((hR h).imp hP).append.append

/-- No tokens spell no elements. -/
theorem eq_nil_of_many {us : List Token} {as : List α} (h : Many R us as)
    (hus : us = []) : as = [] := by
  cases h with
  | nil => rfl
  | cons h _ => exact absurd (List.append_eq_nil_iff.1 hus).1 (hR h).ne_nil

end

/-- Elements between delimiters open with the delimiter. -/
theorem opens_delimited {α : Type} {R : Spelling α} {opening closing : String}
    {us : List Token} {c : Container α} (h : Delimited R opening closing us c) :
    Opens (· == .symbol opening) us := by
  cases h <;> exact .cons (beq_self_eq_true _)

-- ================================================================= types

/-- A name opens with a word that carries its trivia. -/
theorem opens_name {us : List Token} {n : Name} (h : SpellsName us n) :
    ∃ s rest, us = ⟨n.lead, .name s⟩ :: rest := by
  induction h with
  | simple i => exact ⟨i.name, [], rfl⟩
  | dot dot i _ ih =>
      obtain ⟨s, rest, rfl⟩ := ih
      exact ⟨s, _, rfl⟩

/-- The word of a primitive type opens a type. -/
theorem asPrimitive_opensType {t : Token} {p : TypeTree}
    (h : Parser.asPrimitive t = some p) : t.word.opensType = true := by
  unfold Parser.asPrimitive at h
  split at h
  next s hs =>
    split at h
    next hmem =>
      rw [hs]
      exact hmem
    next => cases h
  next => cases h

/-- A class type opens with a word that carries its trivia. -/
theorem opens_classType {R : Spelling TypeTree} {us : List Token} {t : TypeTree}
    (h : ClassTypeWith R us t) : ∃ s rest, us = ⟨t.lead, .name s⟩ :: rest := by
  cases h with
  | named h => exact opens_name h
  | generic h _ =>
      obtain ⟨s, rest, rfl⟩ := opens_name h
      exact ⟨s, _, rfl⟩

/-- A type opens with a name or a primitive word, whatever its arguments. -/
theorem opens_typeWith {R : Spelling TypeTree} {us : List Token} {t : TypeTree}
    (h : TypeWith R us t) : Opens Word.opensType us := by
  induction h with
  | primitive h => exact .cons (asPrimitive_opensType h)
  | classType h =>
      obtain ⟨s, rest, rfl⟩ := opens_classType h
      exact .cons rfl
  | array _ ih => exact ih.append

/-- A type opens with a name or a primitive word. -/
theorem opens_type {us : List Token} {t : TypeTree} (h : SpellsType us t) :
    Opens Word.opensType us := by
  obtain ⟨n, h⟩ := h
  cases n with
  | zero => exact h.elim
  | succ n => exact opens_typeWith h

/-- The type of a catch parameter opens as a type does. -/
theorem opens_catchType {us : List Token} {t : TypeTree}
    (h : SpellsCatchType us t) : Opens Word.opensType us := by
  have hclass : ∀ ⦃us t⦄, SpellsClassType us t → Opens Word.opensType us := by
    intro us t h
    obtain ⟨s, rest, rfl⟩ := opens_classType h
    exact .cons rfl
  cases h with
  | single h => exact hclass h
  | union h => exact opens_padded hclass h

-- =========================================================== expressions

/-- A literal opens a postfix expression. -/
theorem asLiteral_opensPostfix {t : Token} {e : Expr}
    (h : Parser.asLiteral t = some e) : t.word.opensPostfix = true := by
  unfold Parser.asLiteral at h
  split at h
  next s hs => rw [hs]; rfl
  next s hs =>
    split at h
    next hmem =>
      rw [hs]
      show (Token.literalWords.contains s || s == "this" || s == "new") = true
      rw [hmem, Bool.true_or, Bool.true_or]
    next => cases h
  next => cases h

/-- The unary operators are the two signs. -/
theorem asUnaryOp_word {t : Token} {op : LeftPadded UnaryOp}
    (h : Parser.asUnaryOp t = some op) :
    t.word = .symbol "!" ∨ t.word = .symbol "-" := by
  unfold Parser.asUnaryOp at h
  split at h
  next s hs =>
    obtain ⟨o, ho, -⟩ := Option.map_eq_some_iff.1 h
    rw [hs]
    unfold UnaryOp.ofText? at ho
    split at ho
    next h₁ => exact .inl (by rw [h₁])
    next =>
      split at ho
      next h₂ => exact .inr (by rw [h₂])
      next => cases ho
  next => cases h

section

variable {R : Spelling Expr} {us : List Token} {e : Expr}

/-- A postfix expression opens with a literal, a name, a parenthesis or a
keyword of its own. -/
theorem opens_postfixWith (h : PostfixWith R us e) :
    Opens Word.opensPostfix us := by
  induction h with
  | literal h => exact .cons (asLiteral_opensPostfix h)
  | this | name | parens | new | bareCall => exact .cons rfl
  | classLiteral _ ih | access _ _ ih | call _ _ _ ih => exact ih.append

/-- What opens a postfix expression opens an expression. -/
theorem opensExpr_of_opensPostfix (w : Word) (h : w.opensPostfix = true) :
    w.opensExpr = true := by
  simp [Word.opensExpr, h]

/-- An operand opens as an expression may. -/
theorem opens_operand (h : OperandWith R us e) : Opens Word.opensExpr us := by
  cases h with
  | bare h => exact (opens_postfixWith h).imp opensExpr_of_opensPostfix
  | unary hop _ =>
      refine .cons ?_
      rcases asUnaryOp_word hop with h | h <;> rw [h] <;> rfl

/-- A binary expression opens with its leftmost operand. -/
theorem opens_binary {level : Nat} (h : BinaryWith R level us e) :
    Opens Word.opensExpr us := by
  induction h with
  | operand h => exact opens_operand h
  | binary _ _ _ _ ih _ => exact ih.append

theorem opens_expressionWith (h : ExpressionWith R us e) :
    Opens Word.opensExpr us := by
  cases h with
  | binary h => exact opens_binary h
  | assign h _ =>
      exact ((opens_postfixWith h).imp opensExpr_of_opensPostfix).append

end

/-- An expression opens with an operator or a postfix expression. -/
theorem opens_expr {us : List Token} {e : Expr} (h : SpellsExpr us e) :
    Opens Word.opensExpr us := by
  obtain ⟨n, h⟩ := h
  cases n with
  | zero => exact h.elim
  | succ n => exact opens_expressionWith h

-- ========================================================== declarations

/-- The word of a modifier opens one. -/
theorem asModifierWord_opensModifier {t : Token} {m : Modifier}
    (h : Parser.asModifierWord t = some m) : t.word.opensModifier = true := by
  unfold Parser.asModifierWord at h
  split at h
  next s hs =>
    split at h
    next hmem =>
      rw [hs]
      exact hmem
    next => cases h
  next => cases h

/-- A modifier opens with its word or with the sign of an annotation. -/
theorem opens_modifier ⦃us : List Token⦄ ⦃m : Modifier⦄
    (h : SpellsModifier us m) : Opens Word.opensModifier us := by
  cases h with
  | word h => exact .cons (asModifierWord_opensModifier h)
  | marker _ => exact .cons rfl
  | called _ _ => exact .cons rfl

/-- A declarator opens with the name it declares. -/
theorem opens_declarator {us : List Token} {v : Variable}
    (h : SpellsDeclarator us v) :
    ∃ lead s rest, us = ⟨lead, .name s⟩ :: rest := by
  cases h with
  | bare i => exact ⟨_, _, _, rfl⟩
  | initialized i _ => exact ⟨_, _, _, rfl⟩

/-- Modifiers and a type, as they start a declaration. -/
theorem opens_modifiers_append {us vs : List Token} {ms : List Modifier}
    {P : Word → Bool} (h : Many SpellsModifier us ms)
    (hm : ∀ w, w.opensModifier = true → P w = true) (hvs : Opens P vs) :
    Opens P (us ++ vs) :=
  opens_many_append opens_modifier h hm hvs

/-- A declaration opens with a modifier or with a type. -/
theorem opens_declaration {us : List Token} {d : Variables}
    (h : SpellsDeclaration us d) : Opens Word.opensDeclaration us := by
  obtain ⟨hms, ht, -, hled⟩ := h
  refine Opens.led hled
    (Opens.append (opens_modifiers_append hms (fun w hw => ?_) ?_))
  · simp [Word.opensDeclaration, hw]
  · exact (opens_type ht).imp fun w hw => by simp [Word.opensDeclaration, hw]

-- ============================================================ statements

/-- A block opens with its brace, which carries its trivia. -/
theorem opens_braced {α : Type} {R : Spelling (RightPadded α)} {us : List Token}
    {b : Block α} (h : Braced R us b) :
    ∃ rest, us = ⟨b.lead, .symbol "\x7b"⟩ :: rest := by
  cases h with
  | mk h => exact ⟨_, rfl⟩

/-- A statement without branches opens with a word of its own or with an
expression or a declaration. -/
theorem opens_plain {R : Spelling (RightPadded Stmt)} {us : List Token}
    {s : RightPadded Stmt} (h : PlainWith R us s) :
    Opens Word.opensPlain us := by
  cases h with
  | block h =>
      obtain ⟨rest, rfl⟩ := opens_braced h
      exact .cons rfl
  | empty | tryCatch | throwing | returningNone | returning => exact .cons rfl
  | declaration h =>
      exact ((opens_declaration h).imp fun w hw => by
        simp [Word.opensPlain, Word.opensSimple, hw]).append
  | expr h _ =>
      exact ((opens_expr h).imp fun w hw => by
        simp [Word.opensPlain, Word.opensSimple, hw]).append

/-- A head opens with the keyword of a condition or of a loop. -/
theorem opens_head ⦃us : List Token⦄ ⦃h : Head⦄ (hh : SpellsHead us h) :
    Opens (fun w => w == .keyword "if" || w == .keyword "while") us := by
  cases hh <;> exact .cons rfl

theorem opens_statementWith {R : Spelling (RightPadded Stmt)} {us : List Token}
    {s : RightPadded Stmt} (h : StatementWith R us s) :
    Opens Word.opensStmt us := by
  cases h with
  | mk hheads hbody _ _ =>
      refine Opens.append (opens_many_append opens_head hheads
        (fun w hw => ?_) ?_)
      · simp only [Word.opensStmt, Bool.or_assoc, hw, Bool.or_true]
      · exact (opens_plain hbody).imp fun w hw => by simp [Word.opensStmt, hw]

/-- A statement opens with a head or with a statement without branches. -/
theorem opens_stmt ⦃us : List Token⦄ ⦃s : RightPadded Stmt⦄
    (h : SpellsStmt us s) : Opens Word.opensStmt us := by
  obtain ⟨n, h⟩ := h
  cases n with
  | zero => exact h.elim
  | succ n => exact opens_statementWith h

-- =============================================================== members

/-- The word of a class opens one. -/
theorem asClassKind_isClassWord {t : Token} {k : LeftPadded ClassKind}
    (h : Parser.asClassKind t = some k) : t.word.isClassWord = true := by
  unfold Parser.asClassKind at h
  split at h
  next s hs =>
    obtain ⟨kind, hk, -⟩ := Option.map_eq_some_iff.1 h
    rw [hs]
    unfold ClassKind.ofText? at hk
    split at hk
    next h₁ => rw [h₁]; rfl
    next =>
      split at hk
      next h₂ => rw [h₂]; rfl
      next => cases hk
  next => cases h

/-- Behind its modifiers a member opens with a type, a keyword or a brace. -/
theorem opens_memberAfter {R : Spelling (RightPadded Member)} {lead : Trivia}
    {ms : List Modifier} {us : List Token} {m : RightPadded Member}
    (h : MemberAfter R lead ms us m) :
    Opens Word.opensAfterModifiers us := by
  have htype : ∀ w : Word, w.opensType = true → w.opensAfterModifiers = true :=
    fun w hw => by
    simp [Word.opensAfterModifiers, hw]
  cases h with
  | nested hk _ =>
      exact .cons (by
        simp [Word.opensAfterModifiers, asClassKind_isClassWord hk])
  | void | constructor => exact .cons rfl
  | method _ ht _ => exact ((opens_type ht).imp htype).append
  | field ht _ => exact ((opens_type ht).imp htype).append.append

/-- A member starts with modifiers or what may follow them. -/
theorem opens_memberWith {R : Spelling (RightPadded Member)} {us : List Token}
    {m : RightPadded Member} (h : MemberWith R us m) :
    Opens (fun w => w.opensModifier || w.opensAfterModifiers) us := by
  obtain ⟨hms, hm, hled⟩ := h
  refine Opens.led hled (opens_modifiers_append hms
    (fun w hw => by simp [hw]) ?_)
  exact (opens_memberAfter hm).imp fun w hw => by simp [hw]

/-- A class opens with a modifier or its keyword. -/
theorem opens_topClass ⦃us : List Token⦄ ⦃c : JavaClass⦄
    (h : SpellsTopClass us c) :
    Opens (fun w => w.opensModifier || w.isClassWord) us := by
  obtain ⟨hms, hkind, -, hled⟩ := h
  refine Opens.led hled (opens_modifiers_append hms
    (fun w hw => by simp [hw]) (.cons ?_))
  simp [asClassKind_isClassWord hkind]

/-- An import opens with its keyword. -/
theorem opens_import ⦃us : List Token⦄ ⦃i : RightPadded Import⦄
    (h : SpellsImport us i) : Opens (fun w => w == .keyword "import") us := by
  cases h
  exact .cons rfl

end JavaRefit
