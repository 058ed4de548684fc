/-
Which words stand next to one another.

Three pairs of words would be read as something else if no trivia stood
between them, and which they are depends on what comes after: a number
and a point in front of digits, two symbols that open a comment, and a
number and the letter that may end it. None of them is a pair of
neighbours in anything that is spelled (`Meets`). Along the way: no
semicolon stands inside a declaration or an expression.

Chain: after `First`; the cutting of texts into tokens rests on it, and
the reading of a statement that is an expression.
-/
import Mathlib.Data.List.Chain
import JavaRefit.Proofs.Grammar.First

namespace JavaRefit

open Spelling

-- ================================================================= pairs

namespace Word

/-- Whether a word is a literal. -/
def isLiteral : Word → Bool
  | literal _ => true
  | _ => false

/-- Whether a word is a symbol. -/
def isSymbol : Word → Bool
  | symbol _ => true
  | _ => false

/-- Any word may stand after it. -/
def isClosed : Word → Bool
  | name _ => true
  | keyword _ => true
  | literal _ => false
  | symbol s => s != "." && s != "/"

/-- It may stand after any word. -/
def isMark : Word → Bool
  | symbol s => s != "*"
  | _ => false

/-- An expression may end with the word. -/
def endsExpr : Word → Bool
  | symbol s => s == ")"
  | _ => true

/-- The word may stand in a declaration or an expression. -/
def isInline (w : Word) : Bool :=
  w != .symbol ";"

end Word

/-- The second token may stand after the first. -/
structure Meets (t u : Token) : Prop where
  dot : t.word = .symbol "." → u.word.isLiteral = false
  slash : t.word = .symbol "/" → u.word ≠ .symbol "*"
  literal : t.word.isLiteral = true → u.word.isSymbol = true

/-- A closed word may stand before any token. -/
theorem meets_of_isClosed {t : Token} (h : t.word.isClosed = true) (u : Token) :
    Meets t u := by
  refine ⟨fun hd => ?_, fun hs => ?_, fun hl => ?_⟩
  · rw [hd] at h
    cases h
  · rw [hs] at h
    cases h
  · obtain ⟨lead, w⟩ := t
    cases w with
    | literal s => cases h
    | _ => cases hl

/-- A mark may stand behind any token. -/
theorem meets_of_isMark (t : Token) {u : Token} (h : u.word.isMark = true) :
    Meets t u := by
  obtain ⟨lead, w⟩ := u
  cases w with
  | symbol s =>
      refine ⟨fun _ => rfl, fun _ hs => ?_, fun _ => rfl⟩
      cases hs
      cases h
  | _ => cases h

/-- No literal stands after a point. -/
theorem meets_dot (lead : Trivia) {u : Token} (h : u.word.isLiteral = false) :
    Meets ⟨lead, .symbol "."⟩ u :=
  ⟨fun _ => h, fun hs => absurd (Word.symbol.inj hs) (by decide),
    fun hl => nomatch hl⟩

/-- An operator may stand after an operand. -/
theorem meets_of_endsExpr {t u : Token} (ht : t.word.endsExpr = true)
    (hu : u.word.isSymbol = true) : Meets t u := by
  refine ⟨fun hd => ?_, fun hs => ?_, fun _ => hu⟩
  · rw [hd] at ht
    cases ht
  · rw [hs] at ht
    cases ht

/-- The tokens end with a word of some class. -/
def Ends (P : Word → Bool) (ts : List Token) : Prop :=
  ∃ init t, ts = init ++ [t] ∧ P t.word = true

namespace Ends

variable {P Q : Word → Bool} {ts us : List Token}

theorem singleton {t : Token} (h : P t.word = true) : Ends P [t] :=
  ⟨[], t, rfl, h⟩

/-- A mark may be added to a tidy run. -/
theorem concat {t : Token} (h : P t.word = true) : Ends P (ts ++ [t]) :=
  ⟨ts, t, rfl, h⟩

/-- Two tidy runs that join are one. -/
theorem append (h : Ends P us) : Ends P (ts ++ us) := by
  obtain ⟨init, t, rfl, ht⟩ := h
  exact ⟨ts ++ init, t, (List.append_assoc _ _ _).symm, ht⟩

theorem cons {t : Token} (h : Ends P us) : Ends P (t :: us) :=
  show Ends P ([t] ++ us) from append h

/-- What follows is absent, or it ends what it follows. -/
theorem append_of_eq_nil_or (h : Ends P ts) (hu : us = [] ∨ Ends P us) :
    Ends P (ts ++ us) := by
  rcases hu with rfl | hu
  · rwa [List.append_nil]
  · exact hu.append

theorem imp (hPQ : ∀ w, P w = true → Q w = true) (h : Ends P ts) :
    Ends Q ts := by
  obtain ⟨init, t, rfl, ht⟩ := h
  exact ⟨init, t, rfl, hPQ _ ht⟩

/-- Trivia in front makes no difference. -/
theorem led {lead : Trivia} (hled : Led lead ts us) (h : Ends P ts) :
    Ends P us := by
  cases hled with
  | @mk w ts =>
      cases ts with
      | nil =>
          obtain ⟨init, t, hts, ht⟩ := h
          obtain ⟨rfl, hts⟩ :=
            List.append_eq_singleton_iff.1 hts.symm |>.resolve_right (by simp)
          cases hts
          exact .singleton ht
      | cons t ts =>
          obtain ⟨init, u, hts, hu⟩ := h
          cases init with
          | nil => cases hts
          | cons v init =>
              rw [List.cons_append, List.cons.injEq] at hts
              exact ⟨⟨lead, w⟩ :: init, u, by rw [List.cons_append, hts.2], hu⟩

end Ends

/-- The last of the first tokens may stand in front of the first of the
second. -/
def Joins (us vs : List Token) : Prop :=
  ∀ t ∈ us.getLast?, ∀ u ∈ vs.head?, Meets t u

/-- What ends with a closed word joins anything. -/
theorem joins_of_isClosed {us : List Token} (h : Ends Word.isClosed us)
    (vs : List Token) : Joins us vs := by
  obtain ⟨init, t, rfl, ht⟩ := h
  intro t' ht' u _
  rw [List.getLast?_concat, Option.mem_some_iff] at ht'
  subst ht'
  exact meets_of_isClosed ht u

/-- What is absent or ends with a closed word joins anything. -/
theorem joins_of_eq_nil_or {us : List Token}
    (h : us = [] ∨ Ends Word.isClosed us) (vs : List Token) : Joins us vs := by
  rcases h with rfl | h
  · intro t ht
    cases ht
  · exact joins_of_isClosed h vs

/-- A dot joins what does not open with a literal. -/
theorem joins_dot (lead : Trivia) {u : Token} {vs : List Token}
    (h : u.word.isLiteral = false) : Joins [⟨lead, .symbol "."⟩] (u :: vs) := by
  intro t ht v hv
  cases ht
  cases hv
  exact meets_dot lead h

/-- What opens with a mark joins anything before it. -/
theorem joins_of_isMark (us : List Token) {vs : List Token}
    (h : Opens Word.isMark vs) : Joins us vs := by
  obtain ⟨u, vs, rfl, hu⟩ := h
  intro t _ u' hu'
  rw [List.head?_cons, Option.mem_some_iff] at hu'
  subst hu'
  exact meets_of_isMark t hu

/-- The tokens are of words of some class, and each may stand after the one
before. -/
structure Tidy (P : Word → Bool) (ts : List Token) : Prop where
  all : ∀ t ∈ ts, P t.word = true
  chain : ts.IsChain Meets

namespace Tidy

variable {P Q : Word → Bool} {ts us : List Token}

theorem nil : Tidy P [] :=
  ⟨List.forall_mem_nil _, .nil⟩

theorem singleton {t : Token} (h : P t.word = true) : Tidy P [t] :=
  ⟨List.forall_mem_singleton.2 h, .singleton t⟩

theorem append (ht : Tidy P ts) (hu : Tidy P us) (h : Joins ts us) :
    Tidy P (ts ++ us) :=
  ⟨List.forall_mem_append.2 ⟨ht.all, hu.all⟩,
    List.isChain_append.2 ⟨ht.chain, hu.chain, h⟩⟩

theorem cons {t : Token} (ht : P t.word = true) (hu : Tidy P us)
    (h : Joins [t] us) : Tidy P (t :: us) :=
  append (singleton ht) hu h

theorem imp (hPQ : ∀ w, P w = true → Q w = true) (h : Tidy P ts) : Tidy Q ts :=
  ⟨fun t ht => hPQ _ (h.all t ht), h.chain⟩

/-- A closed word in front. -/
theorem cons_of_isClosed {t : Token} (ht : P t.word = true)
    (hc : t.word.isClosed = true) (hu : Tidy P us) : Tidy P (t :: us) :=
  cons ht hu (joins_of_isClosed (.singleton hc) us)

/-- A symbol after anything, with what comes after it. -/
theorem append_cons {t : Token} (ht : Tidy P ts) (hP : P t.word = true)
    (hm : t.word.isMark = true) (hc : t.word.isClosed = true) (hu : Tidy P us) :
    Tidy P (ts ++ t :: us) :=
  append ht (cons_of_isClosed hP hc hu) (joins_of_isMark ts (.cons hm))

theorem concat {t : Token} (ht : Tidy P ts) (hP : P t.word = true)
    (hm : t.word.isMark = true) : Tidy P (ts ++ [t]) :=
  append ht (singleton hP) (joins_of_isMark ts (.cons hm))

/-- Trivia in front makes no difference. -/
theorem led {lead : Trivia} (hled : Led lead ts us) (h : Tidy P ts) :
    Tidy P us := by
  cases hled with
  | @mk w ts =>
      refine ⟨List.forall_mem_cons.2 (List.forall_mem_cons.1 h.all), ?_⟩
      have hchain := List.isChain_cons.1 h.chain
      exact List.isChain_cons.2 ⟨fun u hu =>
        ⟨(hchain.1 u hu).dot, (hchain.1 u hu).slash,
        (hchain.1 u hu).literal⟩, hchain.2⟩

end Tidy

-- ================================================================= lists

section

variable {α : Type} {R : Spelling α} {P : Word → Bool}
  (hR : ∀ ⦃us a⦄, R us a → Tidy P us)
include hR

/-- Elements between separators are tidy if each is and the separator is
closed. -/
theorem tidy_padded {separator : String} (hP : P (.symbol separator) = true)
    (hm : (Word.symbol separator).isMark = true)
    (hc : (Word.symbol separator).isClosed = true) {us : List Token}
    {ps : List (RightPadded α)} (h : Padded R separator us ps) : Tidy P us := by
  induction h with
  | last h => exact hR h
  | cons h _ ih => exact (hR h).append_cons hP hm hc ih

/-- Elements between delimiters are tidy. -/
theorem tidy_delimited {opening closing : String}
    (hcomma : P (.symbol ",") = true) (hopening : P (.symbol opening) = true)
    (hclosing : P (.symbol closing) = true)
    (hc : (Word.symbol opening).isClosed = true)
    (hm : (Word.symbol closing).isMark = true) {us : List Token}
    {c : Container α} (h : Delimited R opening closing us c) : Tidy P us := by
  cases h with
  | none => exact .cons_of_isClosed hopening hc (.singleton hclosing)
  | some h =>
      exact .cons_of_isClosed hopening hc
        ((tidy_padded hR hcomma rfl rfl h).concat hclosing hm)

/-- What a keyword introduces is tidy. -/
theorem tidy_afterKeyword {word : String} (hP : ∀ w, P w = true)
    {us : List Token} {o : Option (Container α)}
    (h : AfterKeyword R word us o) : Tidy P us := by
  cases h with
  | none => exact .nil
  | some h =>
      exact .cons_of_isClosed (hP _) rfl (tidy_padded hR (hP _) rfl rfl h)

/-- Elements after one another, where each ends with a closed word. -/
theorem tidy_many (he : ∀ ⦃us a⦄, R us a → Ends Word.isClosed us)
    {us : List Token} {as : List α} (h : Many R us as) : Tidy P us := by
  induction h with
  | nil => exact .nil
  | cons h _ ih => exact (hR h).append ih (joins_of_isClosed (he h) _)

end

/-- Elements after one another end as each of them does, if there are any. -/
theorem ends_many {α : Type} {R : Spelling α} {P : Word → Bool}
    (he : ∀ ⦃us a⦄, R us a → Ends P us) {us : List Token} {as : List α}
    (h : Many R us as) :
    us = [] ∨ Ends P us := by
  induction h with
  | nil => exact .inl rfl
  | cons h _ ih =>
      refine .inr ?_
      rcases ih with rfl | ih
      · rw [List.append_nil]
        exact he h
      · exact ih.append

/-- What stands after elements that each end with a closed word. -/
theorem joins_many {α : Type} {R : Spelling α}
    (he : ∀ ⦃us a⦄, R us a → Ends Word.isClosed us) {us : List Token}
    {as : List α} (h : Many R us as) (vs : List Token) : Joins us vs :=
  joins_of_eq_nil_or (ends_many he h) vs

/-- Elements between delimiters end with the delimiter. -/
theorem ends_delimited {α : Type} {R : Spelling α} {opening closing : String}
    {P : Word → Bool} (hP : P (.symbol closing) = true) {us : List Token}
    {c : Container α} (h : Delimited R opening closing us c) : Ends P us := by
  cases h with
  | none => exact .cons (.singleton hP)
  | some _ => exact .cons (.concat hP)

-- ================================================================= types

/-- A name ends with a word. -/
theorem ends_name {us : List Token} {n : Name} (h : SpellsName us n) :
    Ends Word.isName us := by
  cases h with
  | simple i => exact .singleton rfl
  | dot dot i h => exact (Ends.singleton rfl).cons.append

theorem tidy_name {us : List Token} {n : Name} (h : SpellsName us n) :
    Tidy Word.isInline us := by
  induction h with
  | simple i => exact .singleton rfl
  | dot dot i _ ih =>
      exact ih.append (.cons rfl (.singleton rfl) (joins_dot dot rfl))
        (joins_of_isMark _ (.cons rfl))

/-- Names are closed. -/
theorem isClosed_of_isName (w : Word) (h : w.isName = true) :
    w.isClosed = true := by
  cases w with
  | name s => rfl
  | _ => cases h

/-- What opens a type is closed. -/
theorem isClosed_of_opensType (w : Word) (h : w.opensType = true) :
    w.isClosed = true := by
  cases w with
  | name s => rfl
  | keyword s => rfl
  | _ => cases h

/-- The keywords of classes are closed. -/
theorem isClosed_of_isClassWord (w : Word) (h : w.isClassWord = true) :
    w.isClosed = true := by
  rw [Word.isClassWord, Bool.or_eq_true, beq_iff_eq, beq_iff_eq] at h
  rcases h with rfl | rfl <;> rfl

/-- What opens a type may stand in an expression. -/
theorem isInline_of_opensType (w : Word) (h : w.opensType = true) :
    w.isInline = true := by
  cases w with
  | symbol s => cases h
  | _ => rfl

section

variable {R : Spelling TypeTree} {us : List Token} {t : TypeTree}

/-- A class type ends closed: with a name or a bracket. -/
theorem ends_classTypeWith (h : ClassTypeWith R us t) :
    Ends Word.isClosed us := by
  cases h with
  | named h => exact (ends_name h).imp isClosed_of_isName
  | generic _ hargs => exact (ends_delimited rfl hargs).append

/-- A type ends closed: with a word or a bracket. -/
theorem ends_typeWith (h : TypeWith R us t) : Ends Word.isClosed us := by
  induction h with
  | primitive h =>
      exact .singleton (isClosed_of_opensType _ (asPrimitive_opensType h))
  | classType h => exact ends_classTypeWith h
  | array _ _ => exact (Ends.singleton rfl).cons.append

variable (hR : ∀ ⦃us t⦄, R us t → Tidy Word.isInline us)
include hR

/-- A class type is tidy if its arguments are. -/
theorem tidy_classTypeWith (h : ClassTypeWith R us t) :
    Tidy Word.isInline us := by
  cases h with
  | named h => exact tidy_name h
  | generic h hargs =>
      exact (tidy_name h).append (tidy_delimited hR rfl rfl rfl rfl rfl hargs)
        (joins_of_isClosed ((ends_name h).imp isClosed_of_isName) _)

/-- A type is tidy if its arguments are. -/
theorem tidy_typeWith (h : TypeWith R us t) : Tidy Word.isInline us := by
  induction h with
  | primitive h =>
      exact .singleton (isInline_of_opensType _ (asPrimitive_opensType h))
  | classType h => exact tidy_classTypeWith hR h
  | array _ ih => exact ih.append_cons rfl rfl rfl (.singleton rfl)

end

theorem tidy_type ⦃us : List Token⦄ ⦃t : TypeTree⦄ (h : SpellsType us t) :
    Tidy Word.isInline us := by
  obtain ⟨n, h⟩ := h
  induction n generalizing us t with
  | zero => exact h.elim
  | succ n ih => exact tidy_typeWith (fun _ _ h => ih h) h

theorem ends_type {us : List Token} {t : TypeTree} (h : SpellsType us t) :
    Ends Word.isClosed us := by
  obtain ⟨n, h⟩ := h
  cases n with
  | zero => exact h.elim
  | succ n => exact ends_typeWith h

theorem tidy_classType ⦃us : List Token⦄ ⦃t : TypeTree⦄
    (h : SpellsClassType us t) : Tidy Word.isInline us :=
  tidy_classTypeWith tidy_type h

theorem tidy_catchType {us : List Token} {t : TypeTree}
    (h : SpellsCatchType us t) : Tidy Word.isInline us := by
  cases h with
  | single h => exact tidy_classType h
  | union h => exact tidy_padded tidy_classType rfl rfl rfl h

/-- A row ends as its last element does. -/
theorem ends_padded {α : Type} {R : Spelling α} {P : Word → Bool}
    (hR : ∀ ⦃us a⦄, R us a → Ends P us) {separator : String} {us : List Token}
    {ps : List (RightPadded α)} (h : Padded R separator us ps) : Ends P us := by
  induction h with
  | last h => exact hR h
  | cons _ _ ih => exact ih.cons.append

theorem ends_catchType {us : List Token} {t : TypeTree}
    (h : SpellsCatchType us t) : Ends Word.isClosed us := by
  cases h with
  | single h => exact ends_classTypeWith h
  | union h => exact ends_padded (fun _ _ h => ends_classTypeWith h) h

-- =========================================================== expressions

/-- What opens an expression may stand in one. -/
theorem isInline_of_opensExpr (w : Word) (h : w.opensExpr = true) :
    w.isInline = true := by
  cases w with
  | symbol s =>
      refine bne_iff_ne.2 ?_
      rintro hs
      cases hs
      cases h
  | _ => rfl

/-- A literal may end an expression. -/
theorem asLiteral_endsExpr {t : Token} {e : Expr}
    (h : Parser.asLiteral t = some e) : t.word.endsExpr = true := by
  unfold Parser.asLiteral at h
  split at h
  next s hs => rw [hs]; rfl
  next s hs => rw [hs]; rfl
  next => cases h

/-- A binary operator is a symbol and no dot. -/
theorem asBinaryOp_isSymbol {t : Token} {op : LeftPadded BinaryOp}
    (h : Parser.asBinaryOp t = some op) :
    t.word.isSymbol = true ∧ t.word.isInline = true ∧
      t.word ≠ .symbol "." := by
  unfold Parser.asBinaryOp at h
  split at h
  next s hs =>
    obtain ⟨o, ho, -⟩ := Option.map_eq_some_iff.1 h
    rw [hs]
    refine ⟨rfl, bne_iff_ne.2 ?_, ?_⟩ <;> rintro hs <;> cases hs <;> cases ho
  next => cases h

section

variable {R : Spelling Expr} {us : List Token} {e : Expr}

/-- A postfix expression ends with a word or a parenthesis. -/
theorem ends_postfixWith (h : PostfixWith R us e) : Ends Word.endsExpr us := by
  induction h with
  | literal h => exact .singleton (asLiteral_endsExpr h)
  | this | name => exact .singleton rfl
  | parens => exact .cons (.concat rfl)
  | new _ hargs => exact ((ends_delimited rfl hargs).append).cons
  | bareCall _ hargs => exact (ends_delimited rfl hargs).cons
  | classLiteral | access => exact (Ends.singleton rfl).cons.append
  | call _ _ hargs _ => exact (ends_delimited rfl hargs).cons.cons.append

/-- An operand ends as a postfix expression does. -/
theorem ends_operand (h : OperandWith R us e) : Ends Word.endsExpr us := by
  induction h with
  | bare h => exact ends_postfixWith h
  | unary _ _ ih => exact ih.cons

/-- A binary expression ends with its rightmost operand. -/
theorem ends_binary {level : Nat} (h : BinaryWith R level us e) :
    Ends Word.endsExpr us := by
  induction h with
  | operand h => exact ends_operand h
  | binary _ _ _ _ _ ih => exact ih.cons.append

variable (hR : ∀ ⦃us e⦄, R us e → Tidy Word.isInline us)
include hR

theorem tidy_arguments {c : Container Expr} (h : Delimited R "(" ")" us c) :
    Tidy Word.isInline us :=
  tidy_delimited hR rfl rfl rfl rfl rfl h

omit hR in
/-- A point, and a name or a keyword after it. -/
theorem tidy_access {dot : Trivia} {t : Token} (h : Tidy Word.isInline us)
    (hl : t.word.isLiteral = false) (hi : t.word.isInline = true)
    {vs : List Token} (hvs : Tidy Word.isInline vs)
    (hc : t.word.isClosed = true) :
    Tidy Word.isInline (us ++ ⟨dot, .symbol "."⟩ :: t :: vs) := by
  exact h.append (.cons rfl (.cons_of_isClosed hi hc hvs) (joins_dot dot hl))
    (joins_of_isMark _ (.cons rfl))

/-- A postfix expression is tidy if what it nests is: a dot never meets a
literal. -/
theorem tidy_postfixWith (h : PostfixWith R us e) : Tidy Word.isInline us := by
  induction h with
  | literal h =>
      exact .singleton (isInline_of_opensExpr _
        (opensExpr_of_opensPostfix _ (asLiteral_opensPostfix h)))
  | this | name => exact .singleton rfl
  | parens h => exact .cons_of_isClosed rfl rfl ((hR h).concat rfl rfl)
  | new ht hargs =>
      exact .cons_of_isClosed rfl rfl
        ((tidy_classType ht).append (tidy_arguments hR hargs)
        (joins_of_isClosed (ends_classTypeWith ht) _))
  | bareCall i hargs =>
      exact .cons_of_isClosed rfl rfl (tidy_arguments hR hargs)
  | classLiteral _ ih => exact tidy_access ih rfl rfl .nil rfl
  | access i _ ih => exact tidy_access ih rfl rfl .nil rfl
  | call i _ hargs ih =>
      exact tidy_access ih rfl rfl (tidy_arguments hR hargs) rfl

/-- An operand is tidy if what it nests is. -/
theorem tidy_operand (h : OperandWith R us e) : Tidy Word.isInline us := by
  induction h with
  | bare h => exact tidy_postfixWith hR h
  | unary hop _ ih =>
      rcases asUnaryOp_word hop with h | h <;>
        exact .cons_of_isClosed (by rw [h]; rfl) (by rw [h]; rfl) ih

omit hR in
/-- An operator, and an operand after it. -/
theorem tidy_operator {t : Token} {op : LeftPadded BinaryOp}
    (hop : Parser.asBinaryOp t = some op) {level : Nat} {vs : List Token}
    {right : Expr} (hright : BinaryWith R level vs right)
    (hvs : Tidy Word.isInline vs) : Tidy Word.isInline (t :: vs) := by
  obtain ⟨hs, hi, hd⟩ := asBinaryOp_isSymbol hop
  refine .cons hi hvs fun u hu v hv => ?_
  cases hu
  obtain ⟨v', vs, rfl, hv'⟩ := opens_binary hright
  cases hv
  refine ⟨fun h => absurd h hd, fun _ h => ?_, fun h => ?_⟩
  · rw [h] at hv'
    cases hv'
  · obtain ⟨lead, w⟩ := t
    cases w with
    | symbol s => cases h
    | _ => cases hs

/-- A binary expression is tidy if its operands are. -/
theorem tidy_binary {level : Nat} (h : BinaryWith R level us e) :
    Tidy Word.isInline us := by
  induction h with
  | operand h => exact tidy_operand hR h
  | binary hop _ hleft hright ihl ihr =>
      refine ihl.append (tidy_operator hop hright ihr) fun u hu v hv => ?_
      obtain ⟨init, u', rfl, hu'⟩ := ends_binary hleft
      rw [List.getLast?_concat] at hu
      cases hu
      cases hv
      exact meets_of_endsExpr hu' (asBinaryOp_isSymbol hop).1

/-- An expression is tidy if what it nests is. -/
theorem tidy_expressionWith (h : ExpressionWith R us e) :
    Tidy Word.isInline us := by
  cases h with
  | binary h => exact tidy_binary hR h
  | assign h hv => exact (tidy_postfixWith hR h).append_cons rfl rfl rfl (hR hv)

end

theorem tidy_expr ⦃us : List Token⦄ ⦃e : Expr⦄ (h : SpellsExpr us e) :
    Tidy Word.isInline us := by
  obtain ⟨n, h⟩ := h
  induction n generalizing us e with
  | zero => exact h.elim
  | succ n ih => exact tidy_expressionWith (fun _ _ h => ih h) h

-- ========================================================== declarations

theorem ends_modifier ⦃us : List Token⦄ ⦃m : Modifier⦄
    (h : SpellsModifier us m) : Ends Word.isClosed us := by
  cases h with
  | word h =>
      refine .singleton ?_
      unfold Parser.asModifierWord at h
      split at h
      next s hs => rw [hs]; rfl
      next => cases h
  | marker h => exact ((ends_name h).imp isClosed_of_isName).cons
  | called _ hargs => exact ((ends_delimited rfl hargs).append).cons

theorem tidy_modifier ⦃us : List Token⦄ ⦃m : Modifier⦄
    (h : SpellsModifier us m) : Tidy Word.isInline us := by
  cases h with
  | word h =>
      refine .singleton ?_
      unfold Parser.asModifierWord at h
      split at h
      next s hs => rw [hs]; rfl
      next => cases h
  | marker h => exact .cons_of_isClosed rfl rfl (tidy_name h)
  | called h hargs =>
      exact .cons_of_isClosed rfl rfl
        ((tidy_name h).append (tidy_arguments tidy_expr hargs)
        (joins_of_isClosed ((ends_name h).imp isClosed_of_isName) _))

theorem tidy_declarator ⦃us : List Token⦄ ⦃v : Variable⦄
    (h : SpellsDeclarator us v) : Tidy Word.isInline us := by
  cases h with
  | bare i => exact .singleton rfl
  | initialized i h =>
      exact .cons_of_isClosed rfl rfl (.cons_of_isClosed rfl rfl (tidy_expr h))

/-- Modifiers, a type after them, and what stands after that. -/
theorem tidy_modifiers_append {us vs ws : List Token} {ms : List Modifier}
    (hms : Many SpellsModifier us ms) (hvs : Tidy Word.isInline vs)
    (he : Ends Word.isClosed vs) (hws : Tidy Word.isInline ws) :
    Tidy Word.isInline (us ++ vs ++ ws) :=
  ((tidy_many tidy_modifier ends_modifier hms).append hvs
    (joins_many ends_modifier hms vs)).append
    hws (joins_of_isClosed he.append ws)

theorem tidy_declaration {us : List Token} {d : Variables}
    (h : SpellsDeclaration us d) : Tidy Word.isInline us := by
  obtain ⟨hms, ht, hds, hled⟩ := h
  exact .led hled (tidy_modifiers_append hms (tidy_type ht) (ends_type ht)
    (tidy_padded tidy_declarator rfl rfl rfl hds))

/-- A parameter is tidy if its type is and ends closed. -/
theorem tidy_parameter {R : Spelling TypeTree}
    (hR : ∀ ⦃us t⦄, R us t → Tidy Word.isInline us)
    (hends : ∀ ⦃us t⦄, R us t → Ends Word.isClosed us) ⦃us : List Token⦄
    ⦃d : Variables⦄ (h : ParameterWith R us d) : Tidy Word.isInline us := by
  obtain ⟨i, hms, ht, hled⟩ := h
  exact .led hled (tidy_modifiers_append hms (hR ht) (hends ht)
    (.singleton rfl))

/-- Tokens without a semicolon, up to one, are all tokens up to the first. -/
theorem eq_of_append_semicolon {us vs rest rest' : List Token}
    {after after' : Trivia} (hus : Tidy Word.isInline us)
    (hvs : Tidy Word.isInline vs) (h : us ++ ⟨after, .symbol ";"⟩ :: rest =
      vs ++ ⟨after', .symbol ";"⟩ :: rest') : us = vs := by
  have hno : ∀ (P : Token), P.word = .symbol ";" →
      P.word.isInline = true → False := by
    intro t ht hi
    rw [ht] at hi
    cases hi
  induction us generalizing vs with
  | nil =>
      cases vs with
      | nil => rfl
      | cons v vs =>
          rw [List.nil_append, List.cons_append, List.cons.injEq] at h
          exact (hno v (by rw [← h.1]) (hvs.all v List.mem_cons_self)).elim
  | cons u us ih =>
      cases vs with
      | nil =>
          rw [List.nil_append, List.cons_append, List.cons.injEq] at h
          exact (hno u (by rw [h.1]) (hus.all u List.mem_cons_self)).elim
      | cons v vs =>
          rw [List.cons_append, List.cons_append, List.cons.injEq] at h
          rw [h.1,
            ih ⟨fun t ht => hus.all t (List.mem_cons_of_mem u ht),
              hus.chain.tail⟩
            ⟨fun t ht => hvs.all t (List.mem_cons_of_mem v ht),
              hvs.chain.tail⟩ h.2]

-- ============================================================ statements

/-- Every word. -/
def Word.isAny (_ : Word) : Bool := true

/-- What is tidy in an expression is tidy anywhere. -/
theorem Tidy.any {P : Word → Bool} {us : List Token} (h : Tidy P us) :
    Tidy Word.isAny us :=
  h.imp fun _ _ => rfl

theorem tidy_condition {us : List Token} {c : Parens Expr}
    (h : SpellsCondition us c) : Tidy Word.isAny us := by
  obtain ⟨h⟩ := h
  exact .cons_of_isClosed rfl rfl ((tidy_expr h).any.concat rfl rfl)

theorem ends_condition {us : List Token} {c : Parens Expr}
    (h : SpellsCondition us c) : Ends Word.isClosed us := by
  obtain ⟨h⟩ := h
  exact .cons (.concat rfl)

theorem tidy_head ⦃us : List Token⦄ ⦃c : Head⦄ (h : SpellsHead us c) :
    Tidy Word.isAny us := by
  cases h with
  | whileLoop h => exact .cons_of_isClosed rfl rfl (tidy_condition h)
  | ifElse h => exact .cons_of_isClosed rfl rfl (tidy_condition h)

theorem ends_head ⦃us : List Token⦄ ⦃c : Head⦄ (h : SpellsHead us c) :
    Ends Word.isClosed us := by
  cases h with
  | whileLoop h => exact (ends_condition h).cons
  | ifElse h => exact (ends_condition h).cons

/-- A block ends with its brace. -/
theorem ends_braced {α : Type} {R : Spelling (RightPadded α)} {P : Word → Bool}
    (hP : P (.symbol "\x7d") = true) {us : List Token} {b : Block α}
    (h : Braced R us b) :
    Ends P us := by
  cases h
  exact .cons (.concat hP)

section

variable {α : Type} {R : Spelling (RightPadded α)}
  (hR : ∀ ⦃us a⦄, R us a → Tidy Word.isAny us)
    (he : ∀ ⦃us a⦄, R us a → Ends Word.isClosed us)
include hR he

/-- A block is tidy if its elements are and end closed. -/
theorem tidy_braced {us : List Token} {b : Block α} (h : Braced R us b) :
    Tidy Word.isAny us := by
  cases h with
  | mk h => exact .cons_of_isClosed rfl rfl ((tidy_many hR he h).concat rfl rfl)

end

section

variable {R : Spelling (RightPadded Stmt)}

/-- A clause ends with the brace of its body. -/
theorem ends_catch ⦃us : List Token⦄ ⦃c : Catch Stmt⦄ (h : CatchWith R us c) :
    Ends Word.isClosed us := by
  cases h with
  | mk _ hb => exact (ends_braced rfl hb).cons.append.cons.cons

/-- The last block is absent or ends with its brace. -/
theorem ends_finally {us : List Token} {f : Option (LeftPadded (Block Stmt))}
    (h : FinallyWith R us f) : us = [] ∨ Ends Word.isClosed us := by
  cases h with
  | none => exact .inl rfl
  | some h => exact .inr (ends_braced rfl h).cons

/-- A statement without branches ends with a brace or a semicolon. -/
theorem ends_plain {us : List Token} {s : RightPadded Stmt}
    (h : PlainWith R us s) : Ends Word.isClosed us := by
  cases h with
  | block h => exact ends_braced rfl h
  | empty => exact .singleton rfl
  | tryCatch hb hcs hf =>
      exact (((ends_braced rfl hb).append_of_eq_nil_or
        (ends_many ends_catch hcs)).append_of_eq_nil_or (ends_finally hf)).cons
  | throwing => exact .cons (.concat rfl)
  | returningNone => exact .cons (.singleton rfl)
  | returning => exact .cons (.concat rfl)
  | declaration => exact .concat rfl
  | expr => exact .concat rfl

/-- A branch ends as its statement does. -/
theorem ends_branch ⦃us : List Token⦄ ⦃b : Branch⦄ (h : BranchWith R us b) :
    Ends Word.isClosed us := by
  cases h with
  | mk _ h => exact (ends_plain h).append.cons

/-- A statement ends with its last branch or its body. -/
theorem ends_statementWith {us : List Token} {s : RightPadded Stmt}
    (h : StatementWith R us s) : Ends Word.isClosed us := by
  cases h with
  | mk _ hbody hbranches _ =>
      exact (ends_plain hbody).append.append_of_eq_nil_or
        (ends_many ends_branch hbranches)

variable (hR : ∀ ⦃us s⦄, R us s → Tidy Word.isAny us)
  (he : ∀ ⦃us s⦄, R us s → Ends Word.isClosed us)
include hR he

/-- A clause is tidy if its statements are. -/
theorem tidy_catch ⦃us : List Token⦄ ⦃c : Catch Stmt⦄ (h : CatchWith R us c) :
    Tidy Word.isAny us := by
  cases h with
  | mk hd hb =>
      have hd := (tidy_parameter (fun _ _ => tidy_catchType)
        (fun _ _ => ends_catchType) hd).any
      exact .cons_of_isClosed rfl rfl (.cons_of_isClosed rfl rfl
        (hd.append_cons rfl rfl rfl (tidy_braced hR he hb)))

/-- The last block is tidy if its statements are. -/
theorem tidy_finally {us : List Token} {f : Option (LeftPadded (Block Stmt))}
    (h : FinallyWith R us f) : Tidy Word.isAny us := by
  cases h with
  | none => exact .nil
  | some h => exact .cons_of_isClosed rfl rfl (tidy_braced hR he h)

/-- A statement without branches is tidy if what it nests is. -/
theorem tidy_plain {us : List Token} {s : RightPadded Stmt}
    (h : PlainWith R us s) : Tidy Word.isAny us := by
  cases h with
  | block h => exact tidy_braced hR he h
  | empty => exact .singleton rfl
  | tryCatch hb hcs hf =>
      have hend := (ends_braced rfl hb).append_of_eq_nil_or
        (ends_many ends_catch hcs)
      exact .cons_of_isClosed rfl rfl (((tidy_braced hR he hb).append
        (tidy_many (tidy_catch hR he) ends_catch hcs)
          (joins_of_isClosed (ends_braced rfl hb) _)).append
        (tidy_finally hR he hf) (joins_of_isClosed hend _))
  | throwing h =>
      exact .cons_of_isClosed rfl rfl ((tidy_expr h).any.concat rfl rfl)
  | returningNone => exact .cons_of_isClosed rfl rfl (.singleton rfl)
  | returning h =>
      exact .cons_of_isClosed rfl rfl ((tidy_expr h).any.concat rfl rfl)
  | declaration h => exact (tidy_declaration h).any.concat rfl rfl
  | expr h _ => exact (tidy_expr h).any.concat rfl rfl

/-- Heads and the plain statement after them. -/
theorem tidy_heads_append {us vs : List Token} {heads : List Head}
    {s : RightPadded Stmt} (hheads : Many SpellsHead us heads)
    (hs : PlainWith R vs s) : Tidy Word.isAny (us ++ vs) :=
  (tidy_many tidy_head ends_head hheads).append (tidy_plain hR he hs)
    (joins_many ends_head hheads vs)

/-- A branch is tidy if what it nests is. -/
theorem tidy_branch ⦃us : List Token⦄ ⦃b : Branch⦄ (h : BranchWith R us b) :
    Tidy Word.isAny us := by
  cases h with
  | mk hheads hbody =>
      exact .cons_of_isClosed rfl rfl (tidy_heads_append hR he hheads hbody)

/-- A statement is tidy if what it nests is. -/
theorem tidy_statementWith {us : List Token} {s : RightPadded Stmt}
    (h : StatementWith R us s) : Tidy Word.isAny us := by
  cases h with
  | mk hheads hbody hbranches _ =>
      exact (tidy_heads_append hR he hheads hbody).append
        (tidy_many (tidy_branch hR he) ends_branch hbranches)
        (joins_of_isClosed (ends_plain hbody).append _)

end

theorem ends_stmt ⦃us : List Token⦄ ⦃s : RightPadded Stmt⦄
    (h : SpellsStmt us s) : Ends Word.isClosed us := by
  obtain ⟨n, h⟩ := h
  cases n with
  | zero => exact h.elim
  | succ n => exact ends_statementWith h

theorem tidy_stmt ⦃us : List Token⦄ ⦃s : RightPadded Stmt⦄
    (h : SpellsStmt us s) : Tidy Word.isAny us := by
  obtain ⟨n, h⟩ := h
  induction n generalizing us s with
  | zero => exact h.elim
  | succ n ih =>
      exact tidy_statementWith (fun _ _ h => ih h)
        (fun _ _ h => ends_stmt ⟨n, h⟩) h

-- =============================================================== members

/-- Class types after a keyword, if there are any, and what comes before and
after them. -/
theorem ends_classTypes {word : String} {us : List Token}
    {o : Option (Container TypeTree)}
    (h : AfterKeyword SpellsClassType word us o) :
    us = [] ∨ Ends Word.isClosed us := by
  cases h with
  | none => exact .inl rfl
  | some h =>
      exact .inr (ends_padded (fun _ _ h => ends_classTypeWith h) h).cons

/-- The types behind a keyword are tidy. -/
theorem tidy_classTypes {word : String} {us : List Token}
    {o : Option (Container TypeTree)}
    (h : AfterKeyword SpellsClassType word us o) : Tidy Word.isAny us :=
  tidy_afterKeyword (fun _ _ h => (tidy_classType h).any) (fun _ => rfl) h

section

variable {lead : Trivia} {ms : List Modifier}
  {returnType : Option TypeTree} {i : Ident}
  {mayLackBody : Bool} {us : List Token} {m : RightPadded Member}

/-- A method ends with a brace or a semicolon. -/
theorem ends_method (h : MethodWith lead ms returnType i mayLackBody us m) :
    Ends Word.isClosed us := by
  cases h with
  | bodied _ _ h => exact (ends_braced rfl h).append
  | abstract => exact .concat rfl

/-- A method is tidy, from the parameters on. -/
theorem tidy_method (h : MethodWith lead ms returnType i mayLackBody us m) :
    Tidy Word.isAny us := by
  have hfront : ∀ {us vs params throws},
      Delimited (ParameterWith SpellsType) "(" ")" us params →
      AfterKeyword SpellsClassType "throws" vs throws →
      Tidy Word.isAny (us ++ vs) ∧ Ends Word.isClosed (us ++ vs) := by
    intro us vs params throws hparams hthrows
    have hends : Ends Word.isClosed us := ends_delimited rfl hparams
    have htidy : Tidy Word.isInline us :=
      tidy_delimited (tidy_parameter tidy_type fun _ _ => ends_type)
        rfl rfl rfl rfl rfl hparams
    exact ⟨htidy.any.append (tidy_classTypes hthrows)
      (joins_of_isClosed hends _),
      hends.append_of_eq_nil_or (ends_classTypes hthrows)⟩
  cases h with
  | bodied hparams hthrows hbody =>
      obtain ⟨htidy, hends⟩ := hfront hparams hthrows
      exact htidy.append (tidy_braced tidy_stmt ends_stmt hbody)
        (joins_of_isClosed hends _)
  | abstract _ hparams hthrows =>
      exact (hfront hparams hthrows).1.concat rfl rfl

end

section

variable {R : Spelling (RightPadded Member)} {lead : Trivia}
  {ms : List Modifier} {us : List Token}

/-- A class ends with its brace. -/
theorem ends_class {P : Word → Bool} (hP : P (.symbol "\x7d") = true)
    {kind : LeftPadded ClassKind} {c : JavaClass}
    (h : ClassWith R lead ms kind us c) : Ends P us := by
  cases h with
  | mk i _ _ hbody => exact (ends_braced hP hbody).append.cons

/-- A member ends with a brace or a semicolon. -/
theorem ends_memberAfter {m : RightPadded Member}
    (h : MemberAfter R lead ms us m) : Ends Word.isClosed us := by
  cases h with
  | nested _ h => exact (ends_class rfl h).cons
  | void i h => exact (ends_method h).cons.cons
  | constructor i h => exact (ends_method h).cons
  | method i _ h => exact (ends_method h).cons.append
  | field => exact .concat rfl

theorem ends_memberWith {m : RightPadded Member} (h : MemberWith R us m) :
    Ends Word.isClosed us := by
  obtain ⟨-, hm, hled⟩ := h
  exact .led hled (ends_memberAfter hm).append

variable (hR : ∀ ⦃us m⦄, R us m → Tidy Word.isAny us)
  (he : ∀ ⦃us m⦄, R us m → Ends Word.isClosed us)
include hR he

/-- A class is tidy if its members are. -/
theorem tidy_class {kind : LeftPadded ClassKind} {c : JavaClass}
    (h : ClassWith R lead ms kind us c) : Tidy Word.isAny us := by
  cases h with
  | mk i hextends himplements hbody =>
      have hfront := (tidy_classTypes hextends).append
        (tidy_classTypes himplements)
        (joins_of_eq_nil_or (ends_classTypes hextends) _)
      refine .cons_of_isClosed rfl rfl
        (hfront.append (tidy_braced hR he hbody) ?_)
      obtain ⟨rest, rfl⟩ := opens_braced hbody
      exact joins_of_isMark _ (.cons rfl)

/-- Behind its modifiers a member is tidy if what it nests is. -/
theorem tidy_memberAfter {m : RightPadded Member}
    (h : MemberAfter R lead ms us m) : Tidy Word.isAny us := by
  cases h with
  | nested hkind h =>
      exact .cons_of_isClosed rfl
        (isClosed_of_isClassWord _ (asClassKind_isClassWord hkind))
        (tidy_class hR he h)
  | void i h =>
      exact .cons_of_isClosed rfl rfl
        (.cons_of_isClosed rfl rfl (tidy_method h))
  | constructor i h => exact .cons_of_isClosed rfl rfl (tidy_method h)
  | method i ht h =>
      exact (tidy_type ht).any.append
        (.cons_of_isClosed rfl rfl (tidy_method h))
        (joins_of_isClosed (ends_type ht) _)
  | field ht hds =>
      exact ((tidy_type ht).append (tidy_padded tidy_declarator rfl rfl rfl hds)
        (joins_of_isClosed (ends_type ht) _)).any.concat rfl rfl

/-- A member is tidy if what it nests is. -/
theorem tidy_memberWith {m : RightPadded Member} (h : MemberWith R us m) :
    Tidy Word.isAny us := by
  obtain ⟨hms, hm, hled⟩ := h
  exact .led hled ((tidy_many tidy_modifier ends_modifier hms).any.append
    (tidy_memberAfter hR he hm) (joins_many ends_modifier hms _))

end

theorem ends_member ⦃us : List Token⦄ ⦃m : RightPadded Member⦄
    (h : SpellsMember us m) : Ends Word.isClosed us := by
  obtain ⟨n, h⟩ := h
  cases n with
  | zero => exact h.elim
  | succ n => exact ends_memberWith h

theorem tidy_member ⦃us : List Token⦄ ⦃m : RightPadded Member⦄
    (h : SpellsMember us m) : Tidy Word.isAny us := by
  obtain ⟨n, h⟩ := h
  induction n generalizing us m with
  | zero => exact h.elim
  | succ n ih =>
      exact tidy_memberWith (fun _ _ h => ih h)
        (fun _ _ h => ends_member ⟨n, h⟩) h

-- ================================================================= files

/-- Classes end with a brace. -/
theorem ends_topClass {P : Word → Bool} (hP : P (.symbol "\x7d") = true)
    ⦃us : List Token⦄ ⦃c : JavaClass⦄ (h : SpellsTopClass us c) :
    Ends P us := by
  obtain ⟨-, -, hc, hled⟩ := h
  exact .led hled (ends_class hP hc).cons.append

theorem tidy_topClass ⦃us : List Token⦄ ⦃c : JavaClass⦄
    (h : SpellsTopClass us c) : Tidy Word.isAny us := by
  obtain ⟨hms, hkind, hc, hled⟩ := h
  exact .led hled ((tidy_many tidy_modifier ends_modifier hms).any.append
    (.cons_of_isClosed rfl (isClosed_of_isClassWord _
      (asClassKind_isClassWord hkind))
      (tidy_class tidy_member ends_member hc)) (joins_many ends_modifier hms _))

/-- Imports end with a semicolon. -/
theorem ends_import {P : Word → Bool} (hP : P (.symbol ";") = true)
    ⦃us : List Token⦄ ⦃i : RightPadded Import⦄ (h : SpellsImport us i) :
    Ends P us := by
  cases h
  exact .cons (.concat hP)

theorem tidy_importName {us : List Token} {n : Name}
    (h : SpellsImportName us n) : Tidy Word.isAny us := by
  cases h with
  | named h => exact (tidy_name h).any
  | star dot lead h =>
      exact (tidy_name h).any.append
        (.cons rfl (.singleton rfl) (joins_dot dot rfl))
        (joins_of_isMark _ (.cons rfl))

theorem tidy_import ⦃us : List Token⦄ ⦃i : RightPadded Import⦄
    (h : SpellsImport us i) : Tidy Word.isAny us := by
  obtain ⟨hstatic, hn⟩ := h
  have hname := tidy_importName hn
  cases hstatic with
  | none => exact .cons_of_isClosed rfl rfl (hname.concat rfl rfl)
  | some =>
      exact .cons_of_isClosed rfl rfl
        (@Tidy.cons_of_isClosed _ (_ ++ _) _ rfl rfl (hname.concat rfl rfl))

/-- A package declaration is absent or ends with a semicolon. -/
theorem ends_package {P : Word → Bool} (hP : P (.symbol ";") = true)
    {us : List Token} {p : Option (RightPadded Package)}
    (h : SpellsPackage us p) : us = [] ∨ Ends P us := by
  cases h with
  | none => exact .inl rfl
  | some => exact .inr (.cons (.concat hP))

/-- Package and imports end as each of them does, if there are any. -/
theorem ends_imports {P : Word → Bool} (hP : P (.symbol ";") = true)
    {us vs : List Token} {p : Option (RightPadded Package)}
    {imports : List (RightPadded Import)} (hp : SpellsPackage us p)
    (himports : Many SpellsImport vs imports) :
    us ++ vs = [] ∨ Ends P (us ++ vs) := by
  rcases ends_many (ends_import hP) himports with rfl | h
  · rw [List.append_nil]
    exact ends_package hP hp
  · exact .inr h.append

theorem tidy_package {us : List Token} {p : Option (RightPadded Package)}
    (h : SpellsPackage us p) : Tidy Word.isAny us := by
  cases h with
  | none => exact .nil
  | some h => exact .cons_of_isClosed rfl rfl ((tidy_name h).any.concat rfl rfl)

section

variable {close : Trivia} {path : Option String} {ts : List Token}
  {cu : CompilationUnit}
  (h : SpellsUnit close path ts cu)
include h

/-- Words stand next to one another in a file only where they may. -/
theorem tidy_unit : Tidy Word.isAny ts := by
  cases h with
  | empty => exact .nil
  | mk hparts hled =>
      obtain ⟨hp, himports, hclasses⟩ := hparts
      exact .led hled (((tidy_package hp).append
        (tidy_many tidy_import (ends_import rfl) himports)
        (joins_of_eq_nil_or (ends_package rfl hp) _)).append
        (tidy_many tidy_topClass (ends_topClass rfl) hclasses)
        (joins_of_eq_nil_or (ends_imports rfl hp himports) _))

/-- A file ends with a semicolon or a brace. -/
theorem ends_unit {P : Word → Bool} (hsemicolon : P (.symbol ";") = true)
    (hbrace : P (.symbol "\x7d") = true) : ts = [] ∨ Ends P ts := by
  cases h with
  | empty => exact .inl rfl
  | mk hparts hled =>
      obtain ⟨hp, himports, hclasses⟩ := hparts
      have hends : _ ∨ Ends P _ := ends_imports hsemicolon hp himports
      refine .inr (.led hled ?_)
      rcases ends_many (ends_topClass hbrace) hclasses with rfl | hc
      · rcases hends with hnil | hends
        · rw [List.append_nil, hnil] at hled
          cases hled
        · rwa [List.append_nil]
      · exact hc.append

end

end JavaRefit
