/-
Rules do not look at trivia.

Tokens with the same words in the same order spell the same trees, up to
the trivia that the trees keep (`Respaced`). Each rule has the property
because its parts have it; the two rules that settle what the language
leaves open have it too, since neither the sharing out of branches nor
the question whether tokens spell a declaration depends on trivia.

Chain: after `Derived` and the blank trees; that formatting is irrelevant
and where reading stops both rest on it.
-/
import JavaRefit.Proofs.Grammar.Derived
import JavaRefit.Proofs.Tree.Blank

namespace JavaRefit

open Spelling

-- ================================================================== words

/-- The tokens have the same words. -/
def SameWords (us vs : List Token) : Prop :=
  us.map Token.word = vs.map Token.word

namespace SameWords

variable {us us₁ us₂ vs : List Token} {t : Token}

theorem refl (us : List Token) : SameWords us us := rfl

theorem symm (h : SameWords us vs) : SameWords vs us := Eq.symm h

/-- No tokens have the words of no tokens alone. -/
@[simp] theorem nil_left : SameWords [] vs ↔ vs = [] := by
  rw [SameWords, List.map_nil, eq_comm, List.map_eq_nil_iff]

/-- Tokens with the words of others have them one by one, each with trivia of
its own. -/
@[simp] theorem cons_left :
    SameWords (t :: us) vs ↔ ∃ lead vs', vs = ⟨lead, t.word⟩ :: vs' ∧
    SameWords us vs' := by
  constructor
  · intro h
    cases vs with
    | nil => cases h
    | cons u vs =>
        obtain ⟨hword, hrest⟩ := List.cons.inj h
        exact ⟨u.lead, vs, by rw [hword], hrest⟩
  · rintro ⟨lead, vs', rfl, h⟩
    exact congrArg (t.word :: ·) h

/-- Tokens with the words of two runs fall into two such runs. -/
@[simp] theorem append_left :
    SameWords (us₁ ++ us₂) vs ↔
      ∃ vs₁ vs₂, vs = vs₁ ++ vs₂ ∧ SameWords us₁ vs₁ ∧ SameWords us₂ vs₂ := by
  rw [SameWords, List.map_append, eq_comm, List.map_eq_append_iff]
  simp only [SameWords, eq_comm]

end SameWords

/-- Tokens with the same words spell the same things, when those are compared
without trivia. -/
def Respaced {α β : Type} (blank : α → β) (R : Spelling α) : Prop :=
  ∀ ⦃us vs : List Token⦄ ⦃a : α⦄, R us a → SameWords us vs → ∃ b,
    R vs b ∧ blank b = blank a

-- ================================================================== lists

namespace Respaced

variable {α : Type} {blank : α → α} {R : Spelling α}

/-- Elements between separators may be respaced one by one. -/
theorem padded (hR : Respaced blank R) (separator : String) :
    Respaced (List.map (RightPadded.blank blank)) (Padded R separator) := by
  intro us vs ps h hw
  induction h generalizing vs with
  | last ha =>
      obtain ⟨b, hb, hblank⟩ := hR ha hw
      exact ⟨_, .last hb,
        by simp only [List.map_cons, List.map_nil, RightPadded.blank, hblank]⟩
  | cons ha _ ih =>
      simp only [SameWords.append_left, SameWords.cons_left] at hw
      obtain ⟨vs₁, _, rfl, hw₁, after, vs₂, rfl, hw₂⟩ := hw
      obtain ⟨b, hb, hblank⟩ := hR ha hw₁
      obtain ⟨bs, hbs, hblanks⟩ := ih hw₂
      exact ⟨_, .cons hb hbs,
        by simp only [List.map_cons, RightPadded.blank, hblank, hblanks]⟩

/-- Elements between delimiters may be respaced, the delimiters too. -/
theorem delimited (hR : Respaced blank R) (opening closing : String) :
    Respaced (Container.blank blank) (Delimited R opening closing) := by
  intro us vs c h hw
  cases h with
  | none =>
      simp only [SameWords.cons_left, SameWords.nil_left] at hw
      obtain ⟨before, _, rfl, close, _, rfl, rfl⟩ := hw
      exact ⟨_, .none, rfl⟩
  | some hps =>
      simp only [SameWords.append_left, SameWords.cons_left,
        SameWords.nil_left] at hw
      obtain ⟨before, _, rfl, vs, _, rfl, hw, close, _, rfl, rfl⟩ := hw
      obtain ⟨qs, hqs, hblank⟩ := hR.padded "," hps hw
      exact ⟨_, .some hqs,
        by simp only [Container.blank, RightPadded.blank_closeLast, hblank]⟩

/-- What a keyword introduces may be respaced, the keyword too. -/
theorem afterKeyword (hR : Respaced blank R) (word : String) :
    Respaced (Option.map (Container.blank blank)) (AfterKeyword R word) := by
  intro us vs o h hw
  cases h with
  | none =>
      obtain rfl := SameWords.nil_left.1 hw
      exact ⟨_, .none, rfl⟩
  | some hps =>
      simp only [SameWords.cons_left] at hw
      obtain ⟨before, vs, rfl, hw⟩ := hw
      obtain ⟨qs, hqs, hblank⟩ := hR.padded "," hps hw
      exact ⟨_, .some hqs,
        by simp only [Option.map_some, Container.blank, hblank]⟩

/-- Elements in a row may be respaced one by one. -/
theorem many {α : Type} {blank : α → α} {R : Spelling α}
    (hR : Respaced blank R) : Respaced (List.map blank) (Many R) := by
  intro us vs as h hw
  induction h generalizing vs with
  | nil =>
      obtain rfl := SameWords.nil_left.1 hw
      exact ⟨_, .nil, rfl⟩
  | cons ha _ ih =>
      obtain ⟨vs₁, vs₂, rfl, hw₁, hw₂⟩ := SameWords.append_left.1 hw
      obtain ⟨b, hb, hblank⟩ := hR ha hw₁
      obtain ⟨bs, hbs, hblanks⟩ := ih hw₂
      exact ⟨_, .cons hb hbs,
        by rw [List.map_cons, hblank, hblanks, List.map_cons]⟩

/-- A block may be respaced, its braces too. -/
theorem braced {R : Spelling (RightPadded α)}
    (hR : Respaced (RightPadded.blank blank) R) :
    Respaced (Block.blank blank) (Braced R) := by
  intro us vs b h hw
  obtain ⟨h⟩ := h
  simp only [SameWords.append_left, SameWords.cons_left,
    SameWords.nil_left] at hw
  obtain ⟨lead, _, rfl, vs, _, rfl, hw, close, _, rfl, rfl⟩ := hw
  obtain ⟨bs, hbs, hblank⟩ := hR.many h hw
  exact ⟨_, .mk hbs, by simp only [Block.blank, hblank]⟩

end Respaced

/-- Tokens that have trivia in front go with tokens that have other trivia
there. -/
theorem Spelling.Led.respaced {lead : Trivia} {us xs ys : List Token}
    (h : Led lead us xs) (hw : SameWords xs ys) :
    ∃ lead' vs, Led lead' vs ys ∧ SameWords us vs := by
  obtain ⟨⟩ := h
  simp only [SameWords.cons_left] at hw
  obtain ⟨lead', vs, rfl, hw⟩ := hw
  exact ⟨lead', _, .mk, SameWords.cons_left.2 ⟨"", vs, rfl, hw⟩⟩

-- ========================================================== single tokens

/-- What a test makes of a token is made of its word, but for the trivia in
it. -/
def ReadsWord {α β : Type} (blank : α → β) (f : Token → Option α) : Prop :=
  ∀ lead lead' w, (f ⟨lead, w⟩).map blank = (f ⟨lead', w⟩).map blank

/-- A test that reads the word alone lets the token through with any trivia. -/
theorem ReadsWord.respaced {α β : Type} {blank : α → β} {f : Token → Option α}
    (hf : ReadsWord blank f) {t : Token} {a : α} (h : f t = some a)
    (lead : Trivia) :
    ∃ b, f ⟨lead, t.word⟩ = some b ∧ blank b = blank a := by
  have hb := hf lead t.lead t.word
  rw [h, Option.map_some] at hb
  exact Option.map_eq_some_iff.1 hb

/-- A primitive type is told by its word. -/
theorem readsWord_asPrimitive :
    ReadsWord TypeTree.blank Parser.asPrimitive := by
  intro lead lead' w
  unfold Parser.asPrimitive
  cases w with
  | keyword s =>
      dsimp only
      split
      · cases Primitive.ofText? s <;> rfl
      · rfl
  | _ => rfl

/-- A literal is told by its word. -/
theorem readsWord_asLiteral : ReadsWord Expr.blank Parser.asLiteral := by
  intro lead lead' w
  unfold Parser.asLiteral
  cases w with
  | keyword s =>
      dsimp only
      split <;> rfl
  | _ => rfl

/-- A modifier is told by its word. -/
theorem readsWord_asModifierWord :
    ReadsWord Modifier.blank Parser.asModifierWord := by
  intro lead lead' w
  unfold Parser.asModifierWord
  cases w with
  | keyword s =>
      dsimp only
      split <;> rfl
  | _ => rfl

/-- A unary operator is told by its word. -/
theorem readsWord_asUnaryOp :
    ReadsWord (LeftPadded.blank id) Parser.asUnaryOp := by
  intro lead lead' w
  unfold Parser.asUnaryOp
  cases w with
  | symbol s => cases h : UnaryOp.ofText? s <;> simp [h, LeftPadded.blank]
  | _ => rfl

/-- A binary operator is told by its word. -/
theorem readsWord_asBinaryOp :
    ReadsWord (LeftPadded.blank id) Parser.asBinaryOp := by
  intro lead lead' w
  unfold Parser.asBinaryOp
  cases w with
  | symbol s => cases h : BinaryOp.ofText? s <;> simp [h, LeftPadded.blank]
  | _ => rfl

/-- The sort of a class is told by its word. -/
theorem readsWord_asClassKind :
    ReadsWord (LeftPadded.blank id) Parser.asClassKind := by
  intro lead lead' w
  unfold Parser.asClassKind
  cases w with
  | keyword s => cases h : ClassKind.ofText? s <;> simp [h, LeftPadded.blank]
  | _ => rfl

-- ================================================================= names

/-- A name that is extended by a word, without trivia. -/
theorem Name.blank_extendName (n : Name) (dot : Trivia) (i : Ident) :
    (Parser.extendName n dot i).blank =
      .qualified "" n.blank ⟨"", i.blank⟩ none := by
  rw [Parser.extendName, blank_qualified, blank_withLead]
  rfl

theorem respaced_name : Respaced Name.blank SpellsName := by
  intro us vs n h hw
  induction h generalizing vs with
  | simple i =>
      simp only [SameWords.cons_left, SameWords.nil_left] at hw
      obtain ⟨lead, _, rfl, rfl⟩ := hw
      exact ⟨_, .simple ⟨lead, i.name⟩, rfl⟩
  | dot dot i _ ih =>
      simp only [SameWords.append_left, SameWords.cons_left,
        SameWords.nil_left] at hw
      obtain ⟨vs, _, rfl, hw, dot', _, rfl, lead, _, rfl, rfl⟩ := hw
      obtain ⟨m, hm, hblank⟩ := ih hw
      refine ⟨_, .dot dot' ⟨lead, i.name⟩ hm, ?_⟩
      rw [Name.blank_extendName, Name.blank_extendName, hblank]
      rfl

theorem respaced_importName : Respaced Name.blank SpellsImportName := by
  intro us vs n h hw
  cases h with
  | named h =>
      obtain ⟨m, hm, hblank⟩ := respaced_name h hw
      exact ⟨m, .named hm, hblank⟩
  | star dot lead h =>
      simp only [SameWords.append_left, SameWords.cons_left,
        SameWords.nil_left] at hw
      obtain ⟨vs, _, rfl, hw, dot', _, rfl, lead', _, rfl, rfl⟩ := hw
      obtain ⟨m, hm, hblank⟩ := respaced_name h hw
      refine ⟨_, .star dot' lead' hm, ?_⟩
      rw [Name.blank_extendName, Name.blank_extendName, hblank]
      rfl

-- ================================================================= types

section

variable {R : Spelling TypeTree} (hR : Respaced TypeTree.blank R)
include hR

/-- A class type may be respaced if its arguments may. -/
theorem respaced_classTypeWith : Respaced TypeTree.blank (ClassTypeWith R) := by
  intro us vs t h hw
  cases h with
  | named h =>
      obtain ⟨n, hn, hblank⟩ := respaced_name h hw
      exact ⟨_, .named hn, congrArg TypeTree.named hblank⟩
  | generic h hargs =>
      obtain ⟨vs₁, vs₂, rfl, hw₁, hw₂⟩ := SameWords.append_left.1 hw
      obtain ⟨n, hn, hblank⟩ := respaced_name h hw₁
      obtain ⟨args, hargs, hblanks⟩ := hR.delimited "<" ">" hargs hw₂
      refine ⟨_, .generic hn hargs, ?_⟩
      rw [TypeTree.blank_generic, TypeTree.blank_generic, Name.blank_withLead,
        Name.blank_withLead, hblank, hblanks]

/-- A type may be respaced if its arguments may. -/
theorem respaced_typeWith : Respaced TypeTree.blank (TypeWith R) := by
  intro us vs t h hw
  induction h generalizing vs with
  | primitive h =>
      simp only [SameWords.cons_left, SameWords.nil_left] at hw
      obtain ⟨lead, _, rfl, rfl⟩ := hw
      obtain ⟨q, hq, hblank⟩ := readsWord_asPrimitive.respaced h lead
      exact ⟨q, .primitive hq, hblank⟩
  | classType h =>
      obtain ⟨t, ht, hblank⟩ := respaced_classTypeWith hR h hw
      exact ⟨t, .classType ht, hblank⟩
  | array _ ih =>
      simp only [SameWords.append_left, SameWords.cons_left,
        SameWords.nil_left] at hw
      obtain ⟨vs, _, rfl, hw, before, _, rfl, inner, _, rfl, rfl⟩ := hw
      obtain ⟨t, ht, hblank⟩ := ih hw
      refine ⟨_, .array ht, ?_⟩
      rw [TypeTree.blank_array, TypeTree.blank_array, TypeTree.blank_withLead,
        TypeTree.blank_withLead, hblank]

end

theorem respaced_typeAt (n : Nat) :
    Respaced TypeTree.blank (SpellsTypeAt n) := by
  induction n with
  | zero => exact fun _ _ _ h _ => h.elim
  | succ n ih => exact respaced_typeWith ih

/-- Types may be respaced: by induction on how deep arguments nest. -/
theorem respaced_type : Respaced TypeTree.blank SpellsType := by
  rintro us vs t ⟨n, h⟩ hw
  obtain ⟨t', ht, hblank⟩ := respaced_typeAt n h hw
  exact ⟨t', ⟨n, ht⟩, hblank⟩

theorem respaced_classType : Respaced TypeTree.blank SpellsClassType :=
  respaced_classTypeWith respaced_type

theorem respaced_catchType : Respaced TypeTree.blank SpellsCatchType := by
  intro us vs t h hw
  cases h with
  | single h =>
      obtain ⟨t, ht, hblank⟩ := respaced_classType h hw
      exact ⟨t, .single ht, hblank⟩
  | union h =>
      obtain ⟨qs, hqs, hblank⟩ := respaced_classType.padded "|" h hw
      match qs with
      | [] | [_] => simp at hblank
      | first :: q :: qs =>
          refine ⟨_, .union hqs, ?_⟩
          simp only [List.map_cons, List.cons.injEq, RightPadded.blank,
            RightPadded.mk.injEq, and_true] at hblank
          simp only [TypeTree.blank_union, List.map_cons, RightPadded.blank,
            TypeTree.blank_withLead, hblank]

-- =========================================================== expressions

/-- Two joined operands, without trivia. -/
theorem Expr.blank_joinOperands (left : Expr) (op : LeftPadded BinaryOp)
    (right : Expr) : (Parser.joinOperands left op right).blank =
      .binary "" left.blank (op.blank id) right.blank none := by
  rw [Parser.joinOperands, blank_binary, blank_withLead]

section

variable {R : Spelling Expr} (hR : Respaced Expr.blank R)
include hR

/-- A postfix expression may be respaced if what it nests may. -/
theorem respaced_postfixWith : Respaced Expr.blank (PostfixWith R) := by
  intro us vs e h hw
  induction h generalizing vs with
  | literal h =>
      simp only [SameWords.cons_left, SameWords.nil_left] at hw
      obtain ⟨lead, _, rfl, rfl⟩ := hw
      obtain ⟨e, he, hblank⟩ := readsWord_asLiteral.respaced h lead
      exact ⟨e, .literal he, hblank⟩
  | this =>
      simp only [SameWords.cons_left, SameWords.nil_left] at hw
      obtain ⟨lead, _, rfl, rfl⟩ := hw
      exact ⟨_, .this, rfl⟩
  | name i =>
      simp only [SameWords.cons_left, SameWords.nil_left] at hw
      obtain ⟨lead, _, rfl, rfl⟩ := hw
      exact ⟨_, .name ⟨lead, i.name⟩, rfl⟩
  | parens h =>
      simp only [SameWords.append_left, SameWords.cons_left,
        SameWords.nil_left] at hw
      obtain ⟨lead, _, rfl, vs, _, rfl, hw, after, _, rfl, rfl⟩ := hw
      obtain ⟨e, he, hblank⟩ := hR h hw
      refine ⟨_, .parens he, ?_⟩
      rw [Expr.blank_parens, Expr.blank_parens, RightPadded.blank,
        RightPadded.blank, hblank]
  | new h hargs =>
      simp only [SameWords.append_left, SameWords.cons_left] at hw
      obtain ⟨lead, _, rfl, vs₁, vs₂, rfl, hw₁, hw₂⟩ := hw
      obtain ⟨t, ht, hblank⟩ := respaced_classType h hw₁
      obtain ⟨args, hargs, hblanks⟩ := hR.delimited "(" ")" hargs hw₂
      refine ⟨_, .new ht hargs, ?_⟩
      rw [Expr.blank_new, Expr.blank_new, hblank, hblanks]
  | bareCall i hargs =>
      simp only [SameWords.cons_left] at hw
      obtain ⟨lead, vs, rfl, hw⟩ := hw
      obtain ⟨args, hargs, hblanks⟩ := hR.delimited "(" ")" hargs hw
      refine ⟨_, .bareCall ⟨lead, i.name⟩ hargs, ?_⟩
      rw [Expr.blank_call, Expr.blank_call, hblanks]
  | classLiteral _ ih =>
      simp only [SameWords.append_left, SameWords.cons_left,
        SameWords.nil_left] at hw
      obtain ⟨vs, _, rfl, hw, dot, _, rfl, lead, _, rfl, rfl⟩ := hw
      obtain ⟨e, he, hblank⟩ := ih hw
      refine ⟨_, .classLiteral he, ?_⟩
      rw [Expr.blank_access, Expr.blank_access, Expr.blank_withLead,
        Expr.blank_withLead, hblank]
      rfl
  | access i _ ih =>
      simp only [SameWords.append_left, SameWords.cons_left,
        SameWords.nil_left] at hw
      obtain ⟨vs, _, rfl, hw, dot, _, rfl, lead, _, rfl, rfl⟩ := hw
      obtain ⟨e, he, hblank⟩ := ih hw
      refine ⟨_, .access ⟨lead, i.name⟩ he, ?_⟩
      rw [Expr.blank_access, Expr.blank_access, Expr.blank_withLead,
        Expr.blank_withLead, hblank]
      rfl
  | call i _ hargs ih =>
      simp only [SameWords.append_left, SameWords.cons_left] at hw
      obtain ⟨vs, _, rfl, hw, dot, _, rfl, lead, vs', rfl, hw'⟩ := hw
      obtain ⟨e, he, hblank⟩ := ih hw
      obtain ⟨args, hargs, hblanks⟩ := hR.delimited "(" ")" hargs hw'
      refine ⟨_, .call ⟨lead, i.name⟩ he hargs, ?_⟩
      rw [Expr.blank_call, Expr.blank_call, hblanks, Option.map_some,
        Option.map_some, RightPadded.blank, RightPadded.blank,
        Expr.blank_withLead, Expr.blank_withLead, hblank]
      rfl

/-- An operand may be respaced if what it nests may. -/
theorem respaced_operandWith : Respaced Expr.blank (OperandWith R) := by
  intro us vs e h hw
  induction h generalizing vs with
  | bare h =>
      obtain ⟨e, he, hblank⟩ := respaced_postfixWith hR h hw
      exact ⟨e, .bare he, hblank⟩
  | unary hop _ ih =>
      simp only [SameWords.cons_left] at hw
      obtain ⟨lead, vs, rfl, hw⟩ := hw
      obtain ⟨op, hop, hsame⟩ := readsWord_asUnaryOp.respaced hop lead
      obtain ⟨e, he, hblank⟩ := ih hw
      refine ⟨_, .unary hop he, ?_⟩
      have helement : op.element = _ := (LeftPadded.mk.inj hsame).2
      rw [Expr.blank_unary, Expr.blank_unary, hblank, helement, id]

/-- A binary expression may be respaced if its operands may. -/
theorem respaced_binaryWith (level : Nat) :
    Respaced Expr.blank (BinaryWith R level) := by
  intro us vs e h hw
  induction h generalizing vs with
  | operand h =>
      obtain ⟨e, he, hblank⟩ := respaced_operandWith hR h hw
      exact ⟨e, .operand he, hblank⟩
  | binary hop hle _ _ ihl ihr =>
      simp only [SameWords.append_left, SameWords.cons_left] at hw
      obtain ⟨vs₁, _, rfl, hw₁, lead, vs₂, rfl, hw₂⟩ := hw
      obtain ⟨op, hop, hsame⟩ := readsWord_asBinaryOp.respaced hop lead
      obtain ⟨left, hl, hblank⟩ := ihl hw₁
      obtain ⟨right, hr, hblanks⟩ := ihr hw₂
      have helement : op.element = _ := (LeftPadded.mk.inj hsame).2
      refine ⟨_, .binary hop (by rwa [helement]) (by rwa [helement])
        (by rwa [helement]), ?_⟩
      rw [Expr.blank_joinOperands, Expr.blank_joinOperands, hblank,
        hblanks, hsame]

/-- An expression may be respaced if what it nests may. -/
theorem respaced_expressionWith : Respaced Expr.blank (ExpressionWith R) := by
  intro us vs e h hw
  cases h with
  | binary h =>
      obtain ⟨e, he, hblank⟩ := respaced_binaryWith hR 0 h hw
      exact ⟨e, .binary he, hblank⟩
  | assign h hvalue =>
      simp only [SameWords.append_left, SameWords.cons_left] at hw
      obtain ⟨vs₁, _, rfl, hw₁, lead, vs₂, rfl, hw₂⟩ := hw
      obtain ⟨e, he, hblank⟩ := respaced_postfixWith hR h hw₁
      obtain ⟨value, hvalue, hblanks⟩ := hR hvalue hw₂
      refine ⟨_, .assign he hvalue, ?_⟩
      rw [Expr.blank_assign, Expr.blank_assign, Expr.blank_withLead,
        Expr.blank_withLead, hblank, LeftPadded.blank,
        LeftPadded.blank, hblanks]

end

theorem respaced_exprAt (n : Nat) : Respaced Expr.blank (SpellsExprAt n) := by
  induction n with
  | zero => exact fun _ _ _ h _ => h.elim
  | succ n ih => exact respaced_expressionWith ih

/-- Expressions may be respaced: by induction on how deep they nest. -/
theorem respaced_expr : Respaced Expr.blank SpellsExpr := by
  rintro us vs e ⟨n, h⟩ hw
  obtain ⟨e', he, hblank⟩ := respaced_exprAt n h hw
  exact ⟨e', ⟨n, he⟩, hblank⟩

-- ========================================================== declarations

/-- Modifiers may be respaced, the arguments of annotations too. -/
theorem respaced_modifier : Respaced Modifier.blank SpellsModifier := by
  intro us vs m h hw
  cases h with
  | word h =>
      simp only [SameWords.cons_left, SameWords.nil_left] at hw
      obtain ⟨lead, _, rfl, rfl⟩ := hw
      obtain ⟨m, hm, hblank⟩ := readsWord_asModifierWord.respaced h lead
      exact ⟨m, .word hm, hblank⟩
  | marker h =>
      simp only [SameWords.cons_left] at hw
      obtain ⟨lead, vs, rfl, hw⟩ := hw
      obtain ⟨n, hn, hblank⟩ := respaced_name h hw
      refine ⟨_, .marker hn, ?_⟩
      rw [Modifier.blank_annotated, Modifier.blank_annotated, hblank]
  | called h hargs =>
      simp only [SameWords.append_left, SameWords.cons_left] at hw
      obtain ⟨lead, _, rfl, vs₁, vs₂, rfl, hw₁, hw₂⟩ := hw
      obtain ⟨n, hn, hblank⟩ := respaced_name h hw₁
      obtain ⟨args, hargs, hblanks⟩ := respaced_expr.delimited "(" ")" hargs hw₂
      refine ⟨_, .called hn hargs, ?_⟩
      rw [Modifier.blank_annotated, Modifier.blank_annotated, hblank,
        Option.map_some, Option.map_some, hblanks]

theorem respaced_declarator : Respaced Variable.blank SpellsDeclarator := by
  intro us vs v h hw
  cases h with
  | bare i =>
      simp only [SameWords.cons_left, SameWords.nil_left] at hw
      obtain ⟨lead, _, rfl, rfl⟩ := hw
      exact ⟨_, .bare ⟨lead, i.name⟩, rfl⟩
  | initialized i h =>
      simp only [SameWords.cons_left] at hw
      obtain ⟨lead, _, rfl, before, vs, rfl, hw⟩ := hw
      obtain ⟨e, he, hblank⟩ := respaced_expr h hw
      refine ⟨_, .initialized ⟨lead, i.name⟩ he, ?_⟩
      simp only [Variable.blank_eq, Option.map_some, LeftPadded.blank, hblank]

theorem respaced_declaration : Respaced Variables.blank SpellsDeclaration := by
  intro us vs d h hw
  obtain ⟨hms, ht, hds, hled⟩ := h
  obtain ⟨lead, ws, hled, hw⟩ := hled.respaced hw
  simp only [SameWords.append_left] at hw
  obtain ⟨_, vs₃, rfl, ⟨vs₁, vs₂, rfl, hw₁, hw₂⟩, hw₃⟩ := hw
  obtain ⟨ms, hms, hblank₁⟩ := respaced_modifier.many hms hw₁
  obtain ⟨t, ht, hblank₂⟩ := respaced_type ht hw₂
  obtain ⟨ds, hds, hblank₃⟩ := respaced_declarator.padded "," hds hw₃
  exact ⟨_, .mk hms ht hds hled, by
    simp only [Variables.blank_eq, hblank₁, hblank₂, hblank₃]⟩

/-- A parameter may be respaced if its type may. -/
theorem respaced_parameterWith {R : Spelling TypeTree}
    (hR : Respaced TypeTree.blank R) :
    Respaced Variables.blank (ParameterWith R) := by
  intro us vs d h hw
  obtain ⟨i, hms, ht, hled⟩ := h
  obtain ⟨lead, ws, hled, hw⟩ := hled.respaced hw
  simp only [SameWords.append_left, SameWords.cons_left,
    SameWords.nil_left] at hw
  obtain ⟨_, _, rfl, ⟨vs₁, vs₂, rfl, hw₁, hw₂⟩, last, _, rfl, rfl⟩ := hw
  obtain ⟨ms, hms, hblank₁⟩ := respaced_modifier.many hms hw₁
  obtain ⟨t, ht, hblank₂⟩ := hR ht hw₂
  refine ⟨_, .mk ⟨last, i.name⟩ hms ht hled, ?_⟩
  simp only [Variables.blank_eq, hblank₁, hblank₂]
  rfl

-- ======================================================== runs of conditions

/-- A head without trivia. -/
def Head.blank (h : Head) : Head :=
  ⟨"", h.loops, h.condition.blank Expr.blank⟩

namespace Branch

/-- A branch without trivia. -/
def blank (b : Branch) : Branch :=
  ⟨"", b.heads.map Head.blank, b.body.blank Stmt.blank⟩

/-- Trivia open no branches. -/
theorem openings_blank (heads : List Head) :
    openings (heads.map Head.blank) = openings heads := by
  rw [openings, List.countP_map]
  rfl

/-- Whether branches fit is no matter of trivia. -/
theorem fits_blank (k : Nat) (bs : List Branch) :
    fits k (bs.map blank) = fits k bs := by
  induction bs generalizing k with
  | nil => cases k <;> rfl
  | cons b bs ih =>
      cases k with
      | zero => rfl
      | succ k =>
          show fits (k + openings (b.heads.map Head.blank)) (bs.map blank) = _
          rw [openings_blank, ih]
          rfl

/-- The branches are cut at the same place without trivia. -/
theorem lastCut_blank (k : Nat) (before bs : List Branch) :
    lastCut k (before.map blank) (bs.map blank) =
      (lastCut k before bs).map fun cut =>
        (cut.1.map blank, cut.2.1.blank, cut.2.2.map blank) := by
  induction bs generalizing before with
  | nil => rfl
  | cons b bs ih =>
      have hrec := ih (before ++ [b])
      rw [List.map_append] at hrec
      have hb : openings b.blank.heads = openings b.heads :=
        openings_blank b.heads
      simp only [List.map_cons, lastCut, fits_blank, hb]
      rw [show [b.blank] = [b].map blank from rfl, hrec]
      cases lastCut k (before ++ [b]) bs with
      | some cut => rfl
      | none =>
          dsimp only [Option.map_none]
          split <;> rfl

variable {head : Head} {rest : List Head} {branches : List Branch}
  (body : RightPadded Stmt)

/-- A condition whose run leaves no branch open has none of its own. -/
theorem shape_of_lastCut_eq_none (hloops : ¬head.loops = true)
    (hcut : lastCut (openings rest) [] branches = none) :
    shape (head :: rest) body branches =
      ⟨.ifElse head.lead head.condition (shape rest body branches) none,
        ""⟩ := by
  rw [shape, if_neg hloops]
  split
  · rfl
  · simp_all

/-- A condition takes the last branch its run leaves open. -/
theorem shape_of_lastCut_eq_some (hloops : ¬head.loops = true)
    {before after : List Branch} {b : Branch}
    (hcut : lastCut (openings rest) [] branches = some (before, b, after)) :
    shape (head :: rest) body branches =
      ⟨.ifElse head.lead head.condition (shape rest body before)
        (some ⟨b.elseLead, shape b.heads b.body after⟩), ""⟩ := by
  rw [shape, if_neg hloops]
  split
  · simp_all
  · simp_all

/-- A run of conditions without trivia has the same shape. -/
theorem shape_blank (heads : List Head) (body : RightPadded Stmt)
    (branches : List Branch) : (shape heads body branches).blank Stmt.blank =
      shape (heads.map Head.blank) (body.blank Stmt.blank)
        (branches.map blank) := by
  fun_induction shape heads body branches with
  | case1 body branches => rw [List.map_nil, shape]
  | case2 body branches head rest hloops ih =>
      rw [List.map_cons, shape,
        if_pos (show head.blank.loops = true from hloops), ← ih]
      rfl
  | case3 body branches head rest hloops hcut ih =>
      have hcut' := lastCut_blank (openings rest) [] branches
      rw [hcut, ← openings_blank] at hcut'
      rw [List.map_cons,
        shape_of_lastCut_eq_none _ (show ¬head.blank.loops = true from hloops)
          hcut', ← ih]
      simp only [RightPadded.blank, Stmt.blank_ifElse,
        Option.map_none, Head.blank]
  | case4 body branches head rest hloops before b after hcut ihbefore ihafter =>
      have hcut' := lastCut_blank (openings rest) [] branches
      rw [hcut, ← openings_blank] at hcut'
      rw [List.map_cons,
        shape_of_lastCut_eq_some _ (show ¬head.blank.loops = true from hloops)
          hcut', ← ihbefore]
      simp only [RightPadded.blank, Stmt.blank_ifElse, Option.map_some,
        Head.blank, Else.blank]
      rw [show (b.blank).heads = b.heads.map Head.blank from rfl,
        show (b.blank).body = b.body.blank Stmt.blank from rfl, ← ihafter]
      rfl

end Branch

-- ============================================================ statements

theorem respaced_condition :
    Respaced (Parens.blank Expr.blank) SpellsCondition := by
  intro us vs c h hw
  obtain ⟨h⟩ := h
  simp only [SameWords.append_left, SameWords.cons_left,
    SameWords.nil_left] at hw
  obtain ⟨lead, _, rfl, vs, _, rfl, hw, after, _, rfl, rfl⟩ := hw
  obtain ⟨e, he, hblank⟩ := respaced_expr h hw
  exact ⟨_, .mk he, by simp only [Parens.blank, RightPadded.blank, hblank]⟩

theorem respaced_head : Respaced Head.blank SpellsHead := by
  intro us vs c h hw
  cases h with
  | whileLoop h =>
      simp only [SameWords.cons_left] at hw
      obtain ⟨lead, vs, rfl, hw⟩ := hw
      obtain ⟨c, hc, hblank⟩ := respaced_condition h hw
      exact ⟨_, .whileLoop hc, by simp only [Head.blank, hblank]⟩
  | ifElse h =>
      simp only [SameWords.cons_left] at hw
      obtain ⟨lead, vs, rfl, hw⟩ := hw
      obtain ⟨c, hc, hblank⟩ := respaced_condition h hw
      exact ⟨_, .ifElse hc, by simp only [Head.blank, hblank]⟩

/-- Whether tokens spell a declaration does not depend on trivia. -/
theorem not_spellsDeclaration_respaced {us vs : List Token}
    (h : ∀ d, ¬SpellsDeclaration us d) (hw : SameWords us vs) (d : Variables) :
    ¬SpellsDeclaration vs d := by
  intro hd
  obtain ⟨d', hd', -⟩ := respaced_declaration hd hw.symm
  exact h d' hd'

section

variable {R : Spelling (RightPadded Stmt)}
  (hR : Respaced (RightPadded.blank Stmt.blank) R)
include hR

/-- A clause may be respaced if the statements of its body may. -/
theorem respaced_catchWith : Respaced Catch.blank (CatchWith R) := by
  intro us vs c h hw
  obtain ⟨hd, hb⟩ := h
  simp only [SameWords.append_left, SameWords.cons_left] at hw
  obtain ⟨lead, _, rfl, opening, _, rfl, vs₁, _, rfl, hw₁, closing, vs₂,
      rfl, hw₂⟩ := hw
  obtain ⟨d, hd, hblank₁⟩ := respaced_parameterWith respaced_catchType hd hw₁
  obtain ⟨b, hb, hblank₂⟩ := hR.braced hb hw₂
  exact ⟨_, .mk hd hb, by
    simp only [Catch.blank, Parens.blank, RightPadded.blank, hblank₁, hblank₂]⟩

/-- The last block may be respaced if its statements may. -/
theorem respaced_finallyWith :
    Respaced (Option.map (LeftPadded.blank (Block.blank Stmt.blank)))
      (FinallyWith R) := by
  intro us vs f h hw
  cases h with
  | none =>
      obtain rfl := SameWords.nil_left.1 hw
      exact ⟨_, .none, rfl⟩
  | some hb =>
      simp only [SameWords.cons_left] at hw
      obtain ⟨before, vs, rfl, hw⟩ := hw
      obtain ⟨b, hb, hblank⟩ := hR.braced hb hw
      exact ⟨_, .some hb,
        by simp only [Option.map_some, LeftPadded.blank, hblank]⟩

/-- A statement without branches may be respaced if what it nests may. -/
theorem respaced_plainWith :
    Respaced (RightPadded.blank Stmt.blank) (PlainWith R) := by
  intro us vs s h hw
  cases h with
  | block hb =>
      obtain ⟨b, hb, hblank⟩ := hR.braced hb hw
      exact ⟨_, .block hb,
        by simp only [RightPadded.blank, Stmt.blank_block, hblank]⟩
  | empty =>
      simp only [SameWords.cons_left, SameWords.nil_left] at hw
      obtain ⟨lead, _, rfl, rfl⟩ := hw
      exact ⟨_, .empty, rfl⟩
  | tryCatch hb hcs hf =>
      simp only [SameWords.append_left, SameWords.cons_left] at hw
      obtain ⟨lead, _, rfl, _, vs₃, rfl, ⟨vs₁, vs₂, rfl, hw₁, hw₂⟩, hw₃⟩ := hw
      obtain ⟨b, hb, hblank₁⟩ := hR.braced hb hw₁
      obtain ⟨cs, hcs, hblank₂⟩ := (respaced_catchWith hR).many hcs hw₂
      obtain ⟨f, hf, hblank₃⟩ := respaced_finallyWith hR hf hw₃
      refine ⟨_, .tryCatch hb hcs hf, ?_⟩
      simp only [RightPadded.blank, Stmt.blank_tryCatch, Try.blank, hblank₁,
        hblank₂, hblank₃]
  | throwing he =>
      simp only [SameWords.append_left, SameWords.cons_left,
        SameWords.nil_left] at hw
      obtain ⟨lead, _, rfl, vs, _, rfl, hw, after, _, rfl, rfl⟩ := hw
      obtain ⟨e, he, hblank⟩ := respaced_expr he hw
      exact ⟨_, .throwing he,
        by simp only [RightPadded.blank, Stmt.blank_throwing, hblank]⟩
  | returningNone =>
      simp only [SameWords.cons_left, SameWords.nil_left] at hw
      obtain ⟨lead, _, rfl, after, _, rfl, rfl⟩ := hw
      exact ⟨_, .returningNone, rfl⟩
  | returning he =>
      simp only [SameWords.append_left, SameWords.cons_left,
        SameWords.nil_left] at hw
      obtain ⟨lead, _, rfl, vs, _, rfl, hw, after, _, rfl, rfl⟩ := hw
      obtain ⟨e, he, hblank⟩ := respaced_expr he hw
      refine ⟨_, .returning he, ?_⟩
      simp only [RightPadded.blank, Stmt.blank_returning,
        Option.map_some, hblank]
  | declaration hd =>
      simp only [SameWords.append_left, SameWords.cons_left,
        SameWords.nil_left] at hw
      obtain ⟨vs, _, rfl, hw, after, _, rfl, rfl⟩ := hw
      obtain ⟨d, hd, hblank⟩ := respaced_declaration hd hw
      exact ⟨_, .declaration hd,
        by simp only [RightPadded.blank, Stmt.blank_declaration, hblank]⟩
  | expr he hnot =>
      simp only [SameWords.append_left, SameWords.cons_left,
        SameWords.nil_left] at hw
      obtain ⟨vs, _, rfl, hw, after, _, rfl, rfl⟩ := hw
      obtain ⟨e, he, hblank⟩ := respaced_expr he hw
      refine ⟨_, .expr he (not_spellsDeclaration_respaced hnot hw), ?_⟩
      simp only [RightPadded.blank, Stmt.blank_expr, hblank]

/-- A branch may be respaced if its statements may. -/
theorem respaced_branchWith : Respaced Branch.blank (BranchWith R) := by
  intro us vs b h hw
  obtain ⟨hheads, hbody⟩ := h
  simp only [SameWords.append_left, SameWords.cons_left] at hw
  obtain ⟨lead, _, rfl, vs₁, vs₂, rfl, hw₁, hw₂⟩ := hw
  obtain ⟨heads, hheads, hblank₁⟩ := respaced_head.many hheads hw₁
  obtain ⟨body, hbody, hblank₂⟩ := respaced_plainWith hR hbody hw₂
  exact ⟨_, .mk hheads hbody, by simp only [Branch.blank, hblank₁, hblank₂]⟩

/-- A statement may be respaced if what it nests may: the words alone tell
which branch belongs to which head. -/
theorem respaced_statementWith :
    Respaced (RightPadded.blank Stmt.blank) (StatementWith R) := by
  intro us vs s h hw
  obtain ⟨hheads, hbody, hbranches, hfits⟩ := h
  simp only [SameWords.append_left] at hw
  obtain ⟨_, vs₃, rfl, ⟨vs₁, vs₂, rfl, hw₁, hw₂⟩, hw₃⟩ := hw
  obtain ⟨heads, hheads, hblank₁⟩ := respaced_head.many hheads hw₁
  obtain ⟨body, hbody, hblank₂⟩ := respaced_plainWith hR hbody hw₂
  obtain ⟨branches, hbranches, hblank₃⟩ :=
    (respaced_branchWith hR).many hbranches hw₃
  refine ⟨_, .mk hheads hbody hbranches ?_, ?_⟩
  · rwa [← Branch.fits_blank, ← Branch.openings_blank, hblank₁, hblank₃,
      Branch.openings_blank, Branch.fits_blank]
  · rw [Branch.shape_blank, Branch.shape_blank, hblank₁, hblank₂, hblank₃]

end

theorem respaced_stmtAt (n : Nat) :
    Respaced (RightPadded.blank Stmt.blank) (SpellsStmtAt n) := by
  induction n with
  | zero => exact fun _ _ _ h _ => h.elim
  | succ n ih => exact respaced_statementWith ih

/-- Statements may be respaced: by induction on how deep they nest. -/
theorem respaced_stmt : Respaced (RightPadded.blank Stmt.blank) SpellsStmt := by
  rintro us vs s ⟨n, h⟩ hw
  obtain ⟨s', hs, hblank⟩ := respaced_stmtAt n h hw
  exact ⟨s', ⟨n, hs⟩, hblank⟩

-- =============================================================== members

theorem respaced_parameters :
    Respaced (Container.blank Variables.blank)
      (Delimited (ParameterWith SpellsType) "(" ")") :=
  (respaced_parameterWith respaced_type).delimited "(" ")"

/-- A method after its name: what came before it need only be the same without
trivia. -/
theorem MethodWith.respaced {lead lead' : Trivia} {ms ms' : List Modifier}
    {t : Option TypeTree} {i : Ident} {mayLackBody : Bool} {us vs : List Token}
    {m : RightPadded Member} (h : MethodWith lead ms t i mayLackBody us m)
    (t' : Option TypeTree) (i' : Ident)
    (hms : ms'.map Modifier.blank = ms.map Modifier.blank)
    (ht : t'.map TypeTree.blank = t.map TypeTree.blank)
    (hi : i'.blank = i.blank) (hw : SameWords us vs) :
    ∃ m', MethodWith lead' ms' t' i' mayLackBody vs m' ∧
      m'.blank Member.blank = m.blank Member.blank := by
  cases h with
  | bodied hparams hthrows hbody =>
      simp only [SameWords.append_left] at hw
      obtain ⟨_, vs₃, rfl, ⟨vs₁, vs₂, rfl, hw₁, hw₂⟩, hw₃⟩ := hw
      obtain ⟨params, hparams, hblank₁⟩ := respaced_parameters hparams hw₁
      obtain ⟨throws, hthrows, hblank₂⟩ :=
        respaced_classType.afterKeyword "throws" hthrows hw₂
      obtain ⟨body, hbody, hblank₃⟩ := respaced_stmt.braced hbody hw₃
      refine ⟨_, .bodied hparams hthrows hbody, ?_⟩
      simp only [RightPadded.blank, Member.blank_method, Method.blank_eq,
        Option.map_some, hms, ht, hi, hblank₁, hblank₂, hblank₃]
  | abstract hmay hparams hthrows =>
      simp only [SameWords.append_left, SameWords.cons_left,
        SameWords.nil_left] at hw
      obtain ⟨_, _, rfl, ⟨vs₁, vs₂, rfl, hw₁, hw₂⟩, after, _, rfl, rfl⟩ := hw
      obtain ⟨params, hparams, hblank₁⟩ := respaced_parameters hparams hw₁
      obtain ⟨throws, hthrows, hblank₂⟩ :=
        respaced_classType.afterKeyword "throws" hthrows hw₂
      refine ⟨_, .abstract hmay hparams hthrows, ?_⟩
      simp only [RightPadded.blank, Member.blank_method, Method.blank_eq,
        Option.map_none, hms, ht, hi, hblank₁, hblank₂]

section

variable {R : Spelling (RightPadded Member)}
  (hR : Respaced (RightPadded.blank Member.blank) R)
  {lead lead' : Trivia} {ms ms' : List Modifier}
  (hms : ms'.map Modifier.blank = ms.map Modifier.blank) {us vs : List Token}
include hR hms

/-- A class may be respaced behind modifiers that have been. -/
theorem ClassWith.respaced {kind kind' : LeftPadded ClassKind} {c : JavaClass}
    (hkind : kind'.element = kind.element) (h : ClassWith R lead ms kind us c)
    (hw : SameWords us vs) :
    ∃ c', ClassWith R lead' ms' kind' vs c' ∧ c'.blank = c.blank := by
  obtain ⟨i, hextends, himplements, hbody⟩ := h
  simp only [SameWords.append_left, SameWords.cons_left] at hw
  obtain ⟨last, _, rfl, _, vs₃, rfl, ⟨vs₁, vs₂, rfl, hw₁, hw₂⟩, hw₃⟩ := hw
  obtain ⟨extends?, hextends, hblank₁⟩ :=
    respaced_classType.afterKeyword "extends" hextends hw₁
  obtain ⟨implements?, himplements, hblank₂⟩ :=
    respaced_classType.afterKeyword "implements" himplements hw₂
  obtain ⟨body, hbody, hblank₃⟩ := hR.braced hbody hw₃
  refine ⟨_, .mk ⟨last, i.name⟩ hextends himplements hbody, ?_⟩
  simp only [ClassDecl.blank_eq, hms, hkind, hblank₁, hblank₂, hblank₃]
  rfl

/-- A member may be respaced behind modifiers that have been. -/
theorem MemberAfter.respaced {m : RightPadded Member}
    (h : MemberAfter R lead ms us m) (hw : SameWords us vs) :
    ∃ m', MemberAfter R lead' ms' vs m' ∧
    m'.blank Member.blank = m.blank Member.blank := by
  cases h with
  | nested hkind hc =>
      simp only [SameWords.cons_left] at hw
      obtain ⟨before, vs, rfl, hw⟩ := hw
      obtain ⟨kind, hkind, hsame⟩ := readsWord_asClassKind.respaced hkind before
      obtain ⟨c, hc, hblank⟩ :=
        hc.respaced hR hms (LeftPadded.mk.inj hsame).2 hw
      exact ⟨_, .nested hkind hc, by
        simp only [RightPadded.blank, Member.blank_nested, hblank]⟩
  | void i hm =>
      simp only [SameWords.cons_left] at hw
      obtain ⟨before, _, rfl, last, vs, rfl, hw⟩ := hw
      obtain ⟨m, hm, hblank⟩ :=
        hm.respaced (some (.primitive before .void none)) ⟨last, i.name⟩ hms rfl
        rfl hw
      exact ⟨m, .void ⟨last, i.name⟩ hm, hblank⟩
  | constructor i hm =>
      simp only [SameWords.cons_left] at hw
      obtain ⟨last, vs, rfl, hw⟩ := hw
      obtain ⟨m, hm, hblank⟩ := hm.respaced none ⟨last, i.name⟩ hms rfl rfl hw
      exact ⟨m, .constructor ⟨last, i.name⟩ hm, hblank⟩
  | method i ht hm =>
      simp only [SameWords.append_left, SameWords.cons_left] at hw
      obtain ⟨vs₁, _, rfl, hw₁, last, vs₂, rfl, hw₂⟩ := hw
      obtain ⟨t, ht, hblank₁⟩ := respaced_type ht hw₁
      obtain ⟨m, hm, hblank₂⟩ :=
        hm.respaced (some t) ⟨last, i.name⟩ hms (congrArg some hblank₁) rfl hw₂
      exact ⟨m, .method ⟨last, i.name⟩ ht hm, hblank₂⟩
  | field ht hds =>
      simp only [SameWords.append_left, SameWords.cons_left,
        SameWords.nil_left] at hw
      obtain ⟨_, _, rfl, ⟨vs₁, vs₂, rfl, hw₁, hw₂⟩, after, _, rfl, rfl⟩ := hw
      obtain ⟨t, ht, hblank₁⟩ := respaced_type ht hw₁
      obtain ⟨ds, hds, hblank₂⟩ := respaced_declarator.padded "," hds hw₂
      refine ⟨_, .field ht hds, ?_⟩
      simp only [RightPadded.blank, Member.blank_field, Variables.blank_eq, hms,
        hblank₁, hblank₂]

end

theorem respaced_memberAt (n : Nat) :
    Respaced (RightPadded.blank Member.blank) (SpellsMemberAt n) := by
  induction n with
  | zero => exact fun _ _ _ h _ => h.elim
  | succ n ih =>
      intro us vs m h hw
      obtain ⟨hms, hm, hled⟩ := h
      obtain ⟨lead, ws, hled, hw⟩ := hled.respaced hw
      simp only [SameWords.append_left] at hw
      obtain ⟨vs₁, vs₂, rfl, hw₁, hw₂⟩ := hw
      obtain ⟨ms, hms, hblank₁⟩ := respaced_modifier.many hms hw₁
      obtain ⟨m, hm, hblank₂⟩ := hm.respaced ih hblank₁ hw₂
      exact ⟨m, .mk hms hm hled, hblank₂⟩

/-- Members may be respaced: by induction on how deep classes nest. -/
theorem respaced_member :
    Respaced (RightPadded.blank Member.blank) SpellsMember := by
  rintro us vs m ⟨n, h⟩ hw
  obtain ⟨m', hm, hblank⟩ := respaced_memberAt n h hw
  exact ⟨m', ⟨n, hm⟩, hblank⟩

-- ================================================================= files

theorem respaced_topClass : Respaced ClassDecl.blank SpellsTopClass := by
  intro us vs c h hw
  obtain ⟨hms, hkind, hc, hled⟩ := h
  obtain ⟨lead, ws, hled, hw⟩ := hled.respaced hw
  simp only [SameWords.append_left, SameWords.cons_left] at hw
  obtain ⟨vs₁, _, rfl, hw₁, before, vs₂, rfl, hw₂⟩ := hw
  obtain ⟨ms, hms, hblank₁⟩ := respaced_modifier.many hms hw₁
  obtain ⟨kind, hkind, hsame⟩ := readsWord_asClassKind.respaced hkind before
  obtain ⟨c, hc, hblank₂⟩ :=
    hc.respaced respaced_member hblank₁ (LeftPadded.mk.inj hsame).2 hw₂
  exact ⟨c, .mk hms hkind hc hled, hblank₂⟩

theorem respaced_package :
    Respaced (Option.map (RightPadded.blank Package.blank)) SpellsPackage := by
  intro us vs p h hw
  cases h with
  | none =>
      obtain rfl := SameWords.nil_left.1 hw
      exact ⟨_, .none, rfl⟩
  | some h =>
      simp only [SameWords.append_left, SameWords.cons_left,
        SameWords.nil_left] at hw
      obtain ⟨lead, _, rfl, vs, _, rfl, hw, after, _, rfl, rfl⟩ := hw
      obtain ⟨n, hn, hblank⟩ := respaced_name h hw
      exact ⟨_, .some hn, by
        simp only [Option.map_some, RightPadded.blank, Package.blank, hblank]⟩

theorem respaced_static : Respaced (Option.map fun _ => "") SpellsStatic := by
  intro us vs o h hw
  cases h with
  | none =>
      obtain rfl := SameWords.nil_left.1 hw
      exact ⟨_, .none, rfl⟩
  | some =>
      simp only [SameWords.cons_left, SameWords.nil_left] at hw
      obtain ⟨lead, _, rfl, rfl⟩ := hw
      exact ⟨_, .some, rfl⟩

theorem respaced_import :
    Respaced (RightPadded.blank Import.blank) SpellsImport := by
  intro us vs i h hw
  obtain ⟨hstatic, h⟩ := h
  simp only [SameWords.append_left, SameWords.cons_left,
    SameWords.nil_left] at hw
  obtain ⟨lead, _, rfl, _, _, rfl, ⟨vs₁, vs₂, rfl, hw₁, hw₂⟩, after, _,
      rfl, rfl⟩ := hw
  obtain ⟨static?, hstatic, hblank₁⟩ := respaced_static hstatic hw₁
  obtain ⟨n, hn, hblank₂⟩ := respaced_importName h hw₂
  exact ⟨_, .mk hstatic hn,
    by simp only [RightPadded.blank, Import.blank, hblank₁, hblank₂]⟩

/-- Tokens with the same words spell the same files, whatever the trivia at
the end. -/
theorem SpellsUnit.respaced {close close' : Trivia} {path : Option String}
    {us vs : List Token} {cu : CompilationUnit}
    (h : SpellsUnit close path us cu) (hw : SameWords us vs) :
    ∃ cu', SpellsUnit close' path vs cu' ∧ cu'.blank = cu.blank := by
  cases h with
  | empty =>
      obtain rfl := SameWords.nil_left.1 hw
      exact ⟨_, .empty, rfl⟩
  | mk hparts hled =>
      obtain ⟨hp, himports, hclasses⟩ := hparts
      obtain ⟨lead, ws, hled, hw⟩ := hled.respaced hw
      simp only [SameWords.append_left] at hw
      obtain ⟨_, vs₃, rfl, ⟨vs₁, vs₂, rfl, hw₁, hw₂⟩, hw₃⟩ := hw
      obtain ⟨p, hp, hblank₁⟩ := respaced_package hp hw₁
      obtain ⟨imports, himports, hblank₂⟩ := respaced_import.many himports hw₂
      obtain ⟨classes, hclasses, hblank₃⟩ := respaced_topClass.many hclasses hw₃
      refine ⟨_, .mk (.mk hp himports hclasses) hled, ?_⟩
      simp only [CompilationUnit.blank_eq, hblank₁, hblank₂, hblank₃]

end JavaRefit
