/-
The words that a tree is made of are those of its tokens.

Some nodes are a single word: a name, a literal, the keyword of a
primitive type or of a modifier. They are met in a walk in the order of
the text, each of them once (`Spelling.Yields`).

Whether a token is such a node is known from the token in front: `class`
and a star are names behind a point, and `static` behind `import` is part
of the import. Points and `import` are always followed by such a word. So
what rules spell begins behind some other token and ends with one, and the
words of the parts are put in a row (`Token.Yields.append`).

Chain: after the rules; read where the words of a file are asked for.
-/
import JavaRefit.Proofs.Grammar.Derived
import JavaRefit.Proofs.Tree.Lead
import JavaRefit.Tree.Walk

namespace JavaRefit

open Spelling

-- ================================================================= words

/-- The kind and the text of a node that is a single word. -/
def Node.word? : Node → Option (NodeKind × String)
  | .ident i => some (.identifier, i.name)
  | .name (.simple i _) => some (.identifier, i.name)
  | .expr (.ident i _) => some (.identifier, i.name)
  | .expr (.literal _ text _) => some (.literal, text)
  | .typeTree (.primitive _ p _) => some (.primitive, p.text)
  | .modifier (.keyword _ word) => some (.modifier, word)
  | _ => none

/-- The nodes that are single words. -/
def Node.words (ns : List Node) : List (NodeKind × String) :=
  ns.filterMap word?

namespace Word

/-- The kind of the node that the word is behind another word. -/
def kindAfter? (before : Option Word) : Word → Option NodeKind
  | name _ => some .identifier
  | literal _ => some .literal
  | symbol s => if s = "*" ∧ before = some (.symbol ".")
        then some .identifier else none
  | keyword s =>
    if s = "this" then some .identifier
    else if s = "class" then if before = some (.symbol ".")
      then some .identifier else none
    else if Token.literalWords.contains s then some .literal
    else if s = "void" ∨ Token.primitiveWords.contains s then some .primitive
    else if Token.modifierWords.contains s ∧
      ¬(s = "static" ∧ before = some (.keyword "import")) then
      some .modifier
    else none

/-- Behind the word any word is what it is on its own. -/
def isPlain (before : Option Word) : Bool :=
  before != some (.symbol ".") && before != some (.keyword "import")

/-- On its own the word is a node of that kind or none, and so is any word
behind it. -/
def stands (kind? : Option NodeKind) (w : Word) : Bool :=
  w.kindAfter? none == kind? && isPlain (some w)

/-- After a plain word a word has the kind it has at the beginning. -/
theorem kindAfter?_of_isPlain {before : Option Word} (h : isPlain before = true)
    (w : Word) : w.kindAfter? before = w.kindAfter? none := by
  simp only [isPlain, Bool.and_eq_true, bne_iff_ne] at h
  cases w <;> simp [kindAfter?, h.1, h.2]

end Word

open Word (isPlain)

namespace Token

/-- The tokens behind a word that are nodes of their own. -/
def wordsAfter : Option Word → List Token → List (NodeKind × String)
  | _, [] => []
  | before, t :: ts =>
    ((t.word.kindAfter? before).map (·, t.word.text)).toList ++
      wordsAfter (some t.word) ts

/-- The tokens are made up of the words, and decide nothing about what comes
after them. -/
def Yields (us : List Token) (ws : List (NodeKind × String)) : Prop :=
  ∀ before, isPlain before = true → ∃ after, isPlain after = true ∧
    ∀ rest, wordsAfter before (us ++ rest) = ws ++ wordsAfter after rest

namespace Yields

variable {us vs : List Token} {xs ys : List (NodeKind × String)} {t : Token}
  {lead : Trivia}

theorem nil : Yields [] [] :=
  fun before h => ⟨before, h, fun _ => rfl⟩

/-- What two runs yield, one behind the other: no word looks back past a plain
one. -/
theorem append (hu : Yields us xs) (hv : Yields vs ys) :
    Yields (us ++ vs) (xs ++ ys) := by
  intro before h
  obtain ⟨between, hbetween, hu⟩ := hu before h
  obtain ⟨after, hafter, hv⟩ := hv between hbetween
  refine ⟨after, hafter, fun rest => ?_⟩
  rw [List.append_assoc, hu, hv, List.append_assoc]

/-- A word that stands by itself yields its kind, if it has one. -/
theorem single (kind? : Option NodeKind) (h : t.word.stands kind? = true) :
    Yields [t] (kind?.map (·, t.word.text)).toList := by
  simp only [Word.stands, Bool.and_eq_true, beq_iff_eq] at h
  refine fun before hbefore => ⟨some t.word, h.2, fun rest => ?_⟩
  rw [List.singleton_append, wordsAfter,
    Word.kindAfter?_of_isPlain hbefore, h.1]

/-- A word without a kind yields nothing. -/
theorem silent (h : t.word.stands none = true) : Yields [t] [] :=
  single none h

theorem name (i : Ident) :
    Yields [⟨i.lead, .name i.name⟩] [(.identifier, i.name)] :=
  single (some .identifier) rfl

/-- A point and the word behind it. -/
theorem dot {k : NodeKind} (hkind : t.word.kindAfter? (some (.symbol ".")) =
    some k) (hplain : isPlain (some t.word) = true) :
    Yields [⟨lead, .symbol "."⟩, t] [(k, t.word.text)] := by
  refine fun before h => ⟨some t.word, hplain, fun rest => ?_⟩
  have hdot : (Word.symbol ".").kindAfter? before = none := by
    rw [Word.kindAfter?_of_isPlain h]
    rfl
  rw [List.cons_append, List.singleton_append, wordsAfter, wordsAfter,
    hdot, hkind]
  rfl

/-- A word behind a dot yields an identifier. -/
theorem dotName (dot : Trivia) (i : Ident) :
    Yields [⟨dot, .symbol "."⟩, ⟨i.lead, .name i.name⟩]
      [(.identifier, i.name)] :=
  Yields.dot (t := ⟨i.lead, .name i.name⟩) rfl rfl

/-- A silent token in front of others. -/
theorem cons (ht : t.word.stands none = true) (hu : Yields us xs) :
    Yields (t :: us) xs :=
  (silent ht).append hu

/-- Silent tokens behind others. -/
theorem behind (hu : Yields us xs) (hv : Yields vs []) :
    Yields (us ++ vs) xs := by
  have h := hu.append hv
  rwa [List.append_nil] at h

/-- A word without a kind may be added. -/
theorem concat (hu : Yields us xs) (ht : t.word.stands none = true) :
    Yields (us ++ [t]) xs :=
  hu.behind (silent ht)

/-- Trivia taken off the first token. -/
theorem led (hled : Led lead us vs) (hu : Yields us xs) : Yields vs xs := by
  cases hled
  exact hu

/-- Some tokens taken as a whole. -/
theorem wordsAfter_eq {before : Option Word} (hbefore : isPlain before = true)
    (h : Yields us xs) : wordsAfter before us = xs := by
  obtain ⟨after, -, h⟩ := h before hbefore
  have hwhole := h []
  rwa [List.append_nil, wordsAfter, List.append_nil] at hwhole

end Yields

end Token

/-- The words of two runs of nodes. -/
theorem Node.words_append (ns ms : List Node) :
    words (ns ++ ms) = words ns ++ words ms :=
  List.filterMap_append

theorem Node.words_cons_none {n : Node} (h : n.word? = none) (ns : List Node) :
    words (n :: ns) = words ns :=
  List.filterMap_cons_none h

open Node (words words_append words_cons_none)

/-- What is spelled has the words of its tokens, in that order. -/
def Spelling.Yields {α : Type} (R : Spelling α) (walk : α → List Node) : Prop :=
  ∀ ⦃us a⦄, R us a → Token.Yields us (words (walk a))

-- ================================================================= lists

section

variable {α : Type} {walk : α → List Node} {R : Spelling α} (hR : R.Yields walk)
include hR

/-- A row of elements yields the words of each. -/
theorem yields_many : (Many R).Yields (List.flatMap walk) := by
  intro us as h
  induction h with
  | nil => exact .nil
  | cons ha _ ih =>
      rw [List.flatMap_cons, words_append]
      exact (hR ha).append ih

/-- Elements between separators yield the words of each, the separators none. -/
theorem yields_padded {separator : String}
    (hseparator : (Word.symbol separator).stands none = true) :
    (Padded R separator).Yields fun ps => ps.flatMap fun p =>
      walk p.element := by
  intro us ps h
  induction h with
  | last ha => simpa only [List.flatMap_singleton] using hR ha
  | cons ha _ ih =>
      simp only [List.flatMap_cons, words_append]
      exact (hR ha).append (ih.cons hseparator)

/-- Elements between delimiters yield the words of each, the delimiters none. -/
theorem yields_delimited {opening closing : String}
    (hopening : (Word.symbol opening).stands none = true)
    (hclosing : (Word.symbol closing).stands none = true) :
    (Delimited R opening closing).Yields fun c => c.elements.flatMap fun p =>
      walk p.element := by
  intro us c h
  cases h with
  | none => exact .cons hopening (.silent hclosing)
  | @some before us ps close hps =>
      have hclose : ((RightPadded.closeLast close ps).flatMap fun p =>
          walk p.element) = ps.flatMap fun p => walk p.element := by
        rw [← List.flatMap_map RightPadded.element walk,
          RightPadded.map_element_closeLast, List.flatMap_map]
      show Token.Yields _ (words ((RightPadded.closeLast close ps).flatMap
        fun p => walk p.element))
      rw [hclose]
      exact .cons hopening ((yields_padded hR rfl hps).concat hclosing)

/-- What a keyword introduces yields its words, the keyword none. -/
theorem yields_afterKeyword {word : String}
    (hword : (Word.keyword word).stands none = true) :
    (AfterKeyword R word).Yields fun o => o.toList.flatMap fun c =>
      c.elements.flatMap fun p => walk p.element := by
  intro us o h
  cases h with
  | none => exact .nil
  | @some before us ps hps =>
      show Token.Yields _
        (words ([(⟨before, ps, ""⟩ : Container α)].flatMap fun c =>
        c.elements.flatMap fun p => walk p.element))
      rw [List.flatMap_singleton]
      exact .cons hword (yields_padded hR rfl hps)

end

/-- A block yields the words of its elements, the braces none. -/
theorem yields_braced {α : Type} {walk : α → List Node}
    {R : Spelling (RightPadded α)} (hR : R.Yields fun p => walk p.element) :
    (Braced R).Yields fun b => b.statements.flatMap fun p =>
      walk p.element := by
  intro us b h
  cases h with
  | mk hps => exact .cons rfl ((yields_many hR hps).concat rfl)

-- ================================================================= names

theorem Name.words_withLead (lead : Trivia) (n : Name) :
    words (n.withLead lead).walk = words n.walk := by
  cases n <;> rfl

/-- One more word behind a name. -/
theorem Name.words_extend (n : Name) (dot : Trivia) (i : Ident) :
    words (Parser.extendName n dot i).walk =
      words n.walk ++ [(.identifier, i.name)] := by
  rw [← n.words_withLead ""]
  exact words_append (n.withLead "").walk [.ident i]

/-- A name yields its words. -/
theorem yields_name : SpellsName.Yields Name.walk := by
  intro us n h
  induction h with
  | simple i => exact .name i
  | @dot us n dot i _ ih =>
      rw [Name.words_extend]
      exact ih.append (.dotName dot i)

/-- The name of an import yields its words, a star behind its dot too. -/
theorem yields_importName : SpellsImportName.Yields Name.walk := by
  intro us n h
  cases h with
  | named h => exact yields_name h
  | @star us n dot lead h =>
      rw [Name.words_extend]
      exact (yields_name h).append (.dot (t := ⟨lead, .symbol "*"⟩) rfl rfl)

-- ================================================================= types

/-- The word of a primitive type stands for one. -/
theorem Parser.stands_of_asPrimitive {t : Token} {p : TypeTree}
    (h : asPrimitive t = some p) : t.word.stands (some .primitive) = true := by
  have hall : ∀ s ∈ Token.primitiveWords,
      (Word.keyword s).stands (some .primitive) = true := by decide
  unfold asPrimitive at h
  split at h
  next s hs =>
    split at h
    · next hmem =>
      rw [hs]
      exact hall s (List.contains_iff_mem.1 hmem)
    · cases h
  next => cases h

theorem TypeTree.words_withLead (lead : Trivia) (t : TypeTree) :
    words (t.withLead lead).walk = words t.walk := by
  cases t with
  | named n => exact n.words_withLead lead
  | _ => rfl

section

variable {R : Spelling TypeTree} (hR : R.Yields TypeTree.walk)
include hR

/-- A class type yields the words of its name and of its arguments. -/
theorem yields_classTypeWith : (ClassTypeWith R).Yields TypeTree.walk := by
  intro us t h
  cases h with
  | named h => exact yields_name h
  | @generic us n vs args h hargs =>
      rw [TypeTree.walk, words_cons_none rfl, words_append, Name.words_withLead,
        TypeTree.walkAll_eq]
      exact (yields_name h).append (yields_delimited hR rfl rfl hargs)

/-- A type yields the words of what it is made of, brackets none. -/
theorem yields_typeWith : (TypeWith R).Yields TypeTree.walk := by
  intro us t h
  induction h with
  | @primitive t p h =>
      obtain ⟨k, rfl, htext⟩ := Parser.asPrimitive_eq_some h
      show Token.Yields [t] [(.primitive, k.text)]
      rw [← htext]
      exact .single _ (Parser.stands_of_asPrimitive h)
  | classType h => exact yields_classTypeWith hR h
  | @array us t before inner _ ih =>
      rw [TypeTree.walk, words_cons_none rfl, TypeTree.words_withLead]
      exact ih.behind (.cons rfl (.silent rfl))

end

theorem yields_type : SpellsType.Yields TypeTree.walk := by
  rintro us t ⟨n, h⟩
  induction n generalizing us t with
  | zero => cases h
  | succ n ih => exact yields_typeWith (fun us t h => ih h) h

theorem yields_classType : SpellsClassType.Yields TypeTree.walk :=
  yields_classTypeWith yields_type

/-- Alternatives yield the words of each, the bars none. -/
theorem yields_catchType : SpellsCatchType.Yields TypeTree.walk := by
  intro us t h
  cases h with
  | single h => exact yields_classType h
  | @union us first p ps h =>
      have hall := yields_padded yields_classType rfl h
      rw [TypeTree.walk, words_cons_none rfl, TypeTree.walkAll, words_append,
        TypeTree.words_withLead, ← words_append, ← TypeTree.walkAll,
        TypeTree.walkAll_eq]
      exact hall

/-- Types after a keyword, or none. -/
theorem yields_classTypes {word : String}
    (hword : (Word.keyword word).stands none = true) :
    (AfterKeyword SpellsClassType word).Yields TypeTree.walkList := by
  intro us o h
  have hall := yields_afterKeyword yields_classType hword h
  cases o with
  | none => exact hall
  | some c =>
      simp only [Option.toList_some, List.flatMap_singleton] at hall
      rw [TypeTree.walkList, TypeTree.walkAll_eq]
      exact hall

-- =========================================================== expressions

/-- The word of a literal stands for one. -/
theorem Parser.stands_of_asLiteral {t : Token} {e : Expr}
    (h : asLiteral t = some e) : t.word.stands (some .literal) = true := by
  have hall : ∀ s ∈ Token.literalWords,
      (Word.keyword s).stands (some .literal) = true := by decide
  unfold asLiteral at h
  split at h
  next s hs =>
    rw [hs]
    rfl
  next s hs =>
    split at h
    · next hmem =>
      rw [hs]
      exact hall s (List.contains_iff_mem.1 hmem)
    · cases h
  next => cases h

/-- A unary operator has no kind. -/
theorem Parser.stands_of_asUnaryOp {t : Token} {op : LeftPadded UnaryOp}
    (h : asUnaryOp t = some op) : t.word.stands none = true := by
  rcases asUnaryOp_word h with h | h <;> rw [h] <;> rfl

/-- A binary operator has no kind. -/
theorem Parser.stands_of_asBinaryOp {t : Token} {op : LeftPadded BinaryOp}
    (h : asBinaryOp t = some op) : t.word.stands none = true := by
  have hall : ∀ op ∈ BinaryOp.all,
      (Word.symbol op.text).stands none = true := by decide
  unfold asBinaryOp at h
  split at h
  next s hs =>
    obtain ⟨o, ho, -⟩ := Option.map_eq_some_iff.1 h
    have htext := List.find?_some ho
    rw [hs, ← beq_iff_eq.1 htext]
    exact hall o (List.mem_of_find?_eq_some ho)
  next => cases h

theorem Expr.words_withLead (lead : Trivia) (e : Expr) :
    words (e.withLead lead).walk = words e.walk := by
  cases e <;> rfl

/-- One more word behind an expression. -/
theorem Expr.words_access (e : Expr) (dot lead : Trivia) (word : String) :
    words (Expr.access e.lead (e.withLead "") ⟨dot, ⟨lead, word⟩⟩ none).walk =
      words e.walk ++ [(.identifier, word)] := by
  rw [← e.words_withLead ""]
  exact words_append (e.withLead "").walk [.ident ⟨lead, word⟩]

section

variable {R : Spelling Expr} (hR : R.Yields Expr.walk)
include hR

/-- Arguments between parentheses. -/
theorem yields_arguments : (Delimited R "(" ")").Yields fun args =>
    Expr.walkAll args.elements := by
  intro us args h
  simp only [Expr.walkAll_eq]
  exact yields_delimited hR rfl rfl h

/-- A postfix expression yields the words of its nodes. -/
theorem yields_postfixWith : (PostfixWith R).Yields Expr.walk := by
  intro us e h
  induction h with
  | @literal t e h =>
      obtain rfl := Parser.asLiteral_eq_some h
      exact .single _ (Parser.stands_of_asLiteral h)
  | this => exact .single (some .identifier) rfl
  | name i => exact .name i
  | parens h =>
      rw [Expr.walk, words_cons_none rfl]
      exact .cons rfl ((hR h).concat rfl)
  | new ht hargs =>
      rw [Expr.walk, words_cons_none rfl, words_append]
      exact .cons rfl ((yields_classType ht).append (yields_arguments hR hargs))
  | bareCall i hargs =>
      rw [Expr.walk, words_cons_none rfl]
      exact (Token.Yields.name i).append (yields_arguments hR hargs)
  | @classLiteral us e dot lead _ ih =>
      rw [Expr.words_access]
      exact ih.append (.dot (t := ⟨lead, .keyword "class"⟩) rfl rfl)
  | @access us e dot i _ ih =>
      rw [Expr.words_access]
      exact ih.append (.dotName dot i)
  | @call us e dot vs args i _ hargs ih =>
      rw [Expr.walk, words_cons_none rfl, words_append, Expr.walkSelect,
        Expr.words_withLead]
      exact ih.append ((Token.Yields.dotName dot i).append
        (yields_arguments hR hargs))

theorem yields_operand : (OperandWith R).Yields Expr.walk := by
  intro us e h
  induction h with
  | bare h => exact yields_postfixWith hR h
  | unary hop _ ih =>
      rw [Expr.walk, words_cons_none rfl]
      exact .cons (Parser.stands_of_asUnaryOp hop) ih

/-- A binary expression yields the words of its operands in order. -/
theorem yields_binary {level : Nat} :
    (BinaryWith R level).Yields Expr.walk := by
  intro us e h
  induction h with
  | operand h => exact yields_operand hR h
  | binary hop _ _ _ ihl ihr =>
      rw [Parser.joinOperands, Expr.walk, words_cons_none rfl, words_append,
        Expr.words_withLead]
      exact ihl.append (.cons (Parser.stands_of_asBinaryOp hop) ihr)

/-- An expression yields the words of its nodes, if what it nests does. -/
theorem yields_expressionWith : (ExpressionWith R).Yields Expr.walk := by
  intro us e h
  cases h with
  | binary h => exact yields_binary hR h
  | assign h hvalue =>
      rw [Expr.walk, words_cons_none rfl, words_append, Expr.words_withLead]
      exact (yields_postfixWith hR h).append (.cons rfl (hR hvalue))

end

theorem yields_expr : SpellsExpr.Yields Expr.walk := by
  rintro us e ⟨n, h⟩
  induction n generalizing us e with
  | zero => cases h
  | succ n ih => exact yields_expressionWith (fun us e h => ih h) h

-- ========================================================== declarations

/-- The word of a modifier stands for one. -/
theorem Parser.stands_of_asModifierWord {t : Token} {m : Modifier}
    (h : asModifierWord t = some m) :
    t.word.stands (some .modifier) = true := by
  have hall : ∀ s ∈ Token.modifierWords,
      (Word.keyword s).stands (some .modifier) = true := by decide
  unfold asModifierWord at h
  split at h
  next s hs =>
    split at h
    · next hmem =>
      rw [hs]
      exact hall s (List.contains_iff_mem.1 hmem)
    · cases h
  next => cases h

/-- A modifier yields its word, an annotation those of its name and
arguments. -/
theorem yields_modifier : SpellsModifier.Yields Modifier.walk := by
  intro us m h
  cases h with
  | word h =>
      obtain rfl := Parser.asModifierWord_eq_some h
      exact .single _ (Parser.stands_of_asModifierWord h)
  | marker hn =>
      rw [Modifier.walk, words_cons_none rfl]
      exact .cons rfl (yields_name hn)
  | called hn hargs =>
      rw [Modifier.walk, words_cons_none rfl, words_append]
      exact .cons rfl ((yields_name hn).append
        (yields_arguments yields_expr hargs))

/-- A declarator yields its name and the words of its value. -/
theorem yields_declarator : SpellsDeclarator.Yields Variable.walk := by
  intro us v h
  cases h with
  | bare i => exact .name i
  | initialized i he =>
      rw [Variable.walk, words_cons_none rfl, words_append]
      exact (Token.Yields.name i).append (.cons rfl (yields_expr he))

theorem yields_declaration : SpellsDeclaration.Yields Variables.walk := by
  intro us d h
  cases h with
  | mk hms ht hds hled =>
      rw [Variables.walk, words_cons_none rfl, words_append, words_append]
      exact .led hled
        (((yields_many yields_modifier hms).append (yields_type ht)).append
        (yields_padded yields_declarator rfl hds))

/-- A parameter yields the words of its nodes if its type does. -/
theorem yields_parameter {R : Spelling TypeTree} (hR : R.Yields TypeTree.walk) :
    (ParameterWith R).Yields Variables.walk := by
  intro us d h
  cases h with
  | mk i hms ht hled =>
      rw [Variables.walk, words_cons_none rfl, words_append, words_append]
      exact .led hled (((yields_many yields_modifier hms).append (hR ht)).append
        (.name i))

-- ============================================================ statements

/-- A condition yields the words of its expression. -/
theorem yields_condition : SpellsCondition.Yields Expr.walkCondition := by
  intro us c h
  cases h with
  | mk he =>
      rw [Expr.walkCondition, words_cons_none rfl]
      exact .cons rfl ((yields_expr he).concat rfl)

section

variable {R : Spelling (RightPadded Stmt)}
  (hR : R.Yields fun p => p.element.walk)
include hR

/-- A block yields the words of its statements. -/
theorem yields_block : (Braced R).Yields Stmt.walkBlock := by
  intro us b h
  rw [Stmt.walkBlock, words_cons_none rfl, Stmt.walkAll_eq]
  exact yields_braced hR h

/-- A clause yields the words of its parameter and of its body. -/
theorem yields_catch : (CatchWith R).Yields Catch.walk := by
  intro us c h
  cases h with
  | mk hd hb =>
      rw [Catch.walk, words_cons_none rfl, words_append,
        Variables.walkParameter, words_cons_none rfl]
      exact .cons rfl (.cons rfl ((yields_parameter yields_catchType hd).append
        (.cons rfl (yields_block hR hb))))

/-- The last block yields the words of its statements. -/
theorem yields_finally : (FinallyWith R).Yields Stmt.walkFinally := by
  intro us f h
  cases h with
  | none => exact .nil
  | some hb => exact .cons rfl (yields_block hR hb)

/-- A statement without branches yields the words of its nodes. -/
theorem yields_plain : (PlainWith R).Yields fun p => p.element.walk := by
  intro us s h
  beta_reduce
  cases h with
  | block hb =>
      rw [Stmt.walk]
      exact yields_block hR hb
  | empty => exact .silent rfl
  | tryCatch hb hcs hf =>
      rw [Stmt.walk, Try.walk, words_cons_none rfl, words_append, words_append,
        Catch.walkAll_eq]
      exact .cons rfl (((yields_block hR hb).append
        (yields_many (yields_catch hR) hcs)).append (yields_finally hR hf))
  | throwing he =>
      rw [Stmt.walk, words_cons_none rfl]
      exact .cons rfl ((yields_expr he).concat rfl)
  | returningNone => exact .cons rfl (.silent rfl)
  | returning he =>
      rw [Stmt.walk, words_cons_none rfl]
      exact .cons rfl ((yields_expr he).concat rfl)
  | declaration hd =>
      rw [Stmt.walk]
      exact (yields_declaration hd).concat rfl
  | expr he _ =>
      rw [Stmt.walk]
      exact (yields_expr he).concat rfl

/-- A statement yields the words of its nodes, if what it nests does. -/
theorem yields_statementWith : (StatementWith R).Yields fun p =>
    p.element.walk := by
  rintro us s ⟨hheads, hbody, hbranches, hfits⟩
  refine spells_shape (S := fun us p => Token.Yields us (words p.element.walk))
    (fun _ _ h => yields_plain hR h) ?_ ?_ ?_ hheads hbody hbranches hfits
  · intro lead us c vs s hc hs
    rw [Stmt.walk, words_cons_none rfl, Stmt.walkElse, List.append_nil,
      words_append]
    exact .cons rfl ((yields_condition hc).append hs)
  · intro lead us c vs s elseLead ws e hc hs he
    rw [Stmt.walk, words_cons_none rfl, words_append, words_append,
      Stmt.walkElse, Else.walk, words_cons_none rfl]
    exact .cons rfl (((yields_condition hc).append hs).append (.cons rfl he))
  · intro lead us c vs s hc hs
    rw [Stmt.walk, words_cons_none rfl, words_append]
    exact .cons rfl ((yields_condition hc).append hs)

end

theorem yields_stmt : SpellsStmt.Yields fun p => p.element.walk := by
  rintro us s ⟨n, h⟩
  induction n generalizing us s with
  | zero => cases h
  | succ n ih => exact yields_statementWith (fun us s h => ih h) h

-- =============================================================== members

/-- The keyword of a class has no kind. -/
theorem Parser.stands_of_asClassKind {t : Token} {k : LeftPadded ClassKind}
    (h : asClassKind t = some k) : t.word.stands none = true := by
  unfold asClassKind at h
  split at h
  next s hs =>
    obtain ⟨kind, hk, -⟩ := Option.map_eq_some_iff.1 h
    rw [hs]
    unfold ClassKind.ofText? at hk
    split at hk
    next hs => rw [hs]; rfl
    next =>
      split at hk
      next hs => rw [hs]; rfl
      next => cases hk
  next => cases h

/-- A class: its modifiers, the keyword, the name and what comes after that. -/
theorem yields_class {R : Spelling (RightPadded Member)}
    (hR : R.Yields fun p => p.element.walk) {lead : Trivia} {us vs : List Token}
    {ms : List Modifier} (hms : Many SpellsModifier us ms) {t : Token}
    {kind : LeftPadded ClassKind} (hkind : Parser.asClassKind t = some kind)
    {c : JavaClass} (h : ClassWith R lead ms kind vs c) :
    Token.Yields (us ++ t :: vs) (words c.walk) := by
  cases h with
  | @mk i es extends? is implements? bs body hextends himplements hbody =>
      have hblock : Token.Yields bs (words (Member.walkBlock body)) := by
        rw [Member.walkBlock, words_cons_none rfl, Member.walkAll_eq]
        exact yields_braced hR hbody
      rw [ClassDecl.walk, words_cons_none rfl]
      simp only [words_append, List.append_assoc]
      exact (yields_many yields_modifier hms).append
        (.cons (Parser.stands_of_asClassKind hkind)
        ((Token.Yields.name i).append ((yields_classTypes rfl hextends).append
          ((yields_classTypes rfl himplements).append hblock))))

/-- The words of a method, part by part. -/
theorem Method.words_walk (m : Method) :
    words m.walk = words (m.modifiers.flatMap Modifier.walk) ++
      (words (m.returnType.elim [] TypeTree.walk) ++
        ([(.identifier, m.name.name)] ++
        (words (m.parameters.elements.flatMap fun p => p.element.walk) ++
          (words (TypeTree.walkList m.throws) ++
            words (m.body.elim [] Stmt.walkBlock))))) := by
  obtain ⟨lead, ms, returnType, i, params, throws, body, type⟩ := m
  rw [walk]
  cases returnType <;> cases body <;>
    simp [words, List.filterMap_cons, Node.word?]

/-- A method: its modifiers, the result, the name and what comes after that. -/
theorem yields_method {lead : Trivia} {us vs ws : List Token}
    {ms : List Modifier} (hms : Many SpellsModifier us ms)
    {returnType : Option TypeTree}
    (hreturn : Token.Yields vs (words (returnType.elim [] TypeTree.walk)))
    {i : Ident} {mayLackBody : Bool} {m : RightPadded Member}
    (h : MethodWith lead ms returnType i mayLackBody ws m) :
    Token.Yields (us ++ (vs ++ ⟨i.lead, .name i.name⟩ :: ws))
      (words m.element.walk) := by
  have hparameters :
      (Delimited (ParameterWith SpellsType) "(" ")").Yields fun c =>
      c.elements.flatMap fun p => p.element.walk :=
    yields_delimited (yields_parameter yields_type) rfl rfl
  cases h with
  | bodied hparams hthrows hbody =>
      rw [Member.walk, Method.words_walk, List.append_assoc]
      exact (yields_many yields_modifier hms).append
        (hreturn.append ((Token.Yields.name i).append
        ((hparameters hparams).append ((yields_classTypes rfl hthrows).append
          (yields_block yields_stmt hbody)))))
  | abstract _ hparams hthrows =>
      rw [Member.walk, Method.words_walk, List.append_assoc]
      exact (yields_many yields_modifier hms).append
        (hreturn.append ((Token.Yields.name i).append
        ((hparameters hparams).append
          ((yields_classTypes rfl hthrows).append (.silent rfl)))))

/-- A member yields the words of its nodes, if what it nests does. -/
theorem yields_memberWith {R : Spelling (RightPadded Member)}
    (hR : R.Yields fun p => p.element.walk) :
    (MemberWith R).Yields fun p => p.element.walk := by
  rintro us m ⟨hms, hm, hled⟩
  refine .led hled ?_
  cases hm with
  | nested hkind hc =>
      simp only [Member.walk]
      exact yields_class hR hms hkind hc
  | @void before us m i hm =>
      exact yields_method hms
        (.single (t := ⟨before, .keyword "void"⟩) (some .primitive) rfl) hm
  | constructor i hm => exact yields_method hms .nil hm
  | method i ht hm => exact yields_method hms (yields_type ht) hm
  | @field us t vs ds after ht hds =>
      have hfield := (yields_type ht).append
        (yields_padded yields_declarator rfl hds)
      simp only [Member.walk, Variables.walk]
      rw [words_cons_none rfl, words_append, words_append,
        List.append_assoc (words _)]
      exact (yields_many yields_modifier hms).append
        (hfield.concat (t := ⟨after, .symbol ";"⟩) rfl)

theorem yields_member : SpellsMember.Yields fun p => p.element.walk := by
  rintro us m ⟨n, h⟩
  induction n generalizing us m with
  | zero => cases h
  | succ n ih => exact yields_memberWith (fun us m h => ih h) h

-- ================================================================= files

theorem yields_topClass : SpellsTopClass.Yields ClassDecl.walk := by
  rintro us c ⟨hms, hkind, hc, hled⟩
  exact .led hled (yields_class yields_member hms hkind hc)

/-- A package declaration yields the words of its name. -/
theorem yields_package : SpellsPackage.Yields fun o => o.toList.flatMap fun p =>
    p.element.walk := by
  intro us o h
  cases h with
  | none => exact .nil
  | some hn =>
      simp only [Option.toList_some, List.flatMap_singleton, Package.walk]
      rw [words_cons_none rfl]
      exact .cons rfl ((yields_name hn).concat rfl)

/-- `import` and `static` are part of the import, whatever comes after the
first of them. -/
theorem Token.Yields.import {lead : Trivia} {us vs : List Token}
    {static? : Option Trivia} {xs : List (NodeKind × String)}
    (hstatic : SpellsStatic us static?) (hopens : Opens Word.isName vs)
    (h : Token.Yields vs xs) :
    Token.Yields (⟨lead, .keyword "import"⟩ :: (us ++ vs)) xs := by
  intro before hbefore
  have himport : (Word.keyword "import").kindAfter? before = none := by
    rw [Word.kindAfter?_of_isPlain hbefore]
    rfl
  cases hstatic with
  | none =>
      obtain ⟨⟨vlead, w⟩, vs, rfl, hw⟩ := hopens
      obtain ⟨after, hafter, h⟩ := h none rfl
      refine ⟨after, hafter, fun rest => ?_⟩
      have hname : w.kindAfter? (some (.keyword "import")) =
          w.kindAfter? none := by
        cases w with
        | name _ => rfl
        | _ => cases hw
      rw [← h rest, List.nil_append, List.cons_append, List.cons_append,
        wordsAfter, wordsAfter, wordsAfter, himport, hname]
      rfl
  | some =>
      obtain ⟨after, hafter, h⟩ := h (some (.keyword "static")) rfl
      refine ⟨after, hafter, fun rest => ?_⟩
      rw [← h rest, List.singleton_append, List.cons_append, List.cons_append,
        wordsAfter, wordsAfter, himport]
      rfl

/-- An import yields the words of its name. -/
theorem yields_import : SpellsImport.Yields fun p => p.element.walk := by
  intro us p h
  cases h with
  | @mk lead us static? vs n after hstatic hn =>
      have hname : Token.Yields (⟨lead, .keyword "import"⟩ :: (us ++ vs))
          (words n.walk) :=
        .import hstatic (Parser.opens_importName hn) (yields_importName hn)
      show Token.Yields _ (words (.importDecl _ :: n.walk))
      rw [words_cons_none rfl]
      exact hname.concat (t := ⟨after, .symbol ";"⟩) rfl

/-- The words of a file are the words of its tokens. -/
theorem words_walk_of_spellsUnit {close : Trivia} {path : Option String}
    {ts : List Token} {cu : CompilationUnit} (h : SpellsUnit close path ts cu) :
    words cu.walk = Token.wordsAfter none ts := by
  refine (Token.Yields.wordsAfter_eq rfl ?_).symm
  cases h with
  | empty => exact .nil
  | mk hparts hled =>
      obtain ⟨hp, himports, hclasses⟩ := hparts
      rw [CompilationUnit.walk_eq, words_cons_none rfl, words_append,
        words_append]
      exact .led hled (((yields_package hp).append
        (yields_many yields_import himports)).append
        (yields_many yields_topClass hclasses))

end JavaRefit
