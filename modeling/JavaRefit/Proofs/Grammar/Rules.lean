/-
Which tokens spell which trees.

The rules of the language, one relation for each kind of tree, between
the tokens that are written and the tree that they mean. The rules say
nothing about reading: which word is looked at first, and what is left
when a tree is read, is for the readers. Two rules settle what the
language leaves open: tokens that spell a declaration spell no statement
that is an expression, and the `else` branches of a run of conditions are
shared out by `Branch.shape`.

The rules of a syntactic class whose trees nest in one another are given
a rule for the nested ones, and the knot is tied by depth.

Chain: first of the proofs about the language; that the readers keep to
the rules, and that they read whatever the rules allow, comes after.
-/
import JavaRefit.Parser.Unit

namespace JavaRefit

/-- Which tokens spell which things. -/
abbrev Spelling (α : Type) := List Token → α → Prop

namespace Spelling

variable {α : Type}

-- ================================================================= lists

/-- One element or more with a separator between them. -/
inductive Padded (R : Spelling α) (separator : String) :
    Spelling (List (RightPadded α))
  | last {us a} : R us a → Padded R separator us [⟨a, ""⟩]
  | cons {us vs a after ps} : R us a → Padded R separator vs ps →
      Padded R separator (us ++ ⟨after, .symbol separator⟩ :: vs)
        (⟨a, after⟩ :: ps)

/-- Elements with commas between them, between two delimiters; there may be
none. -/
inductive Delimited (R : Spelling α) (opening closing : String) :
    Spelling (Container α)
  | none {before close} :
      Delimited R opening closing [⟨before, .symbol opening⟩,
        ⟨close, .symbol closing⟩]
        ⟨before, [], close⟩
  | some {before us ps close} : Padded R "," us ps →
      Delimited R opening closing
        (⟨before, .symbol opening⟩ :: (us ++ [⟨close, .symbol closing⟩]))
        ⟨before, RightPadded.closeLast close ps, ""⟩

/-- A keyword and elements with commas between them, or nothing. -/
inductive AfterKeyword (R : Spelling α) (word : String) :
    Spelling (Option (Container α))
  | none : AfterKeyword R word [] none
  | some {before us ps} : Padded R "," us ps →
      AfterKeyword R word (⟨before, .keyword word⟩ :: us)
        (some ⟨before, ps, ""⟩)

/-- Elements one after the other; there may be none. -/
inductive Many (R : Spelling α) : Spelling (List α)
  | nil : Many R [] []
  | cons {us vs a as} : R us a → Many R vs as → Many R (us ++ vs) (a :: as)

/-- Statements or members between braces. -/
inductive Braced (R : Spelling (RightPadded α)) : Spelling (Block α)
  | mk {lead us ps close} : Many R us ps →
      Braced R (⟨lead, .symbol "\x7b"⟩ :: (us ++ [⟨close, .symbol "\x7d"⟩]))
        ⟨lead, ps, close⟩

/-- Something with a semicolon after it. -/
inductive Terminated (R : Spelling α) : Spelling (RightPadded α)
  | mk {us a after} :
      R us a → Terminated R (us ++ [⟨after, .symbol ";"⟩]) ⟨a, after⟩

/-- Tokens without the trivia in front, and with it. -/
inductive Led (lead : Trivia) : List Token → List Token → Prop
  | mk {w ts} : Led lead (⟨"", w⟩ :: ts) (⟨lead, w⟩ :: ts)

end Spelling

open Spelling

-- ================================================================= names

/-- A dotted name. -/
inductive SpellsName : Spelling Name
  | simple (i : Ident) : SpellsName [⟨i.lead, .name i.name⟩] (.simple i none)
  | dot {us n} (dot : Trivia) (i : Ident) : SpellsName us n →
      SpellsName (us ++ [⟨dot, .symbol "."⟩, ⟨i.lead, .name i.name⟩])
        (Parser.extendName n dot i)

/-- A dotted name that may end in a star. -/
inductive SpellsImportName : Spelling Name
  | named {us n} : SpellsName us n → SpellsImportName us n
  | star {us n} (dot lead : Trivia) : SpellsName us n →
      SpellsImportName (us ++ [⟨dot, .symbol "."⟩, ⟨lead, .symbol "*"⟩])
        (Parser.extendName n dot ⟨lead, "*"⟩)

-- ================================================================= types

/-- A class name with or without type arguments. -/
inductive ClassTypeWith (R : Spelling TypeTree) : Spelling TypeTree
  | named {us n} : SpellsName us n → ClassTypeWith R us (.named n)
  | generic {us n vs args} : SpellsName us n → Delimited R "<" ">" vs args →
      ClassTypeWith R (us ++ vs) (.generic n.lead (n.withLead "") args none)

/-- A type. -/
inductive TypeWith (R : Spelling TypeTree) : Spelling TypeTree
  | primitive {t p} : Parser.asPrimitive t = some p → TypeWith R [t] p
  | classType {us t} : ClassTypeWith R us t → TypeWith R us t
  | array {us t before inner} : TypeWith R us t →
      TypeWith R (us ++ [⟨before, .symbol "["⟩, ⟨inner, .symbol "]"⟩])
        (.array t.lead (t.withLead "") ⟨before, inner⟩ none)

/-- A type whose arguments nest at most so deep. -/
def SpellsTypeAt : Nat → Spelling TypeTree
  | 0 => fun _ _ => False
  | n + 1 => TypeWith (SpellsTypeAt n)

/-- A type. -/
def SpellsType : Spelling TypeTree := fun us t => ∃ n, SpellsTypeAt n us t

/-- A class name with or without type arguments. -/
abbrev SpellsClassType : Spelling TypeTree := ClassTypeWith SpellsType

/-- The type of a catch parameter. -/
inductive SpellsCatchType : Spelling TypeTree
  | single {us t} : SpellsClassType us t → SpellsCatchType us t
  | union {us first p ps} : Padded SpellsClassType "|" us (first :: p :: ps) →
      SpellsCatchType us
        (.union first.element.lead
          (⟨first.element.withLead "", first.after⟩ :: p :: ps))

-- =========================================================== expressions

/-- An expression without operators around it. -/
inductive PostfixWith (R : Spelling Expr) : Spelling Expr
  | literal {t e} : Parser.asLiteral t = some e → PostfixWith R [t] e
  | this {lead} : PostfixWith R [⟨lead, .keyword "this"⟩]
      (.ident ⟨lead, "this"⟩ none)
  | name (i : Ident) : PostfixWith R [⟨i.lead, .name i.name⟩] (.ident i none)
  | parens {lead us e after} : R us e →
      PostfixWith R (⟨lead, .symbol "("⟩ :: (us ++ [⟨after, .symbol ")"⟩]))
        (.parens lead ⟨e, after⟩ none)
  | new {lead us t vs args} : SpellsClassType us t →
      Delimited R "(" ")" vs args →
      PostfixWith R (⟨lead, .keyword "new"⟩ :: (us ++ vs))
        (.new lead t args none none)
  | bareCall (i : Ident) {vs args} : Delimited R "(" ")" vs args →
      PostfixWith R (⟨i.lead, .name i.name⟩ :: vs)
        (.call i.lead none ⟨"", i.name⟩ args none)
  | classLiteral {us e dot lead} : PostfixWith R us e →
      PostfixWith R (us ++ [⟨dot, .symbol "."⟩, ⟨lead, .keyword "class"⟩])
        (.access e.lead (e.withLead "") ⟨dot, ⟨lead, "class"⟩⟩ none)
  | access {us e dot} (i : Ident) : PostfixWith R us e →
      PostfixWith R (us ++ [⟨dot, .symbol "."⟩, ⟨i.lead, .name i.name⟩])
        (.access e.lead (e.withLead "") ⟨dot, i⟩ none)
  | call {us e dot vs args} (i : Ident) : PostfixWith R us e →
      Delimited R "(" ")" vs args →
      PostfixWith R (us ++ ⟨dot, .symbol "."⟩ :: ⟨i.lead, .name i.name⟩ :: vs)
        (.call e.lead (some ⟨e.withLead "", dot⟩) i args none)

/-- An operand with the operators in front of it. -/
inductive OperandWith (R : Spelling Expr) : Spelling Expr
  | bare {us e} : PostfixWith R us e → OperandWith R us e
  | unary {t op us e} : Parser.asUnaryOp t = some op → OperandWith R us e →
      OperandWith R (t :: us) (.unary op.before op.element e none)

/-- Operands with operators between them that bind at least so tightly. -/
inductive BinaryWith (R : Spelling Expr) : Nat → Spelling Expr
  | operand {level us e} : OperandWith R us e → BinaryWith R level us e
  | binary {level t op us left vs right} : Parser.asBinaryOp t = some op →
      level ≤ op.element.level → BinaryWith R op.element.level us left →
      BinaryWith R (op.element.level + 1) vs right →
      BinaryWith R level (us ++ t :: vs) (Parser.joinOperands left op right)

/-- An expression. -/
inductive ExpressionWith (R : Spelling Expr) : Spelling Expr
  | binary {us e} : BinaryWith R 0 us e → ExpressionWith R us e
  | assign {us e before vs value} : PostfixWith R us e → R vs value →
      ExpressionWith R (us ++ ⟨before, .symbol "="⟩ :: vs)
        (.assign e.lead (e.withLead "") ⟨before, value⟩ none)

/-- An expression that nests at most so deep. -/
def SpellsExprAt : Nat → Spelling Expr
  | 0 => fun _ _ => False
  | n + 1 => ExpressionWith (SpellsExprAt n)

/-- An expression. -/
def SpellsExpr : Spelling Expr := fun us e => ∃ n, SpellsExprAt n us e

-- ========================================================== declarations

/-- A modifier keyword or an annotation. -/
inductive SpellsModifier : Spelling Modifier
  | word {t m} : Parser.asModifierWord t = some m → SpellsModifier [t] m
  | marker {lead us n} : SpellsName us n →
      SpellsModifier (⟨lead, .symbol "@"⟩ :: us) (.annotated lead n none)
  | called {lead us n vs args} : SpellsName us n →
      Delimited SpellsExpr "(" ")" vs args →
      SpellsModifier (⟨lead, .symbol "@"⟩ :: (us ++ vs))
        (.annotated lead n (some args))

/-- A declared name with its value, if it has one. -/
inductive SpellsDeclarator : Spelling Variable
  | bare (i : Ident) :
      SpellsDeclarator [⟨i.lead, .name i.name⟩]
        ⟨i.lead, .simple ⟨"", i.name⟩ none, none, none⟩
  | initialized (i : Ident) {before us e} : SpellsExpr us e →
      SpellsDeclarator (⟨i.lead, .name i.name⟩ :: ⟨before, .symbol "="⟩ :: us)
        ⟨i.lead, .simple ⟨"", i.name⟩ none, some ⟨before, e⟩, none⟩

/-- Modifiers, a type and the variables declared. -/
inductive SpellsDeclaration : Spelling Variables
  | mk {lead us ms vs t ws ds xs} : Many SpellsModifier us ms →
      SpellsType vs t →
      Padded SpellsDeclarator "," ws ds → Led lead (us ++ vs ++ ws) xs →
      SpellsDeclaration xs ⟨lead, ms, t, ds⟩

/-- A single name declared. -/
inductive ParameterWith (R : Spelling TypeTree) : Spelling Variables
  | mk {lead us ms vs t xs} (i : Ident) : Many SpellsModifier us ms → R vs t →
      Led lead (us ++ vs ++ [⟨i.lead, .name i.name⟩]) xs →
      ParameterWith R xs ⟨lead, ms, t,
        [⟨⟨i.lead, .simple ⟨"", i.name⟩ none, none, none⟩, ""⟩]⟩

-- ============================================================ statements

/-- A condition between parentheses. -/
inductive SpellsCondition : Spelling (Parens Expr)
  | mk {lead us e after} : SpellsExpr us e →
      SpellsCondition (⟨lead, .symbol "("⟩ :: (us ++ [⟨after, .symbol ")"⟩]))
        ⟨lead, ⟨e, after⟩⟩

/-- A catch clause. -/
inductive CatchWith (R : Spelling (RightPadded Stmt)) : Spelling (Catch Stmt)
  | mk {lead opening us d closing vs b} : ParameterWith SpellsCatchType us d →
      Braced R vs b → CatchWith R
        (⟨lead, .keyword "catch"⟩ :: ⟨opening, .symbol "("⟩ ::
          (us ++ ⟨closing, .symbol ")"⟩ :: vs))
        ⟨lead, ⟨opening, ⟨d, closing⟩⟩, b⟩

/-- The `finally` of a `try`, if it has one. -/
inductive FinallyWith (R : Spelling (RightPadded Stmt)) :
    Spelling (Option (LeftPadded (Block Stmt)))
  | none : FinallyWith R [] none
  | some {before us b} : Braced R us b →
      FinallyWith R (⟨before, .keyword "finally"⟩ :: us) (some ⟨before, b⟩)

/-- A statement that does not start with `if` or `while`. -/
inductive PlainWith (R : Spelling (RightPadded Stmt)) :
    Spelling (RightPadded Stmt)
  | block {us b} : Braced R us b → PlainWith R us ⟨.block b, ""⟩
  | empty {lead} : PlainWith R [⟨lead, .symbol ";"⟩] ⟨.empty lead, ""⟩
  | tryCatch {lead us b vs cs ws f} : Braced R us b → Many (CatchWith R) vs cs →
      FinallyWith R ws f →
      PlainWith R (⟨lead, .keyword "try"⟩ :: (us ++ vs ++ ws))
        ⟨.tryCatch ⟨lead, b, cs, f⟩, ""⟩
  | throwing {lead us e after} : SpellsExpr us e →
      PlainWith R (⟨lead, .keyword "throw"⟩ :: (us ++ [⟨after, .symbol ";"⟩]))
        ⟨.throwing lead e, after⟩
  | returningNone {lead after} :
      PlainWith R [⟨lead, .keyword "return"⟩, ⟨after, .symbol ";"⟩]
        ⟨.returning lead none, after⟩
  | returning {lead us e after} : SpellsExpr us e →
      PlainWith R (⟨lead, .keyword "return"⟩ :: (us ++ [⟨after, .symbol ";"⟩]))
        ⟨.returning lead (some e), after⟩
  | declaration {us d after} : SpellsDeclaration us d →
      PlainWith R (us ++ [⟨after, .symbol ";"⟩]) ⟨.declaration d, after⟩
  | expr {us e after} : SpellsExpr us e → (∀ d, ¬SpellsDeclaration us d) →
      PlainWith R (us ++ [⟨after, .symbol ";"⟩]) ⟨.expr e, after⟩

/-- The head of an `if` or a `while`. -/
inductive SpellsHead : Spelling Head
  | whileLoop {lead us c} : SpellsCondition us c →
      SpellsHead (⟨lead, .keyword "while"⟩ :: us) ⟨lead, true, c⟩
  | ifElse {lead us c} : SpellsCondition us c →
      SpellsHead (⟨lead, .keyword "if"⟩ :: us) ⟨lead, false, c⟩

/-- An `else` with the heads and the plain statement after it. -/
inductive BranchWith (R : Spelling (RightPadded Stmt)) : Spelling Branch
  | mk {lead us heads vs body} : Many SpellsHead us heads →
      PlainWith R vs body →
      BranchWith R (⟨lead, .keyword "else"⟩ :: (us ++ vs)) ⟨lead, heads, body⟩

/-- A statement with its semicolon, where it has one. -/
inductive StatementWith (R : Spelling (RightPadded Stmt)) :
    Spelling (RightPadded Stmt)
  | mk {us heads vs body ws branches} : Many SpellsHead us heads →
      PlainWith R vs body →
      Many (BranchWith R) ws branches →
      Branch.fits (Branch.openings heads) branches = true →
      StatementWith R (us ++ vs ++ ws) (Branch.shape heads body branches)

/-- A statement whose blocks nest at most so deep. -/
def SpellsStmtAt : Nat → Spelling (RightPadded Stmt)
  | 0 => fun _ _ => False
  | n + 1 => StatementWith (SpellsStmtAt n)

/-- A statement with its semicolon, where it has one. -/
def SpellsStmt : Spelling (RightPadded Stmt) :=
  fun us s => ∃ n, SpellsStmtAt n us s

-- =============================================================== members

/-- A class after its modifiers and keyword. -/
inductive ClassWith (R : Spelling (RightPadded Member)) (lead : Trivia)
    (ms : List Modifier) (kind : LeftPadded ClassKind) : Spelling JavaClass
  | mk (i : Ident) {us extends? vs implements? ws body} :
      AfterKeyword SpellsClassType "extends" us extends? →
      AfterKeyword SpellsClassType "implements" vs implements? →
      Braced R ws body →
      ClassWith R lead ms kind (⟨i.lead, .name i.name⟩ :: (us ++ vs ++ ws))
        ⟨lead, ms, kind.before, kind.element, .simple i none, extends?,
          implements?, body, none⟩

/-- A parameter list, the exceptions after it and a body or, where it may, a
semicolon. -/
inductive MethodWith (lead : Trivia) (ms : List Modifier)
    (returnType : Option TypeTree) (i : Ident) (mayLackBody : Bool) :
    Spelling (RightPadded Member)
  | bodied {us params vs throws ws body} :
      Delimited (ParameterWith SpellsType) "(" ")" us params →
      AfterKeyword SpellsClassType "throws" vs throws →
      Braced SpellsStmt ws body →
      MethodWith lead ms returnType i mayLackBody (us ++ vs ++ ws)
        ⟨.method ⟨lead, ms, returnType, i, params, throws, some body, none⟩, ""⟩
  | abstract {us params vs throws after} : mayLackBody = true →
      Delimited (ParameterWith SpellsType) "(" ")" us params →
      AfterKeyword SpellsClassType "throws" vs throws →
      MethodWith lead ms returnType i mayLackBody
        (us ++ vs ++ [⟨after, .symbol ";"⟩])
        ⟨.method ⟨lead, ms, returnType, i, params, throws, none, none⟩, after⟩

/-- A member after its modifiers. -/
inductive MemberAfter (R : Spelling (RightPadded Member)) (lead : Trivia)
    (ms : List Modifier) : Spelling (RightPadded Member)
  | nested {t kind us c} : Parser.asClassKind t = some kind →
      ClassWith R lead ms kind us c →
      MemberAfter R lead ms (t :: us) ⟨.nested c, ""⟩
  | void {before us m} (i : Ident) :
      MethodWith lead ms (some (.primitive before .void none)) i true us m →
      MemberAfter R lead ms (⟨before, .keyword "void"⟩ ::
        ⟨i.lead, .name i.name⟩ :: us) m
  | constructor {us m} (i : Ident) : MethodWith lead ms none i false us m →
      MemberAfter R lead ms (⟨i.lead, .name i.name⟩ :: us) m
  | method {us t vs m} (i : Ident) :
      SpellsType us t → MethodWith lead ms (some t) i true vs m →
      MemberAfter R lead ms (us ++ ⟨i.lead, .name i.name⟩ :: vs) m
  | field {us t vs ds after} : SpellsType us t →
      Padded SpellsDeclarator "," vs ds →
      MemberAfter R lead ms (us ++ vs ++ [⟨after, .symbol ";"⟩])
        ⟨.field ⟨lead, ms, t, ds⟩, after⟩

/-- A member of a class. -/
inductive MemberWith (R : Spelling (RightPadded Member)) :
    Spelling (RightPadded Member)
  | mk {lead us ms vs m xs} : Many SpellsModifier us ms →
      MemberAfter R lead ms vs m → Led lead (us ++ vs) xs → MemberWith R xs m

/-- A member whose classes nest at most so deep. -/
def SpellsMemberAt : Nat → Spelling (RightPadded Member)
  | 0 => fun _ _ => False
  | n + 1 => MemberWith (SpellsMemberAt n)

/-- A member of a class. -/
def SpellsMember : Spelling (RightPadded Member) :=
  fun us m => ∃ n, SpellsMemberAt n us m

-- ================================================================= files

/-- A class at the top of a file. -/
inductive SpellsTopClass : Spelling JavaClass
  | mk {lead us ms t kind vs c xs} : Many SpellsModifier us ms →
      Parser.asClassKind t = some kind →
      ClassWith SpellsMember lead ms kind vs c →
      Led lead (us ++ t :: vs) xs → SpellsTopClass xs c

/-- The package of a file, if it has one. -/
inductive SpellsPackage : Spelling (Option (RightPadded Package))
  | none : SpellsPackage [] none
  | some {lead us n after} : SpellsName us n →
      SpellsPackage (⟨lead, .keyword "package"⟩ ::
        (us ++ [⟨after, .symbol ";"⟩]))
        (some ⟨⟨lead, n⟩, after⟩)

/-- The keyword that makes an import static. -/
inductive SpellsStatic : Spelling (Option Trivia)
  | none : SpellsStatic [] none
  | some {lead} : SpellsStatic [⟨lead, .keyword "static"⟩] (some lead)

/-- An import with its semicolon. -/
inductive SpellsImport : Spelling (RightPadded Import)
  | mk {lead us static? vs n after} : SpellsStatic us static? →
      SpellsImportName vs n →
      SpellsImport (⟨lead, .keyword "import"⟩ ::
        (us ++ vs ++ [⟨after, .symbol ";"⟩]))
        ⟨⟨lead, static?, n⟩, after⟩

/-- The package, the imports and the classes of a file. -/
inductive SpellsParts :
    Spelling (Option (RightPadded Package) × List (RightPadded Import) ×
      List JavaClass)
  | mk {us p vs imports ws classes} : SpellsPackage us p →
      Many SpellsImport vs imports →
      Many SpellsTopClass ws classes →
      SpellsParts (us ++ vs ++ ws) (p, imports, classes)

/-- All tokens of a file, the trivia after them, and its path. -/
inductive SpellsUnit (close : Trivia) (path : Option String) :
    Spelling CompilationUnit
  | empty : SpellsUnit close path [] ⟨"", none, [], [], close, path⟩
  | mk {lead us p imports classes xs} : SpellsParts us (p, imports, classes) →
      Led lead us xs →
      SpellsUnit close path xs ⟨lead, p, imports, classes, close, path⟩

end JavaRefit
