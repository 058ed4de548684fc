/-
Trees as text.

Every part of a tree is a run of pieces, each the text of some trivia or
one word; the text of the part is the pieces put together. All words
that the tree does not keep (delimiters, separators, keywords of
statements) are put in here.

Chain: tree layer, after `Unit`; the other direction is the parser.
-/
import JavaRefit.Tree.Unit

namespace JavaRefit

/-- A piece of the text of a tree. -/
inductive Piece where
  | trivia (text : Trivia)
  | word (text : String)
deriving DecidableEq, Repr

namespace Piece

def text : Piece → String
  | trivia text => text
  | word text => text

/-- The text of a run of pieces. -/
def textAll (ps : List Piece) : String :=
  String.join (ps.map text)

/-- Runs with a separator between them. -/
def separated (separator : String) : List (List Piece) → List Piece
  | [] => []
  | [ps] => ps
  | ps :: rest => ps ++ word separator :: separated separator rest

/-- Runs with commas between them, between two delimiters. -/
def enclosed (before : Trivia) (opening : String) (runs : List (List Piece))
    (close : Trivia) (closing : String) : List Piece :=
  trivia before :: word opening ::
    (separated "," runs ++ (if runs.isEmpty then [trivia close] else []) ++
      [word closing])

/-- Runs with commas between them, after a keyword. -/
def afterKeyword (before : Trivia) (keyword : String)
    (runs : List (List Piece)) : List Piece :=
  trivia before :: word keyword :: separated "," runs

end Piece

open Piece

-- ======================================================= names and types

def Ident.pieces (i : Ident) : List Piece :=
  [trivia i.lead, word i.name]

def Name.pieces : Name → List Piece
  | .simple i _ => i.pieces
  | .qualified lead outer last _ =>
    trivia lead :: (outer.pieces ++ trivia last.before :: word "." ::
      last.element.pieces)

mutual
def TypeTree.pieces : TypeTree → List Piece
  | .named name => name.pieces
  | .generic lead base args _ =>
    trivia lead ::
      (base.pieces ++ enclosed args.before "<" (TypeTree.runs args.elements)
        args.close ">")
  | .primitive lead keyword _ => [trivia lead, word keyword.text]
  | .array lead element dimension _ =>
    trivia lead :: (element.pieces ++
      [trivia dimension.before, word "[", trivia dimension.element, word "]"])
  | .union lead alternatives =>
      trivia lead :: separated "|" (TypeTree.runs alternatives)

/-- The run of each padded type. -/
def TypeTree.runs : List (RightPadded TypeTree) → List (List Piece)
  | [] => []
  | p :: ps => (p.element.pieces ++ [trivia p.after]) :: TypeTree.runs ps
end

/-- A list of types after a keyword. -/
def TypeTree.listPieces (keyword : String) :
    Option (Container TypeTree) → List Piece
  | none => []
  | some c => afterKeyword c.before keyword (TypeTree.runs c.elements)

-- =========================================================== expressions

mutual
def Expr.pieces : Expr → List Piece
  | .ident i _ => i.pieces
  | .access lead target name _ =>
    trivia lead :: (target.pieces ++ trivia name.before :: word "." ::
      name.element.pieces)
  | .call lead select name args _ =>
    trivia lead :: (Expr.selectPieces select ++ name.pieces ++
      enclosed args.before "(" (Expr.runs args.elements) args.close ")")
  | .new lead base args _ _ =>
    trivia lead :: word "new" :: (base.pieces ++
      enclosed args.before "(" (Expr.runs args.elements) args.close ")")
  | .literal lead text _ => [trivia lead, word text]
  | .assign lead target value _ =>
    trivia lead :: (target.pieces ++ trivia value.before :: word "=" ::
      value.element.pieces)
  | .binary lead left operator right _ =>
    trivia lead ::
      (left.pieces ++ trivia operator.before :: word operator.element.text ::
        right.pieces)
  | .unary lead operator operand _ =>
      trivia lead :: word operator.text :: operand.pieces
  | .parens lead inner _ =>
    trivia lead :: word "(" ::
      (inner.element.pieces ++ [trivia inner.after, word ")"])

/-- The target of a call and the dot after it. -/
def Expr.selectPieces : Option (RightPadded Expr) → List Piece
  | none => []
  | some p => p.element.pieces ++ [trivia p.after, word "."]

/-- The run of each padded expression. -/
def Expr.runs : List (RightPadded Expr) → List (List Piece)
  | [] => []
  | p :: ps => (p.element.pieces ++ [trivia p.after]) :: Expr.runs ps
end

-- ========================================================== declarations

def Modifier.pieces : Modifier → List Piece
  | .keyword lead text => [trivia lead, word text]
  | .annotated lead name none => trivia lead :: word "@" :: name.pieces
  | .annotated lead name (some args) =>
    trivia lead :: word "@" :: (name.pieces ++
      enclosed args.before "(" (Expr.runs args.elements) args.close ")")

def Modifier.listPieces (modifiers : List Modifier) : List Piece :=
  modifiers.flatMap Modifier.pieces

def Variable.pieces (v : Variable) : List Piece :=
  trivia v.lead :: (v.name.pieces ++
    match v.initializer with
    | none => []
    | some i => trivia i.before :: word "=" :: i.element.pieces)

def Variables.pieces (d : Variables) : List Piece :=
  trivia d.lead :: (Modifier.listPieces d.modifiers ++ d.typeTree.pieces ++
    separated "," (d.declarators.map fun p =>
      p.element.pieces ++ [trivia p.after]))

/-- A condition between parentheses. -/
def Expr.conditionPieces (c : Parens Expr) : List Piece :=
  trivia c.lead :: word "(" ::
    (c.inner.element.pieces ++ [trivia c.inner.after, word ")"])

/-- The parameter of a catch clause. -/
def Variables.parameterPieces (c : Parens Variables) : List Piece :=
  trivia c.lead :: word "(" ::
    (c.inner.element.pieces ++ [trivia c.inner.after, word ")"])

-- ============================================================ statements

/-- The semicolon of what needs one. -/
def semicolonIf (needed : Bool) : List Piece :=
  if needed then [word ";"] else []

/-- The contents of a block between its braces. -/
def bracedPieces (lead : Trivia) (contents : List Piece) (close : Trivia) :
    List Piece :=
  trivia lead :: word "\x7b" :: (contents ++ [trivia close, word "\x7d"])

mutual
def Stmt.pieces : Stmt → List Piece
  | .block b => Stmt.blockPieces b
  | .declaration d => d.pieces
  | .expr e => e.pieces
  | .empty lead => [trivia lead]
  | .tryCatch t => t.pieces
  | .throwing lead exception => trivia lead :: word "throw" :: exception.pieces
  | .returning lead none => [trivia lead, word "return"]
  | .returning lead (some value) => trivia lead :: word "return" :: value.pieces
  | .ifElse lead condition thenPart elsePart =>
    trivia lead :: word "if" ::
      (Expr.conditionPieces condition ++ Stmt.paddedPieces thenPart ++
      Stmt.elsePieces elsePart)
  | .whileLoop lead condition body =>
    trivia lead :: word "while" ::
      (Expr.conditionPieces condition ++ Stmt.paddedPieces body)

/-- A statement with its semicolon, where it needs one. -/
def Stmt.paddedPieces (p : RightPadded Stmt) : List Piece :=
  p.element.pieces ++ trivia p.after :: semicolonIf p.element.needsSemicolon

/-- Statements one after the other. -/
def Stmt.allPieces : List (RightPadded Stmt) → List Piece
  | [] => []
  | p :: ps => Stmt.paddedPieces p ++ Stmt.allPieces ps

def Stmt.blockPieces (b : Block Stmt) : List Piece :=
  bracedPieces b.lead (Stmt.allPieces b.statements) b.close

def Try.pieces (t : Try Stmt) : List Piece :=
  trivia t.lead :: word "try" ::
    (Stmt.blockPieces t.body ++ Catch.allPieces t.catches ++
      Stmt.finallyPieces t.finally?)

def Catch.pieces (c : Catch Stmt) : List Piece :=
  trivia c.lead :: word "catch" ::
    (Variables.parameterPieces c.parameter ++ Stmt.blockPieces c.body)

/-- The clauses of a `try` statement. -/
def Catch.allPieces : List (Catch Stmt) → List Piece
  | [] => []
  | c :: cs => c.pieces ++ Catch.allPieces cs

/-- The `finally` of a `try` statement. -/
def Stmt.finallyPieces : Option (LeftPadded (Block Stmt)) → List Piece
  | none => []
  | some f => trivia f.before :: word "finally" :: Stmt.blockPieces f.element

def Else.pieces (e : Else Stmt) : List Piece :=
  trivia e.lead :: word "else" :: Stmt.paddedPieces e.body

/-- The `else` of an `if` statement. -/
def Stmt.elsePieces : Option (Else Stmt) → List Piece
  | none => []
  | some e => e.pieces
end

-- =================================================== classes and files

def Method.pieces (m : Method) : List Piece :=
  trivia m.lead :: (Modifier.listPieces m.modifiers ++
    (match m.returnType with | none => [] | some t => t.pieces) ++
      m.name.pieces ++
    enclosed m.parameters.before "("
      (m.parameters.elements.map fun p => p.element.pieces ++ [trivia p.after])
      m.parameters.close ")" ++
    TypeTree.listPieces "throws" m.throws ++
    (match m.body with | none => [] | some b => Stmt.blockPieces b))

mutual
def Member.pieces : Member → List Piece
  | .field d => d.pieces
  | .method m => m.pieces
  | .nested c => c.pieces

def ClassDecl.pieces (c : ClassDecl Member) : List Piece :=
  trivia c.lead :: (Modifier.listPieces c.modifiers ++
    trivia c.kindLead :: word c.kind.text :: (c.name.pieces ++
      TypeTree.listPieces "extends" c.extends? ++
      TypeTree.listPieces "implements" c.implements? ++
        Member.blockPieces c.body))

def Member.blockPieces (b : Block Member) : List Piece :=
  bracedPieces b.lead (Member.allPieces b.statements) b.close

/-- Members one after the other, each with its semicolon, where it needs one. -/
def Member.allPieces : List (RightPadded Member) → List Piece
  | [] => []
  | p :: ps =>
    p.element.pieces ++ trivia p.after ::
      (semicolonIf p.element.needsSemicolon ++ Member.allPieces ps)
end

def Package.pieces (p : Package) : List Piece :=
  trivia p.lead :: word "package" :: p.name.pieces

def Import.pieces (i : Import) : List Piece :=
  trivia i.lead :: word "import" ::
    ((match i.static? with | none => [] | some before => [trivia before,
      word "static"]) ++ i.name.pieces)

def CompilationUnit.pieces (cu : CompilationUnit) : List Piece :=
  trivia cu.lead ::
    ((match cu.package? with
      | none => []
      | some p => p.element.pieces ++ [trivia p.after, word ";"]) ++
    cu.imports.flatMap (fun p =>
      p.element.pieces ++ [trivia p.after, word ";"]) ++
    cu.classes.flatMap ClassDecl.pieces ++ [trivia cu.close])

/-- The text of a file. -/
def CompilationUnit.print (cu : CompilationUnit) : String :=
  textAll cu.pieces

end JavaRefit
