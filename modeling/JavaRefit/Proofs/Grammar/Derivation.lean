/-
Which trees the grammar derives from which tokens.

The rules of the language once more, from statements upwards, as a plain
grammar has them: a branch of an `if` is any statement, and tokens that
spell a declaration may spell an expression too. One constructor stands
for one way to write a statement, a member, a class or a file, and its
tree is what is built from that derivation. Up to declarations the rules
were plain already.

Nothing here says which derivation counts where there are several.

Chain: after `Rules`; that what is read is derived, and whatever is
derivable is read, comes after.
-/
import JavaRefit.Proofs.Grammar.Rules

namespace JavaRefit

open Spelling

-- ============================================================ statements

/-- A statement with its semicolon, where it has one. -/
inductive DerivesStmt : Spelling (RightPadded Stmt)
  | block {us b} : Braced DerivesStmt us b → DerivesStmt us ⟨.block b, ""⟩
  | localVariable {us d after} : SpellsDeclaration us d →
      DerivesStmt (us ++ [⟨after, .symbol ";"⟩]) ⟨.declaration d, after⟩
  | expression {us e after} : SpellsExpr us e →
      DerivesStmt (us ++ [⟨after, .symbol ";"⟩]) ⟨.expr e, after⟩
  | tryCatch {lead us b vs cs ws f} : Braced DerivesStmt us b →
      Many (CatchWith DerivesStmt) vs cs → FinallyWith DerivesStmt ws f →
      DerivesStmt (⟨lead, .keyword "try"⟩ :: (us ++ vs ++ ws))
        ⟨.tryCatch ⟨lead, b, cs, f⟩, ""⟩
  | throwing {lead us e after} : SpellsExpr us e →
      DerivesStmt (⟨lead, .keyword "throw"⟩ :: (us ++ [⟨after, .symbol ";"⟩]))
        ⟨.throwing lead e, after⟩
  | returningNone {lead after} :
      DerivesStmt [⟨lead, .keyword "return"⟩, ⟨after, .symbol ";"⟩]
        ⟨.returning lead none, after⟩
  | returning {lead us e after} : SpellsExpr us e →
      DerivesStmt (⟨lead, .keyword "return"⟩ :: (us ++ [⟨after, .symbol ";"⟩]))
        ⟨.returning lead (some e), after⟩
  | ifThen {lead us c vs s} : SpellsCondition us c → DerivesStmt vs s →
      DerivesStmt (⟨lead, .keyword "if"⟩ :: (us ++ vs))
        ⟨.ifElse lead c s none, ""⟩
  | ifElse {lead us c vs s elseLead ws e} : SpellsCondition us c →
      DerivesStmt vs s → DerivesStmt ws e →
      DerivesStmt (⟨lead, .keyword "if"⟩ ::
        (us ++ vs ++ ⟨elseLead, .keyword "else"⟩ :: ws))
        ⟨.ifElse lead c s (some ⟨elseLead, e⟩), ""⟩
  | whileLoop {lead us c vs s} : SpellsCondition us c → DerivesStmt vs s →
      DerivesStmt (⟨lead, .keyword "while"⟩ :: (us ++ vs))
        ⟨.whileLoop lead c s, ""⟩
  | empty {lead} : DerivesStmt [⟨lead, .symbol ";"⟩] ⟨.empty lead, ""⟩

-- =============================================================== members

/-- The result of a method: a type or nothing. -/
inductive DerivesResult : Spelling TypeTree
  | type {us t} : SpellsType us t → DerivesResult us t
  | void {lead} : DerivesResult [⟨lead, .keyword "void"⟩]
      (.primitive lead .void none)

/-- The body of a method, or the semicolon in its place and the trivia in front
of that. -/
inductive DerivesBody : Spelling (Option (Block Stmt) × Trivia)
  | block {us b} : Braced DerivesStmt us b → DerivesBody us (some b, "")
  | semicolon {after} : DerivesBody [⟨after, .symbol ";"⟩] (none, after)

mutual
/-- A class. -/
inductive DerivesClass : Spelling JavaClass
  | mk {lead us ms t kind vs extends? ws implements? bs body xs} (i : Ident) :
      Many SpellsModifier us ms → Parser.asClassKind t = some kind →
      AfterKeyword SpellsClassType "extends" vs extends? →
      AfterKeyword SpellsClassType "implements" ws implements? →
      Braced DerivesMember bs body →
      Led lead (us ++ t :: ⟨i.lead, .name i.name⟩ :: (vs ++ ws ++ bs)) xs →
      DerivesClass xs
        ⟨lead, ms, kind.before, kind.element, .simple i none, extends?,
          implements?, body, none⟩

/-- A member of a class. -/
inductive DerivesMember : Spelling (RightPadded Member)
  | field {lead us ms vs t ws ds after xs} : Many SpellsModifier us ms →
      SpellsType vs t → Padded SpellsDeclarator "," ws ds →
      Led lead (us ++ vs ++ ws ++ [⟨after, .symbol ";"⟩]) xs →
      DerivesMember xs ⟨.field ⟨lead, ms, t, ds⟩, after⟩
  | method {lead us ms vs t ps params ts throws bs body after xs} (i : Ident) :
      Many SpellsModifier us ms → DerivesResult vs t →
      Delimited (ParameterWith SpellsType) "(" ")" ps params →
      AfterKeyword SpellsClassType "throws" ts throws →
      DerivesBody bs (body, after) →
      Led lead (us ++ vs ++ ⟨i.lead, .name i.name⟩ :: (ps ++ ts ++ bs)) xs →
      DerivesMember xs ⟨.method ⟨lead, ms, some t, i, params, throws, body,
        none⟩, after⟩
  | constructor {lead us ms ps params ts throws bs body xs} (i : Ident) :
      Many SpellsModifier us ms →
      Delimited (ParameterWith SpellsType) "(" ")" ps params →
      AfterKeyword SpellsClassType "throws" ts throws →
      Braced DerivesStmt bs body →
      Led lead (us ++ ⟨i.lead, .name i.name⟩ :: (ps ++ ts ++ bs)) xs →
      DerivesMember xs ⟨.method ⟨lead, ms, none, i, params, throws,
        some body, none⟩, ""⟩
  | nested {us c} : DerivesClass us c → DerivesMember us ⟨.nested c, ""⟩
end

-- ================================================================= files

/-- The package, the imports and the classes of a file. -/
inductive DerivesParts :
    Spelling (Option (RightPadded Package) × List (RightPadded Import) ×
      List JavaClass)
  | mk {us p vs imports ws classes} : SpellsPackage us p →
      Many SpellsImport vs imports →
      Many DerivesClass ws classes →
      DerivesParts (us ++ vs ++ ws) (p, imports, classes)

/-- All tokens of a file, the trivia after them, and its path. -/
inductive DerivesUnit (close : Trivia) (path : Option String) :
    Spelling CompilationUnit
  | empty : DerivesUnit close path [] ⟨"", none, [], [], close, path⟩
  | mk {lead us p imports classes xs} : DerivesParts us (p, imports, classes) →
      Led lead us xs →
      DerivesUnit close path xs ⟨lead, p, imports, classes, close, path⟩

/-- The tokens are those of a file. -/
def Derivable (ts : List Token) : Prop :=
  ∃ cu, DerivesUnit "" none ts cu

end JavaRefit
