/-
Which derivation counts where there are several.

The rules of `Derivation` once more, with the two choices that they leave
settled. Tokens that spell a declaration are derived as no expression;
that is in the rule for plain statements already. An `if` takes an `else`
when the tokens behind its condition can be divided at one, and of the
places where they can, the last. The outer `if` chooses first: its
branches are derived by the same rules from the tokens that it leaves
them.

Chain: after `Derivation`; that it is these derivations that are read
comes after.
-/
import JavaRefit.Proofs.Grammar.Derivation

namespace JavaRefit

open Spelling

-- ============================================================ statements

/-- The tokens behind a condition can be divided into a branch, an `else` and a
branch. -/
def DividesAt (ts vs ws : List Token) : Prop :=
  ∃ lead s e, ts = vs ++ ⟨lead, .keyword "else"⟩ :: ws ∧ DerivesStmt vs s ∧
    DerivesStmt ws e

/-- A statement with its semicolon, where it has one. -/
inductive PrefersStmt : Spelling (RightPadded Stmt)
  | plain {us s} : PlainWith PrefersStmt us s → PrefersStmt us s
  | whileLoop {lead us c vs s} : SpellsCondition us c → PrefersStmt vs s →
      PrefersStmt (⟨lead, .keyword "while"⟩ :: (us ++ vs))
        ⟨.whileLoop lead c s, ""⟩
  | ifThen {lead us c ts s} : SpellsCondition us c →
      (∀ vs ws, ¬DividesAt ts vs ws) →
      PrefersStmt ts s → PrefersStmt (⟨lead, .keyword "if"⟩ :: (us ++ ts))
        ⟨.ifElse lead c s none, ""⟩
  | ifElse {lead us c ts vs s elseLead ws e} : SpellsCondition us c →
      ts = vs ++ ⟨elseLead, .keyword "else"⟩ :: ws →
      (∀ vs' ws', DividesAt ts vs' ws' → vs'.length ≤ vs.length) →
      PrefersStmt vs s → PrefersStmt ws e →
      PrefersStmt (⟨lead, .keyword "if"⟩ :: (us ++ ts))
        ⟨.ifElse lead c s (some ⟨elseLead, e⟩), ""⟩

-- =============================================================== members

/-- The body of a method, or the semicolon in its place and the trivia in front
of that. -/
inductive PrefersBody : Spelling (Option (Block Stmt) × Trivia)
  | block {us b} : Braced PrefersStmt us b → PrefersBody us (some b, "")
  | semicolon {after} : PrefersBody [⟨after, .symbol ";"⟩] (none, after)

mutual
/-- A class. -/
inductive PrefersClass : Spelling JavaClass
  | mk {lead us ms t kind vs extends? ws implements? bs body xs} (i : Ident) :
      Many SpellsModifier us ms → Parser.asClassKind t = some kind →
      AfterKeyword SpellsClassType "extends" vs extends? →
      AfterKeyword SpellsClassType "implements" ws implements? →
      Braced PrefersMember bs body →
      Led lead (us ++ t :: ⟨i.lead, .name i.name⟩ :: (vs ++ ws ++ bs)) xs →
      PrefersClass xs
        ⟨lead, ms, kind.before, kind.element, .simple i none, extends?,
          implements?, body, none⟩

/-- A member of a class. -/
inductive PrefersMember : Spelling (RightPadded Member)
  | field {lead us ms vs t ws ds after xs} : Many SpellsModifier us ms →
      SpellsType vs t → Padded SpellsDeclarator "," ws ds →
      Led lead (us ++ vs ++ ws ++ [⟨after, .symbol ";"⟩]) xs →
      PrefersMember xs ⟨.field ⟨lead, ms, t, ds⟩, after⟩
  | method {lead us ms vs t ps params ts throws bs body after xs} (i : Ident) :
      Many SpellsModifier us ms → DerivesResult vs t →
      Delimited (ParameterWith SpellsType) "(" ")" ps params →
      AfterKeyword SpellsClassType "throws" ts throws →
      PrefersBody bs (body, after) →
      Led lead (us ++ vs ++ ⟨i.lead, .name i.name⟩ :: (ps ++ ts ++ bs)) xs →
      PrefersMember xs ⟨.method ⟨lead, ms, some t, i, params, throws, body,
        none⟩, after⟩
  | constructor {lead us ms ps params ts throws bs body xs} (i : Ident) :
      Many SpellsModifier us ms →
      Delimited (ParameterWith SpellsType) "(" ")" ps params →
      AfterKeyword SpellsClassType "throws" ts throws →
      Braced PrefersStmt bs body →
      Led lead (us ++ ⟨i.lead, .name i.name⟩ :: (ps ++ ts ++ bs)) xs →
      PrefersMember xs ⟨.method ⟨lead, ms, none, i, params, throws,
        some body, none⟩, ""⟩
  | nested {us c} : PrefersClass us c → PrefersMember us ⟨.nested c, ""⟩
end

-- ================================================================= files

/-- The package, the imports and the classes of a file. -/
inductive PrefersParts :
    Spelling (Option (RightPadded Package) × List (RightPadded Import) ×
      List JavaClass)
  | mk {us p vs imports ws classes} : SpellsPackage us p →
      Many SpellsImport vs imports →
      Many PrefersClass ws classes →
      PrefersParts (us ++ vs ++ ws) (p, imports, classes)

/-- All tokens of a file, the trivia after them, and its path. -/
inductive PrefersUnit (close : Trivia) (path : Option String) :
    Spelling CompilationUnit
  | empty : PrefersUnit close path [] ⟨"", none, [], [], close, path⟩
  | mk {lead us p imports classes xs} : PrefersParts us (p, imports, classes) →
      Led lead us xs →
      PrefersUnit close path xs ⟨lead, p, imports, classes, close, path⟩

end JavaRefit
