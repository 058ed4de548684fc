/-
A file that is read is printed as it was.

Members, classes and the file itself are read as they are written, by the
same steps as statements. The tokens of a text and the trivia after them
are the text when no character stops them (`scanChars_text`), and a file
is read only when all of its tokens are; so what a file prints is the
text it was read from.

Chain: last of the proofs about reading; those about the grammar go on
from it.
-/
import JavaRefit.Parser.Unit
import JavaRefit.Proofs.Reading.Stmt

namespace JavaRefit

open Piece

-- ================================================================== runs

/-- A list of types after a keyword is what such a list is read as. -/
theorem TypeTree.listPieces_eq_optional (keyword : String)
    (o : Option (Container TypeTree)) :
    TypeTree.listPieces keyword o = Parser.optional (fun c =>
      afterKeyword c.before keyword
        (c.elements.map fun p => p.element.pieces ++ [trivia p.after])) o := by
  cases o with
  | none => rfl
  | some c => simp [TypeTree.listPieces, TypeTree.runs_eq_map]

namespace Parser

-- =============================================================== members

theorem asClassKind_eq_some {t : Token} {k : LeftPadded ClassKind}
    (h : asClassKind t = some k) :
    k.before = t.lead ∧ k.element.text = t.word.text := by
  unfold asClassKind at h
  split at h
  next s hs =>
    obtain ⟨kind, hk, rfl⟩ := Option.map_eq_some_iff.1 h
    refine ⟨rfl, ?_⟩
    rw [hs]
    unfold ClassKind.ofText? at hk
    split at hk
    next h₁ => cases hk; exact h₁.symm
    next =>
      split at hk
      next h₂ => cases hk; exact h₂.symm
      next => cases hk
  next => cases h

/-- A class after its modifiers and keyword, where its members are read as they
are written. -/
theorem classWith_reads {nested : Parser (RightPadded Member)}
    (hn : Reads nested Member.paddedPieces) {lead : Trivia} {ms : List Modifier}
    {kind : LeftPadded ClassKind} {ts rest : List Token} {c : JavaClass}
    (h : classWith nested lead ms kind ts = .ok (c, rest)) :
    gap lead ++ solid (Modifier.listPieces ms) ++ gap kind.before ++
        .word kind.element.text :: Token.flat ts
      = solid c.pieces ++ Token.flat rest := by
  simp only [classWith, bind_eq_ok] at h
  obtain ⟨i, t₁, h₁, extends?, t₂, h₂, implements?, t₃, h₃, body,
      t₄, h₄, h⟩ := h
  obtain ⟨rfl, rfl⟩ := pure_eq_ok.1 h
  rw [ident_reads h₁, classType_reads.afterKeyword? "extends" h₂,
    classType_reads.afterKeyword? "implements" h₃, hn.braced h₄]
  simp [ClassDecl.pieces, Name.pieces, TypeTree.listPieces_eq_optional,
    Member.blockPieces, Member.allPieces_eq_flatMap]

/-- The pieces of a method up to its parameters. -/
def signaturePieces (lead : Trivia) (ms : List Modifier)
    (returnType : Option TypeTree) (i : Ident) : List Piece :=
  trivia lead :: (Modifier.listPieces ms ++
    optional TypeTree.pieces returnType ++ i.pieces)

/-- A method after its name. -/
theorem methodWith_reads {lead : Trivia} {ms : List Modifier}
    {returnType : Option TypeTree} {i : Ident} {mayLackBody : Bool}
    {ts rest : List Token} {m : RightPadded Member}
    (h : methodWith lead ms returnType i mayLackBody ts = .ok (m, rest)) :
    solid (signaturePieces lead ms returnType i) ++ Token.flat ts
      = solid (Member.paddedPieces m) ++ Token.flat rest := by
  simp only [methodWith, bind_eq_ok] at h
  obtain ⟨parameters, t₁, h₁, throws, t₂, h₂, ended, t₃, h₃, h⟩ := h
  obtain rfl := isNext_eq_ok h₃
  rw [(parameter_reads typeTree_reads).delimited "(" ")" h₁,
    classType_reads.afterKeyword? "throws" h₂]
  split at h
  · obtain ⟨_, t₄, h₄, after, t₅, h₅, h⟩ := by
      simpa only [terminated, bind_eq_ok] using h
    obtain ⟨rfl, rfl⟩ := pure_eq_ok.1 h₄
    obtain ⟨rfl, rfl⟩ := pure_eq_ok.1 h
    rw [symbol_reads ";" h₅]
    cases returnType <;>
      simp [signaturePieces, Member.paddedPieces, Member.pieces, Method.pieces,
        containerPieces, TypeTree.listPieces_eq_optional, Member.needsSemicolon,
        semicolonIf, Ident.pieces]
  · obtain ⟨body, t₄, h₄, h⟩ := bind_eq_ok.1 h
    obtain ⟨rfl, rfl⟩ := pure_eq_ok.1 h
    rw [block_reads h₄]
    cases returnType <;>
      simp [signaturePieces, Member.paddedPieces, Member.pieces, Method.pieces,
        containerPieces, TypeTree.listPieces_eq_optional, Member.needsSemicolon,
        semicolonIf, Ident.pieces]

theorem memberWith_reads {nested : Parser (RightPadded Member)}
    (hn : Reads nested Member.paddedPieces) :
    Reads (memberWith nested) Member.paddedPieces := by
  intro ts rest m h
  simp only [memberWith, bind_eq_ok] at h
  obtain ⟨lead, t₁, h₁, ms, t₂, h₂, kind?, t₃, h₃, h⟩ := h
  have hkind := Reads.take? (fun k => [trivia k.before, .word k.element.text])
    (fun _ _ hk => by simp [asClassKind_eq_some hk]) h₃
  rw [takeLead_reads h₁, modifiers_reads h₂, hkind]
  cases kind? with
  | some kind =>
      obtain ⟨c, t₄, h₄, h⟩ := bind_eq_ok.1 h
      obtain ⟨rfl, rfl⟩ := pure_eq_ok.1 h
      simp [Member.paddedPieces, Member.pieces, Member.needsSemicolon,
        semicolonIf, ← classWith_reads hn h₄]
  | none =>
  obtain ⟨void?, t₄, h₄, h⟩ := bind_eq_ok.1 h
  rw [keyword?_reads "void" h₄]
  cases void? with
  | some before =>
      obtain ⟨i, t₅, h₅, h⟩ := bind_eq_ok.1 h
      rw [ident_reads h₅, ← methodWith_reads h]
      simp [signaturePieces, TypeTree.pieces, Primitive.text]
  | none =>
  obtain ⟨called, t₅, h₅, h⟩ := bind_eq_ok.1 h
  obtain ⟨-, rfl⟩ := ahead_eq_ok.1 h₅
  split at h
  · obtain ⟨i, t₆, h₆, h⟩ := bind_eq_ok.1 h
    rw [ident_reads h₆, ← methodWith_reads h]
    simp [signaturePieces]
  obtain ⟨t, t₆, h₆, called', t₇, h₇, h⟩ := by simpa only [bind_eq_ok] using h
  obtain ⟨-, rfl⟩ := ahead_eq_ok.1 h₇
  rw [typeTree_reads h₆]
  split at h
  · obtain ⟨i, t₈, h₈, h⟩ := bind_eq_ok.1 h
    rw [ident_reads h₈, ← methodWith_reads h]
    simp [signaturePieces]
  · obtain ⟨vs, t₈, h₈, h⟩ := bind_eq_ok.1 h
    obtain ⟨_, t₉, h₉, after, t₁₀, h₁₀, h⟩ := by
      simpa only [terminated, bind_eq_ok] using h
    obtain ⟨rfl, rfl⟩ := pure_eq_ok.1 h₉
    obtain ⟨rfl, rfl⟩ := pure_eq_ok.1 h
    rw [Reads.bounded (declarator_reads.padded ",") h₈, symbol_reads ";" h₁₀]
    simp [Member.paddedPieces, Member.pieces, Member.needsSemicolon,
      semicolonIf, Variables.pieces, paddedPieces]

theorem memberOfDepth_reads (n : Nat) :
    Reads (memberOfDepth n) Member.paddedPieces := by
  induction n with
  | zero => intro ts rest a h; exact absurd h stuck_ne_ok
  | succ n ih => exact memberWith_reads ih

theorem member_reads : Reads member Member.paddedPieces :=
  Reads.bounded memberOfDepth_reads

-- ================================================================= files

theorem topClass_reads : Reads topClass ClassDecl.pieces := by
  intro ts rest c h
  simp only [topClass, bind_eq_ok] at h
  obtain ⟨lead, t₁, h₁, ms, t₂, h₂, kind, t₃, h₃, h⟩ := h
  rw [takeLead_reads h₁, modifiers_reads h₂,
    Reads.take (fun k => [trivia k.before, .word k.element.text])
      (fun _ _ hk => by simp [asClassKind_eq_some hk]) h₃,
    ← classWith_reads member_reads h]
  simp

/-- The pieces of the package of a file, with its semicolon. -/
def packagePieces (p : RightPadded Package) : List Piece :=
  p.element.pieces ++ [trivia p.after, .word ";"]

/-- The pieces of an import with its semicolon. -/
def importPieces (p : RightPadded Import) : List Piece :=
  p.element.pieces ++ [trivia p.after, .word ";"]

theorem package?_reads : Reads package? (optional packagePieces) := by
  intro ts rest o h
  simp only [package?, bind_eq_ok] at h
  obtain ⟨lead?, t₁, h₁, h⟩ := h
  rw [keyword?_reads "package" h₁]
  cases lead? with
  | none =>
      obtain ⟨rfl, rfl⟩ := pure_eq_ok.1 h
      rfl
  | some lead =>
      obtain ⟨p, t₂, h₂, h⟩ := bind_eq_ok.1 h
      obtain ⟨rfl, rfl⟩ := pure_eq_ok.1 h
      simp only [terminated, bind_eq_ok, map_eq_ok] at h₂
      obtain ⟨_, t₃, ⟨n, h₃, rfl⟩, after, t₄, h₄, h₂⟩ := h₂
      obtain ⟨rfl, rfl⟩ := pure_eq_ok.1 h₂
      rw [name_reads h₃, symbol_reads ";" h₄]
      simp [packagePieces, Package.pieces]

theorem importDecl_reads : Reads importDecl importPieces := by
  intro ts rest i h
  simp only [importDecl, terminated, bind_eq_ok, map_eq_ok] at h
  obtain ⟨lead, t₁, h₁, static?, t₂, h₂, _, t₃, ⟨n, h₃, rfl⟩, after,
      t₄, h₄, h⟩ := h
  obtain ⟨rfl, rfl⟩ := pure_eq_ok.1 h
  rw [keyword_reads "import" h₁, keyword?_reads "static" h₂,
    importName_reads h₃, symbol_reads ";" h₄]
  cases static? <;> simp [importPieces, Import.pieces]

/-- The classes of a file are read until no token is left. -/
theorem manyWhile_hasMore_rest {α : Type} {element : Parser α} {n : Nat} :
    ∀ {ts rest : List Token} {es : List α},
      manyWhile hasMore element n ts = .ok (es, rest) → rest = [] := by
  induction n with
  | zero => intro ts rest es h; exact absurd h stuck_ne_ok
  | succ n ih =>
      intro ts rest es h
      simp only [manyWhile, bind_eq_ok, ahead_eq_ok] at h
      obtain ⟨more, t₁, ⟨hmore, rfl⟩, h⟩ := h
      split at h
      · obtain ⟨e, t₂, h₂, es', t₃, h₃, h⟩ := by simpa only [bind_eq_ok] using h
        obtain ⟨-, rfl⟩ := pure_eq_ok.1 h
        exact ih h₃
      next hno =>
        obtain ⟨-, rfl⟩ := pure_eq_ok.1 h
        simpa [← hmore, hasMore] using hno

/-- A file is all of its tokens and the trivia after them. -/
theorem unit_reads {close : Trivia} {path : Option String}
    {ts rest : List Token} {cu : CompilationUnit}
    (h : unit close path ts = .ok (cu, rest)) :
    solid cu.pieces = Token.flat ts ++ gap close := by
  simp only [unit, bind_eq_ok] at h
  obtain ⟨lead, t₁, h₁, p, t₂, h₂, imports, t₃, h₃, classes, t₄, h₄, h⟩ := h
  obtain ⟨rfl, rfl⟩ := pure_eq_ok.1 h
  have hrest := manyWhile_hasMore_rest h₄
  rw [takeLead_reads h₁, package?_reads h₂,
    Reads.bounded (importDecl_reads.manyWhile (startsWith "import")) h₃,
    Reads.bounded (topClass_reads.manyWhile hasMore) h₄, hrest]
  cases p <;> simp [CompilationUnit.pieces, packagePieces] <;> rfl

end Parser

-- ================================================================= texts

/-- A text is its tokens, the trivia after them and what is left; nothing is
left unless a character stops the tokens. -/
theorem Token.scanChars_text (cs : List Char) :
    ∃ left, cs = (TokenRun.textOf (scanChars cs).tokens ++
      (scanChars cs).tail).toList ++ left ∧
      (scanChars cs).stop = left.head? := by
  fun_induction scanChars cs with
  | case1 cs lead hrest =>
      have hcs := spanTrivia_append .between cs
      rw [hrest] at hcs
      exact ⟨[], by simpa [TokenRun.textOf, lead] using hcs.symm, rfl⟩
  | case2 cs lead c rest hrest hword =>
      have hcs := spanTrivia_append .between cs
      rw [hrest] at hcs
      exact ⟨c :: rest, by simpa [TokenRun.textOf, lead] using hcs.symm, rfl⟩
  | case3 cs lead c rest hrest w after hword run ih =>
      have hcs := spanTrivia_append .between cs
      obtain ⟨left, hafter, hstop⟩ := ih
      refine ⟨left, ?_, hstop⟩
      rw [← hcs, hrest, ← spanWord_append hword, hafter]
      simp [Token.text, lead, run]

/-- A text that no character stops is its tokens and the trivia after them. -/
theorem Token.scan_text {source : String}
    (h : (Token.scan source).stop = none) :
    TokenRun.textOf (Token.scan source).tokens ++ (Token.scan source).tail =
      source := by
  obtain ⟨left, hsource, hstop⟩ := Token.scanChars_text source.toList
  rw [Token.scan] at h ⊢
  rw [h] at hstop
  rw [List.head?_eq_none_iff.1 hstop.symm, List.append_nil] at hsource
  exact String.toList_inj.1 hsource.symm

/-- A result that is there is the result. -/
theorem exists_of_isOk {ε α : Type} {r : Except ε α} (h : r.isOk = true) :
    ∃ a, r = .ok a := by
  cases r with
  | error e => cases h
  | ok a => exact ⟨a, rfl⟩

/-- When a text is read: all its tokens are, no character stops them, and
every import has a package. -/
theorem unit_of_parseTree {source : String} {path : Option String}
    {cu : CompilationUnit} (h : parseTree source path = .ok cu) :
    (∃ rest, Parser.unit (Token.scan source).tail path
      (Token.scan source).tokens = .ok (cu, rest)) ∧
      (Token.scan source).stop = none ∧
      ∀ i ∈ cu.imports, i.element.name.outer? ≠ none := by
  unfold parseTree at h
  dsimp only at h
  split at h
  next => cases h
  next cu' rest hunit =>
    split at h
    next => cases h
    next hstop =>
      split at h
      next => cases h
      next himports =>
        cases h
        exact ⟨⟨rest, hunit⟩, by simpa using hstop, by simpa using himports⟩

/-- The tokens of a text, read as a file, print the text. -/
theorem print_of_unit {source : String} {path : Option String}
    {cu : CompilationUnit} {rest : List Token}
    (h : Parser.unit (Token.scan source).tail path (Token.scan source).tokens =
      .ok (cu, rest)) (hstop : (Token.scan source).stop = none) : cu.print =
        source := by
  calc textAll cu.pieces
      = textAll (solid cu.pieces) := (textAll_solid _).symm
    _ = textAll (Token.flat (Token.scan source).tokens ++
      gap (Token.scan source).tail) := by
        rw [Parser.unit_reads h]
    _ = TokenRun.textOf (Token.scan source).tokens ++
      (Token.scan source).tail := by
        rw [textAll_append, Token.textAll_flat, textAll_gap]
    _ = source := Token.scan_text hstop

/-- A file that is read is printed as it was, whatever its path: every
character of the text is in the tree, blanks and comments included. -/
theorem print_of_parseTree {source : String} {path : Option String}
    {cu : CompilationUnit} (h : parseTree source path = .ok cu) :
    cu.print = source := by
  obtain ⟨⟨rest, hunit⟩, hstop, -⟩ := unit_of_parseTree h
  exact print_of_unit hunit hstop

/-- A file with comments in front of separators and line ends of two
characters. -/
theorem print_of_parseTree_commented :
    ∃ cu,
      parseTree
        "/* a */ class A \x7b\tint x = 1+y /* b */ .z(2 , \"c\") ;\r\n\x7d// end" none
        = .ok cu ∧
      cu.print =
        "/* a */ class A \x7b\tint x = 1+y /* b */ .z(2 , \"c\") ;\r\n\x7d// end" := by
  have hok :
      (parseTree
        "/* a */ class A \x7b\tint x = 1+y /* b */ .z(2 , \"c\") ;\r\n\x7d// end"
      none).isOk = true := by decide +kernel
  obtain ⟨cu, hcu⟩ := exists_of_isOk hok
  exact ⟨cu, hcu, print_of_parseTree hcu⟩

end JavaRefit
