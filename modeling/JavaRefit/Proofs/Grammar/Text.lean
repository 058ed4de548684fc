/-
Which texts are read as which trees.

A tree is read from a text exactly when the text is made of separated
tokens that spell the tree, and every import has a package
(`parseTree_eq_ok_iff`). So to know that a tree is read from what it
prints, it is enough to give the tokens.

Chain: after `Unit` and the cutting of texts; the rereading of what the
catch rule writes rests on it.
-/
import JavaRefit.Proofs.Grammar.Unit
import JavaRefit.Proofs.Token.Separated

namespace JavaRefit

namespace Token

/-- The trivia at the end of a text is nothing else when no character stops the
tokens. -/
theorem onlyTrivia_scanChars {cs : List Char} (h : (scanChars cs).stop = none) :
    OnlyTrivia (scanChars cs).tail := by
  fun_induction scanChars cs with
  | case1 cs lead hrest =>
      have happ := spanTrivia_append .between cs
      rw [hrest, List.append_nil] at happ
      show spanTrivia .between lead.toList = (lead.toList, [])
      rw [String.toList_ofList, happ]
      exact Prod.ext happ hrest
  | case2 => cases h
  | case3 cs lead c rest hrest w after hword run ih => exact ih h

/-- A semicolon and a brace end before everything. -/
def isStop (w : Word) : Bool :=
  w == .symbol ";" || w == .symbol "\x7d"

/-- A stop ends before every character. -/
theorem endsBefore_of_isStop {w : Word} (h : isStop w = true) (c : Char) :
    w.EndsBefore c := by
  rw [isStop, Bool.or_eq_true, beq_iff_eq, beq_iff_eq] at h
  rcases h with rfl | rfl
  · exact ⟨spanWord_single (c := ';') (by decide) [c], fun h =>
      absurd (Word.symbol.inj h) (by decide)⟩
  · exact ⟨spanWord_single (c := '\x7d') (by decide) [c],
      fun h => absurd (Word.symbol.inj h) (by decide)⟩

end Token

/-- A file that is spelled has the last trivia it is given. -/
theorem close_of_spellsUnit {close : Trivia} {path : Option String}
    {ts : List Token} {cu : CompilationUnit} (h : SpellsUnit close path ts cu) :
    cu.close = close := by
  cases h <;> rfl

/-- A file that is spelled has the path it is given. -/
theorem path_of_spellsUnit {close : Trivia} {path : Option String}
    {ts : List Token} {cu : CompilationUnit} (h : SpellsUnit close path ts cu) :
    cu.path = path := by
  cases h <;> rfl

/-- The tree that a text spells: some separated tokens and the trivia after
them are the text, the tokens spell the tree, and all its imports have
packages. -/
structure SpellsText (path : Option String) (ts : List Token) (source : String)
    (cu : CompilationUnit) : Prop where
  spells : SpellsUnit cu.close path ts cu
  separated : Separated ts
  close : Token.OnlyTrivia cu.close
  imports : ∀ i ∈ cu.imports, i.element.name.outer? ≠ none
  text : TokenRun.textOf ts ++ cu.close = source

/-- A tree is read from a text exactly when separated tokens of the text spell
it. -/
theorem parseTree_eq_ok_iff {source : String} {path : Option String}
    {cu : CompilationUnit} :
    parseTree source path = .ok cu ↔ ∃ ts, SpellsText path ts source cu := by
  constructor
  · intro h
    obtain ⟨⟨rest, hunit⟩, hstop, himports⟩ := unit_of_parseTree h
    obtain ⟨-, hspells⟩ := Parser.unit_sound hunit
    have hclose := close_of_spellsUnit hspells
    refine ⟨(Token.scan source).tokens, ?_, ?_, ?_, himports, ?_⟩
    · rwa [hclose]
    · exact Token.separated_scanChars (tidy_unit hspells).chain
    · rw [hclose]
      exact Token.onlyTrivia_scanChars hstop
    · rw [hclose]
      exact Token.scan_text hstop
  · rintro ⟨ts, h⟩
    have hscan : Token.scan source = ⟨ts, cu.close, none⟩ := by
      rw [Token.scan, ← h.text]
      refine Token.scanChars_chars h.separated h.close fun t ht c _ => ?_
      rcases ends_unit (P := Token.isStop) h.spells rfl rfl
        with rfl | ⟨init, u, rfl, hu⟩
      · cases ht
      · rw [List.getLast?_concat, Option.mem_some_iff] at ht
        exact Token.endsBefore_of_isStop (ht ▸ hu) c
    have hno : cu.imports.any (fun i => i.element.name.outer?.isNone) =
        false := by
      simpa using h.imports
    rw [parseTree, hscan]
    simp only [Parser.unit_complete h.spells, Option.isSome_none,
      Bool.false_eq_true, if_false, hno]

end JavaRefit
