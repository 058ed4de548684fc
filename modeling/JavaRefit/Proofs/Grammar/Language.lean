/-
The language of the parser is the language of the grammar.

A text all of whose characters start words or trivia is refused exactly
when its tokens are not derivable (`parseTree_derivable`). A tree that is
returned has a derivation from just those tokens, and the one reason to
refuse a derivable text is an import of a single word.

Chain: after `Derived`; the place of a failure is for
`FirstFault`.
-/
import JavaRefit.Proofs.Grammar.Derived

namespace JavaRefit

open Spelling

-- ========================================================= what is derived

/-- The trivia at the end of a file and its path are free. -/
theorem DerivesUnit.at {close close' : Trivia} {path path' : Option String}
    {ts : List Token} {cu : CompilationUnit}
    (h : DerivesUnit close path ts cu) :
    DerivesUnit close' path' ts { cu with close := close', path := path' } := by
  cases h with
  | empty => exact .empty
  | mk hparts hled => exact .mk hparts hled

/-- The tokens of a derived file are derivable. -/
theorem DerivesUnit.derivable {close : Trivia} {path : Option String}
    {ts : List Token} {cu : CompilationUnit}
    (h : DerivesUnit close path ts cu) : Derivable ts :=
  ⟨_, h.at⟩

/-- Derivable tokens derive a file with any last trivia and any path. -/
theorem Derivable.derives {ts : List Token} (h : Derivable ts) (close : Trivia)
    (path : Option String) : ∃ cu, DerivesUnit close path ts cu :=
  h.elim fun _ h => ⟨_, h.at⟩

/-- Tokens are read as a file exactly when they are derivable. -/
theorem Parser.unit_eq_error_iff {close : Trivia} {path : Option String}
    {ts : List Token} :
    (∃ left, unit close path ts = .error left) ↔ ¬Derivable ts := by
  constructor
  · rintro ⟨left, herror⟩ hts
    obtain ⟨cu, hcu⟩ := hts.derives close path
    obtain ⟨classes, hread⟩ := hcu.read
    rw [Parser.unit_complete hread] at herror
    cases herror
  · intro hts
    cases hread : unit close path ts with
    | error left => exact ⟨left, rfl⟩
    | ok r =>
        obtain ⟨cu, rest⟩ := r
        obtain ⟨-, hspells⟩ := Parser.unit_sound hread
        exact absurd hspells.derives.derivable hts

-- ======================================================= texts that are read

section

variable {source : String} {path : Option String}
  (hlexes : (Token.scan source).stop = none)
include hlexes

/-- A derivable text is read unless it has an import of a single word. -/
theorem parseTree_of_derives {d : CompilationUnit}
    (hd : DerivesUnit (Token.scan source).tail path
      (Token.scan source).tokens d) :
    ∃ classes, parseTree source path =
      if ∃ i ∈ d.imports, i.element.name.outer? = none
        then .error .singleSegmentImport
      else .ok { d with classes := classes } := by
  obtain ⟨classes, hread⟩ := hd.read
  refine ⟨classes, ?_⟩
  unfold parseTree
  simp only [Parser.unit_complete hread, hlexes, Option.isSome_none,
    Bool.false_eq_true, if_false, List.any_eq_true, Option.isNone_iff_eq_none]

/-- A text that is not derivable is refused, for a word or for its end. -/
theorem failure?_of_not_derivable (hd : ¬Derivable (Token.scan source).tokens) :
    ∃ e, parseTree source path = .error e ∧ e.failure? path ≠ none := by
  obtain ⟨left, hleft⟩ := Parser.unit_eq_error_iff.2 hd
  refine ⟨_, by rw [parseTree, hleft], ?_⟩
  unfold TokenRun.errorAt
  dsimp only
  split
  · exact Option.some_ne_none _
  · rw [hlexes]
    exact Option.some_ne_none _

/-- The parser accepts exactly its grammar: a text that lexes has no parse
error exactly when its tokens are derivable; a tree that is returned has a
derivation from exactly those tokens; and of the derivable texts only those
with an import of a single word have no tree. -/
theorem parseTree_derivable :
    ((∀ e, parseTree source path = .error e → e.failure? path = none) ↔
      Derivable (Token.scan source).tokens) ∧
    (∀ cu, parseTree source path = .ok cu →
      DerivesUnit (Token.scan source).tail path (Token.scan source).tokens cu) ∧
    (∀ d, DerivesUnit (Token.scan source).tail path
      (Token.scan source).tokens d →
      ((∃ cu, parseTree source path = .ok cu) ↔ ∀ i ∈ d.imports,
        i.element.name.outer? ≠ none)) := by
  refine ⟨⟨fun hnone => ?_, fun hd e he => ?_⟩, fun cu hcu => ?_,
    fun d hd => ?_⟩
  · by_contra hd
    obtain ⟨e, he, hfailure⟩ : ∃ e, parseTree source path = .error e ∧
        e.failure? path ≠ none :=
      failure?_of_not_derivable hlexes hd
    exact hfailure (hnone e he)
  · obtain ⟨d, hd⟩ := hd.derives (Token.scan source).tail path
    obtain ⟨classes, hread⟩ := parseTree_of_derives hlexes hd
    rw [hread] at he
    split at he
    · cases he
      rfl
    · cases he
  · obtain ⟨⟨rest, hunit⟩, -, -⟩ := unit_of_parseTree hcu
    exact (Parser.unit_sound hunit).2.derives
  · obtain ⟨classes, hread⟩ := parseTree_of_derives hlexes hd
    rw [hread]
    constructor
    · rintro ⟨cu, hcu⟩ i hi hsingle
      rw [if_pos ⟨i, hi, hsingle⟩] at hcu
      cases hcu
    · intro hall
      rw [if_neg fun ⟨i, hi, hsingle⟩ => hall i hi hsingle]
      exact ⟨_, rfl⟩

end

/-- A class whose method has an `else` after two conditions. -/
def danglingText : String :=
  "import a.B; class C \x7b void m() \x7b if (x < 1) while (!y) if (z) f(-1 + 2 * 3); else g(); \x7d \x7d"

/-- The text lexes, is derivable, and has a tree that is derived from its
tokens. -/
theorem parseTree_derivable_dangling :
    (Token.scan danglingText).stop = none ∧
    Derivable (Token.scan danglingText).tokens ∧
      ∃ cu, parseTree danglingText none = .ok cu ∧
        DerivesUnit (Token.scan danglingText).tail none
          (Token.scan danglingText).tokens cu := by
  have hlexes : (Token.scan danglingText).stop = none := by decide +kernel
  have hread : (parseTree danglingText none).isOk = true := by decide +kernel
  have hall := @parseTree_derivable danglingText none hlexes
  cases htree : parseTree danglingText none with
  | error e =>
      rw [htree] at hread
      cases hread
  | ok cu =>
      have hderives := hall.2.1 cu htree
      exact ⟨hlexes, hderives.derivable, cu, rfl, hderives⟩

end JavaRefit
