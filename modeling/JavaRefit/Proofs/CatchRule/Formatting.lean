/-
Formatting is irrelevant.

Two texts of the same tokens are both read or neither is; their trees are
the same without trivia, with the same types, and a run does the same to
both. Every stage comes with what it needs of the one before: tokens with
the same words spell trees that are the same without trivia
(`SpellsUnit.respaced`), attribution leaves those alike
(`CompilationUnit.typed_blank`), and so does the rule (`alike_run`).

Chain: after `Respaced`, `Text` and `Blank`; nothing reads it.
-/
import JavaRefit.Proofs.CatchRule.Blank
import JavaRefit.Proofs.Grammar.Respaced
import JavaRefit.Proofs.Grammar.Text

namespace JavaRefit

/-- Texts with the same tokens, and both or neither with a character behind
them that starts none. -/
structure SameTokens (source source' : String) : Prop where
  words : SameWords (Token.scan source).tokens (Token.scan source').tokens
  stop : (Token.scan source).stop.isSome = (Token.scan source').stop.isSome

theorem SameTokens.symm {source source' : String}
    (h : SameTokens source source') : SameTokens source' source :=
  ⟨h.words.symm, h.stop.symm⟩

variable {source source' : String} {path : Option String}

/-- What is read from a text is read, trivia aside, from every text with the
same tokens. -/
theorem parseTree_respaced (h : SameTokens source source')
    {cu : CompilationUnit} (hread : parseTree source path = .ok cu) :
    ∃ cu', parseTree source' path = .ok cu' ∧
    Alike CompilationUnit.blank cu cu' := by
  obtain ⟨⟨rest, hunit⟩, hstop, himports⟩ := unit_of_parseTree hread
  obtain ⟨-, hspells⟩ := Parser.unit_sound hunit
  obtain ⟨cu', hspells', hblank⟩ :
      ∃ cu', SpellsUnit (Token.scan source').tail path
      (Token.scan source').tokens cu' ∧ cu'.blank = cu.blank :=
        hspells.respaced h.words
  have halike : Alike CompilationUnit.blank cu cu' := hblank.symm
  have hstop' : (Token.scan source').stop.isSome = false := by
    rw [← h.stop, hstop]; rfl
  have himports' :
      cu'.imports.any (fun i => i.element.name.outer?.isNone) = false := by
    rw [← (CompilationUnit.alike_iff.1 halike).2.1.any_eq
      (q := fun i => i.name.outer?.isNone)
      fun i => by
      cases hname : i.name <;>
        simp [Import.blank, hname, Name.blank_qualified] <;> rfl]
    simpa using himports
  refine ⟨cu', ?_, halike⟩
  rw [parseTree]
  simp only [Parser.unit_complete hspells', hstop', Bool.false_eq_true,
    if_false, himports']

/-- The same with types. -/
theorem parseUnit_respaced (h : SameTokens source source') (cp : ClassPath)
    {cu : CompilationUnit} (hread : parseUnit source cp path = .ok cu) :
    ∃ cu', parseUnit source' cp path = .ok cu' ∧
    Alike CompilationUnit.blank cu cu' := by
  unfold parseUnit at hread ⊢
  cases htree : parseTree source path with
  | error e => rw [htree] at hread; cases hread
  | ok tree =>
      rw [htree] at hread
      cases hread
      obtain ⟨tree', htree', halike⟩ := parseTree_respaced h htree
      refine ⟨tree'.typed cp, by rw [htree']; rfl, ?_⟩
      rw [Alike, ← CompilationUnit.typed_blank,
        ← CompilationUnit.typed_blank, halike]

namespace CatchRule

/-- Formatting is irrelevant: two texts of the same tokens are both refused, or
both read as trees that are the same without trivia, with the same types, and
then the rule does the same to both. -/
theorem run_respaced (r : CatchRule) (cp : ClassPath) (path : Option String)
    {source source' : String} (h : SameTokens source source') :
    (∃ e e', parseUnit source cp path = .error e ∧
      parseUnit source' cp path = .error e') ∨
    ∃ cu cu', parseUnit source cp path = .ok cu ∧
    parseUnit source' cp path = .ok cu' ∧
      cu.blank = cu'.blank ∧ AlikeResults (r.run cp cu) (r.run cp cu') ∧
      ∀ e, r.run? cp cu = .error e ↔ r.run? cp cu' = .error e := by
  cases hread : parseUnit source cp path with
  | ok cu =>
      obtain ⟨cu', hread', hcu⟩ := parseUnit_respaced h cp hread
      exact .inr ⟨cu, cu', rfl, hread', hcu, r.alike_run cp hcu, fun e => by
        rw [run?_eq_error_iff, run?_eq_error_iff, r.bringsInVain_eq cp hcu]⟩
  | error e =>
      cases hread' : parseUnit source' cp path with
      | error e' => exact .inl ⟨e, e', rfl, rfl⟩
      | ok cu' =>
          obtain ⟨cu, hcu, -⟩ := parseUnit_respaced h.symm cp hread'
          rw [hread] at hcu
          cases hcu

/-- The sample on several lines and with comments. -/
def sampleFormatted : String :=
  "// a file\nimport p . * ;\n\nclass A /* a class */ \x7b\n\tApi a ;\n\n\tvoid f ( ) \x7b\n" ++
    "\t\ttry \x7b try \x7b a . call ( ) ; \x7d catch ( Old\te ) \x7b throw e ; \x7d \x7d // again\n" ++
    "\t\tcatch (Old o) \x7b \x7d\n\t\x7d\n\x7d\n"

set_option maxRecDepth 4000 in
/-- The rule changes both. -/
theorem run_respaced_sample :
    SameTokens sampleText sampleFormatted ∧
      (sampleRule.run sampleClassPath (sampleUnit sampleText)).isChanged =
        true ∧
      (sampleRule.run sampleClassPath
        (sampleUnit sampleFormatted)).after.blank =
        (sampleRule.run sampleClassPath
          (sampleUnit sampleText)).after.blank := by
  have htext : Token.scan sampleText = _ := Token.scan_ofList_append _ _
  have hformatted : Token.scan sampleFormatted = _ :=
    Token.scan_ofList_append_append _ _ _
  have h : SameTokens sampleText sampleFormatted := by
    constructor
    · rw [htext, hformatted]
      unfold SameWords
      decide +kernel
    · rw [htext, hformatted]
      decide +kernel
  have hok : (parseUnit sampleText sampleClassPath none).isOk = true := by
    decide +kernel
  have hchanged : (sampleRule.run sampleClassPath
      (sampleUnit sampleText)).isChanged = true := by
    decide +kernel
  refine ⟨h, hchanged, ?_⟩
  rcases run_respaced sampleRule sampleClassPath none h with
    ⟨e, -, he, -⟩ | ⟨cu, cu', hcu, hcu', -, hresults, -⟩
  · rw [he] at hok
    cases hok
  · rw [sampleUnit, sampleUnit, hcu, hcu']
    exact hresults.after.symm

end CatchRule

end JavaRefit
