/-
Which methods a pattern takes.

The text of a pattern has a class, a name and parameters in it, each with
a language of its own. The pattern takes a method if and only if the name,
the class and the signatures of the parameters are in these languages;
where overridden methods count, a class above the declaring one may be in
the language in its place.

Chain: last of the proofs about method patterns.
-/
import JavaRefit.Proofs.ClassPath.Order
import JavaRefit.Proofs.MethodPattern.Shape

namespace JavaRefit

/-- Name, class and parameters of the method are in the languages of the
parts. -/
structure PatternParts.Takes (parts : PatternParts) (overrides : Bool)
    (m : MethodType) : Prop where
  name : m.name.toList ∈ nameLanguage parts.name
  owner : m.owner.fqn.toList ∈ typeLanguage parts.owner ∨
    overrides = true ∧ ∃ a ∈ m.owner.ancestors,
      a.fqn.toList ∈ typeLanguage parts.owner
  params : m.params.map typeSignature ∈ paramsLanguage parts.args

namespace MethodPattern

variable {text : String} {overrides : Bool} {parts : PatternParts}

/-- A class is matched by its own name, or by that of an ancestor where
overrides count. -/
theorem matchesClass_ofParts (c : ClassType) :
    (ofParts text overrides parts).matchesClass c = true ↔
      c.fqn.toList ∈ typeLanguage parts.owner ∨
        overrides = true ∧ ∃ a ∈ c.ancestors,
          a.fqn.toList ∈ typeLanguage parts.owner := by
  have hone (a : ClassType) :
      TypeGlob.matches? (ofParts text overrides parts).owner a.fqn.toList =
      true ↔ a.fqn.toList ∈ typeLanguage parts.owner :=
        TypeGlob.matches?_ofChars_iff _ _
  cases overrides with
  | false =>
      show TypeGlob.matches? (ofParts text false parts).owner
        c.fqn.toList = true ↔ _
      rw [hone, or_iff_left fun h => Bool.false_ne_true h.1]
  | true =>
      show c.ancestors.any
        (fun a => TypeGlob.matches? (ofParts text true parts).owner
          a.fqn.toList) = true ↔ _
      simp only [List.any_eq_true, hone, true_and]
      -- the class is one of its own ancestors
      exact (or_iff_right_of_imp fun h => ⟨c, c.mem_ancestors_self, h⟩).symm

/-- A method is matched by the parts of the pattern. -/
theorem matchesMethod_ofParts {m : MethodType} (h : '\n' ∉ m.name.toList) :
    (ofParts text overrides parts).matchesMethod m = true ↔
    parts.Takes overrides m := by
  rw [matchesMethod, Bool.and_eq_true, Bool.and_eq_true, matchesClass_ofParts]
  have hname : NameGlob.matches? (ofParts text overrides parts).name
      m.name.toList = true ↔
      m.name.toList ∈ nameLanguage parts.name :=
        NameGlob.matches?_ofChars_iff _ h
  have hparams : ParamGlob.matches? (ofParts text overrides parts).params
      (m.params.map typeSignature) =
      true ↔ m.params.map typeSignature ∈ paramsLanguage parts.args :=
        ParamGlob.matches?_ofChars_iff _ _
  rw [hname, hparams]
  constructor
  · rintro ⟨⟨hname, howner⟩, hparams⟩
    exact ⟨hname, howner, hparams⟩
  · rintro ⟨hname, howner, hparams⟩
    exact ⟨⟨hname, howner⟩, hparams⟩

/-- The text of a pattern has its parts in one way, and the pattern takes the
methods, with names in one line, that the languages of these parts take. -/
theorem matchesMethod_parse_iff {p : MethodPattern}
    (h : parse text overrides = .ok p) :
    ∃ parts, Spells text.toList parts ∧
    (∀ parts', Spells text.toList parts' → parts' = parts) ∧
      ∀ m : MethodType, '\n' ∉ m.name.toList →
        (p.matchesMethod m = true ↔ parts.Takes overrides m) := by
  obtain ⟨parts, hspells, rfl⟩ := parse_eq_ok_iff.1 h
  refine ⟨parts, hspells, fun parts' hspells' => hspells'.unique hspells, ?_⟩
  intro m hline
  exact matchesMethod_ofParts hline

/-- A method of a class that a class of the package `a.x` is above. -/
def fetchSample : MethodType where
  owner := .mk "b.Sub" (some (.bare "a.x.Base")) [] .ordinary
  name := "fetchAll"
  returns := none
  params := [some (.primitive .int), some (.array (some (.primitive .int))),
    some (.reference (.bare "a.X"))]
  throws := []

/-- Wild cards in each part: a class above counts, and the first parameter is a
run of its own. -/
theorem matchesMethod_parse_wildcards :
    ∃ p parts, parse " a..Ba*  fetch*(.., int[] , a.*) " true = .ok p ∧
      Spells " a..Ba*  fetch*(.., int[] , a.*) ".toList parts ∧
      p.matchesMethod fetchSample = true ∧
        parts.Takes true fetchSample := by
  let parts : PatternParts :=
    ⟨"a..Ba*".toList, "fetch*".toList,
      ["..".toList, "int[]".toList, "a.*".toList]⟩
  have hparse : parse " a..Ba*  fetch*(.., int[] , a.*) " true =
      .ok (ofParts " a..Ba*  fetch*(.., int[] , a.*) " true parts) := by
    decide +kernel
  have hparams : fetchSample.params.map typeSignature =
      ["int", "int[]", "a.X"] := by
    simp [fetchSample, typeSignature, ClassType.fqn, ClassType.bare,
      Primitive.text]
  have hmatches :
      (ofParts " a..Ba*  fetch*(.., int[] , a.*) " true parts).matchesMethod
        fetchSample = true := by
    rw [matchesMethod, hparams]
    decide +kernel
  obtain ⟨_, hspells, -, htakes⟩ := matchesMethod_parse_iff hparse
  exact ⟨_, _, hparse, hspells, hmatches,
    (htakes fetchSample (by decide)).1 hmatches⟩

end MethodPattern

end JavaRefit
