/-
The chain that spells a dotted name.

A dotted name is a single word or the name of its package, a dot and its
simple name; the chain that spells it is made in the same way. So it has
the dotted name as its text, and the simple name as its last word.

Chain: after the proofs about dotted texts; read where imports are made
and where classes are renamed.
-/
import JavaRefit.Proofs.Text.Dotted
import JavaRefit.Tree.Name

namespace JavaRefit.Name

@[simp] theorem dotted_withLead (lead : Trivia) (n : Name) :
    (n.withLead lead).dotted = n.dotted := by
  cases n <;> rfl

@[simp] theorem dotted_withType (type : Option JavaType) (n : Name) :
    (n.withType type).dotted = n.dotted := by
  cases n <;> rfl

@[simp] theorem last_withLead (lead : Trivia) (n : Name) :
    (n.withLead lead).last = n.last := by
  cases n <;> rfl

@[simp] theorem outer?_withLead (lead : Trivia) (n : Name) :
    (n.withLead lead).outer? = n.outer? := by
  cases n <;> rfl

/-- A name has the simple name of its last word. -/
theorem simpleName_dotted (n : Name) :
    Text.simpleName n.dotted = Text.simpleName n.last := by
  cases n with
  | simple i type => rfl
  | qualified lead outer last type => exact Text.simpleName_append _ _

/-- The chain of a dotted name is a single word, or the chain of its package
with the simple name behind it. -/
theorem ofDotted_cases (fqn : String) :
    (ofDotted fqn = .simple ⟨"", fqn⟩ none ∧ Text.simpleName fqn = fqn) ∨
      (ofDotted fqn = .qualified "" (ofDotted (Text.packageName fqn))
          ⟨"", ⟨"", Text.simpleName fqn⟩⟩ none ∧
        Text.packageName fqn ++ "." ++ Text.simpleName fqn = fqn) := by
  rcases Text.segments_eq fqn with ⟨hsegments,
    hsimple, -⟩ | ⟨hsegments, hjoined⟩
  · refine .inl ⟨?_, hsimple⟩
    rw [ofDotted, hsegments, hsimple]
    rfl
  · refine .inr ⟨?_, hjoined⟩
    rw [ofDotted, hsegments, ofDotted]
    cases hpackage : Text.segments (Text.packageName fqn) with
    | nil =>
        exact absurd (List.map_eq_nil_iff.1 hpackage)
          (Text.splitAtEach_ne_nil _ _)
    | cons first rest =>
        show ofSegments first (rest ++ [Text.simpleName fqn]) = _
        rw [ofSegments, List.foldl_append]
        rfl

/-- The chain of a dotted name spells it. -/
@[simp] theorem dotted_ofDotted (fqn : String) :
    (ofDotted fqn).dotted = fqn := by
  induction hn : fqn.length using Nat.strong_induction_on generalizing fqn with
  | _ n ih =>
      rcases ofDotted_cases fqn with ⟨h, -⟩ | ⟨h, hjoined⟩
      · rw [h]
        rfl
      · have hshorter : (Text.packageName fqn).length < n := by
          have hlength := congrArg String.length hjoined
          rw [String.length_append, String.length_append, hn] at hlength
          have hdot : ".".length = 1 := rfl
          omega
        rw [h, dotted, ih _ hshorter _ rfl, hjoined]

@[simp] theorem last_ofDotted (fqn : String) :
    (ofDotted fqn).last = Text.simpleName fqn := by
  rcases ofDotted_cases fqn with ⟨h, hsimple⟩ | ⟨h, -⟩
  · rw [h, hsimple]
    rfl
  · rw [h]
    rfl

end JavaRefit.Name
