/-
The chains of words in an expression.

What an annotation says of classes and variables is told chain by chain.
A chain in an expression is the expression itself or one of a part of it
(`Expr.exists_of_mem_chains`), and what parts have from the expression
around them chains have as well (`Expr.forall_mem_chains`).

So has attribution left it with them that a chain spells a class as a
whole or is no access with a type (`Modifier.isRecorded`). A chain that
uses a single word is of the second sort, and starts with that word: what
spells a class is no expression (`Expr.marks_of_spelled?`), and behind
`this` no word is used by itself (`Expr.used?_of_this`).

Chain: after `Recorded` and `Scopes`; read by the proofs about annotations
in a renamed file.
-/
import JavaRefit.Proofs.Attribution.Recorded
import JavaRefit.Proofs.Attribution.Scopes
import JavaRefit.Proofs.Tree.ClassPlace

namespace JavaRefit

variable {isClass : String → Bool} {P : Name → Prop}

-- ============================================================ membership

namespace Expr

/-- What is a chain of words is the only one in it. -/
theorem chains_of_dotted? {e : Expr} (h : e.dotted?.isSome = true) :
    e.chains = [e] := by
  cases e with
  | ident i type => rfl
  | access lead target name type =>
      rw [dotted?, Option.isSome_map] at h
      exact if_pos h
  | _ => cases h

/-- A chain in what is no chain itself is one in a part of it. -/
theorem exists_of_mem_chains {e c : Expr} (hdotted : ¬e.dotted?.isSome = true)
    (hc : c ∈ e.chains) :
    ∃ p, Node.expr p ∈ (Node.expr e).parts ∧ c ∈ p.chains := by
  have hall {ps : List (RightPadded Expr)} (hc : c ∈ chainsAll ps) :
      ∃ p, Node.expr p ∈ (ps.map RightPadded.element).map Node.expr ∧
        c ∈ p.chains := by
    rw [chainsAll_eq, List.mem_flatMap] at hc
    obtain ⟨p, hp, hc⟩ := hc
    exact ⟨p.element, List.mem_map_of_mem (List.mem_map_of_mem hp), hc⟩
  cases e with
  | ident i type => exact absurd rfl hdotted
  | access lead target name type =>
      rw [dotted?, Option.isSome_map] at hdotted
      rw [chains, if_neg hdotted] at hc
      exact ⟨target, List.mem_cons_self, hc⟩
  | call lead select name args method =>
      rw [chains, List.mem_append] at hc
      rcases hc with hc | hc
      · cases select with
        | none => cases hc
        | some p => exact ⟨p.element, List.mem_cons_self, hc⟩
      · obtain ⟨p, hp, hc⟩ := hall hc
        exact ⟨p, List.mem_append_right _ (List.mem_cons_of_mem _ hp), hc⟩
  | new lead base args constructor type =>
      obtain ⟨p, hp, hc⟩ := hall hc
      exact ⟨p, List.mem_cons_of_mem _ hp, hc⟩
  | literal lead text type => cases hc
  | assign lead target value type =>
      rw [chains, List.mem_append] at hc
      rcases hc with hc | hc
      · exact ⟨target, List.mem_cons_self, hc⟩
      · exact ⟨value.element, List.mem_cons_of_mem _ List.mem_cons_self, hc⟩
  | binary lead left operator right type =>
      rw [chains, List.mem_append] at hc
      rcases hc with hc | hc
      · exact ⟨left, List.mem_cons_self, hc⟩
      · exact ⟨right, List.mem_cons_of_mem _ List.mem_cons_self, hc⟩
  | unary lead operator operand type =>
      exact ⟨operand, List.mem_cons_self, hc⟩
  | parens lead inner type =>
      exact ⟨inner.element, List.mem_cons_self, hc⟩

/-- What an expression passes on to its parts, unless it is a chain itself,
the chains in it have. -/
theorem forall_mem_chains {R : Expr → Prop}
    (hpart : ∀ e p, ¬e.dotted?.isSome = true →
      Node.expr p ∈ (Node.expr e).parts → R e → R p)
    {e : Expr} (h : R e) : ∀ c ∈ e.chains, c.dotted?.isSome = true ∧ R c := by
  refine Node.induction_on (P := fun n => ∀ e, n = .expr e → R e →
    ∀ c ∈ e.chains, c.dotted?.isSome = true ∧ R c) ?_ (.expr e) e rfl h
  intro n hn ih e he h c hc
  subst he
  by_cases hdotted : e.dotted?.isSome = true
  · rw [chains_of_dotted? hdotted] at hc
    obtain rfl := List.mem_singleton.1 hc
    exact ⟨hdotted, h⟩
  · obtain ⟨p, hp, hc⟩ := exists_of_mem_chains hdotted hc
    exact ih _ (Node.parts_subset _ hp) p rfl (hpart e p hdotted hp h) c hc

end Expr

-- ============================================================ single words

namespace Expr

variable {cp : ClassPath}

/-- No word is used by itself after `this`. -/
theorem used?_ownField (target : Expr) (name : String)
    (type : Option JavaType) :
    (target.ownField name type).findSome? Mark.used? = none := by
  unfold ownField
  split
  · split <;> rfl
  · rfl

/-- A chain of words behind `this` uses no word by itself. -/
theorem used?_of_this {e : Expr} (hdotted : e.dotted?.isSome = true)
    (h : e.isNameChain = false) :
    (e.marks cp).findSome? Mark.used? = none := by
  induction e using Expr.induction_on with
  | ident i type =>
      have hthis : i.name = "this" := bne_eq_false_iff_eq.1 h
      rw [marks, if_pos hthis]
      rfl
  | access lead target name type ih =>
      rw [dotted?, Option.isSome_map] at hdotted
      have htarget : (target.marks cp).findSome? Mark.used? = none :=
        ih hdotted h
      have hchain : ¬target.isNameChain = true := Bool.eq_false_iff.1 h
      have htext : chainText? target name = none := if_neg hchain
      rw [marks, if_neg hchain, htext]
      split
      · exact htarget
      · rw [Option.filter_none, Option.isSome_none, if_neg Bool.false_ne_true,
          List.findSome?_append, htarget]
        exact used?_ownField target name.element.name type
  | _ => cases hdotted

/-- What spells a class is no expression. -/
theorem marks_of_spelled? {e : Expr} {n : Name}
    (h : (Node.expr e).spelled? cp.contains = some n) : e.marks cp = [] := by
  cases e with
  | access lead target name type =>
      rw [Node.spelled?] at h
      split at h
      · cases h
      · next hliteral =>
        obtain ⟨text, htext, -⟩ := Option.bind_eq_some_iff.1 h
        rw [marks, if_neg hliteral, htext, Option.isSome_some, if_pos rfl]
  | _ => cases h

/-- A longer chain uses a word where it is a chain of words, no class literal
and no class as a whole; and the word is the one that the chain in front of
its last word uses. -/
theorem used?_access {lead : Trivia} {target : Expr} {last : LeftPadded Ident}
    {type : Option JavaType}
    (hdotted : (Expr.access lead target last type).dotted?.isSome = true)
    {u : String × Option JavaType}
    (huse : ((Expr.access lead target last type).marks cp).findSome?
      Mark.used? = some u) :
    (Node.expr (.access lead target last type)).spelled? cp.contains = none ∧
      target.isNameChain = true ∧ isClassLiteral last = false ∧
      (target.marks cp).findSome? Mark.used? = some u := by
  have hspelled : (Node.expr (.access lead target last type)).spelled?
      cp.contains = none := by
    by_contra hnot
    obtain ⟨n, hn⟩ := Option.ne_none_iff_exists'.1 hnot
    rw [marks_of_spelled? hn] at huse
    cases huse
  have hchain : target.isNameChain = true := by
    by_contra hnot
    have hnone : ((Expr.access lead target last type).marks cp).findSome?
        Mark.used? = none :=
      used?_of_this hdotted (Bool.eq_false_iff.2 hnot)
    rw [hnone] at huse
    cases huse
  have hliteral : ¬isClassLiteral last = true := by
    intro hliteral
    rw [marks, if_pos hliteral, if_pos hchain] at huse
    cases huse
  refine ⟨hspelled, hchain, Bool.eq_false_iff.2 hliteral, ?_⟩
  rw [marks, if_neg hliteral] at huse
  split at huse
  · cases huse
  · rwa [List.findSome?_append, used?_ownField, Option.or_none] at huse

end Expr

-- ============================================================== attributed

/-- A chain of words that is of no class is told by its words. -/
theorem Node.spelled?_eq_none_iff (e : Expr) :
    (expr e).spelled? isClass = none ↔ ∀ lead target last type,
      e = .access lead target last type → isClassLiteral last = false →
        e.isNameChain = true → e.dotted?.filter isClass = none := by
  cases e with
  | access lead target last type =>
      have htext : Expr.chainText? target last =
          if (Expr.access lead target last type).isNameChain then
            (Expr.access lead target last type).dotted? else none := rfl
      rw [spelled?, htext]
      constructor
      · intro h _ _ _ _ heq hliteral hchain
        obtain ⟨rfl, rfl, rfl, rfl⟩ := Expr.access.inj heq
        rw [if_neg (Bool.eq_false_iff.1 hliteral), if_pos hchain] at h
        by_contra hnot
        obtain ⟨text, hfound⟩ := Option.ne_none_iff_exists'.1 hnot
        have hname := Expr.isSome_name?_of_isNameChain hchain
        rw [hfound, Option.bind_some] at h
        rw [h] at hname
        cases hname
      · intro h
        split
        · rfl
        · next hliteral =>
          split
          · next hchain =>
            rw [h _ _ _ _ rfl (Bool.eq_false_iff.2 hliteral) hchain]
            rfl
          · rfl
  | _ => exact iff_of_true rfl fun _ _ _ _ h => by cases h

/-- The expression spells a class, or it has what is found for the classes
named in it, and no type of its own as an access. -/
def Expr.IsRecorded (isClass : String → Bool) (P : Name → Prop) (e : Expr) :
    Prop :=
  (Node.expr e).spelled? isClass = none →
    e.IsUntypedAccess ∧
      (Node.expr e).AllClasses isClass P Expr.IsUntypedAccess

/-- So it is with an expression below a node, unless that is a class
literal. -/
theorem Node.AllClasses.isRecorded {n : Node}
    (h : n.AllClasses isClass P Expr.IsUntypedAccess) {e : Expr}
    (he : Node.expr e ∈ n.parts)
    (hliteral : n.isLiteral = true → e.isNameChain = false) :
    e.IsRecorded isClass P := by
  intro hspelled
  have hin : n.classIn? isClass (expr e) = none := by
    rw [classIn?, className?_eq, hspelled, Option.or_none]
    split
    · rfl
    · split
      · next hisLiteral =>
        rw [chain?, hliteral hisLiteral]
        rfl
      · rfl
  exact ⟨h.free e he hin, h.inside _ he hin⟩

/-- What is no chain of words passes it on to its parts. -/
theorem Expr.IsRecorded.of_mem_parts {e p : Expr}
    (h : e.IsRecorded isClass P) (hdotted : ¬e.dotted?.isSome = true)
    (hp : Node.expr p ∈ (Node.expr e).parts) : p.IsRecorded isClass P := by
  have hspelled : (Node.expr e).spelled? isClass = none := by
    rw [Node.spelled?_eq_none_iff]
    intro _ _ _ _ _ _ hchain
    exact absurd (isSome_dotted?_of_isNameChain hchain) hdotted
  refine (h hspelled).2.isRecorded hp fun hliteral => ?_
  cases e with
  | access lead target last type =>
      rcases List.mem_cons.1 hp with heq | hlast
      · obtain rfl := Node.expr.inj heq
        refine Bool.eq_false_iff.2 fun hchain => hdotted ?_
        exact Option.isSome_map.trans (isSome_dotted?_of_isNameChain hchain)
      · cases List.mem_singleton.1 hlast
  | _ => cases hliteral

namespace Modifier

theorem exists_of_mem_chains {m : Modifier} {e : Expr} (he : e ∈ m.chains) :
    ∃ p, Node.expr p ∈ (Node.modifier m).parts ∧ e ∈ p.chains := by
  cases m with
  | keyword lead word => cases he
  | annotated lead name args =>
      cases args with
      | none => cases he
      | some c =>
          rw [chains, Expr.chainsAll_eq, List.mem_flatMap] at he
          obtain ⟨p, hp, he⟩ := he
          have hitem : p.element ∈ c.items := List.mem_map_of_mem hp
          exact ⟨p.element, List.mem_cons_of_mem _ (List.mem_flatMap.2
            ⟨c, List.mem_singleton_self c, List.mem_map_of_mem hitem⟩), he⟩

/-- What an annotation has chains of are chains, and attribution has left them
as it leaves the expressions of a file. -/
theorem isRecorded {m : Modifier}
    (h : (Node.modifier m).AllClasses isClass P Expr.IsUntypedAccess)
    {e : Expr} (he : e ∈ m.chains) :
    e.dotted?.isSome = true ∧ e.IsRecorded isClass P := by
  obtain ⟨p, hp, he⟩ := exists_of_mem_chains he
  exact Expr.forall_mem_chains (R := Expr.IsRecorded isClass P)
    (fun _ _ hdotted hpart h => h.of_mem_parts hdotted hpart)
    (h.isRecorded hp nofun) e he

end Modifier

end JavaRefit
