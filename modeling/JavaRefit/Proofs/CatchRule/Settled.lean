/-
What a second run finds in the clauses that the first left.

A second run judges every `try` by types that are found anew, so what it
does is told on the file that is read then (`CatchRule.source_rerun`). For
the clauses it is told by the first file. They are read as they were left
if the names in them stay what they are (`CatchRule.KeepsClause`): those
that are kept do not move, and what is written arrives. Then the clauses
catch again what the run made them catch (`Rereads.caughtClasses`).

So a `try` whose clauses were substituted, or caught no legacy type, is
settled whatever its body is read as, and where all are such a second run
gives the text back (`CatchRule.source_rerun_of_substituted`). The others
catch the legacy type still. These are judged by what their bodies raise,
which is told by the types found anew alone.

Chain: last of the proofs about the catch rule, after `Meaning`; nothing
reads it.
-/
import JavaRefit.Proofs.CatchRule.Meaning

namespace JavaRefit

open Spelling

-- =========================================================== alternatives

namespace TypeTree

variable {t : TypeTree}

/-- The name of the class that a written type is of; arrays and lists of
alternatives have none. -/
def head? : TypeTree → Option Name
  | .named n => some n
  | .generic _ base _ _ => some base
  | _ => none

/-- The types that are listed, or the only one. -/
def alternatives : TypeTree → List TypeTree
  | .union _ ps => ps.map RightPadded.element
  | t => [t]

/-- The type is that of a class, and the name of the class has it. -/
def HasHead (t : TypeTree) : Prop :=
  ∃ n, t.head? = some n ∧ t.type = n.type

/-- Every alternative is of a class. -/
def HasHeads (t : TypeTree) : Prop :=
  ∀ a ∈ t.alternatives, a.HasHead

theorem caught_eq_map (t : TypeTree) :
    t.caught = t.alternatives.map TypeTree.type := by
  cases t with
  | union lead ps => simp [caught, alternatives]
  | _ => rfl

/-- What is of a class is no list of alternatives. -/
theorem alternatives_of_head? {n : Name} (h : t.head? = some n) :
    t.alternatives = [t] := by
  cases t with
  | union lead ps => cases h
  | _ => rfl

theorem HasHead.hasHeads (h : t.HasHead) : t.HasHeads := by
  obtain ⟨n, hn, htype⟩ := h
  rw [HasHeads, alternatives_of_head? hn, List.forall_mem_singleton]
  exact ⟨n, hn, htype⟩

theorem HasHeads.hasHead (h : t.HasHeads)
    (hu : ∀ lead ps, t ≠ .union lead ps) : t.HasHead := by
  cases t with
  | union lead ps => exact absurd rfl (hu lead ps)
  | _ => exact h _ List.mem_cons_self

/-- The name of the class is one of the names in the type. -/
theorem mem_names_of_head? {a : TypeTree} (ha : a ∈ t.alternatives) {n : Name}
    (hn : a.head? = some n) : n ∈ t.names := by
  have hself {a : TypeTree} (hn : a.head? = some n) : n ∈ a.names := by
    cases a with
    | named m => exact List.mem_singleton.2 (Option.some.inj hn).symm
    | generic lead base args type =>
        obtain rfl := Option.some.inj hn
        exact List.mem_cons_self
    | _ => cases hn
  cases t with
  | union lead ps =>
      obtain ⟨p, hp, rfl⟩ := List.mem_map.1 ha
      exact CatchRule.names_subset_namesAll hp (hself hn)
  | _ =>
      obtain rfl := List.mem_singleton.1 ha
      exact hself hn

/-- The alternatives are met in a walk of the type. -/
theorem mem_walk_of_mem_alternatives {a : TypeTree} (ha : a ∈ t.alternatives) :
    a.node ∈ t.node.walk := by
  have hself := Node.mem_walk_self t.isProper_node
  cases t with
  | union lead ps =>
      obtain ⟨p, hp, rfl⟩ := List.mem_map.1 ha
      exact Node.children_subset_walk (isProper_node _)
        (List.mem_map_of_mem hp)
  | _ =>
      obtain rfl := List.mem_singleton.1 ha
      exact hself

theorem head?_untyped (t : TypeTree) :
    t.untyped.head? = t.head?.map Name.untyped := by
  cases t with
  | generic lead base args type => rw [untyped_generic]; rfl
  | union lead ps => rw [untyped_union]; rfl
  | _ => rfl

theorem alternatives_untyped (t : TypeTree) :
    t.untyped.alternatives = t.alternatives.map TypeTree.untyped := by
  cases t with
  | generic lead base args type =>
      show _ = [untyped (.generic lead base args type)]
      rw [untyped_generic]
      rfl
  | union lead ps =>
      rw [untyped_union, alternatives, alternatives, List.map_map,
        List.map_map]
      rfl
  | _ => rfl

theorem isSome_head?_withLead (t : TypeTree) (lead : Trivia) :
    (t.withLead lead).head?.isSome = t.head?.isSome := by
  cases t <;> rfl

/-- Trivia in front are no part of a class. -/
theorem HasHead.withLead (h : t.HasHead) (lead : Trivia) :
    (t.withLead lead).HasHead := by
  obtain ⟨n, hn, htype⟩ := h
  cases t with
  | named m =>
      obtain rfl := Option.some.inj hn
      exact ⟨_, rfl, rfl⟩
  | generic lead' base args type => exact ⟨n, hn, htype⟩
  | _ => cases hn

/-- What is of a class is of a class after a renaming. -/
theorem HasHead.renamed (h : t.HasHead) (r : Renaming) {ω : Type} :
    (t.edit (r.editor : Editor ω)).value.HasHead := by
  obtain ⟨n, hn, htype⟩ := h
  refine ⟨(n.edit (r.editor : Editor ω)).value, ?_, ?_⟩
  · cases t with
    | named m =>
        obtain rfl := Option.some.inj hn
        rfl
    | generic lead base args type =>
        obtain rfl := Option.some.inj hn
        show (r.typeTree (.generic lead (base.edit (r.editor : Editor ω)).value
          _ type) : Edited ω TypeTree).value.head? = _
        unfold Renaming.typeTree
        split <;> rfl
    | _ => cases hn
  · rw [r.type_editTypeTree, r.type_editName, htype]

theorem HasHeads.renamed (h : t.HasHeads) (r : Renaming) {ω : Type} :
    (t.edit (r.editor : Editor ω)).value.HasHeads := by
  cases t with
  | union lead ps =>
      show ∀ a ∈ (editAll (r.editor : Editor ω) ps).value.map
        RightPadded.element, a.HasHead
      rw [editAll_value, List.map_map, List.forall_mem_map]
      exact fun p hp => (h p.element (List.mem_map_of_mem hp)).renamed r
  | _ => exact (HasHead.renamed (h _ List.mem_cons_self) r).hasHeads

end TypeTree

-- ================================================================= clauses

/-- The alternatives of what a clause can be written with are of classes. -/
theorem isSome_head?_of_spells {us : List Token} {t : TypeTree}
    (h : SpellsCatchType us t) : ∀ a ∈ t.alternatives, a.head?.isSome := by
  have hclass {us : List Token} {t : TypeTree} (h : SpellsClassType us t) :
      t.head?.isSome := by
    cases h <;> rfl
  have hpadded {us : List Token} {ps : List (RightPadded TypeTree)}
      (h : Padded SpellsClassType "|" us ps) :
      ∀ p ∈ ps, p.element.head?.isSome := by
    induction h with
    | last ha => exact List.forall_mem_singleton.2 (hclass ha)
    | cons ha _ ih => exact List.forall_mem_cons.2 ⟨hclass ha, ih⟩
  cases h with
  | single ht =>
      obtain ⟨n, hn⟩ := Option.isSome_iff_exists.1 (hclass ht)
      rw [TypeTree.alternatives_of_head? hn, List.forall_mem_singleton, hn]
      rfl
  | union hps =>
      obtain ⟨hfirst, hrest⟩ := List.forall_mem_cons.1 (hpadded hps)
      refine List.forall_mem_cons.2 ⟨?_, List.forall_mem_map.2 hrest⟩
      rwa [TypeTree.isSome_head?_withLead]

theorem isSome_head?_of_parameter {us : List Token} {d : Variables}
    (h : ParameterWith SpellsCatchType us d) :
    ∀ a ∈ d.typeTree.alternatives, a.head?.isSome := by
  cases h with
  | mk i _ htype _ => exact isSome_head?_of_spells htype

/-- The alternatives of a clause in a file that was read are of classes, and
have the types of their names. -/
theorem hasHeads_of_mem_tries {source : String} {cp : ClassPath}
    {path : Option String} {cu : CompilationUnit}
    (h : parseUnit source cp path = .ok cu) {t : Try Stmt} (ht : t ∈ cu.tries)
    {c : Catch Stmt} (hc : c ∈ t.catches) :
    c.declaration.typeTree.HasHeads := by
  intro a ha
  have hdeclaration := Node.declaration_mem_walk (.unit cu) ht hc
  have hspelled : (a.head?.map Name.untyped).isSome := by
    have hlaid := CompilationUnit.isLaidOut_of_parseTree
      (parseTree_of_parseUnit h)
    obtain ⟨us, hspells, -⟩ := CatchRule.writes_declaration hlaid ht hc
    have hheads := isSome_head?_of_parameter hspells
    rw [Variables.untyped_eq, TypeTree.alternatives_untyped,
      List.forall_mem_map] at hheads
    rw [← TypeTree.head?_untyped]
    exact hheads a ha
  rw [Option.isSome_map] at hspelled
  obtain ⟨n, hn⟩ := Option.isSome_iff_exists.1 hspelled
  refine ⟨n, hn, ?_⟩
  cases a with
  | named m =>
      obtain rfl := Option.some.inj hn
      rfl
  | generic lead base args type =>
      obtain rfl := Option.some.inj hn
      have htype : c.declaration.typeTree.node ∈
          (Node.declaration c.declaration).children :=
        List.mem_append_right _ List.mem_cons_self
      have hwalk := Node.walk_subset (.unit cu)
        (Node.walk_subset (.unit cu) hdeclaration
          (Node.children_subset_walk (.declaration _) htype))
        (TypeTree.mem_walk_of_mem_alternatives ha)
      exact (isAttributed_parseUnit h _ hwalk).consistent
  | _ => cases hn

namespace CatchRule

variable {r : CatchRule} {qualified : Bool}

-- ============================================================ declarations

theorem hasHead_dropLegacy {ps : List (RightPadded TypeTree)}
    (h : ∀ p ∈ ps, p.element.HasHead) :
    ∀ p ∈ r.dropLegacy ps, p.element.HasHead := by
  have hfirst (lead : Trivia) {qs : List (RightPadded TypeTree)}
      (hqs : ∀ q ∈ qs, q.element.HasHead) :
      ∀ q ∈ withFirstLead lead qs, q.element.HasHead := by
    cases qs with
    | nil => exact hqs
    | cons q qs =>
        obtain ⟨hq, hqs⟩ := List.forall_mem_cons.1 hqs
        exact List.forall_mem_cons.2 ⟨hq.withLead lead, hqs⟩
  have hkept : ∀ p ∈ ps.filter fun p => !r.isLegacy p, p.element.HasHead :=
    fun p hp => h p (List.mem_of_mem_filter hp)
  rw [← List.forall_mem_map (f := RightPadded.element), dropLegacy,
    RightPadded.map_element_closeLast, List.forall_mem_map]
  exact hfirst _ hkept

theorem hasHeads_dropFrom {d : Variables} (lead : Trivia)
    {ps : List (RightPadded TypeTree)} (h : ∀ p ∈ ps, p.element.HasHead) :
    (r.dropFrom d lead ps).typeTree.HasHeads := by
  have hdropped := hasHead_dropLegacy (r := r) h
  unfold dropFrom
  split
  · next only heq =>
    rw [heq, List.forall_mem_singleton] at hdropped
    exact (hdropped.withLead lead).hasHeads
  · exact List.forall_mem_map.2 hdropped

theorem hasHeads_substituteIn {ω : Type} {d : Variables}
    (h : d.typeTree.HasHeads) : (r.substituteIn qualified d :
      Edited ω Variables).value.typeTree.HasHeads := by
  have hrenamed := h.renamed (r.rename qualified) (ω := ω)
  unfold substituteIn
  split
  · next lead ps htree =>
    split
    · rw [htree] at h
      exact hasHeads_dropFrom lead (List.forall_mem_map.1 h)
    · exact hrenamed
  · exact hrenamed

theorem hasHead_insertBeforeLegacy (isFirst : Bool)
    {ps : List (RightPadded TypeTree)} (h : ∀ p ∈ ps, p.element.HasHead) :
    ∀ p ∈ r.insertBeforeLegacy qualified isFirst ps, p.element.HasHead := by
  induction ps generalizing isFirst with
  | nil => exact h
  | cons p ps ih =>
      obtain ⟨hp, hps⟩ := List.forall_mem_cons.1 h
      have hnew (lead : Trivia) :
          ((r.replacementFor qualified p.element).withLead lead).HasHead :=
        (hp.renamed (r.rename qualified)).withLead lead
      rw [insertBeforeLegacy]
      split
      · exact List.forall_mem_cons.2 ⟨hp, ih false hps⟩
      · split
        · exact List.forall_mem_cons.2
            ⟨hnew _, List.forall_mem_cons.2 ⟨hp.withLead " ", hps⟩⟩
        · exact List.forall_mem_cons.2
            ⟨hnew _, List.forall_mem_cons.2 ⟨hp, hps⟩⟩

theorem hasHeads_augmentIn {d : Variables} (h : d.typeTree.HasHeads) :
    (r.augmentIn qualified d).typeTree.HasHeads := by
  unfold augmentIn
  split
  · next lead ps htree =>
    rw [htree] at h
    exact List.forall_mem_map.2
      (hasHead_insertBeforeLegacy true (List.forall_mem_map.1 h))
  · next hu =>
    have hhead := h.hasHead hu
    exact List.forall_mem_cons.2
      ⟨(hhead.renamed (r.rename qualified)).withLead "",
        List.forall_mem_singleton.2 (hhead.withLead " ")⟩

/-- Whatever comes of a declaration, its alternatives are of classes if they
were. -/
theorem hasHeads_newDeclaration {d : Variables} (h : d.typeTree.HasHeads)
    (plan : Retargeting) :
    (r.newDeclaration qualified plan d).typeTree.HasHeads := by
  unfold newDeclaration
  split
  · cases plan with
    | unchanged => exact h
    | substitution => exact hasHeads_substituteIn h
    | augmentation => exact hasHeads_augmentIn h
  · exact h

-- ================================================================= classes

variable {cp : ClassPath} {cu again : CompilationUnit}

/-- The classes that clauses catch, by their full names. -/
def classesOf (caught : List (List (Option JavaType))) :
    List (List (Option String)) :=
  caught.map fun types => types.map fun type => type.bind JavaType.fqn?

/-- Whether the legacy type is caught is told by the names. -/
theorem any_classesOf (r : CatchRule) (caught : List (List (Option JavaType))) :
    ((classesOf caught).any fun classes => classes.contains (some r.legacy)) =
      caught.any fun types => types.any (isClassNamed r.legacy) := by
  rw [classesOf, List.any_map]
  refine congrArg (List.any _) (funext fun types => ?_)
  rw [Bool.eq_iff_iff, List.any_eq_true, Function.comp_apply,
    List.contains_iff_mem, List.mem_map]
  exact exists_congr fun type =>
    and_congr_right fun _ => isClassNamed_iff_fqn?.symm

/-- A substituted declaration has no alternative of the legacy type. -/
theorem not_isLegacy_of_substituted (hne : r.legacy ≠ r.replacement.fqn)
    {c : Catch Stmt} {a : TypeTree} (ha : a ∈ (r.newDeclaration qualified
      .substitution c.declaration).typeTree.alternatives) :
    ¬isClassNamed r.legacy a.type = true := by
  have hcaught : (r.newClause qualified .substitution c).caughtTypes =
      r.substituted c.caughtTypes :=
    r.caughtTypes_newClause qualified hne .substitution c
  rw [Catch.caughtTypes_eq, newClause, Catch.declaration_withDeclaration,
    TypeTree.caught_eq_map] at hcaught
  have hany := any_substituted hne c.caughtTypes
  rw [← hcaught] at hany
  exact List.any_eq_false.1 hany _ (List.mem_map_of_mem ha)

/-- Declarations that are the same without types have the same alternatives. -/
theorem alternatives_of_untyped_eq {d d' : Variables}
    (h : d'.untyped = d.untyped) :
    List.Forall₂ (fun a' a => a'.untyped = a.untyped)
      d'.typeTree.alternatives d.typeTree.alternatives := by
  have halternatives : d'.typeTree.alternatives.map TypeTree.untyped =
      d.typeTree.alternatives.map TypeTree.untyped := by
    rw [← TypeTree.alternatives_untyped, ← TypeTree.alternatives_untyped]
    rw [Variables.untyped_eq, Variables.untyped_eq] at h
    exact congrArg (fun d => d.typeTree.alternatives) h
  rwa [← List.forall₂_eq_eq_eq, List.forall₂_map_left_iff,
    List.forall₂_map_right_iff] at halternatives

/-- The names in a clause stay what the run makes them: those that are kept do
not move, and what is written for the legacy type arrives. -/
structure KeepsClause (r : CatchRule) (cp : ClassPath) (cu : CompilationUnit)
    (plan : Retargeting) (c : Catch Stmt) : Prop where
  kept : ∀ n ∈ c.declaration.typeTree.names,
    ¬(plan = .substitution ∧ n.fqn? = some r.legacy) → ¬r.Moves cp cu n.dotted
  written : plan ≠ .unchanged → ∀ n ∈ c.declaration.typeTree.names,
    n.fqn? = some r.legacy → r.Arrives cp cu n

instance (r : CatchRule) (cp : ClassPath) (cu : CompilationUnit)
    (plan : Retargeting) (c : Catch Stmt) :
    Decidable (r.KeepsClause cp cu plan c) :=
  decidable_of_iff ((∀ n ∈ c.declaration.typeTree.names,
      ¬(plan = .substitution ∧ n.fqn? = some r.legacy) →
        ¬r.Moves cp cu n.dotted) ∧
      (plan ≠ .unchanged → ∀ n ∈ c.declaration.typeTree.names,
        n.fqn? = some r.legacy → r.Arrives cp cu n))
    ⟨fun ⟨kept, written⟩ => ⟨kept, written⟩, fun h => ⟨h.kept, h.written⟩⟩

namespace Rereads

variable (h : r.Rereads cp cu again) {t t' : Try Stmt} {c c' : Catch Stmt}
include h

/-- Where the names in a clause stay what the run makes them, each is read as
the class that the run gave it. -/
theorem fqn?_eq (ht : t ∈ cu.tries) (hc : c ∈ t.catches)
    (hkeeps : r.KeepsClause cp cu (r.plan t) c) {n₁ n' : Name}
    (hn₁ : n₁ ∈ (r.newDeclaration (r.mustQualify cp cu) (r.plan t)
      c.declaration).typeTree.names)
    (hread : r.IsReadAs cp cu again n₁ n')
    (hleft : ¬(r.plan t = .substitution ∧ n₁.fqn? = some r.legacy)) :
    n'.fqn? = n₁.fqn? := by
  have hkept {n : Name} (hn : n ∈ c.declaration.typeTree.names)
      (hsaid : n₁.said = n.said) (hmeaning : r.KeepsMeaning cp cu n n') :
      n'.fqn? = n₁.fqn? := by
    have hfqn : n₁.fqn? = n.fqn? :=
      congrArg (fun said => said.2.bind JavaType.fqn?) hsaid
    rw [hfqn] at hleft ⊢
    exact hmeaning.meaning.2 (hkeeps.kept n hn hleft)
  by_cases hplan : r.plan t = .unchanged
  · rw [hplan, newDeclaration, ite_self] at hn₁
    exact hkept hn₁ rfl (h.keepsMeaning_of_said ht hc hn₁ rfl hread)
  · cases h.readsAs ht hc hn₁ hread with
    | kept hn hsaid hmeaning => exact hkept hn hsaid hmeaning
    | written hn hlegacy hsaid _ harrives =>
        have hnew : n₁.fqn? = some r.replacement.fqn :=
          congrArg (fun said => said.2.bind JavaType.fqn?) hsaid
        rw [harrives.2 (hkeeps.written hplan _ hn hlegacy), hnew]

/-- Each alternative of what a clause comes to declare is read as one of the
same class. -/
theorem fqn?_alternative (ht : t ∈ cu.tries) (ht' : t' ∈ again.tries)
    (hc : c ∈ t.catches) (hc' : c' ∈ t'.catches)
    (hkeeps : r.KeepsClause cp cu (r.plan t) c) {a₁ a' : TypeTree}
    (ha₁ : a₁ ∈ (r.newDeclaration (r.mustQualify cp cu) (r.plan t)
      c.declaration).typeTree.alternatives)
    (ha' : a' ∈ c'.declaration.typeTree.alternatives)
    (huntyped : a'.untyped = a₁.untyped) :
    a'.type.bind JavaType.fqn? = a₁.type.bind JavaType.fqn? := by
  obtain ⟨source, path, hread⟩ := h.before
  obtain ⟨source', path', hreread⟩ := h.after
  obtain ⟨n', hn', htype'⟩ := hasHeads_of_mem_tries hreread ht' hc' a' ha'
  obtain ⟨n₁, hn₁, htype₁⟩ := hasHeads_newDeclaration
    (hasHeads_of_mem_tries hread ht hc) (r.plan t) a₁ ha₁
  have hwords : n'.dotted = n₁.dotted := by
    have hsame := congrArg TypeTree.head? huntyped
    rw [TypeTree.head?_untyped, TypeTree.head?_untyped, hn', hn₁] at hsame
    rw [← n'.dotted_untyped, Option.some.inj hsame, n₁.dotted_untyped]
  have hmem₁ := TypeTree.mem_names_of_head? ha₁ hn₁
  have hmeans := names_of_mem_tries hreread ht' hc' n'
    (TypeTree.mem_names_of_head? ha' hn')
  obtain ⟨k, hk, hwalk⟩ := exists_mem_walk_of_mem_names h.ne cp ht hc hmem₁
  have hleft : ¬(r.plan t = .substitution ∧ n₁.fqn? = some r.legacy) := by
    rintro ⟨hplan, hlegacy⟩
    rw [hplan] at ha₁
    refine not_isLegacy_of_substituted h.ne ha₁ ?_
    rw [htype₁]
    exact isClassNamed_iff_fqn?.2 hlegacy
  rw [htype', htype₁]
  exact h.fqn?_eq ht hc hkeeps hmem₁
    ⟨hwords, hmeans.means, k, hk, _, hwalk, rfl⟩ hleft

/-- A clause is read as one that catches what the run made it catch. -/
theorem classes_clause (ht : t ∈ cu.tries) (ht' : t' ∈ again.tries)
    (hc : c ∈ t.catches) (hc' : c' ∈ t'.catches)
    (hdeclaration : c'.declaration.untyped = (r.newDeclaration
      (r.mustQualify cp cu) (r.plan t) c.declaration).untyped)
    (hkeeps : r.KeepsClause cp cu (r.plan t) c) :
    c'.caughtTypes.map (fun type => type.bind JavaType.fqn?) =
      (r.retyped (r.plan t) c.caughtTypes).map
        fun type => type.bind JavaType.fqn? := by
  have hcaught : (r.newClause (r.mustQualify cp cu) (r.plan t) c).caughtTypes =
      r.retyped (r.plan t) c.caughtTypes :=
    r.caughtTypes_newClause (r.mustQualify cp cu) h.ne (r.plan t) c
  rw [Catch.caughtTypes_eq, newClause, Catch.declaration_withDeclaration]
    at hcaught
  rw [← hcaught, Catch.caughtTypes_eq, TypeTree.caught_eq_map,
    TypeTree.caught_eq_map, List.map_map, List.map_map,
    ← List.forall₂_eq_eq_eq, List.forall₂_map_left_iff,
    List.forall₂_map_right_iff]
  have halternatives := forall₂_mem (alternatives_of_untyped_eq hdeclaration)
  refine halternatives.imp fun a' a₁ hpair => ?_
  obtain ⟨ha', ha₁, huntyped⟩ := hpair
  exact h.fqn?_alternative ht ht' hc hc' hkeeps ha₁ ha' huntyped

/-- The clauses are read as ones that catch what the run made them catch, where
the names in them stay what the run makes them. -/
theorem caughtClasses (hkeeps : ∀ t ∈ cu.tries, ∀ c ∈ t.catches,
      r.KeepsClause cp cu (r.plan t) c) :
    List.Forall₂ (fun t t' => classesOf t'.caught =
      classesOf (t.caught.map (r.retyped (r.plan t))))
      cu.tries again.tries := by
  refine h.declarations.imp fun t t' htries => ?_
  obtain ⟨ht, ht', hclauses⟩ := htries
  simp only [Try.caught, classesOf, List.map_map]
  rw [← List.forall₂_eq_eq_eq, List.forall₂_map_left_iff,
    List.forall₂_map_right_iff]
  refine hclauses.flip.imp fun c' c hpair => ?_
  obtain ⟨hc, hc', hdeclaration⟩ := hpair
  exact h.classes_clause ht ht' hc hc' hdeclaration (hkeeps t ht c hc)

end Rereads

-- ================================================================= results

/-- A `try` that is substituted, or that catches no legacy type, comes to catch
none. -/
theorem not_any_retyped (hne : r.legacy ≠ r.replacement.fqn) {t : Try Stmt}
    (hplan : r.plan t = .substitution ∨ r.catchesLegacy t = false) :
    ((t.caught.map (r.retyped (r.plan t))).any fun types =>
      types.any (isClassNamed r.legacy)) = false := by
  obtain hplan | hnone := hplan
  · rw [hplan, List.any_map]
    refine List.any_eq_false.2 fun types _ => ?_
    rw [Function.comp_apply, retyped, any_substituted hne]
    exact Bool.false_ne_true
  · rw [plan_of_not_catchesLegacy hnone]
    show (t.caught.map id).any _ = false
    rw [List.map_id]
    exact hnone

/-- A second run gives the text back where the first substituted whatever
caught the legacy type, and the names in the clauses stay what it makes
them. -/
theorem source_rerun_of_substituted (hne : r.legacy ≠ r.replacement.fqn)
    (hold : IsQualifiedName r.legacy) (hnew : IsQualifiedName r.replacement.fqn)
    {source : String} {path : Option String}
    (h : parseUnit source cp path = .ok cu)
    (hlegible : ∀ t ∈ cu.tries, ∀ c ∈ t.catches,
      (r.newDeclaration (r.mustQualify cp cu)
        (r.plan t) c.declaration).IsLegible)
    (hkeeps : ∀ t ∈ cu.tries, ∀ c ∈ t.catches,
      r.KeepsClause cp cu (r.plan t) c)
    (hplan : ∀ t ∈ cu.tries,
      r.plan t = .substitution ∨ r.catchesLegacy t = false) :
    ∃ again, parseUnit (r.run cp cu).source cp path = .ok again ∧
      (∀ t ∈ again.tries, r.catchesLegacy t = false) ∧
      (r.run cp again).source = (r.run cp cu).source := by
  obtain ⟨again, hagain, hrereads⟩ := exists_rereads hne hold hnew h hlegible
  have hnone : ∀ t ∈ again.tries, r.catchesLegacy t = false := by
    refine forall_right_of_forall₂ ?_
      (forall₂_mem (hrereads.caughtClasses hkeeps))
    rintro t t' ⟨ht, -, hclasses⟩
    rw [catchesLegacy, ← any_classesOf, hclasses, any_classesOf]
    exact not_any_retyped hne (hplan t ht)
  obtain ⟨-, hsource, -⟩ := source_rerun r hne cp cu hagain
  exact ⟨again, hagain, hnone, hsource fun t ht => .inr (.inl (hnone t ht))⟩

/-- What a run leaves of the sample is substituted by a second, and left so by
a third. -/
theorem source_rerun_of_substituted_sample :
    ∃ cu again, parseUnit sampleOnce sampleClassPath none = .ok cu ∧
      (∃ t ∈ cu.tries, sampleRule.plan t = .substitution) ∧
      parseUnit (sampleRule.run sampleClassPath cu).source sampleClassPath none
        = .ok again ∧
      (sampleRule.run sampleClassPath again).source = sampleTwice := by
  have hnames : IsQualifiedName sampleRule.legacy ∧
      IsQualifiedName sampleRule.replacement.fqn := by
    decide +kernel
  have hok : (parseUnit sampleOnce sampleClassPath none).isOk = true := by
    decide +kernel
  have hlegible : ∀ t ∈ (sampleUnit sampleOnce).tries, ∀ c ∈ t.catches,
      (sampleRule.newDeclaration
        (sampleRule.mustQualify sampleClassPath (sampleUnit sampleOnce))
        (sampleRule.plan t) c.declaration).IsLegible := by
    decide +kernel
  have hkeeps : ∀ t ∈ (sampleUnit sampleOnce).tries, ∀ c ∈ t.catches,
      sampleRule.KeepsClause sampleClassPath (sampleUnit sampleOnce)
        (sampleRule.plan t) c := by
    decide +kernel
  have hplan : ∀ t ∈ (sampleUnit sampleOnce).tries,
      sampleRule.plan t = .substitution ∨
        sampleRule.catchesLegacy t = false := by
    decide +kernel
  have hsome : ∃ t ∈ (sampleUnit sampleOnce).tries,
      sampleRule.plan t = .substitution := by
    decide +kernel
  have hsource := source_run_sample.2
  obtain ⟨cu, h⟩ := exists_of_isOk hok
  have hunit : sampleUnit sampleOnce = cu := by rw [sampleUnit, h]
  rw [hunit] at hlegible hkeeps hplan hsome hsource
  obtain ⟨again, hagain, -, hrerun⟩ := source_rerun_of_substituted
    (Recipe.ne_ruleOf (by decide) sampleClassPath) hnames.1 hnames.2 h hlegible
    hkeeps hplan
  exact ⟨cu, again, h, hsome, hagain, hrerun.trans hsource⟩

end CatchRule

end JavaRefit
