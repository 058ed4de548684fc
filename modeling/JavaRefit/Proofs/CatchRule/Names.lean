/-
The names that catch clauses are left with.

A renamed type is written with the names it was written with, each of them
renamed (`TypeTree.names_edit`). For the class to rename there is then its
new name: the simple one, or the full one where simple names are not to be
trusted or the old one was spelled in full (`Renaming.respelled`). A longer
name that ends in the class without spelling it is left as it is.

So whatever the rule makes of a clause, a name in it has the words and the
type of one that was there, or it is what is written for a name of the
legacy type (`CatchRule.comesFrom_newDeclaration`).

Chain: after the rewriting of clauses and `Rename/References`; what names
mean after a run is read off it.
-/
import JavaRefit.Proofs.Attribution.Meaning
import JavaRefit.Proofs.CatchRule.Variable
import JavaRefit.Proofs.Rename.References
import JavaRefit.Proofs.Tree.ClassPlace

namespace JavaRefit

-- =========================================================== written types

/-- What a name says: its words, and the type it has. -/
def Name.said (n : Name) : String × Option JavaType :=
  (n.dotted, n.type)

namespace TypeTree

/-- Trivia in front are no part of what a type says. -/
theorem said_names_withLead (lead : Trivia) (t : TypeTree) :
    (t.withLead lead).names.map Name.said = t.names.map Name.said := by
  cases t with
  | named n =>
      exact congrArg ([·]) (Prod.ext (n.dotted_withLead lead)
        (n.type_withLead lead))
  | _ => rfl

variable {ω : Type} (r : Renaming)

theorem names_typeTree (t : TypeTree) :
    (r.typeTree t : Edited ω TypeTree).value.names = t.names := by
  unfold Renaming.typeTree
  split
  · cases t <;> rfl
  · rfl

/-- A renamed type is written with renamed names. -/
theorem names_edit (t : TypeTree) : (t.edit (r.editor : Editor ω)).value.names =
    t.names.map fun n => (n.edit (r.editor : Editor ω)).value := by
  have hall {ps : List (RightPadded TypeTree)}
      (ih : ∀ p ∈ ps, (p.element.edit (r.editor : Editor ω)).value.names =
        p.element.names.map fun n => (n.edit (r.editor : Editor ω)).value) :
      namesAll (editAll (r.editor : Editor ω) ps).value =
        (namesAll ps).map fun n => (n.edit (r.editor : Editor ω)).value := by
    rw [editAll_value, namesAll_eq, namesAll_eq, List.flatMap_map,
      List.map_flatMap]
    exact List.flatMap_congr ih
  induction t using TypeTree.induction_on with
  | named n => rfl
  | generic lead base args type ih =>
      refine (names_typeTree (ω :=
        ω) r (.generic lead (base.edit (r.editor : Editor ω)).value
        ⟨args.before, (editAll (r.editor : Editor ω) args.elements).value,
          args.close⟩ type)).trans ?_
      exact congrArg ((base.edit (r.editor : Editor ω)).value :: ·) (hall ih)
  | primitive lead keyword type =>
      exact names_typeTree (ω := ω) r (.primitive lead keyword type)
  | array lead element dimension type ih =>
      refine (names_typeTree (ω :=
        ω) r (.array lead (element.edit (r.editor : Editor ω)).value dimension
        type)).trans ?_
      exact ih
  | union lead ps ih =>
      refine (names_typeTree (ω :=
        ω) r (.union lead (editAll (r.editor : Editor ω) ps).value)).trans ?_
      exact hall ih

end TypeTree

-- =============================================================== spellings

namespace Renaming

variable (r : Renaming)

/-- What is written for a name of the class to rename. -/
def respelled (n : Name) : String :=
  if n.outer? = none then r.written else if n.dotted = r.old then r.new.fqn
    else n.dotted

/-- The name says what one of the names says, or it is what is written for one
of the class to rename. -/
def ComesFrom (ns : List Name) (n' : Name) : Prop :=
  ∃ n ∈ ns, n'.said = n.said ∨ r.concerns n.type = true ∧
    n'.said = (r.respelled n, r.newType)

variable {r} {ns ms : List Name} {n : Name}

theorem ComesFrom.mono (h : r.ComesFrom ns n) (hsubset : ns ⊆ ms) :
    r.ComesFrom ms n := by
  obtain ⟨m, hm, hsaid⟩ := h
  exact ⟨m, hsubset hm, hsaid⟩

/-- Names that say what others say come from these. -/
theorem comesFrom_of_subset (h : ms.map Name.said ⊆ ns.map Name.said) :
    ∀ m ∈ ms, r.ComesFrom ns m := by
  intro m hm
  obtain ⟨n, hn, heq⟩ := List.mem_map.1 (h (List.mem_map_of_mem hm))
  exact ⟨n, hn, .inl heq.symm⟩

/-- What comes from names is told by what is said. -/
theorem comesFrom_congr (h : ms.map Name.said = ns.map Name.said)
    {ks : List Name} (hns : ∀ n ∈ ns, r.ComesFrom ks n) :
    ∀ m ∈ ms, r.ComesFrom ks m := by
  intro m hm
  obtain ⟨n, hn, heq⟩ := List.mem_map.1 (h ▸ List.mem_map_of_mem hm)
  obtain ⟨k, hk, hsaid⟩ := hns n hn
  exact ⟨k, hk, heq ▸ hsaid⟩

variable {ω : Type}

/-- A renamed name says what it said, or what is said of the class after the
renaming. -/
theorem said_edit (hclass : n.NamesClass) (hplain : n.IsPlain) :
    (n.edit (r.editor : Editor ω)).value.said =
      if r.concerns n.type = true then (r.respelled n, r.newType)
        else n.said := by
  split
  · next hconcerns =>
    obtain ⟨-, htype, hword, hchain⟩ :=
      hclass.rewrites (ω := ω) r hconcerns fun houter =>
      Text.simpleName_of_not_mem (hplain houter)
    refine Prod.ext ?_ htype
    rw [respelled]
    split
    · next houter => exact hword houter
    · next houter => exact hchain houter
  · next hconcerns =>
    have hkept (n : Name) (h : ¬r.concerns n.type = true) :
        (r.name n : Edited ω Name).value = n := by
      unfold name
      rw [if_neg h, Edited.value_keep]
    cases n with
    | simple i type => exact congrArg Name.said (hkept _ hconcerns)
    | qualified lead outer last type =>
        show (r.name (.qualified lead (outer.edit (r.editor : Editor ω)).value
          last type) : Edited ω Name).value.said = _
        rw [Name.edit_of_untyped r (hclass.outer outer rfl), hkept _ hconcerns]

/-- The names of a renamed type come from those of the type. -/
theorem comesFrom_edit {t : TypeTree}
    (h : ∀ n ∈ t.names, n.NamesClass ∧ n.IsPlain) :
    ∀ n ∈ (t.edit (r.editor : Editor ω)).value.names,
      r.ComesFrom t.names n := by
  rw [TypeTree.names_edit, List.forall_mem_map]
  intro n hn
  obtain ⟨hclass, hplain⟩ := h n hn
  refine ⟨n, hn, ?_⟩
  rw [said_edit hclass hplain]
  split
  · next hconcerns => exact .inr ⟨hconcerns, rfl⟩
  · exact .inl rfl

end Renaming

namespace CatchRule

variable {r : CatchRule} {qualified : Bool} {ps : List (RightPadded TypeTree)}

theorem names_subset_namesAll {p : RightPadded TypeTree} (hp : p ∈ ps) :
    p.element.names ⊆ TypeTree.namesAll ps := by
  rw [TypeTree.namesAll_eq]
  exact fun n hn => List.mem_flatMap.2 ⟨p, hp, hn⟩

-- ----------------------------------------------------------- substitution

/-- Of the alternatives that are left once the legacy type is dropped only the
trivia are new. -/
theorem said_names_dropLegacy (r : CatchRule)
    (ps : List (RightPadded TypeTree)) :
    (TypeTree.namesAll (r.dropLegacy ps)).map Name.said ⊆
      (TypeTree.namesAll ps).map Name.said := by
  have hfirst (lead : Trivia) (qs : List (RightPadded TypeTree)) :
      (TypeTree.namesAll (withFirstLead lead qs)).map Name.said =
        (TypeTree.namesAll qs).map Name.said := by
    cases qs with
    | nil => rfl
    | cons q qs =>
        rw [withFirstLead, TypeTree.namesAll, TypeTree.namesAll,
          List.map_append, List.map_append]
        exact congrArg (· ++ _) (TypeTree.said_names_withLead lead q.element)
  have hlast (after : Trivia) (qs : List (RightPadded TypeTree)) :
      TypeTree.namesAll (RightPadded.closeLast after qs) =
        TypeTree.namesAll qs := by
    have h := congrArg (List.flatMap TypeTree.names)
      (RightPadded.map_element_closeLast after qs)
    rwa [List.flatMap_map, List.flatMap_map, ← TypeTree.namesAll_eq,
      ← TypeTree.namesAll_eq] at h
  rw [dropLegacy, hlast, hfirst]
  refine List.map_subset _ fun n hn => ?_
  rw [TypeTree.namesAll_eq] at hn
  obtain ⟨p, hp, hn⟩ := List.mem_flatMap.1 hn
  exact names_subset_namesAll (List.mem_of_mem_filter hp) hn

theorem comesFrom_dropFrom (r : CatchRule) (d : Variables) (lead : Trivia) :
    ∀ n ∈ (r.dropFrom d lead ps).typeTree.names,
      (r.rename qualified).ComesFrom (TypeTree.namesAll ps) n := by
  refine Renaming.comesFrom_of_subset ?_
  have hdropped := r.said_names_dropLegacy ps
  unfold dropFrom
  split
  · next only heq =>
    rw [heq, TypeTree.namesAll, TypeTree.namesAll, List.append_nil] at hdropped
    show ((only.element.withLead lead).names).map Name.said ⊆ _
    rwa [TypeTree.said_names_withLead]
  · exact hdropped

theorem comesFrom_substituteIn {ω : Type} {d : Variables}
    (h : ∀ n ∈ d.typeTree.names, n.NamesClass ∧ n.IsPlain) :
    ∀ n ∈
      (r.substituteIn qualified d : Edited ω Variables).value.typeTree.names,
      (r.rename qualified).ComesFrom d.typeTree.names n := by
  have hrenamed := Renaming.comesFrom_edit (r := r.rename qualified) (ω := ω) h
  unfold substituteIn
  split
  · next lead ps htree =>
    split
    · rw [htree]
      exact comesFrom_dropFrom r d lead
    · exact hrenamed
  · exact hrenamed

-- ----------------------------------------------------------- augmentation

/-- The type tree for the replacement comes from the one it stands in front
of. -/
theorem comesFrom_replacementFor {t : TypeTree}
    (h : ∀ n ∈ t.names, n.NamesClass ∧ n.IsPlain) (lead : Trivia) :
    ∀ n ∈ ((r.replacementFor qualified t).withLead lead).names,
      (r.rename qualified).ComesFrom t.names n :=
  Renaming.comesFrom_congr (TypeTree.said_names_withLead lead _)
    (Renaming.comesFrom_edit h)

theorem comesFrom_self (ns : List Name) :
    ∀ n ∈ ns, (r.rename qualified).ComesFrom ns n :=
  Renaming.comesFrom_of_subset (List.Subset.refl _)

theorem comesFrom_withLead {t : TypeTree} (lead : Trivia) :
    ∀ n ∈ (t.withLead lead).names, (r.rename qualified).ComesFrom t.names n :=
  Renaming.comesFrom_congr (TypeTree.said_names_withLead lead t)
    (comesFrom_self t.names)

theorem comesFrom_insertBeforeLegacy (isFirst : Bool)
    (h : ∀ n ∈ TypeTree.namesAll ps, n.NamesClass ∧ n.IsPlain) :
    ∀ n ∈ TypeTree.namesAll (r.insertBeforeLegacy qualified isFirst ps),
      (r.rename qualified).ComesFrom (TypeTree.namesAll ps) n := by
  induction ps generalizing isFirst with
  | nil => exact List.forall_mem_nil _
  | cons p ps ih =>
      have hp : p.element.names ⊆ TypeTree.namesAll (p :: ps) :=
        names_subset_namesAll List.mem_cons_self
      have hps : TypeTree.namesAll ps ⊆ TypeTree.namesAll (p :: ps) :=
        List.subset_append_right _ _
      have hnew (lead : Trivia) :
          ∀ n ∈ ((r.replacementFor qualified p.element).withLead lead).names,
          (r.rename qualified).ComesFrom (TypeTree.namesAll (p :: ps)) n :=
            fun n hn =>
        (comesFrom_replacementFor (fun m hm => h m (hp hm)) lead n hn).mono hp
      have hrest : ∀ n ∈ TypeTree.namesAll ps,
          (r.rename qualified).ComesFrom (TypeTree.namesAll (p :: ps)) n :=
            fun n hn =>
        (comesFrom_self _ n hn).mono hps
      rw [insertBeforeLegacy]
      split
      · refine List.forall_mem_append.2 ⟨fun n hn =>
          (comesFrom_self _ n hn).mono hp, fun n hn => ?_⟩
        exact (ih false (fun m hm => h m (hps hm)) n hn).mono hps
      · split
        · refine List.forall_mem_append.2 ⟨hnew _,
            List.forall_mem_append.2 ⟨fun n hn => ?_, hrest⟩⟩
          exact (comesFrom_withLead " " n hn).mono hp
        · exact List.forall_mem_append.2 ⟨hnew _, List.forall_mem_append.2
            ⟨fun n hn => (comesFrom_self _ n hn).mono hp, hrest⟩⟩

theorem comesFrom_augmentIn {d : Variables}
    (h : ∀ n ∈ d.typeTree.names, n.NamesClass ∧ n.IsPlain) :
    ∀ n ∈ (r.augmentIn qualified d).typeTree.names,
      (r.rename qualified).ComesFrom d.typeTree.names n := by
  unfold augmentIn
  split
  · next lead ps htree =>
    rw [htree] at h ⊢
    exact comesFrom_insertBeforeLegacy true h
  · refine List.forall_mem_append.2 ⟨comesFrom_replacementFor h "", ?_⟩
    exact List.forall_mem_append.2 ⟨comesFrom_withLead " ",
      List.forall_mem_nil _⟩

-- ------------------------------------------------------------ declarations

/-- Whatever comes of a declaration, the names in its type come from those it
had. -/
theorem comesFrom_newDeclaration {d : Variables}
    (h : ∀ n ∈ d.typeTree.names, n.NamesClass ∧ n.IsPlain)
    (plan : Retargeting) :
    ∀ n ∈ (r.newDeclaration qualified plan d).typeTree.names,
      (r.rename qualified).ComesFrom d.typeTree.names n := by
  unfold newDeclaration
  split
  · cases plan with
    | unchanged => exact comesFrom_self _
    | substitution => exact comesFrom_substituteIn h
    | augmentation => exact comesFrom_augmentIn h
  · exact comesFrom_self _

end CatchRule

end JavaRefit
