/-
A renamed tree can be written where the tree was.

Each node of a tree is first built from its renamed children and then
renamed itself. So there are two things to show of every sort of tree:
that it is rewritten by rewriting its children, and that what is written
for one class is a chain of names where one was written for the other
(`Spelling.Rewrites`, `Name.IsWritable`).

Chain: after `NameChain`; the catch rule renames parameters with it.
-/
import JavaRefit.Proofs.CatchRule.Clause
import JavaRefit.Proofs.Grammar.NameChain
import JavaRefit.Rename

namespace JavaRefit

open Spelling Token

-- ======================================================== written types

/-- A primitive type is read with its trivia and without a type. -/
theorem Parser.exists_of_asPrimitive {t : Token} {p : TypeTree}
    (h : Parser.asPrimitive t = some p) :
    ∃ lead keyword, p = .primitive lead keyword none := by
  rw [Parser.asPrimitive] at h
  split at h
  · split at h
    · obtain ⟨k, -, rfl⟩ := Option.map_eq_some_iff.1 h
      exact ⟨_, k, rfl⟩
    · cases h
  · cases h

namespace Spelling.Rewrites

variable {R : Spelling TypeTree}

/-- The name of a class type may be rewritten. -/
theorem named {n n' : Name} (h : SpellsName.Rewrites n n') :
    (ClassTypeWith R).Rewrites (.named n) (.named n') := by
  intro us hus
  cases hus with
  | named hn =>
      obtain ⟨us', hus', href⟩ := h us hn
      exact ⟨us', .named hus', href⟩

/-- A class name with type arguments is rewritten by rewriting its name and the
arguments. -/
theorem generic {lead : Trivia} {base base' : Name}
    {args args' : Container TypeTree} (hlead : base'.lead = base.lead)
    (hbase : SpellsName.Rewrites (base.withLead lead) (base'.withLead lead))
    (hargs : (Delimited R "<" ">").Rewrites args args') :
    (ClassTypeWith R).Rewrites (.generic lead base args none)
      (.generic lead base' args' none) := by
  intro us hus
  cases hus with
  | @generic us n vs _ hn hvs =>
      rw [Name.withLead_withLead, Name.withLead_lead] at hbase
      rw [Name.lead_withLead] at hlead
      obtain ⟨us', hus', href⟩ := hbase us hn
      obtain ⟨vs', hvs', href'⟩ := hargs vs hvs
      have hspells := ClassTypeWith.generic (R := R) hus' hvs'
      rw [Name.lead_withLead, Name.withLead_withLead,
        Name.withLead_eq_self _ hlead] at hspells
      exact ⟨_, hspells, href.append href'⟩

/-- A class name is a type. -/
theorem classType {t t' : TypeTree}
    (harray : ∀ lead e d type, t ≠ .array lead e d type)
    (hprimitive : ∀ lead k type, t ≠ .primitive lead k type)
    (h : (ClassTypeWith R).Rewrites t t') : (TypeWith R).Rewrites t t' := by
  intro us hus
  cases hus with
  | primitive hp =>
      obtain ⟨lead, k, rfl⟩ := Parser.exists_of_asPrimitive hp
      exact absurd rfl (hprimitive lead k none)
  | classType hus =>
      obtain ⟨us', hus', href⟩ := h us hus
      exact ⟨us', .classType hus', href⟩
  | array hus => exact absurd rfl (harray _ _ _ _)

/-- The element of an array type may be rewritten. -/
theorem array {lead : Trivia} {element element' : TypeTree}
    (dimension : LeftPadded Trivia) (hlead : element'.lead = element.lead)
    (h : (TypeWith R).Rewrites (element.withLead lead)
      (element'.withLead lead)) :
    (TypeWith R).Rewrites (.array lead element dimension none)
      (.array lead element' dimension none) := by
  intro us hus
  generalize ht : TypeTree.array lead element dimension none = t at hus
  cases hus with
  | primitive hp =>
      obtain ⟨_, _, rfl⟩ := Parser.exists_of_asPrimitive hp
      cases ht
  | classType hc => subst ht; cases hc
  | @array us t before inner hus =>
      obtain ⟨rfl, rfl, rfl⟩ : lead = t.lead ∧ element = t.withLead "" ∧
          dimension = ⟨before, inner⟩ := by
        simpa using ht
      rw [TypeTree.withLead_withLead, TypeTree.withLead_lead] at h
      rw [TypeTree.lead_withLead] at hlead
      obtain ⟨us', hus', href⟩ := h us hus
      have hspells := @TypeWith.array R us' _ before inner hus'
      rw [TypeTree.lead_withLead, TypeTree.withLead_withLead,
        TypeTree.withLead_eq_self _ hlead] at hspells
      exact ⟨_, hspells, href.append (.refl _)⟩

end Spelling.Rewrites

-- ================================================================ renaming

namespace Renaming

variable (r : Renaming) (ω : Type)

/-- A name after the renaming, without its types. -/
def nameAfter (n : Name) : Name := (n.edit (r.editor : Editor ω)).value.untyped

/-- A written type after the renaming, without its types. -/
def typeAfter (t : TypeTree) : TypeTree :=
  (t.edit (r.editor : Editor ω)).value.untyped

/-- An expression after the renaming, without its types. -/
def exprAfter (e : Expr) : Expr := (e.edit (r.editor : Editor ω)).value.untyped

-- ================================================================= names

/-- The name stays, or a chain that can be written comes in its place. -/
def Renames (n n' : Name) : Prop :=
  n' = n ∨ ∃ m : Name, m.IsWritable ∧ n' = m.withLead n.lead

variable {r}

/-- A renamed name may be given other trivia. -/
theorem Renames.withLead {n n' : Name} (h : Renames n n') (lead : Trivia) :
    Renames (n.withLead lead) (n'.withLead lead) := by
  rcases h with rfl | ⟨m, hm, rfl⟩
  · exact .inl rfl
  · exact .inr ⟨m, hm, by rw [Name.withLead_withLead, Name.lead_withLead]⟩

/-- A renamed name may be put in the place of the old one. -/
theorem Renames.rewrites {n n' : Name} (h : Renames n n') :
    SpellsName.Rewrites n n' := by
  rcases h with rfl | ⟨m, hm, rfl⟩
  · exact .refl _ _
  · exact hm.rewrites n

/-- A renamed name keeps its trivia. -/
theorem Renames.lead_eq {n n' : Name} (h : Renames n n') :
    n'.lead = n.lead := by
  rcases h with rfl | ⟨m, -, rfl⟩
  · rfl
  · exact m.lead_withLead _

theorem untyped_fullName (lead : Trivia) :
    (r.fullName lead).untyped = (Name.ofDotted r.new.fqn).withLead lead := by
  rw [fullName, Name.untyped_withType, Name.untyped_withLead,
    Name.untyped_ofDotted]

variable {ω} (hnew : IsQualifiedName r.new.fqn)
include hnew

/-- A name is renamed to the new one in full. -/
theorem renames_fullName {n : Name} : Renames n (r.fullName n.lead).untyped :=
  .inr ⟨Name.ofDotted r.new.fqn, hnew.isWritable, untyped_fullName n.lead⟩

/-- An identifier is renamed to the new one. -/
theorem renames_simple (i : Ident) :
    Renames (.simple i none) (r.simple i).untyped := by
  unfold simple
  split
  · split
    · exact renames_fullName hnew
    · exact .inr ⟨_, hnew.isWritable_simpleName i.lead, rfl⟩
  · exact .inl rfl

/-- What is done to one node. -/
theorem renames_name (n : Name) :
    Renames n.untyped (r.name n : Edited ω Name).value.untyped := by
  unfold name
  split
  · cases n with
    | simple i type => exact renames_simple hnew i
    | qualified lead outer last type =>
        rw [Edited.value_replace]
        dsimp only
        split
        · exact renames_fullName hnew (n :=
            .qualified lead outer.untyped last none)
        · exact .inl rfl
  · exact .inl rfl

/-- A name has its own trivia after the renaming. -/
theorem lead_nameAfter (n : Name) : (r.nameAfter ω n).lead = n.lead := by
  cases n with
  | simple i type => exact (renames_name hnew (.simple i type)).lead_eq
  | qualified lead outer last type =>
      exact (renames_name hnew
        (.qualified lead (outer.edit r.editor).value last type)).lead_eq

/-- A renamed name can be written where the name was. -/
theorem rewrites_nameAfter (n : Name) (lead : Trivia) :
    SpellsName.Rewrites (n.untyped.withLead lead)
      ((r.nameAfter ω n).withLead lead) := by
  induction n generalizing lead with
  | simple i type =>
      exact ((renames_name hnew (.simple i type)).withLead lead).rewrites
  | qualified lead' outer last type ih =>
      have hlead : (r.nameAfter ω outer).lead = outer.untyped.lead := by
        rw [lead_nameAfter hnew, Name.lead_untyped]
      have hnode : Renames (.qualified lead' (r.nameAfter ω outer) last none)
          (r.nameAfter ω (.qualified lead' outer last type)) :=
        renames_name hnew
          (.qualified lead' (outer.edit r.editor).value last type)
      exact (Rewrites.qualified last hlead (ih lead)).trans
        (hnode.withLead lead).rewrites

-- ================================================================= types

omit hnew in
/-- The renaming of a written type that is no name changes no more than its
type. -/
theorem untyped_typeTree {t : TypeTree} (h : ∀ n, t ≠ .named n) :
    (r.typeTree t : Edited ω TypeTree).value.untyped = t.untyped := by
  unfold typeTree
  split
  · cases t <;> rfl
  · rfl

omit hnew in
theorem typeAfter_generic (lead : Trivia) (base : Name)
    (args : Container TypeTree) (type : Option JavaType) :
    r.typeAfter ω (.generic lead base args type) =
      .generic lead (r.nameAfter ω base) (args.map (r.typeAfter ω)) none := by
  have hnode : r.typeAfter ω (.generic lead base args type) =
      (TypeTree.generic lead (base.edit (r.editor : Editor ω)).value
        ⟨args.before, (TypeTree.editAll (r.editor : Editor ω)
          args.elements).value, args.close⟩
        type).untyped :=
    untyped_typeTree (ω := ω) fun _ h => by cases h
  rw [hnode, TypeTree.untyped_generic, TypeTree.editAll_value]
  simp only [Container.map, List.map_map]
  rfl

omit hnew in
theorem typeAfter_primitive (lead : Trivia) (keyword : Primitive)
    (type : Option JavaType) :
    r.typeAfter ω (.primitive lead keyword type) =
      .primitive lead keyword none :=
  untyped_typeTree (ω := ω) (t := .primitive lead keyword type)
    fun _ h => by cases h

omit hnew in
theorem typeAfter_array (lead : Trivia) (element : TypeTree)
    (dimension : LeftPadded Trivia) (type : Option JavaType) :
    r.typeAfter ω (.array lead element dimension type) =
      .array lead (r.typeAfter ω element) dimension none :=
  untyped_typeTree (ω := ω) (t :=
    .array lead (element.edit (r.editor : Editor ω)).value dimension type)
    fun _ h => by cases h

omit hnew in
theorem typeAfter_union (lead : Trivia)
    (alternatives : List (RightPadded TypeTree)) :
    r.typeAfter ω (.union lead alternatives) =
      .union lead (alternatives.map (.map (r.typeAfter ω))) := by
  have hnode : r.typeAfter ω (.union lead alternatives) =
      (TypeTree.union lead (TypeTree.editAll (r.editor : Editor ω)
        alternatives).value).untyped :=
    untyped_typeTree (ω := ω) fun _ h => by cases h
  rw [hnode, TypeTree.untyped_union, TypeTree.editAll_value, List.map_map]
  rfl

/-- A type has its own trivia after the renaming. -/
theorem lead_typeAfter (t : TypeTree) : (r.typeAfter ω t).lead = t.lead := by
  cases t with
  | named n => exact lead_nameAfter hnew n
  | generic lead base args type => rw [typeAfter_generic]; rfl
  | primitive lead keyword type =>
      rw [typeAfter_primitive]
      rfl
  | array lead element dimension type => rw [typeAfter_array]; rfl
  | union lead alternatives => rw [typeAfter_union]; rfl

omit hnew in
/-- Elements are rewritten one by one, and followed as they were. -/
theorem forall₂_map {α : Type} {R : Spelling α} {f g : α → α}
    {ps : List (RightPadded α)}
    (h : ∀ p ∈ ps, R.Rewrites (f p.element) (g p.element)) :
    List.Forall₂ R.RewritesPadded (ps.map (.map f)) (ps.map (.map g)) := by
  rw [List.forall₂_map_left_iff, List.forall₂_map_right_iff]
  exact List.forall₂_same.2 fun p hp => ⟨rfl, h p hp⟩

/-- A class name that is renamed, if its arguments may be renamed. -/
theorem rewrites_classType {R : Spelling TypeTree} {t : TypeTree}
    (hargs : ∀ lead base args type, t = .generic lead base args type →
      ∀ p ∈ args.elements,
      R.Rewrites p.element.untyped (r.typeAfter ω p.element)) (lead : Trivia) :
    (ClassTypeWith R).Rewrites (t.untyped.withLead lead)
      ((r.typeAfter ω t).withLead lead) := by
  cases t with
  | named n => exact .named (rewrites_nameAfter hnew n lead)
  | generic lead' base args type =>
      rw [TypeTree.untyped_generic, typeAfter_generic]
      refine .generic ?_ (rewrites_nameAfter hnew base lead)
        (.delimited rfl rfl (forall₂_map (hargs _ _ _ _ rfl)))
      rw [lead_nameAfter hnew, Name.lead_untyped]
  | primitive _ _ _ => intro us hus; cases hus
  | array _ _ _ _ => intro us hus; cases hus
  | union _ _ => intro us hus; cases hus

/-- After the renaming a type may be put in its own place: by induction on the
type. -/
theorem rewrites_typeWith (n : Nat) (t : TypeTree) (lead : Trivia) :
    (TypeWith (SpellsTypeAt n)).Rewrites (t.untyped.withLead lead)
      ((r.typeAfter ω t).withLead lead) := by
  induction t using TypeTree.induction_on generalizing n lead with
  | named name =>
      refine .classType (fun _ _ _ _ h => by cases h)
        (fun _ _ _ h => by cases h) ?_
      exact rewrites_classType hnew (fun _ _ _ _ h => by cases h) lead
  | generic lead' base args type ih =>
      have hshape : (TypeTree.generic lead' base args type).untyped.withLead
          lead =
          .generic lead base.untyped (args.map TypeTree.untyped) none := by
        rw [TypeTree.untyped_generic]
        rfl
      refine .classType (fun _ _ _ _ h => ?_) (fun _ _ _ h => ?_) ?_
      · rw [hshape] at h; cases h
      · rw [hshape] at h; cases h
      · refine rewrites_classType hnew
          (fun lead'' base' args' type' h p hp => ?_) lead
        obtain ⟨-, -, rfl, -⟩ := TypeTree.generic.inj h
        rcases n with - | n
        · intro us hus
          cases hus
        · have harg := ih p hp n p.element.lead
          rwa [TypeTree.withLead_eq_self _ p.element.lead_untyped,
            TypeTree.withLead_eq_self _ (lead_typeAfter hnew p.element)] at harg
  | primitive lead' keyword type =>
      rw [typeAfter_primitive]
      exact .refl _ _
  | array lead' element dimension type ih =>
      rw [TypeTree.untyped_array, typeAfter_array]
      refine .array dimension ?_ (ih n lead)
      rw [lead_typeAfter hnew, TypeTree.lead_untyped]
  | union lead' alternatives ih =>
      rw [TypeTree.untyped_union]
      intro us hus
      cases hus with
      | primitive hp =>
          obtain ⟨_, _, h⟩ := Parser.exists_of_asPrimitive hp; cases h
      | classType hc => cases hc

/-- A renamed type can be written where the type was. -/
theorem rewrites_type (t : TypeTree) :
    SpellsType.Rewrites t.untyped (r.typeAfter ω t) := by
  rintro us ⟨n, hus⟩
  cases n with
  | zero => cases hus
  | succ n =>
      have h := rewrites_typeWith (ω := ω) hnew n t t.lead
      rw [TypeTree.withLead_eq_self _ t.lead_untyped,
        TypeTree.withLead_eq_self _ (lead_typeAfter hnew t)] at h
      obtain ⟨us', hus', href⟩ := h us hus
      exact ⟨us', ⟨n + 1, hus'⟩, href⟩

/-- A renamed class name can be written where the class name was. -/
theorem rewrites_spellsClassType (t : TypeTree) (lead : Trivia) :
    SpellsClassType.Rewrites (t.untyped.withLead lead)
      ((r.typeAfter ω t).withLead lead) :=
  rewrites_classType hnew (fun _ _ _ _ _ p _ =>
    rewrites_type hnew p.element) lead

end Renaming

end JavaRefit
