/-
What the catch rule writes between the parentheses of a clause.

A clause gets another declaration, and that can be written where the old
one was, if only the variable stays one word and stands apart from the
type (`Variables.IsLegible`). Neither goes without saying: a variable may
be named like the legacy type, and where an alternative is dropped
the variable comes to stand after another one.

Chain: after the renaming and `Alternatives`; the rereading of whole files
reads it.
-/
import JavaRefit.Proofs.CatchRule.Retarget
import JavaRefit.Proofs.Grammar.Alternatives
import JavaRefit.Proofs.Grammar.Layout
import JavaRefit.Proofs.Rename.Expr

namespace JavaRefit

open Spelling Token

-- ============================================================ parameters

/-- Every variable is one word, and where no trivia is in front of it, the type
does not end with a name. -/
structure Variables.IsLegible (d : Variables) : Prop where
  simple : ∀ p ∈ d.declarators, p.element.name.outer? = none
  apart : ∀ p ∈ d.declarators, p.element.lead = "" →
    d.typeTree.endsInName = false

instance (d : Variables) : Decidable d.IsLegible :=
  decidable_of_iff
    ((∀ p ∈ d.declarators, p.element.name.outer? = none) ∧
      ∀ p ∈ d.declarators, p.element.lead = "" → d.typeTree.endsInName = false)
    ⟨fun h => ⟨h.1, h.2⟩, fun h => ⟨h.simple, h.apart⟩⟩

/-- Tokens that spell the first type become some that spell the second. -/
def Respells (t t' : TypeTree) : Prop :=
  ∀ us, SpellsCatchType us t → ∃ us', SpellsCatchType us' t' ∧
    (Separated us → Separated us')

theorem Respells.of_rewrites {t t' : TypeTree}
    (h : SpellsCatchType.Rewrites t t') : Respells t t' := by
  intro us hus
  obtain ⟨us', hus', href⟩ := h us hus
  exact ⟨us', hus', href.separated⟩

/-- A parameter is rewritten by rewriting its modifiers and its name and
respelling its type, if the name can come after that. -/
theorem Spelling.Rewrites.parameter {lead : Trivia} {ms ms' : List Modifier}
    {t t' : TypeTree} {i : Ident} {name : String}
    (hms : List.Forall₂ SpellsModifier.Rewrites ms ms') (ht : Respells t t')
    (hlead : t'.lead = t.lead) (hname : (Word.name i.name).IsWhole →
      (Word.name name).IsWhole) (hapart : i.lead = "" → t'.endsInName = false) :
    (ParameterWith SpellsCatchType).Rewrites
      ⟨lead, ms, t, [⟨⟨i.lead, .simple ⟨"", i.name⟩ none, none, none⟩, ""⟩]⟩
      ⟨lead, ms', t',
        [⟨⟨i.lead, .simple ⟨"", name⟩ none, none, none⟩, ""⟩]⟩ := by
  intro xs hxs
  generalize hd :
    (⟨lead, ms, t, [⟨⟨i.lead, .simple ⟨"", i.name⟩ none, none, none⟩, ""⟩]⟩ :
    Variables) = d at hxs
  cases hxs with
  | @mk _ us _ vs _ _ j hus hvs hled =>
      simp only [Variables.mk.injEq, List.cons.injEq, RightPadded.mk.injEq,
        Variable.mk.injEq, Name.simple.injEq, Ident.mk.injEq, and_true,
        true_and] at hd
      obtain ⟨rfl, rfl, rfl, hi, hj⟩ := hd
      obtain ⟨us', hus', href⟩ := Rewrites.many hms _ hus
      obtain ⟨vs', hvs', hsep⟩ := ht _ hvs
      obtain ⟨s, ts, rfl⟩ := head_catchType hvs
      obtain ⟨s', ts', rfl⟩ := head_catchType hvs'
      have hfit : Refits (⟨t.lead, .name s⟩ :: ts ++ [⟨i.lead, .name i.name⟩])
          (⟨t'.lead, .name s'⟩ :: ts' ++ [⟨i.lead, .name name⟩]) := by
        refine ⟨fun h => ?_, .some ⟨hlead, .inr ⟨rfl, rfl⟩⟩, ?_⟩
        · obtain ⟨hvs, hi, -⟩ := separated_append.1 h
          have hwhole := hi.whole _ List.mem_cons_self
          exact separated_catchType_name hvs' (hsep hvs)
            ⟨hwhole.lead, hname hwhole.word⟩ rfl hapart
        · rw [List.getLast?_concat, List.getLast?_concat]
          exact .some (.inr ⟨rfl, rfl⟩)
      rw [List.append_assoc, ← hi, ← hj] at hled
      obtain ⟨xs', hled', href'⟩ := (href.append hfit).led hled
      rw [← List.append_assoc] at hled'
      exact ⟨xs', .mk ⟨i.lead, name⟩ hus' hvs' hled', href'⟩

/-- A parameter has one variable, of one word. -/
theorem exists_variable {R : Spelling TypeTree} {us : List Token}
    {d : Variables} (h : ParameterWith R us d.untyped) :
    ∃ (i : Ident) (type type' : Option JavaType),
      d.declarators =
        [⟨⟨i.lead, .simple ⟨"", i.name⟩ type, none, type'⟩, ""⟩] := by
  rw [Variables.untyped_eq] at h
  generalize hds :
    d.declarators.map (RightPadded.map Variable.untyped) = ds at h
  cases h with
  | mk i =>
      obtain ⟨⟨v, after⟩, hd, hv⟩ := List.map_eq_singleton_iff.1 hds
      rw [RightPadded.map, Variable.untyped_eq, RightPadded.mk.injEq,
        Variable.mk.injEq] at hv
      obtain ⟨⟨hlead, hname, hinitializer, -⟩, hafter⟩ := hv
      obtain ⟨lead, name, initializer, type'⟩ := v
      cases name with
      | simple j type =>
          obtain rfl := (Name.simple.inj hname).1
          obtain rfl : initializer = none := by simpa using hinitializer
          dsimp only at hlead hafter
          subst hlead hafter
          exact ⟨i, type, type', hd⟩
      | qualified => cases hname

-- ========================================================= alternatives

theorem TypeTree.isNamed_untyped (t : TypeTree) :
    t.untyped.isNamed = t.isNamed := by
  cases t with
  | generic lead base args type => rw [TypeTree.untyped_generic]; rfl
  | union lead ps => rw [TypeTree.untyped_union]; rfl
  | _ => rfl

theorem TypeTree.endsInName_untyped (t : TypeTree) :
    t.untyped.endsInName = t.endsInName := by
  cases t with
  | union lead ps =>
      rw [TypeTree.untyped_union, endsInName, endsInName, List.getLast?_map,
        Option.any_map]
      exact congrArg (Option.any · _) (funext fun p =>
        p.element.isNamed_untyped)
  | generic lead base args type => rw [TypeTree.untyped_generic]; rfl
  | _ => rfl

/-- What can be written is legible. -/
theorem Variables.isLegible_of_writes {d : Variables}
    (h : (ParameterWith SpellsCatchType).Writes d.untyped) : d.IsLegible := by
  obtain ⟨us, hus, hsep⟩ := h
  obtain ⟨i, type, type', hd⟩ := exists_variable hus
  refine ⟨fun p hp => ?_, fun p hp hlead => ?_⟩
  · rw [hd, List.mem_singleton] at hp
    rw [hp]
    rfl
  · rw [hd, List.mem_singleton] at hp
    rw [Variables.untyped_eq, hd] at hus
    generalize hd' : (⟨_, _, _, _⟩ : Variables) = d' at hus
    cases hus with
    | mk j hms ht hled =>
        simp only [Variables.mk.injEq] at hd'
        obtain ⟨-, -, rfl, hj⟩ := hd'
        rw [← TypeTree.endsInName_untyped]
        replace hsep := separated_of_led hled hsep
        rw [List.append_assoc, separated_append] at hsep
        refine endsInName_of_separated ht hsep.2.1 rfl ?_
        have hleads :=
          congrArg (List.map fun p : RightPadded Variable => p.element.lead) hj
        rw [hp] at hlead
        exact (List.cons.inj hleads).1.symm.trans hlead

/-- The trivia in front of alternatives belongs to the list of them. -/
theorem spellsCatchType_union {us : List Token} {lead : Trivia}
    {ps : List (RightPadded TypeTree)} : SpellsCatchType us (.union lead ps) ↔
      ∃ p q qs, ps = p :: q :: qs ∧ p.element.lead = "" ∧
        Padded SpellsClassType "|" us
          (⟨p.element.withLead lead, p.after⟩ :: q :: qs) := by
  constructor
  · intro h
    cases h with
    | single h => cases h
    | @union _ first q qs h =>
        refine ⟨_, q, qs, rfl, first.element.lead_withLead "", ?_⟩
        dsimp only
        rwa [TypeTree.withLead_withLead, TypeTree.withLead_lead]
  · rintro ⟨p, q, qs, rfl, hlead, h⟩
    have hspells := SpellsCatchType.union h
    dsimp only at hspells
    rwa [TypeTree.lead_withLead, TypeTree.withLead_withLead,
      TypeTree.withLead_eq_self _ hlead] at hspells

-- ============================================================== renaming

namespace Renaming

variable {r : Renaming} {ω : Type} (hnew : IsQualifiedName r.new.fqn)
include hnew

theorem rewrites_classType_self (t : TypeTree) :
    SpellsClassType.Rewrites t.untyped (r.typeAfter ω t) := by
  have h := rewrites_spellsClassType (ω := ω) hnew t t.lead
  rwa [TypeTree.withLead_eq_self _ t.lead_untyped,
    TypeTree.withLead_eq_self _ (lead_typeAfter hnew t)] at h

/-- A renamed catch type can be written where the catch type was. -/
theorem rewrites_catchType (t : TypeTree) :
    SpellsCatchType.Rewrites t.untyped (r.typeAfter ω t) := by
  intro us hus
  cases t with
  | union lead ps =>
      rw [TypeTree.untyped_union, spellsCatchType_union] at hus
      rw [typeAfter_union]
      obtain ⟨p, q, qs, hps, hlead, hpadded⟩ := hus
      obtain ⟨p, ps, rfl, rfl, hqs⟩ := List.map_eq_cons_iff.1 hps
      obtain ⟨q, ps, rfl, rfl, rfl⟩ := List.map_eq_cons_iff.1 hqs
      have hrest : List.Forall₂ (RewritesPadded SpellsClassType)
          ((q :: ps).map (.map TypeTree.untyped))
            ((q :: ps).map (.map (r.typeAfter ω))) :=
        forall₂_map fun p _ => rewrites_classType_self hnew p.element
      have hfirst : RewritesPadded SpellsClassType
          ⟨p.element.untyped.withLead lead, p.after⟩
          ⟨(r.typeAfter ω p.element).withLead lead, p.after⟩ :=
        ⟨rfl, rewrites_spellsClassType hnew p.element lead⟩
      obtain ⟨us', hus', href⟩ := Rewrites.padded (.cons hfirst hrest) _ hpadded
      refine ⟨us', spellsCatchType_union.2 ⟨_, _, _, rfl, ?_, hus'⟩, href⟩
      exact (lead_typeAfter hnew p.element).trans
        (p.element.lead_untyped.symm.trans hlead)
  | _ =>
      cases hus with
      | single h =>
          obtain ⟨us', hus', href⟩ := rewrites_classType_self hnew _ _ h
          exact ⟨us', .single hus', href⟩

omit hnew in
/-- A renamed word that is still one can be written. -/
theorem isWhole_renamed {s s' : String}
    (h : Renames (.simple ⟨"", s⟩ none) (.simple ⟨"", s'⟩ none))
    (hwhole : (Word.name s).IsWhole) :
    (Word.name s').IsWhole := by
  obtain ⟨us', hus', href⟩ := h.rewrites _ (.simple ⟨"", s⟩)
  have hsep := href.separated (separated_singleton ⟨.nil, hwhole⟩)
  generalize hn : Name.simple ⟨"", s'⟩ none = n at hus'
  cases hus' with
  | simple i =>
      obtain rfl := (Name.simple.inj hn).1
      exact (hsep.whole _ List.mem_cons_self).word
  | dot => cases hn

omit hnew in
/-- The renaming of a variable does no more to it than the renaming of its
name. -/
theorem name_declarator (v : Variable) :
    (r.declarator v : Edited ω Variable).value.name = v.name ∧
      (r.declarator v : Edited ω Variable).value.lead = v.lead ∧
      (r.declarator v : Edited ω Variable).value.untyped = v.untyped := by
  unfold declarator
  split <;> exact ⟨rfl, rfl, rfl⟩

/-- A renamed declaration can be written where the declaration was, if it stays
legible. -/
theorem rewrites_parameter {d : Variables}
    (h : (d.edit (r.editor : Editor ω)).value.IsLegible) :
    (ParameterWith SpellsCatchType).Rewrites d.untyped
      (d.edit (r.editor : Editor ω)).value.untyped := by
  intro us hus
  obtain ⟨i, type, type', hd⟩ := exists_variable hus
  obtain ⟨lead, ms, t, ds⟩ := d
  dsimp only at hd
  subst hd
  have hvalue : (Variables.edit (r.editor : Editor ω)
      ⟨lead, ms, t,
        [⟨⟨i.lead, .simple ⟨"", i.name⟩ type, none, type'⟩, ""⟩]⟩).value =
        ⟨lead, (Modifier.editAll (r.editor : Editor ω) ms).value,
          (t.edit (r.editor : Editor ω)).value,
          [⟨(r.declarator ⟨i.lead,
            (r.name (.simple ⟨"", i.name⟩ type) : Edited ω Name).value, none,
            type'⟩ : Edited ω Variable).value, ""⟩]⟩ := rfl
  rw [hvalue] at h ⊢
  obtain ⟨hname, hvlead, huntyped⟩ := name_declarator (r := r) (ω := ω)
    ⟨i.lead, (r.name (.simple ⟨"", i.name⟩ type) : Edited ω Name).value,
      none, type'⟩
  have hrenames := renames_name (ω := ω) hnew (.simple ⟨"", i.name⟩ type)
  have hsimple := h.simple _ List.mem_cons_self
  have hapart := h.apart _ List.mem_cons_self
  dsimp only at hname hvlead hsimple hapart
  rw [hname] at hsimple
  rw [hvlead] at hapart
  cases hn : (r.name (.simple ⟨"", i.name⟩ type) : Edited ω Name).value with
  | qualified => rw [hn] at hsimple; cases hsimple
  | simple j jtype =>
      rw [hn] at hrenames huntyped
      have hj : j.lead = "" := hrenames.lead_eq
      rw [Variables.untyped_eq] at hus
      rw [Variables.untyped_eq, List.map_singleton, RightPadded.map, huntyped,
        Variable.untyped_eq, Modifier.editAll_value, List.map_map]
      have hshape : (Name.simple j jtype).untyped =
          .simple ⟨"", j.name⟩ none := by
        rw [← hj]
        rfl
      rw [hshape] at hrenames ⊢
      refine Rewrites.parameter (i := i) ?_
        (.of_rewrites (rewrites_catchType hnew t))
        ((lead_typeAfter hnew t).trans t.lead_untyped.symm)
        (isWhole_renamed hrenames) (fun hlead => ?_) us hus
      · rw [List.forall₂_map_left_iff, List.forall₂_map_right_iff]
        exact List.forall₂_same.2 fun m _ => rewrites_modifier hnew m
      · rw [typeAfter, TypeTree.endsInName_untyped]
        exact hapart hlead

end Renaming

namespace CatchRule

variable (r : CatchRule) (qualified : Bool)

-- =============================================================== dropping

theorem untyped_withFirstLead (lead : Trivia)
    (ps : List (RightPadded TypeTree)) :
    (withFirstLead lead ps).map (.map TypeTree.untyped) =
      withFirstLead lead (ps.map (.map TypeTree.untyped)) := by
  cases ps with
  | nil => rfl
  | cons p ps =>
      refine congrArg (· :: ps.map _) ?_
      rw [RightPadded.map, TypeTree.untyped_withLead]
      rfl

theorem closeLast_withFirstLead (after lead : Trivia)
    (ps : List (RightPadded TypeTree)) :
    RightPadded.closeLast after (withFirstLead lead ps) =
      withFirstLead lead (RightPadded.closeLast after ps) := by
  cases ps with
  | nil => rfl
  | cons p ps => cases ps <;> rfl

/-- What is left of alternatives once the legacy type is dropped. -/
theorem untyped_dropLegacy {us : List Token} {ps : List (RightPadded TypeTree)}
    (h : Padded SpellsClassType "|" us (ps.map (.map TypeTree.untyped)))
    (hlead : ∀ p ∈ ps.head?, p.element.lead = "") :
    (r.dropLegacy ps).map (.map TypeTree.untyped) =
      withFirstLead "" (RightPadded.closeLast ""
        ((ps.filter fun p => !r.isLegacy p).map (.map TypeTree.untyped))) := by
  have hfirst : (ps.head?.map fun p => p.element.lead).getD "" = "" := by
    cases hp : ps.head? with
    | none => rfl
    | some p => exact hlead p hp
  have hlast : (ps.getLast?.map RightPadded.after).getD "" = "" := by
    cases hp : ps.getLast? with
    | none => rfl
    | some p =>
        have hafter := after_getLast?_padded h (p.map TypeTree.untyped)
        rw [List.getLast?_map, hp] at hafter
        exact hafter rfl
  rw [dropLegacy, hfirst, hlast, RightPadded.map_closeLast,
    untyped_withFirstLead, closeLast_withFirstLead]

/-- Where an alternative is left, those without the legacy type can be
written. -/
theorem respells_dropFrom {d : Variables} {lead : Trivia}
    {ps : List (RightPadded TypeTree)}
    (hkept : ps.filter (fun p => !r.isLegacy p) ≠ []) :
    Respells (TypeTree.union lead ps).untyped
      (r.dropFrom d lead ps).typeTree.untyped := by
  intro us hus
  rw [TypeTree.untyped_union, spellsCatchType_union] at hus
  obtain ⟨p, q, qs, hps, hlead, hpadded⟩ := hus
  obtain ⟨s, ts, rfl, hwith⟩ := alternatives_withLead hpadded
  have hbare := hwith ""
  dsimp only at hbare
  rw [TypeTree.withLead_withLead, TypeTree.withLead_eq_self _ hlead] at hbare
  change Padded _ _ _ (p :: q :: qs) at hbare
  rw [← hps] at hbare
  have hfirst : ∀ p ∈ ps.head?, p.element.lead = "" := by
    intro p' hp'
    obtain ⟨ps', rfl⟩ := List.head?_eq_some_iff.1 hp'
    rw [List.map_cons] at hps
    rw [← p'.element.lead_untyped, ← hlead, ← (List.cons.inj hps).1]
    rfl
  obtain ⟨us₀, hus₀, hsep⟩ := exists_sublist hbare
    (List.Sublist.map (RightPadded.map TypeTree.untyped)
      (List.filter_sublist (p := fun p => !r.isLegacy p) (l := ps)))
    (by rwa [Ne, List.map_eq_nil_iff])
  have hdrop := r.untyped_dropLegacy hbare hfirst
  generalize RightPadded.closeLast ""
    ((ps.filter fun p => !r.isLegacy p).map _) = kept
    at hus₀ hdrop
  cases kept with
  | nil => cases hus₀
  | cons x xs =>
  obtain ⟨x, after⟩ := x
  obtain ⟨s', ts', rfl, hwith'⟩ := alternatives_withLead hus₀
  have hlong := hwith' lead
  refine ⟨⟨lead, .name s'⟩ :: ts', ?_, fun h => ?_⟩
  · rw [withFirstLead] at hdrop
    rw [dropFrom]
    split
    · next only honly =>
      rw [honly, List.map_singleton, List.cons.injEq] at hdrop
      obtain ⟨honly, rfl⟩ := hdrop
      have helement : only.element.untyped = x.withLead "" :=
        congrArg RightPadded.element honly
      rw [TypeTree.untyped_withLead, helement, TypeTree.withLead_withLead]
      exact .single (spells_of_padded_singleton hlong)
    · next hmany =>
      rw [TypeTree.untyped_union, hdrop, spellsCatchType_union]
      cases xs with
      | nil =>
          cases hone : r.dropLegacy ps with
          | nil => rw [hone] at hdrop; cases hdrop
          | cons a as =>
              rw [hone, List.map_cons, List.cons.injEq,
                List.map_eq_nil_iff] at hdrop
              exact absurd (hone.trans (congrArg (a :: ·) hdrop.2)) (hmany a)
      | cons y ys =>
          refine ⟨_, y, ys, rfl, x.lead_withLead "", ?_⟩
          dsimp only
          rwa [TypeTree.withLead_withLead]
  · have hclean := (h.whole _ List.mem_cons_self).lead
    rw [TypeTree.lead_withLead] at hclean
    exact (hsep (h.withLead .nil)).withLead hclean

-- ============================================================= insertion

variable {r} (hnew : IsQualifiedName r.replacement.fqn)
include hnew

/-- Where the legacy type can be written, so can the replacement, with any
trivia in front. -/
theorem exists_replacement {us : List Token} {t : TypeTree} {lead' : Trivia}
    (h : SpellsClassType us (t.untyped.withLead lead')) (lead : Trivia) :
    ∃ vs, SpellsClassType vs
      ((r.replacementFor qualified t).untyped.withLead lead) ∧
      (Clean .between lead.toList → Separated us → Separated vs) := by
  obtain ⟨s, ts, rfl, hwith⟩ := classType_withLead h
  have hlead := hwith lead
  rw [TypeTree.withLead_withLead] at hlead
  obtain ⟨vs, hvs, href⟩ :=
    Renaming.rewrites_spellsClassType (r := r.rename qualified)
      (ω := Empty) hnew t lead _ hlead
  exact ⟨vs, hvs, fun hclean hus => href.separated (hus.withLead hclean)⟩

/-- The replacement in front of the first legacy alternative, if that is not
the first of all. -/
theorem exists_insertLater {us : List Token} {ps : List (RightPadded TypeTree)}
    (h : Padded SpellsClassType "|" us (ps.map (.map TypeTree.untyped))) :
    ∃ us', Padded SpellsClassType "|" us'
        ((r.insertBeforeLegacy qualified false ps).map
          (.map TypeTree.untyped)) ∧
      (Separated us → Separated us') := by
  induction ps generalizing us with
  | nil => cases h
  | cons p ps ih =>
      rw [insertBeforeLegacy]
      split
      · cases ps with
        | nil => exact ⟨us, h, id⟩
        | cons q qs =>
            obtain ⟨vs, ws, rfl, hvs, hws⟩ := exists_of_padded_cons_cons h
            obtain ⟨ws', hws', hsep⟩ := ih hws
            cases hqs : (r.insertBeforeLegacy qualified false (q :: qs)).map
                (RightPadded.map TypeTree.untyped) with
            | nil => rw [hqs] at hws'; cases hws'
            | cons x xs =>
                rw [hqs] at hws'
                rw [List.map_cons, hqs]
                exact ⟨_, .cons hvs hws', fun hus =>
                  separated_bar hus (hsep (separated_append.1 hus).2.1.tail)
                    (opens_alternatives hws')⟩
      · obtain ⟨vs, hvs, hsep⟩ := exists_first h
        rw [← TypeTree.withLead_lead (RightPadded.element _)] at hvs
        obtain ⟨ws, hws, hsep'⟩ := exists_replacement qualified hnew hvs " "
        rw [if_neg Bool.false_ne_true]
        refine ⟨ws ++ ⟨" ", .symbol "|"⟩ :: us, ?_, fun hus =>
          separated_insert hws h (hsep' clean_blank (hsep hus)) hus⟩
        rw [List.map_cons, RightPadded.map, TypeTree.untyped_withLead]
        exact .cons hws h

/-- The replacement in front of a first alternative. -/
theorem exists_insertFirst {us : List Token} {lead after : Trivia}
    {t : TypeTree} {ps : List (RightPadded TypeTree)}
    (h : Padded SpellsClassType "|" us
      (⟨t.untyped.withLead lead, after⟩ :: ps)) :
    ∃ us', Padded SpellsClassType "|" us'
        (⟨(r.replacementFor qualified t).untyped.withLead lead, " "⟩ ::
          ⟨t.untyped.withLead " ", after⟩ :: ps) ∧
      (Separated us → Separated us') := by
  obtain ⟨vs, hvs, hsep⟩ := exists_first h
  obtain ⟨ws, hws, hsep'⟩ := exists_replacement qualified hnew hvs lead
  obtain ⟨s, ts, rfl, hwith⟩ := alternatives_withLead h
  have hold := hwith " "
  dsimp only at hold
  rw [TypeTree.withLead_withLead] at hold
  refine ⟨_, .cons hws hold, fun hus => ?_⟩
  have hclean := (hus.whole _ List.mem_cons_self).lead
  rw [TypeTree.lead_withLead] at hclean
  exact separated_insert hws hold (hsep' hclean (hsep hus))
    (hus.withLead clean_blank)

/-- Catch types with the replacement in front of the legacy type can be
written. -/
theorem respells_augmentIn (d : Variables) :
    Respells d.typeTree.untyped (r.augmentIn qualified d).typeTree.untyped := by
  intro us hus
  unfold augmentIn
  split
  · next lead ps htree =>
    rw [htree, TypeTree.untyped_union, spellsCatchType_union] at hus
    obtain ⟨_, _, _, hps, hlead, hpadded⟩ := hus
    obtain ⟨p, ps, rfl, rfl, hqs⟩ := List.map_eq_cons_iff.1 hps
    obtain ⟨q, qs, rfl, rfl, rfl⟩ := List.map_eq_cons_iff.1 hqs
    have hlead : p.element.lead = "" := p.element.lead_untyped.symm.trans hlead
    rw [TypeTree.untyped_union, insertBeforeLegacy]
    split
    · obtain ⟨vs, ws, rfl, hvs, hws⟩ := exists_of_padded_cons_cons hpadded
      have hws : Padded SpellsClassType "|" ws
          ((q :: qs).map (.map TypeTree.untyped)) := hws
      obtain ⟨ws', hws', hsep⟩ := exists_insertLater qualified hnew hws
      cases hrest : (r.insertBeforeLegacy qualified false (q :: qs)).map
          (RightPadded.map TypeTree.untyped) with
      | nil => rw [hrest] at hws'; cases hws'
      | cons x xs =>
          rw [hrest] at hws'
          refine ⟨_, spellsCatchType_union.2 ⟨p.map TypeTree.untyped, x, xs, ?_,
            ?_, .cons hvs hws'⟩,
            fun hus =>
              separated_bar hus (hsep (separated_append.1 hus).2.1.tail)
              (opens_alternatives hws')⟩
          · rw [List.map_cons, hrest]
          · exact p.element.lead_untyped.trans hlead
    · obtain ⟨us', hus', hsep⟩ := exists_insertFirst qualified hnew hpadded
      rw [if_pos rfl, hlead]
      refine ⟨us', spellsCatchType_union.2 ⟨_, _, _, rfl, ?_, ?_⟩, hsep⟩
      · rw [RightPadded.map, TypeTree.untyped_withLead, TypeTree.lead_withLead]
      · rw [RightPadded.map, RightPadded.map, TypeTree.untyped_withLead,
          TypeTree.untyped_withLead]
        dsimp only
        rwa [TypeTree.withLead_withLead]
  · next hu =>
    have hclass : SpellsClassType us d.typeTree.untyped := by
      generalize ht : d.typeTree.untyped = t at hus
      cases hus with
      | single h => exact h
      | union h =>
          cases htree : d.typeTree with
          | union lead ps => exact absurd htree (hu lead ps)
          | generic lead base args type =>
              rw [htree, TypeTree.untyped_generic] at ht; cases ht
          | _ => rw [htree] at ht; cases ht
    have hlead : (d.typeTree.untyped.withLead d.typeTree.lead) =
        d.typeTree.untyped :=
      TypeTree.withLead_eq_self _ d.typeTree.lead_untyped
    rw [← hlead] at hclass
    obtain ⟨us', hus', hsep⟩ := exists_insertFirst qualified hnew (.last hclass)
    rw [TypeTree.untyped_union]
    refine ⟨us', spellsCatchType_union.2 ⟨_, _, _, rfl, ?_, ?_⟩, hsep⟩
    · rw [RightPadded.map, TypeTree.untyped_withLead, TypeTree.lead_withLead]
    · rw [RightPadded.map, RightPadded.map, TypeTree.untyped_withLead,
        TypeTree.untyped_withLead]
      dsimp only
      rwa [TypeTree.withLead_withLead]

-- ============================================================ declarations

omit hnew in
/-- A declaration with another type can be written where the declaration was. -/
theorem rewrites_retyped {d d' : Variables} (hlead : d'.lead = d.lead)
    (hms : d'.modifiers = d.modifiers)
    (hds : d'.declarators.map (RightPadded.map Variable.untyped) =
      d.declarators.map (RightPadded.map Variable.untyped))
    (ht : Respells d.typeTree.untyped d'.typeTree.untyped)
    (htlead : d'.typeTree.lead = d.typeTree.lead) (h : d'.IsLegible) :
    (ParameterWith SpellsCatchType).Rewrites d.untyped d'.untyped := by
  intro us hus
  obtain ⟨i, type, type', hd⟩ := exists_variable hus
  have hvariable : d.declarators.map (RightPadded.map Variable.untyped) =
      [⟨⟨i.lead, .simple ⟨"", i.name⟩ none, none, none⟩, ""⟩] := by
    rw [hd, List.map_singleton, RightPadded.map, Variable.untyped_eq]
    rfl
  rw [Variables.untyped_eq, hvariable] at hus
  rw [Variables.untyped_eq, hlead, hms, hds, hvariable]
  refine Rewrites.parameter (i := i) (List.forall₂_same.2 fun _ _ =>
    .refl _ _) ht ?_ id
    (fun hapart => ?_) us hus
  · rw [TypeTree.lead_untyped, TypeTree.lead_untyped, htlead]
  · rw [TypeTree.endsInName_untyped]
    obtain ⟨p, hp, hpi⟩ := List.map_eq_singleton_iff.1 (hds.trans hvariable)
    refine h.apart p (by rw [hp]; exact List.mem_cons_self) ?_
    rw [← hapart]
    exact congrArg (fun q : RightPadded Variable => q.element.lead) hpi

omit hnew in
/-- What is left without the legacy type is the declaration with another
type. -/
theorem untyped_declarators_dropFrom (d : Variables) (lead : Trivia)
    (ps : List (RightPadded TypeTree)) :
    (r.dropFrom d lead ps).declarators.map (RightPadded.map Variable.untyped) =
      d.declarators.map (RightPadded.map Variable.untyped) := by
  unfold dropFrom
  split
  · rw [List.map_map]
    refine List.map_congr_left fun p _ => ?_
    rw [Function.comp_apply, RightPadded.map, RightPadded.map,
      Variable.untyped_eq, Variable.untyped_eq]
  · rfl

omit hnew in
/-- Dropping the legacy type where the replacement is among the alternatives. -/
theorem rewrites_dropFrom (hne : r.legacy ≠ r.replacement.fqn) {d : Variables}
    {lead : Trivia} {ps : List (RightPadded TypeTree)}
    (htree : d.typeTree = .union lead ps)
    (hmem : ps.any fun p => isClassNamed r.replacement.fqn p.element.type)
    (h : (r.dropFrom d lead ps).IsLegible) :
    (ParameterWith SpellsCatchType).Rewrites d.untyped
      (r.dropFrom d lead ps).untyped := by
  obtain ⟨p, hp, hnamed⟩ := List.any_eq_true.1 hmem
  have hkept : ps.filter (fun p => !r.isLegacy p) ≠ [] :=
    List.ne_nil_of_mem (List.mem_filter.2 ⟨hp,
      by rw [isLegacy, r.not_isLegacy hne hnamed]; rfl⟩)
  refine rewrites_retyped ?_ ?_ (untyped_declarators_dropFrom d lead ps)
    (htree ▸ respells_dropFrom r hkept) ?_ h
  · unfold dropFrom
    split <;> rfl
  · unfold dropFrom
    split <;> rfl
  · rw [htree]
    unfold dropFrom
    split
    · exact TypeTree.lead_withLead _ _
    · rfl

theorem rewrites_substituteIn (hne : r.legacy ≠ r.replacement.fqn)
    {d : Variables}
    (h : (r.substituteIn qualified d :
      Edited RuleNote Variables).value.IsLegible) :
    (ParameterWith SpellsCatchType).Rewrites d.untyped
      (r.substituteIn qualified d :
        Edited RuleNote Variables).value.untyped := by
  unfold substituteIn at h ⊢
  split
  · next lead ps htree =>
    split
    · next hmem =>
      simp only [htree, if_pos hmem] at h
      exact rewrites_dropFrom hne htree hmem h
    · next hmem =>
      simp only [htree, if_neg hmem] at h
      exact Renaming.rewrites_parameter (r := r.rename qualified) hnew h
  · next hsingle =>
    split at h
    · next lead ps htree => exact absurd htree (hsingle lead ps)
    · exact Renaming.rewrites_parameter (r := r.rename qualified) hnew h

theorem rewrites_augmentIn {d : Variables}
    (h : (r.augmentIn qualified d).IsLegible) :
    (ParameterWith SpellsCatchType).Rewrites d.untyped
      (r.augmentIn qualified d).untyped := by
  have hrespells := respells_augmentIn qualified hnew d
  revert h hrespells
  unfold augmentIn
  split
  · next lead ps htree =>
    intro h hrespells
    exact rewrites_retyped rfl rfl rfl hrespells (by rw [htree]; rfl) h
  · intro h hrespells
    exact rewrites_retyped rfl rfl rfl hrespells rfl h

/-- What a clause comes to declare can be written where what it declared was,
if it is legible. -/
theorem rewrites_newDeclaration (hne : r.legacy ≠ r.replacement.fqn)
    (plan : Retargeting) {d : Variables}
    (h : (r.newDeclaration qualified plan d).IsLegible) :
    (ParameterWith SpellsCatchType).Rewrites d.untyped
      (r.newDeclaration qualified plan d).untyped := by
  unfold newDeclaration at h ⊢
  split
  · next hlegacy =>
    rw [if_pos hlegacy] at h
    cases plan with
    | unchanged => exact .refl _ _
    | augmentation => exact rewrites_augmentIn qualified hnew h
    | substitution => exact rewrites_substituteIn qualified hnew hne h
  · exact .refl _ _

end CatchRule

end JavaRefit
