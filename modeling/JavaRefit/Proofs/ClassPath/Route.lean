/-
In which order the routes upwards lead to the classes above a class.

A route from a class says at each class on it which of the names right
above is taken next, the superclass being counted first and then the
interfaces in turn (`along`). Read as words, the routes have an order, and
it is that of a depth-first search: a class comes before all that its
routes go on to, and all above one of the names before all above the next.

The classes above a class are met in a walk that passes over what it met
before. Nothing is missed by that, as long as there are no circles: what
stands above a class met before was met as well, or still is on the way to
where the walk is now (`IsOpen`). So among the classes that the walk meets
the first of some kind is the one that the first route to any of that kind
leads to (`isFirst_ancestors`). The induction is over the class type, and
over what stands right above it from left to right (`isFirst_collectEach`).

Chain: after `Hierarchy`; read by `Lookup`.
-/
import JavaRefit.Proofs.ClassPath.Hierarchy

namespace JavaRefit

open ClassType (collect collectEach)

-- ================================================================== routes

namespace ClassPath

/-- The names right above a class: its superclass, then its interfaces in
turn. -/
def above (cp : ClassPath) (fqn : String) : List String :=
  (cp.info? fqn).elim [] ClassInfo.supers

/-- The class that a route leads to, each number on it being that of the
name taken next. -/
def along (cp : ClassPath) : String → List Nat → Option String
  | fqn, [] => some fqn
  | fqn, i :: route => (cp.above fqn)[i]?.bind fun super => cp.along super route

/-- The class that a route from one of some names leads to. -/
def alongEach (cp : ClassPath) (supers : List String) : List Nat → Option String
  | [] => none
  | i :: route => supers[i]?.bind fun super => cp.along super route

variable {cp : ClassPath} {fqn : String}

/-- What stands right above a class is what it declares to extend. -/
theorem mem_above_iff {super : String} :
    super ∈ cp.above fqn ↔ cp.Extends fqn super := by
  unfold above Extends
  cases cp.info? fqn with
  | none => simp
  | some info => simp

/-- The declared supers of a class are the ends of its routes. -/
theorem reaches_iff_exists_along {g : String} :
    cp.Reaches fqn g ↔ ∃ route, cp.along fqn route = some g := by
  constructor
  · intro h
    induction h using Relation.ReflTransGen.head_induction_on with
    | refl => exact ⟨[], rfl⟩
    | head hup _ ih =>
        obtain ⟨route, hroute⟩ := ih
        obtain ⟨i, hi⟩ := List.getElem?_of_mem (mem_above_iff.2 hup)
        refine ⟨i :: route, ?_⟩
        rw [along, hi]
        exact hroute
  · rintro ⟨route, hroute⟩
    induction route generalizing fqn with
    | nil =>
        obtain rfl := Option.some.inj hroute
        exact .refl
    | cons i route ih =>
        obtain ⟨super, hsuper, hrest⟩ := Option.bind_eq_some_iff.1 hroute
        have hup := mem_above_iff.1 (List.mem_of_getElem? hsuper)
        exact .head hup (ih hrest)

-- ---------------------------------------------------- the first on the way

/-- Of the classes of some kind that the routes lead to, it is the one that
the first of these routes leads to; there is none if none is of the kind. -/
def IsFirst (ways : List Nat → Option String) (kind : String → Bool) :
    Option String → Prop
  | none => ∀ route g, ways route = some g → kind g = false
  | some a => kind a = true ∧ ∃ route, ways route = some a ∧
      ∀ route' g, ways route' = some g → kind g = true →
        route = route' ∨ route < route'

namespace IsFirst

variable {kind : String → Bool} {found : Option String}

/-- The class itself comes first. -/
theorem self (h : kind fqn = true) :
    IsFirst (cp.along fqn) kind (some fqn) := by
  refine ⟨h, [], rfl, fun route' g _ _ => ?_⟩
  cases route' with
  | nil => exact Or.inl rfl
  | cons i route' => exact Or.inr .nil

/-- Then come the classes above it. -/
theorem up (h : kind fqn = false)
    (hup : IsFirst (cp.alongEach (cp.above fqn)) kind found) :
    IsFirst (cp.along fqn) kind found := by
  cases found with
  | none =>
      intro route g hroute
      cases route with
      | nil => exact Option.some.inj hroute ▸ h
      | cons i route => exact hup (i :: route) g hroute
  | some a =>
      obtain ⟨hkind, route, hroute, hfirst⟩ := hup
      cases route with
      | nil => cases hroute
      | cons i route =>
          refine ⟨hkind, i :: route, hroute, fun route' g hroute' hg => ?_⟩
          cases route' with
          | nil =>
              rw [← Option.some.inj hroute', h] at hg
              cases hg
          | cons j route' => exact hfirst (j :: route') g hroute' hg

theorem nil : IsFirst (cp.alongEach []) kind none := by
  intro route g hroute
  cases route with
  | nil => cases hroute
  | cons i route => cases hroute

/-- What is found above the first of some names comes first. -/
theorem here {a : String} {supers : List String}
    (h : IsFirst (cp.along fqn) kind (some a)) :
    IsFirst (cp.alongEach (fqn :: supers)) kind (some a) := by
  obtain ⟨hkind, route, hroute, hfirst⟩ := h
  refine ⟨hkind, 0 :: route, hroute, fun route' g hroute' hg => ?_⟩
  cases route' with
  | nil => cases hroute'
  | cons j route' => cases j with
    | succ j => exact Or.inr (.rel (Nat.succ_pos j))
    | zero =>
        rcases hfirst route' g hroute' hg with rfl | hlt
        · exact Or.inl rfl
        · exact Or.inr (.cons hlt)

/-- Where nothing is found above the first of some names, it is what comes
first above the others. -/
theorem later {supers : List String}
    (hnone : IsFirst (cp.along fqn) kind none)
    (h : IsFirst (cp.alongEach supers) kind found) :
    IsFirst (cp.alongEach (fqn :: supers)) kind found := by
  cases found with
  | none =>
      intro route g hroute
      cases route with
      | nil => cases hroute
      | cons i route => cases i with
        | zero => exact hnone route g hroute
        | succ i => exact h (i :: route) g hroute
  | some a =>
      obtain ⟨hkind, route, hroute, hfirst⟩ := h
      cases route with
      | nil => cases hroute
      | cons i route =>
          refine ⟨hkind, (i + 1) :: route, hroute,
            fun route' g hroute' hg => ?_⟩
          cases route' with
          | nil => cases hroute'
          | cons j route' => cases j with
            | zero =>
                rw [hnone route' g hroute'] at hg
                cases hg
            | succ j =>
                rcases hfirst (j :: route') g hroute' hg with heq | hlt
                · obtain ⟨rfl, rfl⟩ := List.cons.inj heq
                  exact Or.inl rfl
                · rcases List.cons_lt_cons_iff.1 hlt with hij | ⟨rfl, hrest⟩
                  · exact Or.inr (.rel (Nat.succ_lt_succ hij))
                  · exact Or.inr (.cons hrest)

end IsFirst

-- ================================================================ the walk

variable {c : ClassType} {met : List ClassType} {kind : String → Bool}

/-- Off the circles a type shows right above a class what is declared
there, in that order. -/
theorem names_parents (h : cp.Unfolds c) (hoff : ¬ cp.OnCircle c.fqn) :
    ClassType.names c.parents = cp.above c.fqn := by
  unfold above
  cases h with
  | cut hcut =>
      rcases hcut with hnone | hcircle
      · rw [ClassType.bare, ClassType.fqn, hnone]
        rfl
      · exact absurd hcircle hoff
  | full hinfo hs hi _ =>
      rw [ClassType.fqn, hinfo]
      exact Unfolds.names_parents hs hi

/-- The first name of a kind among the classes that were met. -/
def firstMet? (kind : String → Bool) (met : List ClassType) : Option String :=
  (ClassType.names met).find? kind

/-- None of the kind is met just when no class that is met is of it. -/
theorem firstMet?_eq_none_iff :
    firstMet? kind met = none ↔ ∀ b ∈ ClassType.names met, kind b = false := by
  simp [firstMet?]

/-- The first of a kind that was met stays the first. -/
theorem firstMet?_of_append {met' : List ClassType} {a : String}
    (h : firstMet? kind met = some a) (hmore : ∃ new, met' = met ++ new) :
    firstMet? kind met' = some a := by
  obtain ⟨new, rfl⟩ := hmore
  unfold firstMet? ClassType.names at h ⊢
  rw [List.map_append, List.find?_append, h, Option.some_or]

/-- Where none of the kind was met, the class met next is the first if it is
of the kind. -/
theorem firstMet?_concat (h : firstMet? kind met = none) :
    firstMet? kind (met ++ [c]) = if kind c.fqn then some c.fqn else none := by
  unfold firstMet? ClassType.names at h ⊢
  rw [List.map_append, List.find?_append, h, Option.none_or]
  cases hkind : kind c.fqn <;> simp [hkind]

/-- All that stands above the class was met. -/
def IsClosed (cp : ClassPath) (met : List ClassType) (fqn : String) : Prop :=
  ∀ g, cp.Reaches fqn g → g ∈ ClassType.names met

/-- A class that all above is met of stays so when more is met. -/
theorem IsClosed.mono {met' : List ClassType} (h : cp.IsClosed met fqn)
    (hsub : met ⊆ met') : cp.IsClosed met' fqn :=
  fun g hg => List.map_subset ClassType.fqn hsub (h g hg)

/-- What stands above a class that was met was met too, or the class is on
the way to where the walk goes next. -/
def IsOpen (cp : ClassPath) (met : List ClassType) (next : String) : Prop :=
  ∀ b ∈ ClassType.names met,
    cp.IsClosed met b ∨ Relation.TransGen cp.Extends b next

/-- Whatever was met before, what the walk from the class adds first of a
kind is what the routes from there lead to first. -/
def FindsFirst (cp : ClassPath) (c : ClassType) (met : List ClassType) : Prop :=
  ∀ kind, firstMet? kind met = none →
    IsFirst (cp.along c.fqn) kind (firstMet? kind (collect c met))

/-- Then the walk adds all that stands above the class, and nothing else. -/
theorem FindsFirst.mem_names_iff (h : cp.FindsFirst c met) {g : String} :
    g ∈ ClassType.names (collect c met) ↔
      g ∈ ClassType.names met ∨ cp.Reaches c.fqn g := by
  by_cases hold : g ∈ ClassType.names met
  · have hsub := ClassType.subset_collect met c
    exact ⟨fun _ => Or.inl hold,
      fun _ => List.map_subset ClassType.fqn hsub hold⟩
  · rw [or_iff_right hold, reaches_iff_exists_along]
    have hnone : firstMet? (· == g) met = none := by
      apply firstMet?_eq_none_iff.2
      intro b hb
      exact beq_eq_false_iff_ne.2 fun heq => hold (heq ▸ hb)
    have hg := h _ hnone
    cases hfound : firstMet? (· == g) (collect c met) with
    | none =>
        rw [hfound] at hg
        have hnot := firstMet?_eq_none_iff.1 hfound
        constructor
        · intro hmem
          exact absurd rfl (beq_eq_false_iff_ne.1 (hnot g hmem))
        · rintro ⟨route, hroute⟩
          exact absurd rfl (beq_eq_false_iff_ne.1 (hg route g hroute))
    | some a =>
        rw [hfound] at hg
        obtain ⟨ha, route, hroute, -⟩ := hg
        obtain rfl := beq_iff_eq.1 ha
        exact ⟨fun _ => ⟨route, hroute⟩,
          fun _ => List.mem_of_find?_eq_some hfound⟩

/-- The classes right above one are walked from in turn. -/
theorem isFirst_collectEach (parents : List ClassType)
    (hup : ∀ p ∈ parents, cp.Extends fqn p.fqn)
    (hfinds : ∀ p ∈ parents, ∀ met, cp.IsOpen met p.fqn → cp.FindsFirst p met)
    (hmet : ∀ b ∈ ClassType.names met, cp.IsClosed met b ∨ cp.Reaches b fqn)
    (hnone : firstMet? kind met = none) :
    IsFirst (cp.alongEach (ClassType.names parents)) kind
      (firstMet? kind (collectEach parents met)) := by
  induction parents generalizing met with
  | nil =>
      rw [collectEach, List.foldl_nil, hnone]
      exact .nil
  | cons p parents ih =>
      obtain ⟨hp, hparents⟩ := List.forall_mem_cons.1 hup
      obtain ⟨hpfinds, hrest⟩ := List.forall_mem_cons.1 hfinds
      have hopen : cp.IsOpen met p.fqn := fun b hb =>
        (hmet b hb).imp_right fun hreaches => .tail' hreaches hp
      have hfinds' : cp.FindsFirst p met := hpfinds met hopen
      have hnow := hfinds' kind hnone
      change IsFirst _ _ (firstMet? kind (collectEach parents (collect p met)))
      cases hfound : firstMet? kind (collect p met) with
      | some a =>
          rw [hfound] at hnow
          rw [firstMet?_of_append hfound
            (ClassType.exists_append_collectEach parents _)]
          exact hnow.here
      | none =>
          rw [hfound] at hnow
          apply hnow.later
          apply ih hparents hrest _ hfound
          -- What is new stands above `p`, so all above it is new as well.
          intro b hb
          rcases hfinds'.mem_names_iff.1 hb with hb | hb
          · exact (hmet b hb).imp_left fun hclosed =>
              hclosed.mono (ClassType.subset_collect met p)
          · exact Or.inl fun g hg =>
              hfinds'.mem_names_iff.2 (Or.inr (hb.trans hg))

variable (hcircles : cp.HasNoCircles)
include hcircles

/-- A walk upwards from a class finds the first of a kind above it, if what was
met before leaves the class open. -/
theorem findsFirst_collect (hc : cp.Unfolds c) (hopen : cp.IsOpen met c.fqn) :
    cp.FindsFirst c met := by
  induction c using ClassType.induction_on generalizing met with
  | step c ih =>
      intro kind hnone
      by_cases hold : c.fqn ∈ ClassType.names met
      · -- All above it was met, and is not of the kind.
        have hclosed := (hopen c.fqn hold).resolve_right (hcircles c.fqn)
        rw [ClassType.collect_of_mem hold, hnone]
        intro route g hroute
        have hg := hclosed g (reaches_iff_exists_along.2 ⟨route, hroute⟩)
        exact firstMet?_eq_none_iff.1 hnone g hg
      · rw [ClassType.collect_of_not_mem hold]
        have hself := firstMet?_concat (c := c) hnone
        cases hkind : kind c.fqn with
        | true =>
            rw [if_pos hkind] at hself
            rw [firstMet?_of_append hself
              (ClassType.exists_append_collectEach c.parents _)]
            exact .self hkind
        | false =>
            rw [if_neg (Bool.not_eq_true _ ▸ hkind)] at hself
            apply IsFirst.up hkind
            rw [← names_parents hc (hcircles c.fqn)]
            apply isFirst_collectEach c.parents hc.extends_of_mem_parents _ _
              hself
            · intro p hp met' hopen'
              exact ih p hp (hc.of_mem_parents p hp) hopen'
            · intro b hb
              unfold ClassType.names at hb
              rw [List.map_append] at hb
              rcases List.mem_append.1 hb with hb | hb
              · exact (hopen b hb).imp
                  (fun hclosed => hclosed.mono (List.subset_append_left _ _))
                  Relation.TransGen.to_reflTransGen
              · obtain rfl := List.mem_singleton.1 hb
                exact Or.inr .refl

/-- Of the classes above one, the first of a kind is the one that the first
route leads to. -/
theorem isFirst_ancestors (hc : cp.Unfolds c) (kind : String → Bool) :
    IsFirst (cp.along c.fqn) kind (firstMet? kind c.ancestors) := by
  apply findsFirst_collect hcircles hc _ kind rfl
  intro b hb
  cases hb

end ClassPath

end JavaRefit
