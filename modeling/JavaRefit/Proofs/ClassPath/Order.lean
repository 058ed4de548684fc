/-
In what order the classes above a class are met.

The classes above one are met in a walk that is told which were met
before; it only ever adds behind them. A class is the first it meets
itself, so it lies above itself, even where it is its own superclass.

The walk upwards meets one class after another. Each class that it adds
has a name not met before, and is the first class or stands right above
one met before (`MetFrom`). When the walk is over, everything that stands
right above a class it added has been met by name (`Settles`). The first
fact keeps what is met in bounds and in order, the second makes it
complete.

Chain: read by the proofs about the catch rule, and by `Hierarchy`, where
the classes are those of a class path.
-/
import JavaRefit.JavaType
import Mathlib.Logic.Relation

namespace JavaRefit.ClassType

-- ====================================================== what was met stays

mutual
/-- What was met stays met. -/
theorem subset_collect (met : List ClassType) : ∀ c, met ⊆ collect c met
  | mk fqn supertype interfaces kind => by
      rw [collect]
      split
      · exact List.Subset.refl met
      · intro a ha
        have hs : a ∈ collectSuper supertype
            (met ++ [mk fqn supertype interfaces kind]) :=
          subset_collectSuper _ supertype (List.mem_append_left _ ha)
        exact subset_collectAll _ interfaces hs

/-- What was met stays met above a superclass. -/
theorem subset_collectSuper (met : List ClassType) :
    ∀ o, met ⊆ collectSuper o met
  | none => List.Subset.refl met
  | some c => subset_collect met c

/-- So it does above some classes in turn. -/
theorem subset_collectAll (met : List ClassType) : ∀ cs, met ⊆ collectAll cs met
  | [] => List.Subset.refl met
  | c :: cs => fun _ ha => subset_collectAll _ cs (subset_collect met c ha)
end

/-- A class is one of its own ancestors. -/
theorem mem_ancestors_self (c : ClassType) : c ∈ c.ancestors := by
  obtain ⟨fqn, supertype, interfaces, kind⟩ := c
  have hs : mk fqn supertype interfaces kind ∈
      collectSuper supertype [mk fqn supertype interfaces kind] :=
    subset_collectSuper _ supertype List.mem_cons_self
  exact subset_collectAll _ interfaces hs

/-- A class lies above itself. -/
theorem isSubtypeOf_self (c : ClassType) : c.isSubtypeOf c.fqn = true :=
  List.any_eq_true.2 ⟨c, c.mem_ancestors_self, beq_self_eq_true c.fqn⟩

/-- The types right above the class: its superclass, then its interfaces. -/
def parents (c : ClassType) : List ClassType :=
  c.supertype.toList ++ c.interfaces

/-- The names of some classes. -/
def names (cs : List ClassType) : List String :=
  cs.map fqn

/-- Induction over class types, from what stands right above each. -/
@[elab_as_elim]
theorem induction_on {motive : ClassType → Prop}
    (step : ∀ c, (∀ p ∈ c.parents, motive p) → motive c) : ∀ c, motive c :=
  @ClassType.rec motive (fun o => ∀ p ∈ o, motive p)
    (fun cs => ∀ p ∈ cs, motive p)
    (fun _ _ _ _ hs hi => step _ (List.forall_mem_append.2
      ⟨fun p hp => hs p (Option.mem_toList.1 hp), hi⟩))
    (fun _ h => nomatch h) (fun _ ih _ h => Option.mem_some.1 h ▸ ih)
    (List.forall_mem_nil _) (fun _ _ h hs => List.forall_mem_cons.2 ⟨h, hs⟩)

-- ================================================================ the walk

/-- The walk from some classes one after the other. -/
def collectEach (cs : List ClassType) (met : List ClassType) : List ClassType :=
  cs.foldl (fun met c => collect c met) met

/-- The walk takes the classes of a list one after the other. -/
theorem collectAll_eq (cs met : List ClassType) :
    collectAll cs met = collectEach cs met := by
  induction cs generalizing met with
  | nil => rw [collectAll, collectEach, List.foldl_nil]
  | cons c cs ih =>
      rw [collectAll, ih]
      rfl

/-- A name that was met is passed over. -/
theorem collect_of_mem {c : ClassType} {met : List ClassType}
    (h : c.fqn ∈ names met) : collect c met = met := by
  obtain ⟨fqn, supertype, interfaces, kind⟩ := c
  obtain ⟨b, hb, hname⟩ := List.mem_map.1 h
  have hany : (met.any fun b => b.fqn == fqn) = true :=
    List.any_eq_true.2 ⟨b, hb, beq_iff_eq.2 hname⟩
  rw [collect, if_pos hany]

/-- A class of a new name is added, and then what stands right above it. -/
theorem collect_of_not_mem {c : ClassType} {met : List ClassType}
    (h : c.fqn ∉ names met) :
    collect c met = collectEach c.parents (met ++ [c]) := by
  obtain ⟨fqn, supertype, interfaces, kind⟩ := c
  have hnew : ¬ (met.any fun b => b.fqn == fqn) = true := by
    intro hany
    obtain ⟨b, hb, hname⟩ := List.any_eq_true.1 hany
    exact h (List.mem_map.2 ⟨b, hb, beq_iff_eq.1 hname⟩)
  rw [collect, if_neg hnew, collectAll_eq]
  cases supertype <;> rfl

/-- A walk only ever adds behind what was met. -/
theorem exists_append_collect (c : ClassType) (met : List ClassType) :
    ∃ new, collect c met = met ++ new := by
  induction c using induction_on generalizing met with
  | step c ih =>
      by_cases hold : c.fqn ∈ names met
      · rw [collect_of_mem hold]
        exact ⟨[], (List.append_nil met).symm⟩
      · rw [collect_of_not_mem hold]
        have hall (ps : List ClassType) (hps : ps ⊆ c.parents)
            (l : List ClassType) : ∃ new, collectEach ps l = l ++ new := by
          induction ps generalizing l with
          | nil => exact ⟨[], (List.append_nil l).symm⟩
          | cons p ps ihps =>
              obtain ⟨hp, hps⟩ := List.cons_subset.1 hps
              obtain ⟨first, hfirst⟩ := ih p hp l
              obtain ⟨rest, hrest⟩ := ihps hps (collect p l)
              refine ⟨first ++ rest, ?_⟩
              rw [← List.append_assoc, ← hfirst]
              exact hrest
        obtain ⟨new, hnew⟩ := hall c.parents (List.Subset.refl _) (met ++ [c])
        exact ⟨c :: new, by rw [hnew, List.append_assoc]; rfl⟩

/-- A walk puts what it meets behind what was met before. -/
theorem exists_append_collectEach (cs met : List ClassType) :
    ∃ new, collectEach cs met = met ++ new := by
  induction cs generalizing met with
  | nil => exact ⟨[], (List.append_nil met).symm⟩
  | cons c cs ih =>
      obtain ⟨first, hfirst⟩ := exists_append_collect c met
      obtain ⟨rest, hrest⟩ := ih (collect c met)
      refine ⟨first ++ rest, ?_⟩
      rw [← List.append_assoc, ← hfirst]
      exact hrest

theorem subset_collectEach (cs met : List ClassType) :
    met ⊆ collectEach cs met := by
  rw [← collectAll_eq]
  exact subset_collectAll met cs

-- =============================================================== the order

variable {root : ClassType}

/-- The class may come next on a walk from the root: it is the root, or stands
right above a class that was met. -/
def IsNext (root : ClassType) (met : List ClassType) (c : ClassType) : Prop :=
  c = root ∨ ∃ b ∈ met, c ∈ b.parents

theorem IsNext.mono {met met' : List ClassType} (hsub : met ⊆ met')
    {c : ClassType} (h : IsNext root met c) : IsNext root met' c := by
  rcases h with hroot | ⟨b, hb, hc⟩
  · exact Or.inl hroot
  · exact Or.inr ⟨b, hsub hb, hc⟩

/-- The classes were met on a walk from the root, one after the other and each
name once. -/
inductive MetFrom (root : ClassType) : List ClassType → Prop
  | nil : MetFrom root []
  | add {met : List ClassType} {c : ClassType} :
      MetFrom root met → c.fqn ∉ names met →
      IsNext root met c → MetFrom root (met ++ [c])

/-- A class that may come next is walked from. -/
theorem metFrom_collect {met : List ClassType} {c : ClassType}
    (hmet : MetFrom root met) (hnext : IsNext root met c) :
    MetFrom root (collect c met) := by
  induction c using induction_on generalizing met with
  | step c ih =>
      by_cases hold : c.fqn ∈ names met
      · rw [collect_of_mem hold]
        exact hmet
      · rw [collect_of_not_mem hold]
        have hparents : ∀ p ∈ c.parents,
            IsNext root (met ++ [c]) p := fun p hp =>
          Or.inr ⟨c, List.mem_append_right met List.mem_cons_self, hp⟩
        -- The parents are walked from in turn; what may come next may still do
        -- so later.
        have hall (ps : List ClassType) (hps : ps ⊆ c.parents)
            (l : List ClassType)
            (hl : MetFrom root l) (hnext : ∀ p ∈ ps, IsNext root l p) :
            MetFrom root (collectEach ps l) := by
          induction ps generalizing l with
          | nil => exact hl
          | cons p ps ihps =>
              obtain ⟨hp, hps⟩ := List.cons_subset.1 hps
              obtain ⟨hfirst, hrest⟩ := List.forall_mem_cons.1 hnext
              exact ihps hps _ (ih p hp hl hfirst) fun q hq =>
                (hrest q hq).mono (subset_collect l p)
        exact hall c.parents (List.Subset.refl _) _
          (hmet.add hold hnext) hparents

/-- The ancestors of a class are a walk upwards from it. -/
theorem metFrom_ancestors (c : ClassType) : MetFrom c c.ancestors :=
  metFrom_collect .nil (Or.inl rfl)

namespace MetFrom

variable {met : List ClassType}

/-- A walk meets no name twice. -/
theorem nodup (h : MetFrom root met) : (names met).Nodup := by
  induction h with
  | nil => exact List.nodup_nil
  | @add met c _ hnew _ ih =>
      rw [names, List.map_append, List.map_singleton]
      refine List.nodup_append.2 ⟨ih, List.pairwise_singleton _ _,
        fun a ha b hb heq => hnew ?_⟩
      rw [List.mem_singleton.1 hb] at heq
      exact heq ▸ ha

/-- The root comes first. -/
theorem head?_eq (h : MetFrom root met) (hne : met ≠ []) :
    met.head? = some root := by
  induction h with
  | nil => exact absurd rfl hne
  | @add met c _ _ hnext ih =>
      by_cases hmet : met = []
      · subst hmet
        rcases hnext with hroot | ⟨b, hb, -⟩
        · exact congrArg some hroot
        · cases hb
      · rw [List.head?_append, ih hmet, Option.some_or]

/-- Whatever was met could come next when it was its turn. -/
theorem isNext {before after : List ClassType} {c : ClassType}
    (h : MetFrom root (before ++ c :: after)) :
    MetFrom root before ∧ IsNext root before c := by
  generalize hl : before ++ c :: after = l at h
  induction h generalizing after with
  | nil => exact absurd hl (by simp)
  | @add met d hmet hnew hnext ih =>
      rcases List.eq_nil_or_concat after with rfl | ⟨after', e, rfl⟩
      · obtain ⟨rfl, hd⟩ := List.append_inj' hl rfl
        cases hd
        exact ⟨hmet, hnext⟩
      · rw [List.concat_eq_append, ← List.cons_append,
          ← List.append_assoc] at hl
        exact ih (List.append_inj_left' hl rfl)

/-- What holds of the root and passes upwards holds of all that was met. -/
theorem forall_mem {P : ClassType → Prop} (h : MetFrom root met)
    (hroot : P root) (hup : ∀ b, P b → ∀ p ∈ b.parents, P p) :
    ∀ c ∈ met, P c := by
  induction h with
  | nil => exact List.forall_mem_nil P
  | @add met c _ _ hnext ih =>
      refine List.forall_mem_append.2 ⟨ih, List.forall_mem_singleton.2 ?_⟩
      rcases hnext with rfl | ⟨b, hb, hc⟩
      · exact hroot
      · exact hup b (ih b hb) c hc

/-- A path of steps that lead from what was met to what stands right above it
leads to whatever may come next. -/
theorem path {R : String → String → Prop} (h : MetFrom root met)
    (hstep : ∀ b ∈ met, ∀ p ∈ b.parents, R b.fqn p.fqn) {c : ClassType}
    (hnext : IsNext root met c) : Relation.ReflTransGen R root.fqn c.fqn := by
  induction h generalizing c with
  | nil =>
      rcases hnext with rfl | ⟨b, hb, -⟩
      · exact .refl
      · cases hb
  | @add met d _ _ hd ih =>
      obtain ⟨hmet, hlast⟩ := List.forall_mem_append.1 hstep
      rcases hnext with rfl | ⟨b, hb, hc⟩
      · exact .refl
      · rcases List.mem_append.1 hb with hb | hb
        · exact ih hmet (Or.inr ⟨b, hb, hc⟩)
        · obtain rfl := List.mem_singleton.1 hb
          exact (ih hmet hd).tail (hlast b List.mem_cons_self c hc)

end MetFrom

-- ============================================================ completeness

/-- Of what is in the second list and was not in the first, everything right
above is in the second list by name. -/
def Settles (met met' : List ClassType) : Prop :=
  ∀ a ∈ met', a ∈ met ∨ ∀ p ∈ a.parents, p.fqn ∈ names met'

/-- What settles its classes step by step settles them as a whole. -/
theorem Settles.trans {met met' met'' : List ClassType} (h : Settles met met')
    (h' : Settles met' met'') (hsub : met' ⊆ met'') : Settles met met'' := by
  intro a ha
  rcases h' a ha with ha | hparents
  · rcases h a ha with ha | hparents
    · exact Or.inl ha
    · exact Or.inr fun p hp => List.map_subset fqn hsub (hparents p hp)
  · exact Or.inr hparents

/-- A walk settles all that it adds, and meets the class it starts from by
name. -/
theorem settles_collect (c : ClassType) (met : List ClassType) :
    Settles met (collect c met) ∧ c.fqn ∈ names (collect c met) := by
  induction c using induction_on generalizing met with
  | step c ih =>
      by_cases hold : c.fqn ∈ names met
      · rw [collect_of_mem hold]
        exact ⟨fun a ha => Or.inl ha, hold⟩
      · rw [collect_of_not_mem hold]
        have hall (ps : List ClassType) (hps : ps ⊆ c.parents)
            (l : List ClassType) :
            Settles l (collectEach ps l) ∧ ∀ p ∈ ps,
              p.fqn ∈ names (collectEach ps l) := by
          induction ps generalizing l with
          | nil => exact ⟨fun a ha => Or.inl ha, List.forall_mem_nil _⟩
          | cons p ps ihps =>
              obtain ⟨hp, hps⟩ := List.cons_subset.1 hps
              obtain ⟨hfirst, hmet⟩ := ih p hp l
              obtain ⟨hrest, hmets⟩ := ihps hps (collect p l)
              have hsub := subset_collectEach ps (collect p l)
              exact ⟨hfirst.trans hrest hsub,
                List.forall_mem_cons.2 ⟨List.map_subset fqn hsub hmet, hmets⟩⟩
        obtain ⟨hsettles, hparents⟩ :=
          hall c.parents (List.Subset.refl _) (met ++ [c])
        refine ⟨fun a ha => ?_, ?_⟩
        · rcases hsettles a ha with ha | ha
          · rcases List.mem_append.1 ha with ha | ha
            · exact Or.inl ha
            · obtain rfl := List.mem_singleton.1 ha
              exact Or.inr hparents
          · exact Or.inr ha
        · have hc : c ∈ collectEach c.parents (met ++ [c]) :=
            subset_collectEach _ _
              (List.mem_append_right met List.mem_cons_self)
          exact List.mem_map_of_mem hc

/-- Among the classes above a class is, by name, whatever stands right above
one of them. -/
theorem mem_names_ancestors {c a p : ClassType} (ha : a ∈ c.ancestors)
    (hp : p ∈ a.parents) : p.fqn ∈ names c.ancestors := by
  rcases (settles_collect c []).1 a ha with hnil | hparents
  · cases hnil
  · exact hparents p hp

end JavaRefit.ClassType
