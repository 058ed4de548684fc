/-
Which declaration of a method a class is found to have.

A method is looked for in the class, then above its superclass, then
above its interfaces, and the first declaration of the name and number of
parameters is taken. One is found just when the class or one above it has
a declaration. It is the one that the first of the routes upwards leads
to: all others come later in depth-first order (`MetBefore`), and declared
supers lead from the class to it past classes that have none
(`findMethod_nearest`).

So one that is found can be overridden only by a class that comes later:
below an interface that was met above the superclass, or above an earlier
interface, there may be another that has its own declaration and is
passed over (`findMethod_diamond_overridden`).

Chain: after `Route`; nothing reads it.
-/
import JavaRefit.Proofs.ClassPath.Route

namespace JavaRefit.ClassPath

variable {cp : ClassPath} {name : String} {arity : Nat}

/-- The first declaration of a class for a method of that name and number of
parameters. -/
def ownMethod? (cp : ClassPath) (name : String) (arity : Nat) (fqn : String) :
    Option MethodInfo :=
  (cp.info? fqn).bind fun info =>
    info.methods.find? fun m => m.name == name && m.params.length == arity

/-- The class declares a method of that name and number of parameters. -/
def HasMethod (cp : ClassPath) (name : String) (arity : Nat)
    (fqn : String) : Prop :=
  (cp.ownMethod? name arity fqn).isSome = true

/-- What is found in a class has the name and number of parameters that were
asked for. -/
theorem of_ownMethod? {fqn : String} {m : MethodInfo}
    (h : cp.ownMethod? name arity fqn = some m) :
    m.name = name ∧ m.params.length = arity := by
  obtain ⟨info, -, hfind⟩ := Option.bind_eq_some_iff.1 h
  have hm := List.find?_some hfind
  simpa using hm

theorem not_hasMethod_iff {fqn : String} :
    ¬ cp.HasMethod name arity fqn ↔ cp.ownMethod? name arity fqn = none := by
  rw [HasMethod, Bool.not_eq_true, Option.isSome_eq_false_iff,
    Option.isNone_iff_eq_none]

-- ============================================================== the search

/-- The search asks each class in turn for its own declaration. -/
theorem declaredMethod?_eq (classes : List ClassType) :
    cp.declaredMethod? name arity classes =
      classes.findSome? fun c => (cp.ownMethod? name arity c.fqn).map fun m =>
        (c, m) := by
  unfold declaredMethod? ownMethod?
  congr 1
  funext c
  cases cp.info? c.fqn <;> rfl

/-- Among some classes the first that has a declaration is found. -/
theorem exists_of_declaredMethod? {classes : List ClassType} {c : ClassType}
    {m : MethodInfo} (h : cp.declaredMethod? name arity classes = some (c, m)) :
    cp.ownMethod? name arity c.fqn = some m ∧ ∃ before after,
      classes = before ++ c :: after ∧
      ∀ b ∈ before, ¬ cp.HasMethod name arity b.fqn := by
  rw [declaredMethod?_eq, List.findSome?_eq_some_iff] at h
  obtain ⟨before, a, after, rfl, ha, hbefore⟩ := h
  obtain ⟨m', hm, heq⟩ := Option.map_eq_some_iff.1 ha
  obtain ⟨rfl, rfl⟩ := Prod.mk.inj heq
  exact ⟨hm, before, after, rfl, fun b hb =>
    not_hasMethod_iff.2 (Option.map_eq_none_iff.1 (hbefore b hb))⟩

/-- Something is found among some classes just when one of them has a
declaration. -/
theorem isSome_declaredMethod?_iff {classes : List ClassType} :
    (cp.declaredMethod? name arity classes).isSome = true ↔
      ∃ g ∈ ClassType.names classes, cp.HasMethod name arity g := by
  rw [declaredMethod?_eq, List.findSome?_isSome_iff]
  simp [ClassType.names, HasMethod]

/-- What is found for a class is made of what is declared above it. -/
theorem findMethod_eq (owner : ClassType) (memo : Memo) :
    (cp.findMethod (some (.reference owner)) name arity memo).1 =
      (cp.declaredMethod? name arity (cp.typeOf owner.fqn memo).1.ancestors).map
        fun found =>
        (cp.methodType found.1 found.2 (cp.typeOf owner.fqn memo).2).1 := by
  rw [findMethod, bind_apply]
  cases cp.declaredMethod? name arity
    (cp.typeOf owner.fqn memo).1.ancestors <;> rfl

-- ============================================================== the result

/-- On the way upwards from a class the first name is met before the second:
a route leads to the first that comes before every route to the second. -/
def MetBefore (cp : ClassPath) (owner f g : String) : Prop :=
  ∃ route, cp.along owner route = some f ∧
    ∀ route', cp.along owner route' = some g → route < route'

/-- The signature is that of the nearest declaration for a class. -/
structure IsNearest (cp : ClassPath) (owner name : String) (arity : Nat)
    (signature : MethodType) : Prop where
  /-- It is that of the first declaration of its class for the name and
  number of parameters. -/
  declared : ∃ m, cp.ownMethod? name arity signature.owner.fqn = some m ∧
    cp.Signs m signature
  /-- The class is shown as it is declared. -/
  shown : cp.Unfolds signature.owner
  name_eq : signature.name = name
  arity_eq : signature.params.length = arity
  /-- Every other class above that has a declaration comes later. -/
  first : ∀ g, cp.Reaches owner g → cp.HasMethod name arity g →
    g ≠ signature.owner.fqn → cp.MetBefore owner signature.owner.fqn g
  /-- Declared supers lead to it past classes without a declaration. -/
  path : Relation.ReflTransGen
    (fun a b => ¬ cp.HasMethod name arity a ∧ cp.Extends a b)
    owner signature.owner.fqn

/-- Where the first of the routes to a declaration leads is met before all
other classes that have one. -/
theorem metBefore_of_isFirst {owner f : String}
    (h : IsFirst (cp.along owner)
      (fun g => (cp.ownMethod? name arity g).isSome) (some f))
    {g : String} (hg : cp.HasMethod name arity g) (hne : g ≠ f) :
    cp.MetBefore owner f g := by
  obtain ⟨-, route, hroute, hfirst⟩ := h
  refine ⟨route, hroute, fun route' hroute' => ?_⟩
  rcases hfirst route' g hroute' hg with rfl | hlt
  · exact absurd (Option.some.inj (hroute'.symm.trans hroute)) hne
  · exact hlt

/-- The first declaration found among the classes above one is the
nearest. -/
theorem isNearest_of_declaredMethod? {c : ClassType} (hc : cp.Unfolds c)
    (hcircles : cp.HasNoCircles) {declaring : ClassType} {m : MethodInfo}
    (hm : cp.declaredMethod? name arity c.ancestors = some (declaring, m))
    {signature : MethodType} (howner : signature.owner = declaring)
    (hsigns : cp.Signs m signature) :
    cp.IsNearest c.fqn name arity signature := by
  obtain ⟨hown, before, after, hancestors, hbefore⟩ :=
    exists_of_declaredMethod? hm
  obtain ⟨hname, harity⟩ := of_ownMethod? hown
  obtain rfl := howner
  have hunfolds : ∀ a ∈ c.ancestors, cp.Unfolds a := unfolds_of_mem_ancestors hc
  have hmem : signature.owner ∈ c.ancestors := by
    rw [hancestors]
    exact List.mem_append_right before List.mem_cons_self
  have hfirst := isFirst_ancestors hcircles hc
    fun g => (cp.ownMethod? name arity g).isSome
  have hmet : firstMet? (fun g => (cp.ownMethod? name arity g).isSome)
      c.ancestors = some signature.owner.fqn := by
    have hnone : firstMet? (fun g => (cp.ownMethod? name arity g).isSome)
        before = none := by
      apply firstMet?_eq_none_iff.2
      intro b hb
      obtain ⟨a, ha, rfl⟩ := List.mem_map.1 hb
      rw [not_hasMethod_iff.1 (hbefore a ha)]
      rfl
    have hupTo := firstMet?_concat (c := signature.owner) hnone
    rw [if_pos (Option.isSome_iff_exists.2 ⟨m, hown⟩)] at hupTo
    apply firstMet?_of_append hupTo
    exact ⟨after, by rw [hancestors, List.append_assoc]; rfl⟩
  rw [hmet] at hfirst
  have hparams := hsigns.params.length_eq
  refine ⟨⟨m, hown, hsigns⟩, hunfolds _ hmem, hsigns.name.trans hname,
    hparams.symm.trans harity, ?_, ?_⟩
  · intro g _ hg hne
    exact metBefore_of_isFirst hfirst hg hne
  · have hwalk := c.metFrom_ancestors
    rw [hancestors] at hwalk
    obtain ⟨hwalkBefore, hnext⟩ := hwalk.isNext
    refine hwalkBefore.path (fun b hb p hp => ⟨hbefore b hb, ?_⟩) hnext
    have hb' : b ∈ c.ancestors := by
      rw [hancestors]
      exact List.mem_append_left _ hb
    exact (hunfolds b hb').extends_of_mem_parents p hp

/-- A method is found for a class just when the class or one above it has a
declaration, and it is the nearest. -/
theorem findMethod_nearest {cp : ClassPath} (hcircles : cp.HasNoCircles)
    (earlier : List Question) (owner : ClassType) (name : String)
    (arity : Nat) :
    let found := (cp.findMethod (some (.reference owner)) name arity
      (cp.memoAfter earlier)).1
    (found.isSome = true ↔
        ∃ g, cp.Reaches owner.fqn g ∧ cp.HasMethod name arity g) ∧
      ∀ signature ∈ found, cp.IsNearest owner.fqn name arity signature := by
  intro found
  have hmemo : cp.Faithful (cp.memoAfter earlier) := faithful_memoAfter earlier
  obtain ⟨hmemo', hfqn, hunfolds⟩ := answers_typeOf owner.fqn _ hmemo
  have hfound : found = _ := findMethod_eq owner (cp.memoAfter earlier)
  constructor
  · have hreaches (g : String) := mem_names_ancestors_iff (g := g) hunfolds
      fun g _ => hcircles g
    rw [hfqn] at hreaches
    rw [hfound, Option.isSome_map, isSome_declaredMethod?_iff]
    exact exists_congr fun g => and_congr (hreaches g) Iff.rfl
  · intro signature hsignature
    rw [hfound] at hsignature
    obtain ⟨⟨declaring, m⟩, hm, hmade⟩ :=
      Option.map_eq_some_iff.1 hsignature
    obtain ⟨-, howner, hsigns⟩ := answers_methodType declaring m _ hmemo'
    rw [hmade] at howner hsigns
    have hnearest :=
      isNearest_of_declaredMethod? hunfolds hcircles hm howner hsigns
    rwa [hfqn] at hnearest

/-- The classes of the diamond alone. -/
def diamondClassPath : ClassPath :=
  .ofList diamond

/-- In the diamond no class stands above itself. -/
theorem hasNoCircles_diamond : diamondClassPath.HasNoCircles := by
  have hranked : ∀ info ∈ diamondClassPath.infos,
      ∀ n ∈ some ((diamondRank info.fqn).getD 0),
      ∀ s ∈ info.supers, ∃ m ∈ some ((diamondRank s).getD 0), m < n := by
    decide +kernel
  exact fun g => not_onCircle_of_rank (fun fqn =>
    some ((diamondRank fqn).getD 0)) hranked rfl g .refl

/-- Of the two declarations above the class, the one above its superclass
is the nearest. -/
theorem findMethod_nearest_diamond :
    diamondClassPath.HasNoCircles ∧ ∃ signature,
      (diamondClassPath.findMethod (some (.reference (.bare "C"))) "m" 0
        (diamondClassPath.memoAfter [.typeOf "B"])).1 = some signature ∧
      signature.owner.fqn = "I" ∧
      diamondClassPath.IsNearest "C" "m" 0 signature := by
  have howner : (diamondClassPath.findMethod (some (.reference (.bare "C")))
      "m" 0 (diamondClassPath.memoAfter [.typeOf "B"])).1.map
        (fun signature => signature.owner.fqn) = some "I" := by
    decide +kernel
  obtain ⟨signature, hsignature, hname⟩ := Option.map_eq_some_iff.1 howner
  obtain ⟨-, hnearest⟩ :=
    findMethod_nearest hasNoCircles_diamond [.typeOf "B"] (.bare "C") "m" 0
  exact ⟨hasNoCircles_diamond, signature, hsignature, hname,
    hnearest signature hsignature⟩

/-- An interface above the class stands below the one that is found and has a
declaration of its own. -/
theorem findMethod_diamond_overridden :
    diamondClassPath.HasNoCircles ∧ ∃ signature,
      (diamondClassPath.findMethod (some (.reference (.bare "C"))) "m" 0
        (diamondClassPath.memoAfter [])).1 = some signature ∧
      ∃ g, diamondClassPath.Reaches "C" g ∧
      diamondClassPath.Reaches g signature.owner.fqn ∧
        g ≠ signature.owner.fqn ∧ diamondClassPath.HasMethod "m" 0 g := by
  have howner :
      (diamondClassPath.findMethod (some (.reference (.bare "C"))) "m" 0
      (diamondClassPath.memoAfter [])).1.map
        (fun signature => signature.owner.fqn) = some "I" := by
    decide +kernel
  obtain ⟨signature, hsignature, hname⟩ := Option.map_eq_some_iff.1 howner
  have hstep {sub super : String} {info : ClassInfo}
      (hinfo : diamondClassPath.info? sub = some info)
      (hsuper : super ∈ info.supers) : diamondClassPath.Reaches sub super :=
    .single ⟨info, hinfo, hsuper⟩
  refine ⟨hasNoCircles_diamond, signature, hsignature, "B",
    hstep rfl (by decide), ?_, ?_, rfl⟩
  · rw [hname]
    exact hstep rfl (by decide)
  · rw [hname]
    decide

end JavaRefit.ClassPath
