/-
A place of a file and the marks before it.

Attribution carries a stack of scopes from place to place. The stack
follows the marks before the place if it knows of each name what they
tell of it (`Env.Follows`). Then a use whose type is read off the stack
has the type that the marks before it tell (`Mark.Fits`).

What is walked over leads from one stack to another (`Env.Carries`): it
closes the scopes it opens, the uses in it fit, and the stack behind it
follows it. Walks put together are walks, and a scope around a walk is
one that leads back; so each construct of the language needs one step.

The members of a class are walked over in the scope of its fields, and
declare these again on the way (`Env.Crosses`). Of two fields of a name
the stack knows now the one and now the other, and either is something
that the name may mean.

Chain: after `Scopes`; read by `Walks`.
-/
import JavaRefit.Proofs.Attribution.Scopes

namespace JavaRefit

-- ================================================================== stacks

namespace Env

variable {env : Env} {name : String}

/-- What is known in a new scope is what it declares, and else what was
known. -/
@[simp] theorem lookup?_push (scope : Scope) :
    (env.push scope).lookup? name =
      (scope.lookup name).or (env.lookup? name) := by
  rw [lookup?, push, List.findSome?_cons]
  cases scope.lookup name <;> rfl

/-- In a class its fields are known first. -/
@[simp] theorem lookup?_enter (c : ClassType) (fields : Scope) :
    (env.enter c fields).lookup? name =
      (fields.lookup name).or (env.lookup? name) :=
  lookup?_push fields

/-- What was declared last is known. -/
theorem lookup?_declare_self (h : env.scopes ≠ []) (type : Option JavaType) :
    (env.declare name type).lookup? name = some type := by
  rw [declare]
  split
  next hnil => exact absurd hnil h
  next scope outer _ =>
    simp only [lookup?, List.findSome?_cons, List.lookup_cons_self]

/-- Of other names the same is known. -/
theorem lookup?_declare_of_ne {declared : String} (h : name ≠ declared)
    (type : Option JavaType) :
    (env.declare declared type).lookup? name = env.lookup? name := by
  rw [declare]
  split
  next => rfl
  next scope outer hscopes =>
      simp only [lookup?, hscopes, List.findSome?_cons, List.lookup_cons,
        beq_false_of_ne h]

/-- To declare a name leaves no place without scopes. -/
theorem scopes_declare_ne_nil (h : env.scopes ≠ []) (type : Option JavaType) :
    (env.declare name type).scopes ≠ [] := by
  rw [declare]
  split
  · exact h
  · exact List.cons_ne_nil _ _

/-- The scopes around the place know of each name what the marks before it
tell. -/
def Follows (env : Env) (before : List Mark) : Prop :=
  ∀ name, Means name before (env.lookup? name)

end Env

-- ==================================================================== uses

namespace Mark

/-- A use has the type of the variable that its name means after such marks. A
word that means no variable stands for the class it means, and a word after
`this` for nothing. -/
def Fits (classMeant : String → Option JavaType)
    (before : List Mark) : Mark → Prop
  | .uses name type =>
    ∃ meaning, Means name before meaning ∧ type = meaning.getD (classMeant name)
  | .usesField name type =>
      ∃ meaning, Means name before meaning ∧ type = meaning.join
  | .annotates mentions => ∀ a ∈ mentions, ∀ u ∈ a.use?,
    ∃ meaning, Means u.1 before meaning ∧ u.2 = meaning.getD (classMeant u.1)
  | _ => True

/-- The uses among the marks fit what is before them. -/
def AllFit (classMeant : String → Option JavaType)
    (before ms : List Mark) : Prop :=
  ∀ pre m post, ms = pre ++ m :: post → m.Fits classMeant (before ++ pre)

/-- A use has the type that its name has at the place. -/
def IsReadAt (classMeant : String → Option JavaType) (env : Env) : Mark → Prop
  | .uses name type => type = (env.lookup? name).getD (classMeant name)
  | .usesField name type => type = (env.lookup? name).join
  | .annotates mentions => ∀ a ∈ mentions, ∀ u ∈ a.use?,
    u.2 = (env.lookup? u.1).getD (classMeant u.1)
  | _ => False

variable {classMeant : String → Option JavaType} {env : Env}
  {before ms ns : List Mark} {m : Mark}

/-- A use that is read off the scopes fits the marks these follow. -/
theorem IsReadAt.fits (h : m.IsReadAt classMeant env)
    (hb : env.Follows before) : m.Fits classMeant before := by
  cases m with
  | uses name type | usesField name type => exact ⟨env.lookup? name, hb name, h⟩
  | annotates mentions =>
      exact fun a ha u hu => ⟨env.lookup? u.1, hb u.1, h a ha u hu⟩
  | _ => trivial

/-- A use is nothing that a search for a name stops at. -/
theorem IsReadAt.passed (h : m.IsReadAt classMeant env) {name : String}
    (hms : Passed name ms) : Passed name (m :: ms) := by
  cases m with
  | uses | usesField | annotates => exact .mark rfl nofun hms
  | _ => cases h

/-- Where nothing is used all fits. -/
theorem AllFit.nil : AllFit classMeant before [] := by
  intro pre m post h
  cases List.append_eq_nil_iff.1 h.symm |>.2

/-- A mark that fits, in front of marks that do after it. -/
theorem AllFit.cons (hm : m.Fits classMeant before)
    (h : AllFit classMeant (before ++ [m]) ms) :
    AllFit classMeant before (m :: ms) := by
  intro pre m' post heq
  obtain ⟨rfl, heq⟩ | ⟨pre, rfl, rfl⟩ := List.cons_eq_append_iff.1 heq
  · cases heq
    rwa [List.append_nil]
  · have := h pre m' post rfl
    rwa [List.append_assoc] at this

/-- Marks that fit, in front of marks that do after them. -/
theorem AllFit.append (h : AllFit classMeant before ms)
    (h' : AllFit classMeant (before ++ ms) ns) :
    AllFit classMeant before (ms ++ ns) := by
  intro pre m post heq
  obtain ⟨d, rfl, hd⟩ | ⟨d, hd, heq⟩ := List.append_eq_append_iff.1 heq
  · have := h' d m post hd
    rwa [List.append_assoc] at this
  · obtain ⟨rfl, heq⟩ | ⟨d, rfl, -⟩ := List.cons_eq_append_iff.1 heq
    · have := h' [] m post heq.symm
      rwa [List.append_nil, hd, List.append_nil] at this
    · exact h pre m d hd

end Mark

-- =================================================================== walks

namespace Env

open Mark

/-- The marks lead from the scopes around one place to those around another.
There is no class among them. -/
structure Carries (classMeant : String → Option JavaType) (env env' : Env)
    (ms : List Mark) : Prop where
  closed : Closed ms
  classless : ∀ fields, .opensClass fields ∉ ms
  fits : ∀ before, env.Follows before → AllFit classMeant before ms
  follows : ∀ before, env.Follows before → env'.Follows (before ++ ms)

namespace Carries

variable {classMeant : String → Option JavaType} {env env' env'' : Env}
  {ms ns : List Mark}

/-- To stay where one is is a walk. -/
theorem refl : env.Carries classMeant env [] where
  closed := .nil
  classless _ := List.not_mem_nil
  fits _ _ := .nil
  follows before h := by rwa [List.append_nil]

/-- Walks put together are walks. -/
theorem trans (h : env.Carries classMeant env' ms)
    (h' : env'.Carries classMeant env'' ns) :
    env.Carries classMeant env'' (ms ++ ns) where
  closed := h.closed.append h'.closed
  classless fields hmem :=
    (List.mem_append.1 hmem).elim (h.classless fields) (h'.classless fields)
  fits before hb := (h.fits before hb).append (h'.fits _ (h.follows before hb))
  follows before hb := by
    rw [← List.append_assoc]
    exact h'.follows _ (h.follows before hb)

/-- A use that is read at the place stays there. -/
theorem use {m : Mark} (h : m.IsReadAt classMeant env) :
    env.Carries classMeant env [m] where
  closed := (h.passed (Passed.nil : Passed "" [])).closed
  classless fields hmem := by
    rw [← List.mem_singleton.1 hmem] at h
    exact h
  fits _ hb := .cons (h.fits hb) .nil
  follows _ hb name := (hb name).append (h.passed .nil)

theorem uses (h : ∀ m ∈ ms, m.IsReadAt classMeant env) :
    env.Carries classMeant env ms := by
  induction ms with
  | nil => exact refl
  | cons m ms ih =>
      obtain ⟨hm, hms⟩ := List.forall_mem_cons.1 h
      exact (use hm).trans (ih hms)

/-- To declare a variable is a walk to where it is known. -/
theorem declares (h : env.scopes ≠ []) (name : String)
    (type : Option JavaType) :
    env.Carries classMeant (env.declare name type) [.declares name type] where
  closed := .mark rfl .nil
  classless fields hmem := by cases List.mem_singleton.1 hmem
  fits _ _ := .cons trivial .nil
  follows before hb name' := by
    by_cases hname : name' = name
    · rw [hname, lookup?_declare_self h]
      exact .declared .nil
    · rw [lookup?_declare_of_ne hname]
      refine (hb name').append (.mark rfl (fun heq => hname ?_) .nil)
      exact (Option.some.inj heq).symm

/-- A walk inside a new scope leads back to where the scope starts. -/
theorem scope (h : (env.push []).Carries classMeant env' ms) :
    env.Carries classMeant env (.opens :: (ms ++ [.closes])) where
  closed := .scope rfl h.closed .nil
  classless fields hmem := by
    obtain heq | hmem := List.mem_cons.1 hmem
    · cases heq
    · obtain hmem | hmem := List.mem_append.1 hmem
      · exact h.classless fields hmem
      · cases List.mem_singleton.1 hmem
  fits before hb := by
    have hinner : (env.push []).Follows (before ++ [.opens]) := by
      intro name
      rw [lookup?_push]
      exact .around .nil (hb name)
    exact .cons trivial ((h.fits _ hinner).append (.cons trivial .nil))
  follows before hb name := (hb name).append (.scope rfl h.closed .nil)

end Carries

-- ================================================================ members

/-- The marks lead from one place between the members of a class to another.
They declare no variable. The scopes are asked to follow marks after which
each of the fields is one of the variables that its name may mean. -/
structure Crosses (classMeant : String → Option JavaType)
    (fields : List (String × Option JavaType)) (env env' : Env)
    (ms : List Mark) : Prop where
  passed : ∀ name, Passed name ms
  fits : ∀ before, (∀ field ∈ fields, Means field.1 before (some field.2)) →
    env.Follows before → AllFit classMeant before ms
  follows : ∀ before,
    (∀ field ∈ fields, Means field.1 before (some field.2)) →
      env.Follows before → env'.Follows (before ++ ms)

namespace Crosses

variable {classMeant : String → Option JavaType}
  {fields : List (String × Option JavaType)} {env env' env'' : Env}
  {ms ns : List Mark}

/-- Between members one can stay as well. -/
theorem refl : env.Crosses classMeant fields env [] where
  passed _ := .nil
  fits _ _ _ := .nil
  follows before _ h := by rwa [List.append_nil]

/-- Walks between members put together are such walks: no variable is declared,
so the fields mean what they may. -/
theorem trans (h : env.Crosses classMeant fields env' ms)
    (h' : env'.Crosses classMeant fields env'' ns) :
    env.Crosses classMeant fields env'' (ms ++ ns) := by
  have hknown {before : List Mark}
      (hfields : ∀ field ∈ fields, Means field.1 before (some field.2)) :
      ∀ field ∈ fields, Means field.1 (before ++ ms) (some field.2) :=
    fun field hfield => (hfields field hfield).append (h.passed field.1)
  exact {
    passed := fun name => (h.passed name).append (h'.passed name)
    fits := fun before hfields hb => (h.fits before hfields hb).append
      (h'.fits _ (hknown hfields) (h.follows before hfields hb))
    follows := fun before hfields hb => by
      rw [← List.append_assoc]
      exact h'.follows _ (hknown hfields) (h.follows before hfields hb) }

/-- A walk that needs no field to be known goes with any fields. -/
theorem mono (h : env.Crosses classMeant [] env' ms) :
    env.Crosses classMeant fields env' ms where
  passed := h.passed
  fits before _ := h.fits before (List.forall_mem_nil _)
  follows before _ := h.follows before (List.forall_mem_nil _)

/-- A walk that declares nothing where it ends can be between members. -/
theorem ofCarries (hpassed : ∀ name, Passed name ms)
    (h : env.Carries classMeant env' ms) :
    env.Crosses classMeant fields env' ms where
  passed := hpassed
  fits before _ := h.fits before
  follows before _ := h.follows before

/-- Uses that are read at the place stay there. -/
theorem uses (h : ∀ m ∈ ms, m.IsReadAt classMeant env) :
    env.Crosses classMeant fields env ms := by
  refine ofCarries (fun name => ?_) (.uses h)
  induction ms with
  | nil => exact .nil
  | cons m ms ih =>
      obtain ⟨hm, hms⟩ := List.forall_mem_cons.1 h
      exact hm.passed (ih hms)

/-- To declare a field again leads to scopes that know it so. -/
theorem declaresAgain (h : env.scopes ≠ []) {name : String}
    {type : Option JavaType} (hmem : (name, type) ∈ fields) :
    env.Crosses classMeant fields (env.declare name type) [] where
  passed _ := .nil
  fits _ _ _ := .nil
  follows before hfields hb name' := by
    rw [List.append_nil]
    by_cases hname : name' = name
    · rw [hname, lookup?_declare_self h]
      exact hfields _ hmem
    · rw [lookup?_declare_of_ne hname]
      exact hb name'

/-- A walk over the members of a class leads back to where the class starts.
The class may know a field by any of the types it is declared with. -/
theorem classScope {c : ClassType} {scope : Scope}
    (hsome : ∀ name type, scope.lookup name = some type →
      (name, type) ∈ fields)
    (hnone : ∀ name, scope.lookup name = none → fields.lookup name = none)
    (h : (env.enter c scope).Crosses classMeant fields env' ms) :
    env.Crosses classMeant [] env
      (.opensClass fields :: (ms ++ [.closes])) := by
  have hinner {before : List Mark} (hb : env.Follows before) :
      (env.enter c scope).Follows (before ++ [.opensClass fields]) := by
    intro name
    rw [lookup?_enter]
    cases hname : scope.lookup name with
    | none => exact .aroundClass .nil (hnone name hname) (hb name)
    | some type => exact .field .nil (hsome name type hname)
  have hknown (before : List Mark) : ∀ field ∈ fields,
      Means field.1 (before ++ [.opensClass fields]) (some field.2) :=
    fun field hfield => .field .nil hfield
  have hclosed : Closed ms := (h.passed "").closed
  exact {
    passed := fun _ => .scope rfl hclosed .nil
    fits := fun before _ hb => .cons trivial <|
      (h.fits _ (hknown before) (hinner hb)).append (.cons trivial .nil)
    follows := fun before _ hb name =>
      (hb name).append (.scope rfl hclosed .nil) }

end Crosses

end Env

end JavaRefit
