/-
The hierarchy that a class path declares, and the one its class types
show.

A class may declare its superclass and interfaces in circles. What its
type shows follows the declarations upwards and is cut off only at names
without a declaration and on circles (`Unfolds`). So the classes above it
are classes that the declarations lead to, and where they lead to no
circle they are all of these: then a class has one type, whatever was
asked before (`ancestors_typeOf`).

A type is made by expanding each of the names in `pending` at most once
on the way up, which is why it is always finished, and why a name that is
declared and may no longer be expanded lies on a circle
(`answers_build`). What was expanded in full is remembered; that all of
it follows the declarations is kept by every question (`Answers`).

Chain: after `Order` and `Memory`; read by `Lookup`.
-/
import JavaRefit.Proofs.ClassPath.Memory
import JavaRefit.Proofs.ClassPath.Order
import Mathlib.Data.List.Forall2

namespace JavaRefit

-- ======================================================== what is declared

namespace ClassInfo

/-- The superclass of a class. An empty name counts as none, and so does the
class itself. -/
def superclass? (i : ClassInfo) : Option String :=
  i.supertype.filter fun s => s != "" && s != i.fqn

/-- The names that stand right above the class. -/
def supers (i : ClassInfo) : List String :=
  i.superclass?.toList ++ i.interfaces

end ClassInfo

namespace ClassPath

variable {cp : ClassPath} {fqn : String} {info : ClassInfo}

/-- The first name is declared with the second right above it. -/
def Extends (cp : ClassPath) (sub super : String) : Prop :=
  ∃ info, cp.info? sub = some info ∧ super ∈ info.supers

/-- Declared supers lead from the first name to the second. -/
def Reaches (cp : ClassPath) : String → String → Prop :=
  Relation.ReflTransGen cp.Extends

/-- Declared supers lead from the name back to it. -/
def OnCircle (cp : ClassPath) (fqn : String) : Prop :=
  Relation.TransGen cp.Extends fqn fqn

/-- No declared supers lead from a name back to it. -/
def HasNoCircles (cp : ClassPath) : Prop :=
  ∀ fqn, ¬ cp.OnCircle fqn

/-- A declaration is found by its own name. -/
theorem fqn_of_info? (h : cp.info? fqn = some info) : info.fqn = fqn := by
  have hfound := List.find?_some h
  exact beq_iff_eq.1 hfound

/-- A name that has a number lies on no circle, nor does any it leads to, if
what stands right above a class with a number always has a smaller one. -/
theorem not_onCircle_of_rank (rank : String → Option Nat)
    (h : ∀ info ∈ cp.infos, ∀ n ∈ rank info.fqn, ∀ s ∈ info.supers,
      ∃ m ∈ rank s, m < n) {n : Nat} (hn : rank fqn = some n) : ∀ g,
        cp.Reaches fqn g → ¬ cp.OnCircle g := by
  have hstep {a b : String} (hab : cp.Extends a b) {n : Nat}
      (hn : rank a = some n) : ∃ m, rank b = some m ∧ m < n := by
    obtain ⟨info, hinfo, hb⟩ := hab
    rw [← fqn_of_info? hinfo] at hn
    exact h info (List.mem_of_find?_eq_some hinfo) n hn b hb
  have hpath {a b : String} (hab : Relation.TransGen cp.Extends a b) {n : Nat}
      (hn : rank a = some n) : ∃ m, rank b = some m ∧ m < n := by
    induction hab with
    | single hab => exact hstep hab hn
    | tail _ hbc ih =>
        obtain ⟨m, hm, hlt⟩ := ih
        obtain ⟨k, hk, hlt'⟩ := hstep hbc hm
        exact ⟨k, hk, Nat.lt_trans hlt' hlt⟩
  intro g hg hcircle
  have hnumber : ∃ m, rank g = some m := by
    rcases Relation.reflTransGen_iff_eq_or_transGen.1 hg with rfl | hg
    · exact ⟨n, hn⟩
    · obtain ⟨m, hm, -⟩ := hpath hg hn
      exact ⟨m, hm⟩
  obtain ⟨m, hm⟩ := hnumber
  obtain ⟨k, hk, hlt⟩ := hpath hcircle hm
  obtain rfl : m = k := Option.some.inj (hm.symm.trans hk)
  exact Nat.lt_irrefl m hlt

-- ======================================================= what a type shows

/-- The class type follows the declarations upwards, and is cut off only at
names without a declaration and on circles. -/
inductive Unfolds (cp : ClassPath) : ClassType → Prop
  | cut {fqn : String} : cp.info? fqn = none ∨ cp.OnCircle fqn →
      Unfolds cp (.bare fqn)
  | full {fqn : String} {info : ClassInfo} {supertype : Option ClassType}
      {interfaces : List ClassType} : cp.info? fqn = some info →
      supertype.map ClassType.fqn = info.superclass? →
      interfaces.map ClassType.fqn = info.interfaces →
      (∀ c ∈ supertype.toList ++ interfaces, Unfolds cp c) →
      Unfolds cp (.mk fqn supertype interfaces info.kind)

namespace Unfolds

variable {c : ClassType}

/-- What stands right above a class that is shown as declared is so shown. -/
theorem of_mem_parents (h : cp.Unfolds c) : ∀ p ∈ c.parents, cp.Unfolds p := by
  cases h with
  | cut => exact List.forall_mem_nil _
  | full _ _ _ h => exact h

/-- The names right above a class are those that its declaration lists. -/
theorem names_parents {supertype : Option ClassType}
    {interfaces : List ClassType} (hs : supertype.map ClassType.fqn =
      info.superclass?) (hi : interfaces.map ClassType.fqn = info.interfaces) :
    ClassType.names (supertype.toList ++ interfaces) = info.supers := by
  rw [ClassType.names, List.map_append, hi, ClassInfo.supers, ← hs]
  cases supertype <;> rfl

/-- What a type shows right above a class is declared there. -/
theorem extends_of_mem_parents (h : cp.Unfolds c) :
    ∀ p ∈ c.parents, cp.Extends c.fqn p.fqn := by
  cases h with
  | cut => exact List.forall_mem_nil _
  | full hinfo hs hi _ =>
      intro p hp
      refine ⟨_, hinfo, ?_⟩
      rw [← names_parents hs hi]
      exact List.mem_map_of_mem hp

/-- Off the circles, all that is declared right above a class is shown there. -/
theorem mem_names_parents (h : cp.Unfolds c) (hoff : ¬ cp.OnCircle c.fqn)
    {super : String} (hsuper : cp.Extends c.fqn super) :
    super ∈ ClassType.names c.parents := by
  obtain ⟨info, hinfo, hmem⟩ := hsuper
  cases h with
  | cut hcut =>
      rcases hcut with hnone | hcircle
      · rw [ClassType.bare, ClassType.fqn, hnone] at hinfo
        cases hinfo
      · exact absurd hcircle hoff
  | full hinfo' hs hi _ =>
      obtain rfl : _ = info := Option.some.inj (hinfo'.symm.trans hinfo)
      rw [ClassType.parents, ClassType.supertype, ClassType.interfaces,
        names_parents hs hi]
      exact hmem

/-- Off the circles a class has one type. -/
theorem unique {c' : ClassType} (h : cp.Unfolds c) (h' : cp.Unfolds c')
    (hfqn : c.fqn = c'.fqn) (hoff : ∀ g, cp.Reaches c.fqn g → ¬ cp.OnCircle g) :
    c = c' := by
  induction h generalizing c' with
  | @cut fqn hcut =>
      rcases hcut with hnone | hcircle
      · cases h' with
        | cut => exact congrArg ClassType.bare hfqn
        | @full fqn' _ _ _ hinfo =>
            obtain rfl : fqn = fqn' := hfqn
            rw [hnone] at hinfo
            cases hinfo
      · exact absurd hcircle (hoff fqn .refl)
  | @full fqn info supertype interfaces hinfo hs hi hall ih =>
      cases h' with
      | @cut fqn' hcut =>
          obtain rfl : fqn = fqn' := hfqn
          rcases hcut with hnone | hcircle
          · rw [hnone] at hinfo
            cases hinfo
          · exact absurd hcircle (hoff fqn .refl)
      | @full fqn' info' supertype' interfaces' hinfo' hs' hi' hall' =>
          obtain rfl : fqn = fqn' := hfqn
          obtain rfl : info = info' := Option.some.inj (hinfo.symm.trans hinfo')
          -- Right above stand types of the same names, and these are the same
          -- in turn.
          have hsame {p p' : ClassType}
              (hp : p ∈ supertype.toList ++ interfaces)
              (hp' : p' ∈ supertype'.toList ++ interfaces')
                (hname : p.fqn = p'.fqn) : p = p' := by
            have hup : cp.Extends fqn p.fqn :=
              extends_of_mem_parents (.full hinfo hs hi hall) p hp
            exact ih p hp (hall' p' hp') hname fun g hg => hoff g (.head hup hg)
          have hsupertype : supertype = supertype' := by
            have hnames := hs.trans hs'.symm
            cases supertype with
            | none => cases supertype' with
              | none => rfl
              | some _ => cases hnames
            | some p => cases supertype' with
              | none => cases hnames
              | some p' =>
                  exact congrArg some
                    (hsame List.mem_cons_self List.mem_cons_self
                    (Option.some.inj hnames))
          have hinterfaces : interfaces = interfaces' := by
            have hnames := hi.trans hi'.symm
            refine List.ext_getElem ?_ fun n hn hn' => ?_
            · simpa using congrArg List.length hnames
            · refine hsame (List.mem_append_right _ (List.getElem_mem hn))
                (List.mem_append_right _ (List.getElem_mem hn')) ?_
              have hget := congrArg (fun names => names[n]?) hnames
              simpa [List.getElem?_eq_getElem, hn, hn'] using hget
          rw [hsupertype, hinterfaces]

end Unfolds

-- ------------------------------------------------- the classes above a class

section

variable {c : ClassType} (h : cp.Unfolds c)
include h

/-- What stands above a class that is shown as declared is so shown. -/
theorem unfolds_of_mem_ancestors : ∀ a ∈ c.ancestors, cp.Unfolds a :=
  c.metFrom_ancestors.forall_mem h fun _ hb => hb.of_mem_parents

/-- Declared supers lead to every class above. -/
theorem reaches_of_mem_ancestors {a : ClassType} (ha : a ∈ c.ancestors) :
    cp.Reaches c.fqn a.fqn := by
  obtain ⟨before, after, hl⟩ := List.append_of_mem ha
  have hmet := c.metFrom_ancestors
  rw [hl] at hmet
  obtain ⟨hbefore, hnext⟩ := hmet.isNext
  refine hbefore.path (fun b hb p hp => ?_) hnext
  have hmem : b ∈ c.ancestors := by
    rw [hl]
    exact List.mem_append_left _ hb
  exact (unfolds_of_mem_ancestors h b hmem).extends_of_mem_parents p hp

/-- Where they lead to no circle, every name they lead to is that of a class
above. -/
theorem mem_names_ancestors_iff
    (hoff : ∀ g, cp.Reaches c.fqn g → ¬ cp.OnCircle g) {g : String} :
    g ∈ ClassType.names c.ancestors ↔ cp.Reaches c.fqn g := by
  constructor
  · intro hg
    obtain ⟨a, ha, rfl⟩ := List.mem_map.1 hg
    exact reaches_of_mem_ancestors h ha
  · intro hg
    induction hg with
    | refl => exact List.mem_map_of_mem c.mem_ancestors_self
    | @tail b g hb hbg ih =>
        obtain ⟨a, ha, rfl⟩ := List.mem_map.1 ih
        have hparents := (unfolds_of_mem_ancestors h a ha).mem_names_parents
          (hoff a.fqn hb) hbg
        obtain ⟨p, hp, rfl⟩ := List.mem_map.1 hparents
        exact ClassType.mem_names_ancestors ha hp

end

-- =========================================================== right answers

/-- All that is remembered follows the declarations, and is remembered by its
name. -/
def Faithful (cp : ClassPath) (memo : Memo) : Prop :=
  ∀ fqn c, memo.lookup fqn = some c → c.fqn = fqn ∧ cp.Unfolds c

theorem faithful_nil : cp.Faithful [] :=
  fun _ _ h => nomatch h

/-- A memory stays faithful when a class is remembered that is shown as
declared. -/
theorem Faithful.remember {memo : Memo} (hmemo : cp.Faithful memo)
    {c : ClassType} (hc : c.fqn = fqn) (hunfolds : cp.Unfolds c) :
    cp.Faithful ((fqn, c) :: memo) := by
  intro fqn' c' hlookup
  rw [List.lookup_cons] at hlookup
  split at hlookup
  next heq =>
    cases hlookup
    exact ⟨hc.trans (eq_of_beq heq).symm, hunfolds⟩
  next => exact hmemo fqn' c' hlookup

variable {α β : Type}

/-- Where all that is remembered follows the declarations, it still does so
after the question, and the answer has the property. -/
def Answers (cp : ClassPath) (q : Query α) (P : α → Prop) : Prop :=
  ∀ memo, cp.Faithful memo → cp.Faithful (q memo).2 ∧ P (q memo).1

namespace Answers

variable {q : Query α} {f : α → Query β} {P : α → Prop} {Q : β → Prop}

theorem pure {a : α} (h : P a) : cp.Answers (Pure.pure a) P :=
  fun _ hmemo => ⟨hmemo, h⟩

theorem bind (hq : cp.Answers q P) (hf : ∀ a, P a → cp.Answers (f a) Q) :
    cp.Answers (q >>= f) Q := by
  intro memo hmemo
  obtain ⟨hmemo', hP⟩ := hq memo hmemo
  exact hf (q memo).1 hP (q memo).2 hmemo'

theorem imp {P' : α → Prop} (hq : cp.Answers q P) (h : ∀ a, P a → P' a) :
    cp.Answers q P' :=
  fun memo hmemo => ⟨(hq memo hmemo).1, h _ (hq memo hmemo).2⟩

theorem mapM {R : α → β → Prop} {as : List α}
    (h : ∀ a ∈ as, cp.Answers (f a) (R a)) :
    cp.Answers (as.mapM f) (List.Forall₂ R as) := by
  induction as with
  | nil => exact .pure .nil
  | cons a as ih =>
      obtain ⟨ha, has⟩ := List.forall_mem_cons.1 h
      rw [List.mapM_cons]
      exact ha.bind fun b hb => (ih has).bind fun bs hbs => .pure (.cons hb hbs)

end Answers

/-- The type is that of the class, and follows the declarations. -/
def Shows (cp : ClassPath) (fqn : String) (c : ClassType) : Prop :=
  c.fqn = fqn ∧ cp.Unfolds c

/-- Classes shown for some names have these names. -/
theorem map_fqn_of_forall₂ {names : List String} {cs : List ClassType}
    (h : List.Forall₂ cp.Shows names cs) :
    cs.map ClassType.fqn = names ∧ ∀ c ∈ cs, cp.Unfolds c := by
  induction h with
  | nil => exact ⟨rfl, List.forall_mem_nil _⟩
  | cons hc _ ih =>
      refine ⟨?_, List.forall_mem_cons.2 ⟨hc.2, ih.2⟩⟩
      rw [List.map_cons, hc.1, ih.1]

/-- The type of the superclass, where there is one. -/
def buildSuperclass (cp : ClassPath) (rest : List String) (info : ClassInfo) :
    Query (Option ClassType) :=
  match info.superclass? with
  | none => pure none
  | some s => some <$> cp.build rest s

/-- The superclass is expanded first, then the interfaces. -/
theorem expand_eq {rest : List String} (hinfo : cp.info? fqn = some info) :
    cp.expand rest fqn info = (do
      let supertype ← cp.buildSuperclass rest info
      let interfaces ← info.interfaces.mapM fun i => cp.build rest i
      return .mk fqn supertype interfaces info.kind) := by
  rw [expand, buildSuperclass, ClassInfo.superclass?]
  cases info.supertype with
  | none => rfl
  | some s =>
      rw [Option.filter_some, fqn_of_info? hinfo]
      by_cases hs : s = "" ∨ s = fqn
      · have hnot : ¬ (s != "" && s != fqn) = true := by
          rcases hs with rfl | rfl <;> simp
        rw [if_neg hnot]
        exact if_pos hs
      · have hkept : (s != "" && s != fqn) = true := by
          simpa [not_or] using hs
        rw [if_pos hkept]
        exact if_neg hs

/-- A class is expanded into a type that shows it, if what stands right above
it is. -/
theorem answers_expand {rest : List String} (hinfo : cp.info? fqn = some info)
    (hrest : ∀ s ∈ info.supers, cp.Answers (cp.build rest s) (cp.Shows s)) :
    cp.Answers (cp.expand rest fqn info) (cp.Shows fqn) := by
  have hsuperclass : cp.Answers (cp.buildSuperclass rest info) fun supertype =>
      supertype.map ClassType.fqn = info.superclass? ∧ ∀ c ∈ supertype.toList,
        cp.Unfolds c := by
    rw [buildSuperclass]
    cases hs : info.superclass? with
    | none => exact .pure ⟨rfl, List.forall_mem_nil _⟩
    | some s =>
        have hmem : s ∈ info.supers := by
          rw [ClassInfo.supers, hs]
          exact List.mem_cons_self
        exact (hrest s hmem).bind fun c hc =>
          .pure ⟨congrArg some hc.1, List.forall_mem_singleton.2 hc.2⟩
  have hinterfaces : cp.Answers (info.interfaces.mapM fun i => cp.build rest i)
      (List.Forall₂ cp.Shows info.interfaces) :=
    .mapM fun i hi => hrest i (List.mem_append_right _ hi)
  rw [expand_eq hinfo]
  refine hsuperclass.bind fun supertype hs =>
    hinterfaces.bind fun interfaces hi => ?_
  obtain ⟨hnames, hall⟩ := map_fqn_of_forall₂ hi
  exact .pure ⟨rfl,
    .full hinfo hs.1 hnames (List.forall_mem_append.2 ⟨hs.2, hall⟩)⟩

/-- A type is made that shows the class, if every declared name that may no
longer be expanded is one that leads to it. -/
theorem answers_build {pending : List String}
    (hpath : ∀ g, cp.contains g = true → g ∉ pending →
      Relation.TransGen cp.Extends g fqn) :
    cp.Answers (cp.build pending fqn) (cp.Shows fqn) := by
  generalize hn : pending.length = n
  induction n using Nat.strongRecOn generalizing pending fqn with
  | ind n ih =>
      intro memo hmemo
      rw [build_eq]
      split
      next c hlookup => exact ⟨hmemo, hmemo fqn c hlookup⟩
      next _ hinfo => exact ⟨hmemo, rfl, .cut (Or.inl hinfo)⟩
      next info _ hinfo =>
        by_cases hmem : fqn ∈ pending
        · have hrest : ∀ s ∈ info.supers,
              cp.Answers (cp.build (without fqn pending) s) (cp.Shows s) := by
            intro s hs
            have hup : cp.Extends fqn s := ⟨info, hinfo, hs⟩
            refine ih _ (hn ▸ length_without_lt hmem) (fun g hg hnot => ?_) rfl
            by_cases hself : g = fqn
            · rw [hself]
              exact .single hup
            · have hold : g ∉ pending := fun hin =>
                hnot (List.mem_filter.2 ⟨hin, by simpa using hself⟩)
              exact (hpath g hg hold).tail hup
          obtain ⟨hmemo', hshows⟩ := answers_expand hinfo hrest memo hmemo
          rw [if_pos hmem]
          exact ⟨hmemo'.remember hshows.1 hshows.2, hshows⟩
        · have hdeclared : cp.contains fqn = true := by
            rw [← info?_isSome, hinfo]
            rfl
          rw [if_neg hmem]
          exact ⟨hmemo, rfl, .cut (Or.inr (hpath fqn hdeclared hmem))⟩

-- ============================================================== questions

/-- A class that is asked for is shown as it is declared. -/
theorem answers_typeOf (fqn : String) :
    cp.Answers (cp.typeOf fqn) (cp.Shows fqn) := by
  refine answers_build fun g hg hnot => absurd ?_ hnot
  simpa [contains, names] using hg

/-- The text of a declaration spells the type: no text none, a keyword its
primitive type, a name the type of the class, and brackets behind a text
the arrays of what it spells. -/
inductive Spells (cp : ClassPath) : String → Option JavaType → Prop
  | nothing : Spells cp "" none
  | primitive (p : Primitive) : Spells cp p.text (some (.primitive p))
  | array {element : String} {t : Option JavaType} : Spells cp element t →
      Spells cp (element ++ "[]") (some (.array t))
  | reference {name : String} {c : ClassType} : name ≠ "" →
      (∀ p : Primitive, name ≠ p.text) →
      (∀ element : String, name ≠ element ++ "[]") → cp.Shows name c →
      Spells cp name (some (.reference c))

theorem answers_resolveReversed (cs : List Char) :
    cp.Answers (cp.resolveReversed cs)
      (cp.Spells (String.ofList cs.reverse)) := by
  fun_induction resolveReversed cp cs with
  | case1 element ih =>
      have htext : String.ofList (']' :: '[' :: element).reverse
          = String.ofList element.reverse ++ "[]" := by
        simp [String.ofList_append]
      rw [htext]
      exact ih.bind fun t ht => .pure (.array ht)
  | case2 cs _ s hs =>
      rw [show String.ofList cs.reverse = "" from hs]
      exact .pure .nothing
  | case3 cs _ s _ p hp =>
      have hkey : p.text = s := by
        have hfound := List.find?_some hp
        exact beq_iff_eq.1 hfound
      rw [show String.ofList cs.reverse = p.text from hkey.symm]
      exact .pure (.primitive p)
  | case4 cs hbrackets s hs hp =>
      refine (answers_typeOf s).bind fun c hc => .pure ?_
      refine .reference hs (fun p heq => ?_) (fun element heq => ?_) hc
      · rw [show s = p.text from heq, Primitive.ofText?_text] at hp
        cases hp
      · have hlist := congrArg String.toList heq
        rw [String.toList_ofList, String.toList_append] at hlist
        have hcs := congrArg List.reverse hlist
        rw [List.reverse_reverse, List.reverse_append] at hcs
        exact hbrackets _ hcs

/-- The type that a text spells is found. -/
theorem answers_resolveType (name : String) :
    cp.Answers (cp.resolveType name) (cp.Spells name) := by
  have h : cp.Answers (cp.resolveType name) _ :=
    answers_resolveReversed name.toList.reverse
  rwa [List.reverse_reverse, String.ofList_toList] at h

/-- What a method is declared to return is the type; nothing where nothing
is declared. -/
def Returns (cp : ClassPath) : Option String → Option JavaType → Prop
  | none, t => t = none
  | some name, t => cp.Spells name t

theorem answers_resolveType? (name : Option String) :
    cp.Answers (cp.resolveType? name) (cp.Returns name) := by
  cases name with
  | none => exact .pure rfl
  | some name => exact answers_resolveType name

/-- The signature is that of a declared method or constructor of a class:
the name is the declared one, and its types are those that the declaration
spells. A constructor returns its class. -/
structure Signs (cp : ClassPath) (m : MethodInfo) (signature : MethodType) :
    Prop where
  name : signature.name = m.name
  params : List.Forall₂ cp.Spells m.params signature.params
  throws : List.Forall₂ cp.Shows m.throws signature.throws
  constructs : m.name = constructorName →
    signature.returns = some (.reference signature.owner)
  returns : m.name ≠ constructorName →
    cp.Returns m.returns signature.returns

/-- The signature made of a declaration is that of the declaration. -/
theorem answers_methodType (owner : ClassType) (m : MethodInfo) :
    cp.Answers (cp.methodType owner m) fun signature =>
      signature.owner = owner ∧ cp.Signs m signature := by
  have hrest {returns : Option JavaType}
      (hconstructs : m.name = constructorName →
        returns = some (.reference owner))
      (hreturns : m.name ≠ constructorName → cp.Returns m.returns returns) :
      cp.Answers (do
        let params ← m.params.mapM cp.resolveType
        let throws ← m.throws.mapM cp.typeOf
        return (⟨owner, m.name, returns, params, throws⟩ : MethodType))
        fun signature => signature.owner = owner ∧ cp.Signs m signature :=
    (Answers.mapM fun name _ => answers_resolveType name).bind
      fun params hparams =>
        (Answers.mapM fun fqn _ => answers_typeOf fqn).bind
          fun throws hthrows =>
            .pure ⟨rfl, rfl, hparams, hthrows, hconstructs, hreturns⟩
  rw [methodType]
  split
  next hname =>
    exact Answers.bind (.pure (P := fun r => r = some (.reference owner)) rfl)
      fun returns hr => hrest (fun _ => hr) fun hne => absurd hname hne
  next hname =>
    exact (answers_resolveType? m.returns).bind fun returns hr =>
      hrest (fun heq => absurd heq hname) fun _ => hr

theorem answers_findMethod (owner : Option JavaType) (name : String)
    (arity : Nat) :
    cp.Answers (cp.findMethod owner name arity) fun _ => True := by
  unfold findMethod
  split
  next c =>
    refine (answers_typeOf c.fqn).bind fun full _ => ?_
    split
    · exact .pure trivial
    · exact (answers_methodType _ _).bind fun _ _ => .pure trivial
  next => exact .pure trivial

theorem answers_findConstructor (owner : Option JavaType) (arity : Nat) :
    cp.Answers (cp.findConstructor owner arity) fun _ => True := by
  unfold findConstructor
  split
  next c =>
    refine (answers_typeOf c.fqn).bind fun full _ => ?_
    split
    · exact .pure trivial
    · split
      · exact (answers_methodType _ _).bind fun _ _ => .pure trivial
      · split <;> exact .pure trivial
  next => exact .pure trivial

/-- What a class path may be asked. -/
inductive Question where
  | typeOf (fqn : String)
  | resolveType (name : Option String)
  | findMethod (owner : Option JavaType) (name : String) (arity : Nat)
  | findConstructor (owner : Option JavaType) (arity : Nat)

/-- What is remembered after a question. -/
def Question.memo (cp : ClassPath) (memo : Memo) : Question → Memo
  | typeOf fqn => (cp.typeOf fqn memo).2
  | resolveType name => (cp.resolveType? name memo).2
  | findMethod owner name arity => (cp.findMethod owner name arity memo).2
  | findConstructor owner arity => (cp.findConstructor owner arity memo).2

/-- What is remembered after some questions, asked one after the other. -/
def memoAfter (cp : ClassPath) (earlier : List Question) : Memo :=
  earlier.foldl (Question.memo cp) []

/-- The memory is faithful, whatever was asked before. -/
theorem faithful_memoAfter (earlier : List Question) :
    cp.Faithful (cp.memoAfter earlier) := by
  have hstep {memo : Memo} (hmemo : cp.Faithful memo) (q : Question) :
      cp.Faithful (q.memo cp memo) := by
    cases q with
    | typeOf fqn => exact (answers_typeOf fqn memo hmemo).1
    | resolveType name => exact (answers_resolveType? name memo hmemo).1
    | findMethod owner name arity =>
        exact (answers_findMethod owner name arity memo hmemo).1
    | findConstructor owner arity =>
        exact (answers_findConstructor owner arity memo hmemo).1
  have hall (earlier : List Question) {memo : Memo} (hmemo : cp.Faithful memo) :
      cp.Faithful (earlier.foldl (Question.memo cp) memo) := by
    induction earlier generalizing memo with
    | nil => exact hmemo
    | cons q earlier ih => exact ih (hstep hmemo q)
  exact hall earlier faithful_nil

/-- So a class is shown as it is declared, whatever was asked before. -/
theorem shows_typeOf (earlier : List Question) (fqn : String) :
    cp.Shows fqn (cp.typeOf fqn (cp.memoAfter earlier)).1 :=
  (answers_typeOf fqn _ (faithful_memoAfter earlier)).2

/-- Whatever was asked before, the classes above a class are met once each, the
class itself first, and declared supers lead to each of them. Where these lead
to no circle, they lead to no other names, and the type does not depend on what
was asked before. -/
theorem ancestors_typeOf (cp : ClassPath) (earlier : List Question)
    (fqn : String) : let c := (cp.typeOf fqn (cp.memoAfter earlier)).1
    (ClassType.names c.ancestors).Nodup ∧
      (ClassType.names c.ancestors).head? = some fqn ∧
      (∀ g ∈ ClassType.names c.ancestors, cp.Reaches fqn g) ∧
      ((∀ g, cp.Reaches fqn g → ¬ cp.OnCircle g) →
        (∀ g, g ∈ ClassType.names c.ancestors ↔ cp.Reaches fqn g) ∧
          ∀ earlier', (cp.typeOf fqn (cp.memoAfter earlier')).1 = c) := by
  intro c
  obtain ⟨hfqn, hunfolds⟩ : cp.Shows fqn c := shows_typeOf earlier fqn
  have hmet := c.metFrom_ancestors
  refine ⟨hmet.nodup, ?_, fun g hg => ?_, fun hoff => ?_⟩
  · rw [ClassType.names, List.head?_map,
      hmet.head?_eq (List.ne_nil_of_mem c.mem_ancestors_self),
      Option.map_some, hfqn]
  · obtain ⟨a, ha, rfl⟩ := List.mem_map.1 hg
    rw [← hfqn]
    exact reaches_of_mem_ancestors hunfolds ha
  · rw [← hfqn] at hoff
    refine ⟨fun g => ?_, fun earlier' => ?_⟩
    · rw [← hfqn]
      exact mem_names_ancestors_iff hunfolds hoff
    · obtain ⟨hfqn', hunfolds'⟩ :
          cp.Shows fqn (cp.typeOf fqn (cp.memoAfter earlier')).1 :=
        shows_typeOf earlier' fqn
      exact (hunfolds.unique hunfolds' (hfqn.trans hfqn'.symm) hoff).symm

/-- A class with a superclass and an interface that stand below one
interface. -/
def diamond : List ClassInfo :=
  [⟨"C", .ordinary, some "A", ["B"], [], []⟩,
    ⟨"A", .ordinary, some "", ["I"], [], []⟩,
    ⟨"B", .interface, none, ["I"], [⟨"m", [], none, []⟩], []⟩,
    ⟨"I", .interface, none, [], [⟨"m", [], none, ["X"]⟩], []⟩]

/-- Its classes numbered upwards. -/
def diamondRank (fqn : String) : Option Nat :=
  [("C", 3), ("A", 2), ("B", 2), ("I", 1)].lookup fqn

/-- The same classes beside two that stand above each other, and one that names
itself. -/
def besideCircle : ClassPath :=
  .ofList (diamond ++ [⟨"P", .ordinary, some "Q", ["C"], [], []⟩,
    ⟨"Q", .ordinary, some "P", ["C"], [], []⟩,
    ⟨"R", .ordinary, some "R", [], [], []⟩])

/-- After questions about the circle, the class stands below what it did
before, and a class on the circle still comes first itself. -/
theorem ancestors_typeOf_besideCircle :
    (∀ g, besideCircle.Reaches "C" g → ¬ besideCircle.OnCircle g) ∧
      (∀ g, g ∈ ["C", "A", "I", "B"] ↔ besideCircle.Reaches "C" g) ∧
      (besideCircle.typeOf "C" (besideCircle.memoAfter [])).1 =
        (besideCircle.typeOf "C"
          (besideCircle.memoAfter [.typeOf "Q", .resolveType (some "P[]")])).1 ∧
      ∀ g ∈ ["P", "Q", "C", "A", "I", "B"], besideCircle.Reaches "P" g := by
  have hoff : ∀ g, besideCircle.Reaches "C" g → ¬ besideCircle.OnCircle g :=
    not_onCircle_of_rank diamondRank (by decide +kernel) (n := 3) rfl
  have hnames : ClassType.names (besideCircle.typeOf "C" (besideCircle.memoAfter
      [.typeOf "Q", .resolveType (some "P[]")])).1.ancestors =
        ["C", "A", "I", "B"] := by
    decide +kernel
  have hcircle : ClassType.names
      (besideCircle.typeOf "P" (besideCircle.memoAfter [])).1.ancestors =
      ["P", "Q", "C", "A", "I", "B"] := by
    decide +kernel
  obtain ⟨-, -, -, hall⟩ :=
    ancestors_typeOf besideCircle [.typeOf "Q", .resolveType (some "P[]")] "C"
  obtain ⟨hiff, hsame⟩ := hall hoff
  obtain ⟨-, -, hreaches, -⟩ := ancestors_typeOf besideCircle [] "P"
  rw [hnames] at hiff
  rw [hcircle] at hreaches
  exact ⟨hoff, hiff, hsame [], hreaches⟩

end ClassPath

end JavaRefit
