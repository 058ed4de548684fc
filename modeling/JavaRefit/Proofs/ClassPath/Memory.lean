/-
What a class path remembers.

A class type shows the order of the questions only where it is cut off on
a circle, and only what was expanded in full is remembered. So memory
grows and never changes its mind: whoever asks again later is told the
same (`typeOf_lasting`), and a type that a question puts somewhere can be
named without the memory of that moment, as what the final memory says.

`Asks cp final q P`: the question `q` only adds to the memory, and when
all that it leaves remembered is so in the final memory, its answer has
the property.

Chain: after `ClassPath/Types`; read by the proofs about scopes.
-/
import JavaRefit.ClassPath.Types

namespace JavaRefit.ClassPath

-- ================================================================= memory

/-- All that is remembered is remembered later, and the same. -/
def Kept (memo memo' : Memo) : Prop :=
  ∀ fqn c, memo.lookup fqn = some c → memo'.lookup fqn = some c

theorem Kept.refl (memo : Memo) : Kept memo memo :=
  fun _ _ h => h

theorem Kept.trans {memo memo' memo'' : Memo} (h : Kept memo memo')
    (h' : Kept memo' memo'') : Kept memo memo'' :=
  fun fqn c hc => h' fqn c (h fqn c hc)

variable {cp : ClassPath} {α β : Type}

/-- Only types of declared classes are remembered, each by its name. -/
def Declares (cp : ClassPath) (memo : Memo) : Prop :=
  ∀ fqn c, memo.lookup fqn = some c → cp.contains fqn = true ∧ c.fqn = fqn

theorem declares_nil : cp.Declares [] :=
  fun _ _ h => nomatch h

/-- The question adds types of declared classes among the names, and takes
nothing away. -/
def AddsAmong (cp : ClassPath) (names : List String) (q : Query α) : Prop :=
  ∀ memo, cp.Declares memo → cp.Declares (q memo).2 ∧ Kept memo (q memo).2 ∧
    ∀ fqn ∉ names, memo.lookup fqn = none → (q memo).2.lookup fqn = none

namespace AddsAmong

variable {names : List String}

theorem pure (a : α) : cp.AddsAmong names (Pure.pure a : Query α) :=
  fun memo h => ⟨h, .refl memo, fun _ _ hnone => hnone⟩

theorem bind {q : Query α} {f : α → Query β} (hq : cp.AddsAmong names q)
    (hf : ∀ a, cp.AddsAmong names (f a)) : cp.AddsAmong names (q >>= f) := by
  intro memo h
  obtain ⟨hdeclares, hkept, hnames⟩ := hq memo h
  obtain ⟨hdeclares', hkept', hnames'⟩ := hf (q memo).1 (q memo).2 hdeclares
  exact ⟨hdeclares', hkept.trans hkept', fun fqn hfqn hnone =>
    hnames' fqn hfqn (hnames fqn hfqn hnone)⟩

theorem mapM {f : α → Query β} (h : ∀ a, cp.AddsAmong names (f a))
    (as : List α) : cp.AddsAmong names (as.mapM f) := by
  induction as with
  | nil => exact .pure []
  | cons a as ih =>
      rw [List.mapM_cons]
      exact (h a).bind fun b => ih.bind fun bs => .pure (b :: bs)

end AddsAmong

-- ======================================================= class types made

theorem bind_apply (q : Query α) (f : α → Query β) (memo : Memo) :
    (q >>= f) memo = f (q memo).1 (q memo).2 := rfl

/-- The type of a declared class, where only some names may still be
expanded. -/
def expand (cp : ClassPath) (rest : List String) (fqn : String)
    (info : ClassInfo) : Query ClassType := do
  let supertype ← match info.supertype with
    | none => pure none
    | some s => if s = "" ∨ s = fqn then pure none else some <$> cp.build rest s
  let interfaces ← info.interfaces.mapM fun i => cp.build rest i
  return .mk fqn supertype interfaces info.kind

/-- How a class is built: as remembered; alone, if nothing declares it or it is
being built already; else from its declaration. -/
theorem build_eq (pending : List String) (fqn : String) (memo : Memo) :
    cp.build pending fqn memo = match memo.lookup fqn, cp.info? fqn with
      | some c, _ => (c, memo)
      | none, none => (.bare fqn, memo)
      | none, some info =>
        if fqn ∈ pending then
          let r := cp.expand (without fqn pending) fqn info memo
          (r.1, (fqn, r.1) :: r.2)
        else (.bare fqn, memo) := by
  rw [build, bind_apply]
  cases hlookup : memo.lookup fqn with
  | some c => simp only [recalled?, hlookup]; rfl
  | none =>
      cases hinfo : cp.info? fqn with
      | none => simp only [recalled?, hlookup]; rfl
      | some info =>
          simp only [recalled?, hlookup]
          split
          · rw [expand]
            cases info.supertype with
            | none => rfl
            | some s => dsimp only; split <;> rfl
          · rfl

/-- A class that is built has the name it was asked for by. -/
theorem fqn_expand (rest : List String) (fqn : String) (info : ClassInfo)
    (memo : Memo) : (cp.expand rest fqn info memo).1.fqn = fqn := by
  rw [expand]
  cases info.supertype with
  | none => rfl
  | some s =>
      dsimp only
      split <;> rfl

/-- A type is made by adding the types above it, and then itself. -/
theorem addsAmong_build (pending : List String) (fqn : String) :
    cp.AddsAmong pending (cp.build pending fqn) := by
  generalize hn : pending.length = n
  induction n using Nat.strongRecOn generalizing pending fqn with
  | ind n ih =>
      intro memo h
      rw [build_eq]
      split
      next => exact ⟨h, .refl memo, fun _ _ hnone => hnone⟩
      next => exact ⟨h, .refl memo, fun _ _ hnone => hnone⟩
      next info hlookup hinfo =>
        split
        next hmem =>
          have hrest (s : String) : cp.AddsAmong (without fqn pending)
              (cp.build (without fqn pending) s) :=
            ih _ (hn ▸ length_without_lt hmem) _ s rfl
          have hexpand : cp.AddsAmong (without fqn pending)
              (cp.expand (without fqn pending) fqn info) := by
            have hinterfaces (supertype : Option ClassType) :
                cp.AddsAmong (without fqn pending) (do
                let interfaces ← info.interfaces.mapM fun i =>
                    cp.build (without fqn pending) i
                return ClassType.mk fqn supertype interfaces info.kind) :=
              (AddsAmong.mapM hrest info.interfaces).bind fun _ => .pure _
            rw [expand]
            cases info.supertype with
            | none => exact (AddsAmong.pure none).bind hinterfaces
            | some s =>
                dsimp only
                split
                · exact (AddsAmong.pure none).bind hinterfaces
                · exact ((hrest s).bind fun c =>
                    .pure (some c)).bind hinterfaces
          obtain ⟨hdeclares, hkept, hnames⟩ := hexpand memo h
          have hcontains : cp.contains fqn = true := by
            rw [← info?_isSome, hinfo]; rfl
          -- The name itself is not among the rest, so it is not remembered
          -- twice.
          have hself := hnames fqn (by simp [without]) hlookup
          refine ⟨?_, ?_, ?_⟩
          · intro fqn' c hc
            rw [List.lookup_cons] at hc
            split at hc
            next heq =>
              cases hc
              rw [eq_of_beq heq]
              exact ⟨hcontains, fqn_expand _ fqn info memo⟩
            next => exact hdeclares fqn' c hc
          · intro fqn' c hc
            have hc := hkept fqn' c hc
            have hne : (fqn' == fqn) = false := by
              rw [beq_eq_false_iff_ne]
              rintro rfl
              rw [hself] at hc
              cases hc
            rw [List.lookup_cons, hne]
            exact hc
          · intro fqn' hfqn' hnone
            have hne : (fqn' == fqn) = false := by
              rw [beq_eq_false_iff_ne]
              rintro rfl
              exact hfqn' hmem
            rw [List.lookup_cons, hne]
            exact hnames fqn' (fun hin => hfqn' (List.mem_filter.1 hin).1) hnone
        next => exact ⟨h, .refl memo, fun _ _ hnone => hnone⟩

section

variable {fqn : String} {memo : Memo}

/-- What is remembered is given back. -/
theorem typeOf_of_lookup {c : ClassType} (h : memo.lookup fqn = some c) :
    cp.typeOf fqn memo = (c, memo) := by
  rw [typeOf, build_eq, h]

/-- The type of a declared class is remembered once it was asked for. -/
theorem lookup_typeOf (h : cp.contains fqn = true) :
    (cp.typeOf fqn memo).2.lookup fqn = some (cp.typeOf fqn memo).1 := by
  cases hlookup : memo.lookup fqn with
  | some c => rw [typeOf_of_lookup hlookup, hlookup]
  | none =>
      have hmem : fqn ∈ cp.names := by simpa [contains, names] using h
      obtain ⟨info, hinfo⟩ :=
        Option.isSome_iff_exists.1 ((cp.info?_isSome fqn).trans h)
      simp only [typeOf, build_eq, hlookup, hinfo, if_pos hmem,
        List.lookup_cons_self]

/-- A class without a declaration stands alone. -/
theorem typeOf_of_not_contains (hmemo : cp.Declares memo)
    (h : cp.contains fqn = false) : cp.typeOf fqn memo = (.bare fqn, memo) := by
  have hlookup : memo.lookup fqn = none := by
    cases hc : memo.lookup fqn with
    | none => rfl
    | some c =>
        rw [(hmemo fqn c hc).1] at h
        cases h
  have hinfo : cp.info? fqn = none := by
    rw [← Option.isNone_iff_eq_none, ← Option.not_isSome, info?_isSome, h]
    rfl
  rw [typeOf, build_eq, hlookup, hinfo]

/-- The type that is made for a name has that name. -/
theorem fqn_typeOf_of_declares (hmemo : cp.Declares memo) :
    (cp.typeOf fqn memo).1.fqn = fqn := by
  have hdeclares := (addsAmong_build cp.names fqn memo hmemo).1
  cases h : cp.contains fqn with
  | true => exact (hdeclares fqn _ (lookup_typeOf h)).2
  | false =>
      rw [typeOf_of_not_contains hmemo h]
      rfl

end

-- ============================================================== questions

/-- The question only adds to the memory. If what it leaves remembered is so in
the final memory, its answer has the property. -/
def Asks (cp : ClassPath) (final : Memo) (q : Query α) (P : α → Prop) : Prop :=
  ∀ memo, cp.Declares memo → cp.Declares (q memo).2 ∧ Kept memo (q memo).2 ∧
    (Kept (q memo).2 final → P (q memo).1)

/-- Asked again in the end, the question has the same answer, and adds
nothing. -/
def Lasting (cp : ClassPath) (final : Memo) (q : Query α) : Prop :=
  cp.Asks final q fun a => q final = (a, final)

variable {final : Memo} {q : Query α} {f : α → Query β} {P : α → Prop}
  {Q : β → Prop}

namespace Asks

theorem pure {a : α} (h : P a) : cp.Asks final (Pure.pure a) P :=
  fun memo hmemo => ⟨hmemo, .refl memo, fun _ => h⟩

theorem bind (hq : cp.Asks final q P)
    (hf : ∀ a, cp.Asks final (f a) fun b => P a → Q b) :
    cp.Asks final (q >>= f) Q := by
  intro memo hmemo
  obtain ⟨hdeclares, hkept, hP⟩ := hq memo hmemo
  obtain ⟨hdeclares', hkept', hQ⟩ := hf (q memo).1 (q memo).2 hdeclares
  exact ⟨hdeclares', hkept.trans hkept', fun hfinal =>
    hQ hfinal (hP (hkept'.trans hfinal))⟩

theorem imp {P' : α → Prop} (hq : cp.Asks final q P) (h : ∀ a, P a → P' a) :
    cp.Asks final q P' := by
  intro memo hmemo
  obtain ⟨hdeclares, hkept, hP⟩ := hq memo hmemo
  exact ⟨hdeclares, hkept, fun hfinal => h _ (hP hfinal)⟩

/-- Questions whose answer does not matter. -/
theorem skip (hq : cp.Asks final q P) (hf : ∀ a, cp.Asks final (f a) Q) :
    cp.Asks final (q >>= f) Q :=
  hq.bind fun a => (hf a).imp fun _ h _ => h

end Asks

namespace Lasting

theorem pure (a : α) : cp.Lasting final (Pure.pure a) :=
  Asks.pure rfl

theorem bind (hq : cp.Lasting final q) (hf : ∀ a, cp.Lasting final (f a)) :
    cp.Lasting final (q >>= f) := by
  refine Asks.bind hq fun a => (hf a).imp fun b hb ha => ?_
  rw [bind_apply, ha]
  exact hb

theorem map {g : α → β} (hq : cp.Lasting final q) :
    cp.Lasting final (g <$> q) :=
  hq.bind fun a => .pure (g a)

theorem mapM (hf : ∀ a, cp.Lasting final (f a)) (as : List α) :
    cp.Lasting final (as.mapM f) := by
  induction as with
  | nil => exact .pure []
  | cons a as ih =>
      rw [List.mapM_cons]
      exact (hf a).bind fun b => ih.bind fun bs => .pure (b :: bs)

end Lasting

-- ------------------------------------------------- questions about classes

section

variable (hfinal : cp.Declares final)
include hfinal

/-- The type of a class is always the same. -/
theorem typeOf_lasting (fqn : String) : cp.Lasting final (cp.typeOf fqn) := by
  intro memo hmemo
  obtain ⟨hdeclares, hkept, -⟩ := addsAmong_build cp.names fqn memo hmemo
  refine ⟨hdeclares, hkept, fun hlast => ?_⟩
  cases h : cp.contains fqn with
  | true => exact typeOf_of_lookup (hlast fqn _ (lookup_typeOf h))
  | false => rw [typeOf_of_not_contains hmemo h,
        typeOf_of_not_contains hfinal h]

theorem resolveReversed_lasting (cs : List Char) :
    cp.Lasting final (cp.resolveReversed cs) := by
  fun_induction resolveReversed cp cs with
  | case1 element ih => exact ih.bind fun _ => .pure _
  | case2 => exact .pure none
  | case3 => exact .pure _
  | case4 cs _ s _ _ => exact (typeOf_lasting hfinal s).bind fun _ => .pure _

theorem resolveType?_lasting (o : Option String) :
    cp.Lasting final (cp.resolveType? o) := by
  cases o with
  | none => exact .pure none
  | some name => exact resolveReversed_lasting hfinal _

theorem methodType_lasting (owner : ClassType) (m : MethodInfo) :
    cp.Lasting final (cp.methodType owner m) := by
  have hrest (returns : Option JavaType) : cp.Lasting final (do
      let params ← m.params.mapM cp.resolveType
      let throws ← m.throws.mapM cp.typeOf
      return (⟨owner, m.name, returns, params, throws⟩ : MethodType)) :=
    (Lasting.mapM (fun name => resolveReversed_lasting hfinal _) m.params).bind
      fun _ =>
      (Lasting.mapM (typeOf_lasting hfinal) m.throws).bind fun _ => .pure _
  rw [methodType]
  split
  · exact (Lasting.pure _).bind hrest
  · exact (resolveType?_lasting hfinal m.returns).bind hrest

/-- Looking for a method changes no later answer. -/
theorem findMethod_lasting (owner : Option JavaType) (name : String)
    (arity : Nat) : cp.Lasting final (cp.findMethod owner name arity) := by
  unfold findMethod
  split
  next c =>
    refine (typeOf_lasting hfinal _).bind fun full => ?_
    split
    · exact .pure none
    · exact (methodType_lasting hfinal _ _).bind fun _ => .pure _
  next => exact .pure none

/-- Nor does looking for a constructor. -/
theorem findConstructor_lasting (owner : Option JavaType) (arity : Nat) :
    cp.Lasting final (cp.findConstructor owner arity) := by
  unfold findConstructor
  split
  next c =>
    refine (typeOf_lasting hfinal _).bind fun full => ?_
    split
    · exact .pure none
    · split
      · exact (methodType_lasting hfinal _ _).bind fun _ => .pure _
      · split
        · exact .pure _
        · exact .pure none
  next => exact .pure none

end

end JavaRefit.ClassPath
