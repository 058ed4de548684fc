/-
Computations that may come to nothing, one after the other.

Two in a row come to nothing if the first does, or else if the second
does with what the first came to. Of many in a row the first that comes to
nothing decides, after all before it came to something.

Chain: before the proofs about documents, options and commands.
-/
import Mathlib.Data.List.Forall2

namespace JavaRefit

namespace Except

variable {ε α β : Type} {x : Except ε α} {f : α → Except ε β}

/-- A computation that comes to its end after another had to end first. -/
theorem bind_eq_ok {b : β} : x >>= f = .ok b ↔ ∃ a,
    x = .ok a ∧ f a = .ok b := by
  cases x with
  | error e => exact ⟨fun h => (nomatch h), fun ⟨_, h, _⟩ => (nomatch h)⟩
  | ok a => exact ⟨fun h => ⟨a, rfl, h⟩, fun ⟨_, h, h'⟩ => Except.ok.inj h ▸ h'⟩

/-- A computation after another comes to nothing where one of the two does. -/
theorem bind_eq_error {e : ε} :
    x >>= f = .error e ↔ x = .error e ∨ ∃ a, x = .ok a ∧ f a = .error e := by
  cases x with
  | error e' =>
      refine ⟨fun h => .inl (congrArg _ (Except.error.inj h)), fun h => ?_⟩
      rcases h with h | ⟨a, h, -⟩
      · exact congrArg _ (Except.error.inj h)
      · cases h
  | ok a =>
      refine ⟨fun h => .inr ⟨a, rfl, h⟩, fun h => ?_⟩
      rcases h with h | ⟨a', h, h'⟩
      · cases h
      · exact Except.ok.inj h ▸ h'

end Except

variable {ε α β : Type} {f : α → Except ε β} {as : List α}

/-- Computations that agree on each item agree on all in a row. -/
theorem mapM_congr {m : Type → Type} [Monad m] [LawfulMonad m] {f g : α → m β}
    (h : ∀ a ∈ as, f a = g a) : as.mapM f = as.mapM g := by
  induction as with
  | nil => rfl
  | cons a as ih =>
      obtain ⟨ha, has⟩ := List.forall_mem_cons.1 h
      rw [List.mapM_cons, List.mapM_cons, ha, ih has]

/-- Computations one after the other come to what each of them comes to, in
order. -/
theorem mapM_eq_ok_iff {bs : List β} :
    as.mapM f = .ok bs ↔ List.Forall₂ (fun a b => f a = .ok b) as bs := by
  induction as generalizing bs with
  | nil =>
      rw [List.mapM_nil, List.forall₂_nil_left_iff]
      exact ⟨fun h => (Except.ok.inj h).symm, fun h => h ▸ rfl⟩
  | cons a as ih =>
      rw [List.mapM_cons, Except.bind_eq_ok, List.forall₂_cons_left_iff]
      constructor
      · rintro ⟨b, hb, h⟩
        obtain ⟨bs, hbs, h⟩ := Except.bind_eq_ok.1 h
        exact ⟨b, bs, hb, ih.1 hbs, (Except.ok.inj h).symm⟩
      · rintro ⟨b, bs, hb, hbs, rfl⟩
        exact ⟨b, hb, Except.bind_eq_ok.2 ⟨bs, ih.2 hbs, rfl⟩⟩

/-- So do computations that do not say why they come to nothing. -/
theorem mapM_eq_some_iff {g : α → Option β} {bs : List β} :
    as.mapM g = some bs ↔ List.Forall₂ (fun a b => g a = some b) as bs := by
  induction as generalizing bs with
  | nil =>
      rw [List.mapM_nil, List.forall₂_nil_left_iff]
      exact ⟨fun h => (Option.some.inj h).symm, fun h => h ▸ rfl⟩
  | cons a as ih =>
      rw [List.mapM_cons, List.forall₂_cons_left_iff]
      constructor
      · intro h
        obtain ⟨b, hb, h⟩ := Option.bind_eq_some_iff.1 h
        obtain ⟨bs, hbs, h⟩ := Option.bind_eq_some_iff.1 h
        exact ⟨b, bs, hb, ih.1 hbs, (Option.some.inj h).symm⟩
      · rintro ⟨b, bs, hb, hbs, rfl⟩
        exact Option.bind_eq_some_iff.2 ⟨b, hb,
          Option.bind_eq_some_iff.2 ⟨bs, ih.2 hbs, rfl⟩⟩

/-- What holds of each result holds of the results in a row. -/
theorem forall₂_of_mapM_eq_some {g : α → Option β} {R : α → β → Prop}
    {bs : List β} (hR : ∀ a ∈ as, ∀ b, g a = some b → R a b)
    (h : as.mapM g = some bs) :
    List.Forall₂ R as bs := by
  replace h := mapM_eq_some_iff.1 h
  induction h with
  | nil => exact .nil
  | cons hb _ ih =>
      obtain ⟨ha, has⟩ := List.forall_mem_cons.1 hR
      exact .cons (ha _ hb) (ih has)

/-- Where each comes to something, so do all in a row. -/
theorem exists_mapM_eq_some {g : α → Option β} {R : α → β → Prop}
    (h : ∀ a ∈ as, ∃ b, g a = some b ∧ R a b) :
    ∃ bs, as.mapM g = some bs ∧ List.Forall₂ R as bs := by
  induction as with
  | nil => exact ⟨[], rfl, .nil⟩
  | cons a as ih =>
      obtain ⟨⟨b, hb, hR⟩, has⟩ := List.forall_mem_cons.1 h
      obtain ⟨bs, hbs, hRs⟩ := ih has
      refine ⟨b :: bs, ?_, .cons hR hRs⟩
      rw [List.mapM_cons, hb, hbs]
      rfl

/-- What is made of each result can be made of all of them at the end. -/
theorem mapM_map_option {γ : Type} (g : α → Option β) (h : β → γ)
    (as : List α) :
    as.mapM (fun a => (g a).map h) = (as.mapM g).map (List.map h) := by
  induction as with
  | nil => rfl
  | cons a as ih =>
      rw [List.mapM_cons, List.mapM_cons, ih]
      cases g a with
      | none => rfl
      | some b => cases as.mapM g <;> rfl

/-- Where computations one after the other come to nothing, one of them does
and all before it come to something. -/
theorem mapM_eq_error_iff {e : ε} :
    as.mapM f = .error e ↔ ∃ before a after, as = before ++ a :: after ∧
      (∀ b ∈ before, ∃ c, f b = .ok c) ∧ f a = .error e := by
  induction as with
  | nil =>
      rw [List.mapM_nil]
      refine ⟨fun h => (nomatch h), fun ⟨before, a, after, h, _⟩ => ?_⟩
      cases before <;> cases h
  | cons a as ih =>
      have htail (b : β) :
          (do return b :: (← as.mapM f) : Except ε (List β)) = .error e ↔
          as.mapM f = .error e := by
        cases as.mapM f with
        | error e' => exact ⟨fun h => h, fun h => h⟩
        | ok bs => exact ⟨fun h => (nomatch h), fun h => (nomatch h)⟩
      rw [List.mapM_cons, Except.bind_eq_error]
      constructor
      · intro h
        rcases h with h | ⟨b, hb, h⟩
        · exact ⟨[], a, as, rfl, List.forall_mem_nil _, h⟩
        · obtain ⟨before, c, after, rfl, hbefore, hc⟩ := ih.1 ((htail b).1 h)
          exact ⟨a :: before, c, after, rfl,
            List.forall_mem_cons.2 ⟨⟨b, hb⟩, hbefore⟩, hc⟩
      · rintro ⟨before, c, after, h, hbefore, hc⟩
        cases before with
        | nil =>
            obtain ⟨rfl, rfl⟩ := List.cons.inj h
            exact .inl hc
        | cons b before =>
            obtain ⟨rfl, rfl⟩ := List.cons.inj h
            obtain ⟨⟨b', hb⟩, hbefore⟩ := List.forall_mem_cons.1 hbefore
            exact .inr ⟨b', hb,
              (htail b').2 (ih.2 ⟨before, c, after, rfl, hbefore, hc⟩)⟩

end JavaRefit
