/-
Results that know whether they are the thing they were made from.

An edited value is new or kept, and carries what was noted on the way. A
whole is new as soon as one of its parts is; the notes of the parts come
in order.

Chain: tree layer, before `Edit`.
-/
namespace JavaRefit

/-- A value, whether it is a new one, and notes. -/
structure Edited (ω α : Type) where
  value : α
  isNew : Bool
  notes : List ω

namespace Edited

/-- The thing itself. -/
def keep {ω α : Type} (a : α) : Edited ω α := ⟨a, false, []⟩

/-- Another thing in its place. -/
def replace {ω α : Type} (a : α) : Edited ω α := ⟨a, true, []⟩

instance {ω : Type} : Applicative (Edited ω) where
  pure := keep
  map f e := ⟨f e.value, e.isNew, e.notes⟩
  seq f e :=
    let e := e ()
    ⟨f.value e.value, f.isNew || e.isNew, f.notes ++ e.notes⟩

/-- Edits an edited value once more. -/
def andThen {ω α : Type} (e : Edited ω α) (f : α → Edited ω α) : Edited ω α :=
  let next := f e.value
  ⟨next.value, e.isNew || next.isNew, e.notes ++ next.notes⟩

@[simp] theorem value_pure {ω α : Type} (a : α) :
    (pure a : Edited ω α).value = a := rfl

@[simp] theorem isNew_pure {ω α : Type} (a : α) :
    (pure a : Edited ω α).isNew = false := rfl

@[simp] theorem value_map {ω α β : Type} (f : α → β) (e : Edited ω α) :
    (f <$> e).value = f e.value := rfl

@[simp] theorem isNew_map {ω α β : Type} (f : α → β) (e : Edited ω α) :
    (f <$> e).isNew = e.isNew := rfl

@[simp] theorem value_seq {ω α β : Type} (f : Edited ω (α → β))
    (e : Edited ω α) : (f <*> e).value = f.value e.value := rfl

@[simp] theorem isNew_seq {ω α β : Type} (f : Edited ω (α → β))
    (e : Edited ω α) : (f <*> e).isNew = (f.isNew || e.isNew) := rfl

end Edited

end JavaRefit
