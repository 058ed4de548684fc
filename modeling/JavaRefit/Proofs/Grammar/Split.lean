/-
Where one part of some tokens ends and the next one starts.

What spells a statement is not the start of anything longer that does, in
front of what goes on no statement; so two derivations of the same tokens
part them at the same places, statement by statement and clause by
clause. It is the readers that say so: each reads what is derivable, and
reads it only once.

Chain: after `Derived`; read by the proofs about derivations of the same
tokens.
-/
import Mathlib.Data.List.Forall2
import JavaRefit.Proofs.Grammar.Derived

namespace JavaRefit

open Spelling

-- ================================================================ readers

namespace Parser

variable {α : Type} {p : Parser α} {us vs xs ys : List Token} {a b : α}

/-- What is read twice from the same tokens is the same, and ends at the same
place. -/
theorem split_of_ok (h : us ++ xs = vs ++ ys) (hus : p (us ++ xs) = .ok (a, xs))
    (hvs : p (vs ++ ys) = .ok (b, ys)) : us = vs ∧ xs = ys ∧ a = b := by
  rw [h, hvs] at hus
  obtain ⟨rfl, rfl⟩ := Prod.mk.inj (Except.ok.inj hus)
  exact ⟨List.append_cancel_right h, rfl, rfl⟩

/-- Two spellings at the head of the same tokens are one, if neither can go on
where it stops. -/
theorem Complete.split {R : Spelling α} {P : Word → Bool} (hp : Complete p R P)
    (h : us ++ xs = vs ++ ys) (ha : R us a) (hb : R vs b) (hxs : Stops P xs)
    (hys : Stops P ys) :
    us = vs ∧ xs = ys ∧ a = b :=
  split_of_ok h (hp ha xs hxs) (hp hb ys hys)

/-- Tokens spell one thing at most. -/
theorem Complete.unique {R : Spelling α} {P : Word → Bool} (hp : Complete p R P)
    (ha : R us a) (hb : R us b) : a = b :=
  (hp.split (rfl : us ++ [] = us ++ []) ha hb Stops.nil Stops.nil).2.2

end Parser

-- ================================================================== lists

namespace Spelling

variable {α β : Type} {R : Spelling α} {S : Spelling β} {Q : α → β → Prop}
  {O P : Word → Bool}

/-- Elements one after the other are parted in one way only, if the first of
them is. -/
theorem Many.split (hR : ∀ ⦃us a⦄, R us a → Opens O us)
    (hS : ∀ ⦃us b⦄, S us b → Opens O us) (hOP : ∀ w, O w = true → P w = false)
    {n : Nat} (hstep : ∀ ⦃us vs xs ys a b⦄, us.length ≤ n →
      us ++ xs = vs ++ ys → R us a → S vs b →
      Stops P xs → Stops P ys → us = vs ∧ Q a b) {us vs xs ys : List Token}
    {as : List α} {bs : List β} (hlt : us.length ≤ n) (h : us ++ xs = vs ++ ys)
    (has : Many R us as) (hbs : Many S vs bs) (hxs : Stops P xs)
    (hys : Stops P ys) (hxsO : Stops O xs) (hysO : Stops O ys) :
    us = vs ∧ xs = ys ∧ List.Forall₂ Q as bs := by
  have hstops {γ : Type} {T : Spelling γ} {ws zs : List Token} {cs : List γ}
      (hT : ∀ ⦃us c⦄, T us c → Opens O us) (hcs : Many T ws cs)
        (hzs : Stops P zs) :
      Stops P (ws ++ zs) := by
    cases hcs with
    | nil => exact hzs
    | cons hc _ => exact ((hT hc).append).stops _ hOP
  have hopens {ws zs : List Token} (hws : Opens O ws) (hzs : Stops O zs)
      (h : zs = ws) : False := by
    obtain ⟨t, ws, rfl, ht⟩ := hws
    rw [h, Stops.cons, ht] at hzs
    cases hzs
  induction has generalizing vs bs with
  | nil =>
      cases hbs with
      | nil => exact ⟨rfl, h, .nil⟩
      | cons hb _ => exact (hopens ((hS hb).append.append) hxsO h).elim
  | @cons us us' a as ha has ih =>
      cases hbs with
      | nil => exact (hopens ((hR ha).append.append) hysO h.symm).elim
      | @cons vs vs' b bs hb hbs =>
          rw [List.length_append] at hlt
          rw [List.append_assoc, List.append_assoc] at h
          obtain ⟨rfl, hab⟩ :=
            hstep (by omega) h ha hb (hstops hR has hxs) (hstops hS hbs hys)
          obtain ⟨rfl, rfl, hrest⟩ :=
            ih (by omega) (List.append_cancel_left h) hbs
          exact ⟨rfl, rfl, .cons hab hrest⟩

/-- Elements that are all there is are parted in one way only, if the first of
them is. -/
theorem Many.forall₂ (hR : ∀ ⦃us a⦄, R us a → Opens O us)
    (hS : ∀ ⦃us b⦄, S us b → Opens O us) (hOP : ∀ w, O w = true → P w = false)
    {us : List Token} (hstep : ∀ ⦃vs ws xs ys a b⦄, vs.length ≤ us.length →
      vs ++ xs = ws ++ ys → R vs a → S ws b →
      Stops P xs → Stops P ys → vs = ws ∧ Q a b)
    {as : List α} {bs : List β} (has : Many R us as) (hbs : Many S us bs) :
    List.Forall₂ Q as bs :=
  (has.split hR hS hOP hstep (Nat.le_refl _) rfl hbs Stops.nil Stops.nil
    Stops.nil Stops.nil).2.2

end Spelling

end JavaRefit
