/-
Trees that can be written where others are.

One tree can be written where another is when whatever tokens spell the
other, some that may be put in their place spell the one (`Rewrites`).
Lists and blocks are rewritten by rewriting their elements.

Chain: after the rules and `Refits`; renaming and the catch rule say in
these terms what they do to a file.
-/
import JavaRefit.Proofs.Token.Refits

namespace JavaRefit

namespace Spelling

variable {α : Type}

/-- The second can be written wherever the first is. -/
def Rewrites (R : Spelling α) (a b : α) : Prop :=
  ∀ us, R us a → ∃ us', R us' b ∧ Refits us us'

/-- The second element can be written where the first is, and is followed
alike. -/
def RewritesPadded (R : Spelling α) (p q : RightPadded α) : Prop :=
  q.after = p.after ∧ R.Rewrites p.element q.element

variable {R : Spelling α}

theorem Rewrites.refl (R : Spelling α) (a : α) : R.Rewrites a a :=
  fun us h => ⟨us, h, .refl us⟩

theorem Rewrites.trans {a b c : α} (hab : R.Rewrites a b)
    (hbc : R.Rewrites b c) : R.Rewrites a c := by
  intro us hus
  obtain ⟨vs, hvs, href⟩ := hab us hus
  obtain ⟨ws, hws, href'⟩ := hbc vs hvs
  exact ⟨ws, hws, href.trans href'⟩

/-- Elements between separators are rewritten one by one. -/
theorem Rewrites.padded {separator : String} {ps qs : List (RightPadded α)}
    (h : List.Forall₂ R.RewritesPadded ps qs) :
    (Padded R separator).Rewrites ps qs := by
  intro us hus
  induction hus generalizing qs with
  | last ha =>
      cases h with
      | cons hq hqs =>
          cases hqs
          rename_i q
          obtain ⟨b, after⟩ := q
          obtain ⟨rfl, hab⟩ := hq
          obtain ⟨us', hus', href⟩ := hab _ ha
          exact ⟨us', .last hus', href⟩
  | cons ha _ ih =>
      cases h with
      | cons hq hqs =>
          rename_i q qs
          obtain ⟨b, after⟩ := q
          obtain ⟨rfl, hab⟩ := hq
          obtain ⟨us', hus', href⟩ := hab _ ha
          obtain ⟨vs', hvs', href'⟩ := ih hqs
          exact ⟨_, .cons hus' hvs', href.append (href'.cons _)⟩

/-- Where the last of some elements is followed by other trivia, so is what
they are rewritten to. -/
theorem exists_closeLast {close : Trivia} {ps qs : List (RightPadded α)}
    (h : List.Forall₂ R.RewritesPadded (RightPadded.closeLast close ps) qs) :
    ∃ qs', qs = RightPadded.closeLast close qs' ∧
    List.Forall₂ R.RewritesPadded ps qs' := by
  induction ps generalizing qs with
  | nil =>
      cases h
      exact ⟨[], rfl, .nil⟩
  | cons p ps ih =>
      cases ps with
      | nil =>
          cases h with
          | cons hq hqs =>
              cases hqs
              rename_i q
              obtain ⟨b, after⟩ := q
              obtain ⟨rfl, hab⟩ := hq
              exact ⟨[⟨b, p.after⟩], rfl, .cons ⟨rfl, hab⟩ .nil⟩
      | cons p' ps =>
          cases h with
          | cons hq hqs =>
              obtain ⟨qs', rfl, hqs'⟩ := ih hqs
              cases hqs' with
              | cons hq' hqs' =>
                  exact ⟨_ :: _ :: _, rfl, .cons hq (.cons hq' hqs')⟩

/-- Elements between delimiters are rewritten one by one, the delimiters
kept. -/
theorem Rewrites.delimited {opening closing : String} {c d : Container α}
    (hbefore : d.before = c.before) (hclose : d.close = c.close)
    (h : List.Forall₂ R.RewritesPadded c.elements d.elements) :
    (Delimited R opening closing).Rewrites c d := by
  intro us hus
  obtain ⟨before, es, close⟩ := d
  dsimp only at hbefore hclose h
  subst hbefore hclose
  cases hus with
  | none =>
      cases h
      exact ⟨_, .none, .refl _⟩
  | some hps =>
      obtain ⟨qs, rfl, hqs⟩ := exists_closeLast h
      obtain ⟨us', hus', href⟩ := Rewrites.padded hqs _ hps
      exact ⟨_, .some hus', (href.append (.refl _)).cons _⟩

/-- What a keyword introduces is rewritten one by one, the keyword kept. -/
theorem Rewrites.afterKeyword {word : String} {c d : Container α}
    (hbefore : d.before = c.before) (hclose : d.close = c.close)
    (h : List.Forall₂ R.RewritesPadded c.elements d.elements) :
    (AfterKeyword R word).Rewrites (some c) (some d) := by
  intro us hus
  obtain ⟨before, es, close⟩ := d
  dsimp only at hbefore hclose h
  subst hbefore hclose
  cases hus with
  | some hps =>
      obtain ⟨us', hus', href⟩ := Rewrites.padded h _ hps
      exact ⟨_, .some hus', href.cons _⟩

/-- Elements in a row are rewritten one by one. -/
theorem Rewrites.many {as bs : List α} (h : List.Forall₂ R.Rewrites as bs) :
    (Many R).Rewrites as bs := by
  intro us hus
  induction hus generalizing bs with
  | nil =>
      cases h
      exact ⟨[], .nil, .refl []⟩
  | cons ha _ ih =>
      cases h with
      | cons hab h =>
          obtain ⟨us', hus', href⟩ := hab _ ha
          obtain ⟨vs', hvs', href'⟩ := ih h
          exact ⟨_, .cons hus' hvs', href.append href'⟩

/-- A block is rewritten element by element, its braces kept. -/
theorem Rewrites.braced {R : Spelling (RightPadded α)} {b c : Block α}
    (hlead : c.lead = b.lead) (hclose : c.close = b.close)
    (h : List.Forall₂ R.Rewrites b.statements c.statements) :
    (Braced R).Rewrites b c := by
  intro us hus
  obtain ⟨lead, ps, close⟩ := c
  dsimp only at hlead hclose h
  subst hlead hclose
  cases hus with
  | mk hps =>
      obtain ⟨us', hus', href⟩ := Rewrites.many h _ hps
      exact ⟨_, .mk hus', (href.append (.refl _)).cons _⟩

end Spelling

end JavaRefit
