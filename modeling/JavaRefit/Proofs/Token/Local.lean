/-
How far a scanner looks ahead.

A scanner that stops somewhere would have stopped there with other text
behind: what it took depends on the first character that it left, and for
a number on whether a point there has a digit after it. So a word is
known to be cut off where it is from little of what follows.

Chain: first of the proofs about cutting; `Separated` says of whole runs
of tokens what is said of one word here.
-/
import Mathlib.Data.List.TakeWhile
import JavaRefit.Token.Scan

namespace JavaRefit.Token

-- ================================================================ trivia

/-- Blanks and comments that are over before what comes after them. -/
inductive Clean : TriviaState → List Char → Prop
  | nil : Clean .between []
  | blank {c cs} : isTriviaBlank c = true → Clean .between cs →
      Clean .between (c :: cs)
  | openLine {cs} : Clean .inLine cs → Clean .between ('/' :: '/' :: cs)
  | openBlock {cs} : Clean .inBlock cs → Clean .between ('/' :: '*' :: cs)
  | inLine {c cs} : Clean (if c = '\n' then .between else .inLine) cs →
      Clean .inLine (c :: cs)
  | closeBlock {cs} : Clean .between cs → Clean .inBlock ('*' :: '/' :: cs)
  | inBlock {c cs} : (∀ ds, c :: cs ≠ '*' :: '/' :: ds) → Clean .inBlock cs →
      Clean .inBlock (c :: cs)

/-- The trivia in front of something is over there. -/
theorem clean_spanTrivia {state : TriviaState} {cs : List Char}
    (h : (spanTrivia state cs).2 ≠ []) :
    Clean state (spanTrivia state cs).1 := by
  fun_induction spanTrivia state cs with
  | case1 => exact absurd rfl h
  | case2 cs a b hab ih =>
      rw [hab] at ih
      exact .openLine (ih h)
  | case3 cs hclosed a b hab ih =>
      rw [hab] at ih
      exact .openBlock (ih h)
  | case4 => exact .nil
  | case5 cs a b hab ih =>
      rw [hab] at ih
      exact .closeBlock (ih h)
  | case6 c cs hno a b hab ih =>
      have happ := spanTrivia_append .inBlock cs
      rw [hab] at ih happ
      refine .inBlock (fun ds hds => ?_) (ih h)
      rw [List.cons.injEq] at hds
      exact hno _ hds.1 (by rw [← happ, hds.2]; rfl)
  | case7 c cs a b hab ih =>
      rw [hab] at ih
      exact .inLine (ih h)
  | case8 c cs h₁ h₂ hblank a b hab ih =>
      rw [hab] at ih
      exact .blank hblank (ih h)
  | case9 => exact .nil

theorem closesComment_of_clean {cs : List Char} (h : Clean .inBlock cs)
    (rest : List Char) : closesComment (cs ++ rest) = true := by
  generalize hs : TriviaState.inBlock = state at h
  induction h with
  | closeBlock => rfl
  | @inBlock c cs hno _ ih =>
      rw [List.cons_append, closesComment]
      · exact ih hs
      · intro ds hc hds
        cases cs with
        | nil => cases ‹Clean _ _›
        | cons d cs =>
            rw [List.cons_append, List.cons.injEq] at hds
            exact hno cs (by rw [hc, hds.1])
  | _ => cases hs

/-- Trivia that is over does not depend on what comes after it. -/
theorem spanTrivia_append_of_clean {state : TriviaState} {cs : List Char}
    (h : Clean state cs) (rest : List Char) : spanTrivia state (cs ++ rest) =
      (cs ++ (spanTrivia .between rest).1, (spanTrivia .between rest).2) := by
  induction h with
  | nil => rfl
  | @blank c cs hc _ ih =>
      have hslash : c ≠ '/' := by rintro rfl; cases hc
      rw [List.cons_append, spanTrivia, if_pos hc, ih]
      · rfl
      all_goals intro ds h; exact absurd h hslash
  | openLine _ ih =>
      rw [List.cons_append, List.cons_append, spanTrivia, ih]
      rfl
  | openBlock h ih =>
      rw [List.cons_append, List.cons_append, spanTrivia,
        if_pos (closesComment_of_clean h rest), ih]
      rfl
  | inLine _ ih =>
      rw [List.cons_append, spanTrivia, ih]
      rfl
  | closeBlock _ ih =>
      rw [List.cons_append, List.cons_append, spanTrivia, ih]
      rfl
  | @inBlock c cs hno h ih =>
      rw [List.cons_append, spanTrivia, ih]
      · rfl
      · intro ds hc hds
        cases cs with
        | nil => cases h
        | cons d cs =>
            rw [List.cons_append, List.cons.injEq] at hds
            exact hno cs (by rw [hc, hds.1])

/-- Trivia starts with a blank or a slash. -/
theorem head_of_clean {c : Char} {cs : List Char}
    (h : Clean .between (c :: cs)) : isTriviaBlank c = true ∨ c = '/' := by
  cases h with
  | blank h _ => exact .inl h
  | openLine | openBlock => exact .inr rfl

-- ================================================================= words

/-- Text that starts like another, or is empty. -/
def StartsLike (rest' rest : List Char) : Prop :=
  ∀ c ∈ rest'.head?, c ∈ rest.head?

/-- Text that would not go on a number as its fraction. -/
def NoFraction (rest : List Char) : Prop :=
  ∀ c cs, rest = '.' :: c :: cs → Text.isDecimalDigit c = false

/-- A run of characters of a class ends where a character of another class
comes. -/
theorem span_append {p : Char → Bool} {a rest : List Char}
    (ha : ∀ c ∈ a, p c = true) (hrest : ∀ c ∈ rest.head?, p c = false) :
    (a ++ rest).takeWhile p = a ∧ (a ++ rest).dropWhile p = rest := by
  rw [List.takeWhile_append_of_pos ha, List.dropWhile_append_of_pos ha]
  cases rest with
  | nil => simp
  | cons c rest => simp [hrest c rfl]

theorem head_dropWhile {p : Char → Bool} {cs : List Char} :
    ∀ c ∈ (cs.dropWhile p).head?, p c = false := by
  intro c hc
  have h := List.head?_dropWhile_not p cs
  rw [Option.mem_def.1 hc] at h
  simpa using h

/-- The run of characters of a class in front of a text is that in front of a
text that goes on alike. -/
theorem span_local {p : Char → Bool} (cs : List Char) {rest' : List Char}
    (h : StartsLike rest' (cs.dropWhile p)) :
    (cs.takeWhile p ++ rest').takeWhile p = cs.takeWhile p ∧
      (cs.takeWhile p ++ rest').dropWhile p = rest' :=
  span_append (fun _ hc => List.mem_takeWhile_imp hc) fun c hc =>
    head_dropWhile c (h c hc)

theorem spanString_local {cs a b : List Char} (h : spanString cs = some (a, b))
    (rest : List Char) : spanString (a ++ rest) = some (a, rest) := by
  fun_induction spanString cs generalizing a b with
  | case1 => cases h
  | case2 cs =>
      cases h
      rfl
  | case3 => cases h
  | case4 c cs hc ih =>
      obtain ⟨⟨x, y⟩, hx, he⟩ := Option.map_eq_some_iff.1 h
      cases he
      rw [List.cons_append, List.cons_append, spanString, if_neg hc, ih hx]
      rfl
  | case5 => cases h
  | case6 c cs hquote hescape hc ih =>
      obtain ⟨⟨x, y⟩, hx, he⟩ := Option.map_eq_some_iff.1 h
      cases he
      have hne : c ≠ '\\' := fun h => hc (.inr h)
      rw [List.cons_append, spanString, if_neg hc, ih hx]
      · rfl
      · exact hquote
      · intro d ds hd
        exact absurd hd hne

theorem spanCharacter_local {cs a b : List Char}
    (h : spanCharacter cs = some (a, b)) (rest : List Char) :
    spanCharacter (a ++ rest) = some (a, rest) := by
  fun_cases spanCharacter cs <;> simp_all [spanCharacter] <;>
    (obtain ⟨rfl, rfl⟩ := h; simp_all)

theorem spanFraction_local {cs a b : List Char} (h : spanFraction cs = (a, b))
    {rest : List Char} (hl : StartsLike rest b) (hp : NoFraction rest) :
    spanFraction (a ++ rest) = (a, rest) := by
  have hnone : spanFraction rest = ([], rest) := by
    unfold spanFraction
    split
    next ds =>
      have hempty : (ds.takeWhile Text.isDecimalDigit).isEmpty = true := by
        cases ds with
        | nil => rfl
        | cons d ds => simp [hp d ds rfl]
      simp [hempty]
    next => rfl
  unfold spanFraction at h
  split at h
  next ds =>
    dsimp only at h
    split at h
    · cases h
      exact hnone
    next hne =>
      cases h
      obtain ⟨ht, hd⟩ := span_local ds hl
      simp only [List.cons_append, spanFraction, ht, hd, if_neg hne]
  next =>
    cases h
    exact hnone

theorem spanSuffix_local {cs a b : List Char} (h : spanSuffix cs = (a, b))
    {rest : List Char} (hl : StartsLike rest b) :
    spanSuffix (a ++ rest) = (a, rest) := by
  unfold spanSuffix at h
  split at h
  next c cs =>
    split at h
    next hc =>
      cases h
      simp [spanSuffix, hc]
    next hc =>
      cases h
      cases rest with
      | nil => rfl
      | cons d rest =>
          obtain rfl : c = d := by simpa using hl d rfl
          simp [spanSuffix, hc]
  next =>
    cases h
    cases rest with
    | nil => rfl
    | cons d rest => simpa using hl d rfl

theorem head_spanSuffix {cs a b : List Char} (h : spanSuffix cs = (a, b)) :
    a = [] ∨ ∃ c, a = [c] ∧ isNumberSuffix c = true := by
  unfold spanSuffix at h
  split at h
  · split at h <;> cases h
    next hc => exact .inr ⟨_, rfl, hc⟩
    · exact .inl rfl
  · cases h
    exact .inl rfl

theorem isDecimalDigit_of_isNumberSuffix {c : Char}
    (h : isNumberSuffix c = true) :
    Text.isDecimalDigit c = false ∧ c ≠ '.' := by
  simp only [isNumberSuffix, Bool.or_eq_true, beq_iff_eq] at h
  rcases h with ((((rfl | rfl) | rfl) | rfl) | rfl) | rfl <;>
    exact ⟨by decide, by decide⟩

theorem spanNumber_local {cs a b : List Char} (h : spanNumber cs = (a, b))
    {rest : List Char} (hl : StartsLike rest b) (hp : NoFraction rest) :
    spanNumber (a ++ rest) = (a, rest) := by
  obtain ⟨f, r, hf⟩ : ∃ f r, spanFraction (cs.dropWhile Text.isDecimalDigit) =
      (f, r) := ⟨_, _, rfl⟩
  obtain ⟨s, r', hs⟩ : ∃ s r', spanSuffix r = (s, r') := ⟨_, _, rfl⟩
  simp only [spanNumber, hf, hs, Prod.mk.injEq] at h
  obtain ⟨rfl, rfl⟩ := h
  have hfapp := spanFraction_append (cs.dropWhile Text.isDecimalDigit)
  have hsapp := spanSuffix_append r
  rw [hf] at hfapp
  rw [hs] at hsapp
  -- What follows each part starts as it did.
  have hlSuffix : StartsLike (s ++ rest) r := by
    rw [← hsapp]
    cases s with
    | nil => exact hl
    | cons c s => exact fun d hd => hd
  have hlWhole : StartsLike (f ++ (s ++ rest))
      (cs.dropWhile Text.isDecimalDigit) := by
    rw [← hfapp]
    cases f with
    | nil => exact hlSuffix
    | cons c f => exact fun d hd => hd
  have hpSuffix : NoFraction (s ++ rest) := by
    rcases head_spanSuffix hs with rfl | ⟨c, rfl, hc⟩
    · exact hp
    · intro d ds hd
      rw [List.cons_append, List.cons.injEq] at hd
      exact absurd hd.1 (isDecimalDigit_of_isNumberSuffix hc).2
  obtain ⟨ht, hd⟩ := span_local cs hlWhole
  simp only [spanNumber, List.append_assoc, ht, hd,
    spanFraction_local hf hlSuffix hpSuffix, spanSuffix_local hs hl]

theorem spanSymbol_local {cs a b : List Char} (h : spanSymbol cs = some (a, b))
    {rest : List Char} (hl : StartsLike rest b) :
    spanSymbol (a ++ rest) = some (a, rest) := by
  unfold spanSymbol at h
  split at h
  next x y cs =>
    split at h
    next hxy =>
      cases h
      simp only [List.cons_append, List.nil_append, spanSymbol, if_pos hxy]
    next hxy =>
      split at h
      next hx =>
        cases h
        cases rest with
        | nil => simp only [List.append_nil, spanSymbol, if_pos hx]
        | cons d rest =>
            obtain rfl : y = d := by simpa using hl d rfl
            simp only [List.cons_append, List.nil_append, spanSymbol,
              if_neg hxy, if_pos hx]
      next => cases h
  next x =>
    split at h
    next hx =>
      cases h
      cases rest with
      | nil => simp only [List.append_nil, spanSymbol, if_pos hx]
      | cons d rest => simpa using hl d rfl
    next => cases h
  next => cases h

/-- A word is cut off where it is, whatever comes after the first character
behind it. -/
theorem spanWord_local {w : Word} {rest rest' : List Char}
    (h : spanWord (w.text.toList ++ rest) = some (w, rest))
    (hl : StartsLike rest' rest) (hp : NoFraction rest') :
    spanWord (w.text.toList ++ rest') = some (w, rest') := by
  obtain ⟨x, xs, hx⟩ := List.exists_cons_of_ne_nil (spanWord_ne_nil h)
  rw [hx, List.cons_append, spanWord] at h ⊢
  split
  next hstart =>
    rw [if_pos hstart, Option.some.injEq, Prod.mk.injEq] at h
    obtain ⟨hword, hdrop⟩ := h
    have htake : (xs ++ rest).takeWhile isNamePart = xs := by
      have happ := List.takeWhile_append_dropWhile (p := isNamePart)
        (l := xs ++ rest)
      rw [hdrop] at happ
      exact List.append_cancel_right happ
    obtain ⟨ht, hd⟩ :=
      @span_local isNamePart (xs ++ rest) rest' (by rwa [hdrop])
    rw [htake] at ht hd hword
    rw [ht, hd, hword]
  next hstart =>
    rw [if_neg hstart] at h
    split
    next hdigit =>
      rw [if_pos hdigit] at h
      obtain ⟨a, b, hab⟩ :
          ∃ a b, spanNumber (x :: (xs ++ rest)) = (a, b) := ⟨_, _, rfl⟩
      simp only [hab, Option.some.injEq, Prod.mk.injEq] at h
      obtain ⟨rfl, rfl⟩ := h
      have ha : x :: xs = a := by simpa [Word.text] using hx.symm
      have hlocal := spanNumber_local hab hl hp
      rw [← ha, List.cons_append] at hlocal
      simp only [hlocal, ha]
    next hdigit =>
      rw [if_neg hdigit] at h
      split
      next hquote =>
        rw [if_pos hquote] at h
        obtain ⟨⟨a, b⟩, hab, he⟩ := Option.map_eq_some_iff.1 h
        cases he
        have ha : xs = a := by simpa [Word.text] using hx.symm
        rw [ha, spanString_local hab rest']
        rfl
      next hquote =>
        rw [if_neg hquote] at h
        split
        next hquote =>
          rw [if_pos hquote] at h
          obtain ⟨⟨a, b⟩, hab, he⟩ := Option.map_eq_some_iff.1 h
          cases he
          have ha : x :: xs = a := by simpa [Word.text] using hx.symm
          rw [← List.cons_append, ha, spanCharacter_local hab rest']
          rfl
        next hquote =>
          rw [if_neg hquote] at h
          obtain ⟨⟨a, b⟩, hab, he⟩ := Option.map_eq_some_iff.1 h
          cases he
          have ha : x :: xs = a := by simpa [Word.text] using hx.symm
          rw [← List.cons_append, ha, spanSymbol_local hab hl]
          rfl

end JavaRefit.Token
