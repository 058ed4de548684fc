/-
Texts and the blanks at their ends.

Blanks added at either end of a text do not change what is left when the
blanks there are dropped. The same holds of the pieces between commas:
whether the blanks at the ends of the whole are dropped first makes no
difference to the pieces without their blanks.

Chain: after `Dotted`, for what a text is cut into; read by the proofs
about the parts of method patterns.
-/
import Mathlib.Data.List.DropRight
import JavaRefit.Proofs.Text.Dotted
import JavaRefit.Text.CharClass

namespace JavaRefit.Text

variable {p : Char → Bool} {as bs cs : List Char}

-- ==================================================== where a scan stops

/-- A scan over the characters with `p` goes no further into the text. -/
def Stops (p : Char → Bool) (cs : List Char) : Prop :=
  ∀ c ∈ cs.head?, p c = false

/-- What is left after dropping characters does not begin with one of them. -/
theorem stops_dropWhile (p : Char → Bool) (cs : List Char) :
    Stops p (cs.dropWhile p) := by
  intro c hc
  have hnot := List.head?_dropWhile_not p cs
  rw [Option.mem_def.1 hc] at hnot
  exact hnot

theorem stops_append (hne : as ≠ []) (h : ∀ c ∈ as, p c = false) :
    Stops p (as ++ bs) := by
  obtain ⟨a, as, rfl⟩ := List.exists_cons_of_ne_nil hne
  rintro c ⟨⟩
  exact h a List.mem_cons_self

/-- What stops at once stops before anything is added. -/
theorem Stops.of_append (h : Stops p (as ++ bs)) : Stops p as := by
  intro c hc
  apply h
  rw [Option.mem_def, List.head?_append, Option.mem_def.1 hc]
  rfl

/-- What a scan takes and what it leaves. -/
theorem span_eq_iff :
    cs.takeWhile p = as ∧ cs.dropWhile p = bs ↔
      cs = as ++ bs ∧ (∀ c ∈ as, p c = true) ∧ Stops p bs := by
  constructor
  · rintro ⟨rfl, rfl⟩
    exact ⟨List.takeWhile_append_dropWhile.symm, fun c =>
      List.mem_takeWhile_imp, stops_dropWhile p cs⟩
  · rintro ⟨rfl, has, hbs⟩
    rw [List.takeWhile_append_of_pos has, List.dropWhile_append_of_pos has]
    cases bs with
    | nil => simp
    | cons b bs =>
        have hb : ¬ p b = true := by rw [hbs b rfl]; exact Bool.false_ne_true
        rw [List.takeWhile_cons_of_neg hb, List.dropWhile_cons_of_neg hb,
          List.append_nil]
        exact ⟨rfl, rfl⟩

-- ================================================================== blanks

/-- The text has nothing but blanks in it. -/
def AllBlank (cs : List Char) : Prop :=
  ∀ c ∈ cs, isBlank c = true

/-- Nothing is left iff all characters are blank. -/
theorem dropBlanks_eq_nil_iff : dropBlanks cs = [] ↔ AllBlank cs :=
  List.dropWhile_eq_nil_iff

theorem dropBlanks_append_left (h : AllBlank as) :
    dropBlanks (as ++ bs) = dropBlanks bs :=
  List.dropWhile_append_of_pos h

/-- What is left is the end that begins with no blank. -/
theorem dropBlanks_eq_iff :
    dropBlanks cs = bs ↔ ∃ as, cs = as ++ bs ∧ AllBlank as ∧
    Stops isBlank bs := by
  constructor
  · rintro rfl
    exact ⟨_, span_eq_iff.1 ⟨rfl, rfl⟩⟩
  · rintro ⟨as, h⟩
    exact (span_eq_iff.2 h).2

theorem trimBlanks_append_left (h : AllBlank as) :
    trimBlanks (as ++ bs) = trimBlanks bs := by
  rw [trimBlanks, trimBlanks, dropBlanks_append_left h]

theorem trimBlanks_append_right (h : AllBlank bs) :
    trimBlanks (as ++ bs) = trimBlanks as := by
  have hrev : AllBlank bs.reverse := fun c hc => h c (List.mem_reverse.1 hc)
  rw [trimBlanks, trimBlanks, dropBlanks, dropBlanks, dropBlanks, dropBlanks,
    List.dropWhile_append]
  split
  case isTrue hall =>
    have hnil : as.dropWhile isBlank = [] := List.isEmpty_iff.1 hall
    have hbs : bs.dropWhile isBlank = [] := List.dropWhile_eq_nil_iff.2 h
    rw [hnil, hbs]
  case isFalse => rw [List.reverse_append, List.dropWhile_append_of_pos hrev]

/-- What has no blank at either end is not trimmed. -/
theorem trimBlanks_of_stops (hfront : Stops isBlank cs)
    (hback : Stops isBlank cs.reverse) : trimBlanks cs = cs := by
  have hnil : AllBlank [] := fun c hc => absurd hc List.not_mem_nil
  have hdrop : dropBlanks cs = cs := dropBlanks_eq_iff.2 ⟨[], rfl, hnil, hfront⟩
  have hdrop' : dropBlanks cs.reverse = cs.reverse :=
    dropBlanks_eq_iff.2 ⟨[], rfl, hnil, hback⟩
  rw [trimBlanks, hdrop, hdrop', List.reverse_reverse]

/-- The text is `arg` between blanks, and `arg` neither begins nor ends with
one. -/
def Pads (cs arg : List Char) : Prop :=
  ∃ before after, cs = before ++ arg ++ after ∧ AllBlank before ∧
    AllBlank after ∧ Stops isBlank arg ∧ Stops isBlank arg.reverse

/-- Characters are the trimmed ones with blanks around them. -/
theorem pads_trimBlanks (cs : List Char) : Pads cs (trimBlanks cs) := by
  obtain ⟨before, hcs, hbefore, hfront⟩ :=
    dropBlanks_eq_iff.1 (Eq.refl (dropBlanks cs))
  obtain ⟨after, hrev, hafter, hback⟩ :=
    dropBlanks_eq_iff.1 (Eq.refl (dropBlanks (dropBlanks cs).reverse))
  have hdrop : dropBlanks cs = trimBlanks cs ++ after.reverse := by
    rw [trimBlanks, ← List.reverse_append, ← hrev, List.reverse_reverse]
  refine ⟨before, after.reverse, ?_, hbefore, ?_, ?_, ?_⟩
  · rw [List.append_assoc, ← hdrop]
    exact hcs
  · exact fun c hc => hafter c (List.mem_reverse.1 hc)
  · rw [hdrop] at hfront
    exact hfront.of_append
  · rw [trimBlanks, List.reverse_reverse]
    exact hback

/-- Trimming finds the one part without blanks at its ends. -/
theorem trimBlanks_eq_iff {arg : List Char} : trimBlanks cs = arg ↔
    Pads cs arg := by
  constructor
  · rintro rfl
    exact pads_trimBlanks cs
  · rintro ⟨before, after, rfl, hbefore, hafter, hfront, hback⟩
    rw [trimBlanks_append_right hafter, trimBlanks_append_left hbefore,
      trimBlanks_of_stops hfront hback]

/-- Nothing is left iff all characters are blank. -/
theorem trimBlanks_eq_nil_iff : trimBlanks cs = [] ↔ AllBlank cs := by
  constructor
  · intro h
    obtain ⟨before, after, hcs, hbefore, hafter, -⟩ := trimBlanks_eq_iff.1 h
    rw [List.append_nil] at hcs
    rintro c hc
    rw [hcs] at hc
    exact (List.mem_append.1 hc).elim (hbefore c) (hafter c)
  · intro h
    rw [← List.append_nil cs, trimBlanks_append_left h]
    rfl

-- ========================================================== pieces of a list

variable {sep : Char}

/-- A text without separators in front lengthens the first piece. -/
theorem splitAtEach_append_left (cs : List Char) (h : sep ∉ as) :
    ∃ piece pieces, splitAtEach sep cs = piece :: pieces ∧
      splitAtEach sep (as ++ cs) = (as ++ piece) :: pieces := by
  induction as with
  | nil =>
      obtain ⟨piece, pieces, hcs⟩ :=
        List.exists_cons_of_ne_nil (splitAtEach_ne_nil sep cs)
      exact ⟨piece, pieces, hcs, hcs⟩
  | cons a as ih =>
      rw [List.mem_cons, not_or] at h
      obtain ⟨piece, pieces, hcs, happend⟩ := ih h.2
      refine ⟨piece, pieces, hcs, ?_⟩
      rw [List.cons_append, splitAtEach, if_neg (Ne.symm h.1), happend]
      rfl

/-- A text without separators behind lengthens the last piece. -/
theorem splitAtEach_append_right (cs : List Char) (h : sep ∉ bs) :
    ∃ pieces piece, splitAtEach sep cs = pieces ++ [piece] ∧
      splitAtEach sep (cs ++ bs) = pieces ++ [piece ++ bs] := by
  induction cs with
  | nil => exact ⟨[], [], rfl, splitAtEach_of_not_mem h⟩
  | cons c cs ih =>
      obtain ⟨pieces, piece, hcs, happend⟩ := ih
      rw [List.cons_append, splitAtEach, splitAtEach, hcs, happend]
      split
      case isTrue => exact ⟨[] :: pieces, piece, rfl, rfl⟩
      case isFalse =>
        cases pieces with
        | nil => exact ⟨[], c :: piece, rfl, rfl⟩
        | cons first pieces => exact ⟨(c :: first) :: pieces, piece, rfl, rfl⟩

/-- A comma is no blank. -/
theorem AllBlank.comma_notMem (h : AllBlank cs) : ',' ∉ cs := by
  intro hmem
  have hblank : isBlank ',' = true := h ',' hmem
  revert hblank
  decide

/-- Dropping the blanks at the ends of the whole first makes no difference to
the pieces without theirs. -/
theorem map_trimBlanks_splitAtEach (cs : List Char) :
    (splitAtEach ',' (trimBlanks cs)).map trimBlanks =
      (splitAtEach ',' cs).map trimBlanks := by
  obtain ⟨before, after, hcs, hbefore, hafter, -, -⟩ := pads_trimBlanks cs
  obtain ⟨first, pieces, htrim, hfront⟩ :=
    splitAtEach_append_left (trimBlanks cs) hbefore.comma_notMem
  obtain ⟨pieces', last, happend, hback⟩ :=
    splitAtEach_append_right (before ++ trimBlanks cs) hafter.comma_notMem
  calc (splitAtEach ',' (trimBlanks cs)).map trimBlanks
      = (splitAtEach ',' (before ++ trimBlanks cs)).map trimBlanks := by
        rw [htrim, hfront, List.map_cons, List.map_cons,
          trimBlanks_append_left hbefore]
    _ = (splitAtEach ',' (before ++ trimBlanks cs ++ after)).map
      trimBlanks := by
        rw [happend, hback, List.map_append, List.map_append,
          List.map_singleton, List.map_singleton,
          trimBlanks_append_right hafter]
    _ = (splitAtEach ',' cs).map trimBlanks := by rw [← hcs]

/-- The texts between the commas, each without its blanks, and none of them
empty. -/
inductive Lists : List Char → List (List Char) → Prop
  | last {piece arg : List Char} :
      Pads piece arg → arg ≠ [] → ',' ∉ piece → Lists piece [arg]
  | more {piece arg rest : List Char} {args : List (List Char)} :
      Pads piece arg → arg ≠ [] → ',' ∉ piece → Lists rest args →
        Lists (piece ++ ',' :: rest) (arg :: args)

/-- A list is its parts between commas, trimmed and none empty. -/
theorem lists_iff {args : List (List Char)} :
    Lists cs args ↔ (splitAtEach ',' cs).map trimBlanks = args ∧ [] ∉ args := by
  constructor
  · intro h
    induction h with
    | last hpads hne hcomma =>
        rw [splitAtEach_of_not_mem hcomma, List.map_singleton,
          trimBlanks_eq_iff.2 hpads]
        exact ⟨rfl, fun hmem => hne (List.mem_singleton.1 hmem).symm⟩
    | more hpads hne hcomma _ ih =>
        rw [splitAtEach_append, splitAtEach_of_not_mem hcomma, List.map_append,
          List.map_singleton, trimBlanks_eq_iff.2 hpads, ih.1,
          List.mem_cons, not_or]
        exact ⟨rfl, hne.symm, ih.2⟩
  · rintro ⟨hargs, hne⟩
    induction args generalizing cs with
    | nil =>
        exact absurd (List.map_eq_nil_iff.1 hargs) (splitAtEach_ne_nil ',' cs)
    | cons arg args ih =>
        rw [List.mem_cons, not_or] at hne
        by_cases hmem : ',' ∈ cs
        · obtain ⟨piece, rest, rfl, hcomma⟩ := List.eq_append_cons_of_mem hmem
          rw [splitAtEach_append, splitAtEach_of_not_mem hcomma,
            List.map_append, List.map_singleton] at hargs
          obtain ⟨harg, hargs⟩ := List.cons.inj hargs
          exact .more (trimBlanks_eq_iff.1 harg) (Ne.symm hne.1) hcomma
            (ih hargs hne.2)
        · rw [splitAtEach_of_not_mem hmem, List.map_singleton] at hargs
          obtain ⟨harg, rfl⟩ := List.cons.inj hargs
          exact .last (trimBlanks_eq_iff.1 harg) (Ne.symm hne.1) hmem

end JavaRefit.Text
