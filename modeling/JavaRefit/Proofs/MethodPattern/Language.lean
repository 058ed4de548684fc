/-
What the parts of a method pattern stand for.

Each part of a pattern has a language, given on the text of the part. The
matcher goes through the items from the left and tries whatever can be
left of a text behind the front item. What can be left is what a word of
that item's language leaves, so the matcher takes the texts in the
language and no others.

Chain: first of the proofs about method patterns; `Shape` says which
texts are patterns.
-/
import Mathlib.Computability.MyhillNerode
import JavaRefit.MethodPattern.Basic

namespace JavaRefit

open scoped Computability

-- =============================================================== languages

/-- Runs of characters without a dot. -/
def dotFree : Language Char :=
  {w | '.' ∉ w}

/-- Segments: at least one character, and none of them a dot. -/
def segment : Language Char :=
  {w | w ≠ [] ∧ '.' ∉ w}

/-- Any number of segments, each with a dot after it. -/
def segmentRun : Language Char :=
  (segment * {['.']})∗

/-- The class names that the text of a class or parameter stands for. -/
def typeLanguage : List Char → Language Char
  | '.' :: '.' :: p => {['.']} * segmentRun * typeLanguage p
  | '*' :: p => dotFree * typeLanguage p
  | c :: p => {[c]} * typeLanguage p
  | [] => 1

/-- The method names that the text of a name stands for. -/
def nameLanguage : List Char → Language Char
  | '*' :: p => ⊤ * nameLanguage p
  | c :: p => {[c]} * nameLanguage p
  | [] => 1

/-- One parameter whose signature the text stands for. -/
def paramLanguage (arg : List Char) : Language String :=
  {w | ∃ signature, w = [signature] ∧ signature.toList ∈ typeLanguage arg}

/-- The lists of signatures that the texts of some parameters stand for. -/
def paramsLanguage : List (List Char) → Language String
  | ['.', '.'] :: args => ⊤ * paramsLanguage args
  | arg :: args => paramLanguage arg * paramsLanguage args
  | [] => 1

-- ================================================= words and what they leave

section Words

variable {α : Type} {l m : Language α} {P : α → Prop} {c : α} {cs rest : List α}

/-- A word of the language stands in front, and `rest` behind it. -/
def LeavesRest (l : Language α) (cs rest : List α) : Prop :=
  ∃ w ∈ l, w ++ rest = cs

/-- Nothing is read of no characters. -/
theorem leavesRest_nil_iff : LeavesRest l [] rest ↔ [] ∈ l ∧ rest = [] := by
  constructor
  · rintro ⟨w, hw, heq⟩
    obtain ⟨rfl, rfl⟩ := List.append_eq_nil_iff.1 heq
    exact ⟨hw, rfl⟩
  · rintro ⟨hnil, rfl⟩
    exact ⟨[], hnil, rfl⟩

/-- The word is empty, or the first character is its first. -/
theorem leavesRest_cons_iff :
    LeavesRest l (c :: cs) rest ↔ [] ∈ l ∧ rest = c :: cs ∨
    LeavesRest (l.leftQuotient [c]) cs rest := by
  constructor
  · rintro ⟨w, hw, heq⟩
    rcases List.append_eq_cons_iff.1 heq with ⟨rfl, rfl⟩ | ⟨w', rfl, rfl⟩
    · exact .inl ⟨hw, rfl⟩
    · exact .inr ⟨w', hw, rfl⟩
  · rintro (⟨hnil, rfl⟩ | ⟨w, hw, rfl⟩)
    · exact ⟨[], hnil, rfl⟩
    · exact ⟨c :: w, hw, rfl⟩

theorem not_leavesRest_zero : ¬ LeavesRest 0 cs rest := by
  rintro ⟨w, hw, -⟩
  exact Language.notMem_zero w hw

/-- One language behind another: the first leaves a rest in the second. -/
theorem mem_mul_iff_leavesRest : cs ∈ l * m ↔ ∃ rest, LeavesRest l cs rest ∧
    rest ∈ m := by
  rw [Language.mem_mul]
  constructor
  · rintro ⟨w, hw, rest, hrest, heq⟩
    exact ⟨rest, ⟨w, hw, heq⟩, hrest⟩
  · rintro ⟨rest, ⟨w, hw, heq⟩, hrest⟩
    exact ⟨w, hw, rest, hrest, heq⟩

/-- The first character is the second language's, or is taken off the first. -/
theorem cons_mem_mul_iff :
    c :: cs ∈ l * m ↔ [] ∈ l ∧ c :: cs ∈ m ∨ cs ∈ l.leftQuotient [c] * m := by
  rw [mem_mul_iff_leavesRest, mem_mul_iff_leavesRest]
  constructor
  · rintro ⟨rest, hrest, hm⟩
    rcases leavesRest_cons_iff.1 hrest with ⟨hnil, rfl⟩ | hrest
    · exact .inl ⟨hnil, hm⟩
    · exact .inr ⟨rest, hrest, hm⟩
  · rintro (⟨hnil, hm⟩ | ⟨rest, hrest, hm⟩)
    · exact ⟨c :: cs, leavesRest_cons_iff.2 (.inl ⟨hnil, rfl⟩), hm⟩
    · exact ⟨rest, leavesRest_cons_iff.2 (.inr hrest), hm⟩

/-- A search through all that the words of `l` leave, for something that `m`
has. -/
theorem any_eq_true_iff_mem_mul {rests : List (List α)} {f : List α → Bool}
    (hrests : ∀ rest, rest ∈ rests ↔ LeavesRest l cs rest)
    (hf : ∀ rest, LeavesRest l cs rest → (f rest = true ↔ rest ∈ m)) :
    rests.any f = true ↔ cs ∈ l * m := by
  rw [List.any_eq_true, mem_mul_iff_leavesRest]
  apply exists_congr
  intro rest
  rw [hrests]
  exact and_congr_right (hf rest)

/-- What is left after one character. -/
theorem mem_leftQuotient_singleton : cs ∈ l.leftQuotient [c] ↔ c :: cs ∈ l :=
  Iff.rfl

/-- The words of the language are the single letters with `P`. -/
def IsLetters (l : Language α) (P : α → Prop) : Prop :=
  ∀ w, w ∈ l ↔ ∃ a, w = [a] ∧ P a

theorem isLetters_singleton (c : α) : IsLetters {[c]} (c = ·) := by
  intro w
  constructor
  · rintro rfl
    exact ⟨c, rfl, rfl⟩
  · rintro ⟨a, rfl, rfl⟩
    rfl

theorem IsLetters.nil_notMem_mul (h : IsLetters l P) : [] ∉ l * m := by
  rw [Language.mem_mul]
  rintro ⟨w, hw, rest, -, heq⟩
  obtain ⟨a, rfl, -⟩ := (h w).1 hw
  cases heq

/-- One letter of a sort, then the rest. -/
theorem IsLetters.cons_mem_mul_iff (h : IsLetters l P) :
    c :: cs ∈ l * m ↔ P c ∧ cs ∈ m := by
  rw [Language.mem_mul]
  constructor
  · rintro ⟨w, hw, rest, hrest, heq⟩
    obtain ⟨a, rfl, ha⟩ := (h w).1 hw
    obtain ⟨rfl, rfl⟩ := List.cons.inj heq
    exact ⟨ha, hrest⟩
  · rintro ⟨hc, hcs⟩
    exact ⟨[c], (h [c]).2 ⟨c, rfl, hc⟩, cs, hcs, rfl⟩

end Words

-- ================================================================= classes

theorem nil_mem_dotFree : [] ∈ dotFree :=
  List.not_mem_nil

/-- A run without dots goes on after any character but a dot. -/
theorem leftQuotient_dotFree (c : Char) :
    dotFree.leftQuotient [c] = if c = '.' then 0 else dotFree := by
  apply Language.ext
  intro w
  have hcons : c :: w ∈ dotFree ↔ '.' ∉ c :: w := Iff.rfl
  rw [mem_leftQuotient_singleton, hcons, List.mem_cons, not_or, eq_comm]
  split
  case isTrue h =>
    exact iff_of_false (fun hw => hw.1 h) (Language.notMem_zero w)
  case isFalse h => exact and_iff_right h

/-- A segment goes on as a run without dots. -/
theorem leftQuotient_segment (c : Char) :
    segment.leftQuotient [c] = if c = '.' then 0 else dotFree := by
  rw [← leftQuotient_dotFree]
  apply Language.ext
  intro w
  exact and_iff_right (List.cons_ne_nil c w)

/-- The rest of a segment that has begun, its dot, and more segments. -/
def begunSegment : Language Char :=
  dotFree * ({['.']} * segmentRun)

/-- A run of segments is empty, or a segment, a dot and a run. -/
theorem segmentRun_eq : segmentRun = 1 + segment * ({['.']} * segmentRun) := by
  rw [segmentRun, ← mul_assoc, Language.one_add_self_mul_kstar_eq_kstar]

theorem nil_mem_segmentRun : [] ∈ segmentRun :=
  Language.nil_mem_kstar _

theorem nil_notMem_begunSegment : [] ∉ begunSegment := by
  rw [begunSegment, Language.mem_mul]
  rintro ⟨w, -, rest, hrest, heq⟩
  obtain ⟨-, rfl⟩ := List.append_eq_nil_iff.1 heq
  exact (isLetters_singleton '.').nil_notMem_mul hrest

/-- What is left of a run of segments after one character. -/
theorem leftQuotient_segmentRun (c : Char) :
    segmentRun.leftQuotient [c] = if c = '.' then 0 else begunSegment := by
  apply Language.ext
  intro w
  have hone : c :: w ∉ (1 : Language Char) := List.cons_ne_nil c w
  have hnil : [] ∉ segment := fun h => h.1 rfl
  rw [mem_leftQuotient_singleton, segmentRun_eq, Language.mem_add,
    or_iff_right hone, cons_mem_mul_iff, or_iff_right fun h => hnil h.1,
    leftQuotient_segment]
  split
  case isTrue => rw [zero_mul]
  case isFalse => rfl

/-- What is left of a run inside a segment after one character. -/
theorem leftQuotient_begunSegment (c : Char) :
    begunSegment.leftQuotient [c] = if c = '.' then segmentRun
      else begunSegment := by
  apply Language.ext
  intro w
  rw [mem_leftQuotient_singleton, begunSegment, cons_mem_mul_iff,
    and_iff_right nil_mem_dotFree, (isLetters_singleton '.').cons_mem_mul_iff,
    leftQuotient_dotFree]
  by_cases h : c = '.'
  · rw [if_pos h, if_pos h, zero_mul, or_iff_left (Language.notMem_zero w)]
    exact and_iff_right h.symm
  · rw [if_neg h, if_neg h, or_iff_right fun hw => h hw.1.symm]

namespace TypeGlob

/-- What a run without dots leaves. -/
theorem mem_afterRun_iff {rest cs : List Char} : rest ∈ afterRun cs ↔
    LeavesRest dotFree cs rest := by
  induction cs with
  | nil => rw [leavesRest_nil_iff, afterRun, List.mem_singleton,
        and_iff_right nil_mem_dotFree]
  | cons c cs ih =>
      rw [leavesRest_cons_iff, and_iff_right nil_mem_dotFree,
        leftQuotient_dotFree, afterRun, List.mem_cons]
      split
      case isTrue =>
        rw [or_iff_left List.not_mem_nil, or_iff_left not_leavesRest_zero]
      case isFalse => rw [ih]

/-- What a run of segments leaves, inside a segment or not. -/
theorem mem_afterSegments_iff {inside : Bool} {rest cs : List Char} :
    rest ∈ afterSegments inside cs ↔
      LeavesRest (if inside then begunSegment else segmentRun) cs rest := by
  induction cs generalizing inside with
  | nil =>
      rw [leavesRest_nil_iff, afterSegments]
      cases inside with
      | true => exact iff_of_false List.not_mem_nil fun h =>
            nil_notMem_begunSegment h.1
      | false =>
          show rest ∈ [[]] ↔ [] ∈ segmentRun ∧ rest = []
          rw [List.mem_singleton, and_iff_right nil_mem_segmentRun]
  | cons c cs ih =>
      have hmore := @ih true
      have hnext := @ih false
      rw [if_pos rfl] at hmore
      rw [if_neg Bool.false_ne_true] at hnext
      rw [leavesRest_cons_iff, afterSegments, List.mem_append]
      cases inside with
      | true =>
          show rest ∈ [] ∨
              rest ∈ (if c = '.' then afterSegments false cs
                else afterSegments true cs) ↔
            [] ∈ begunSegment ∧ rest = c :: cs ∨
              LeavesRest (begunSegment.leftQuotient [c]) cs rest
          rw [leftQuotient_begunSegment, or_iff_right List.not_mem_nil,
            or_iff_right fun h => nil_notMem_begunSegment h.1]
          split
          case isTrue => exact hnext
          case isFalse => exact hmore
      | false =>
          show rest ∈ [c :: cs] ∨ rest ∈
            (if c = '.' then [] else afterSegments true cs) ↔
            [] ∈ segmentRun ∧ rest = c :: cs ∨
            LeavesRest (segmentRun.leftQuotient [c]) cs rest
          rw [leftQuotient_segmentRun, List.mem_singleton,
            and_iff_right nil_mem_segmentRun]
          split
          case isTrue =>
            rw [or_iff_left List.not_mem_nil, or_iff_left not_leavesRest_zero]
          case isFalse => rw [hmore]

variable {gs : List TypeGlob} {l : Language Char}

/-- A literal part matches its character. -/
theorem matches?_literal_iff (c : Char)
    (ih : ∀ cs, matches? gs cs = true ↔ cs ∈ l) (cs : List Char) :
    matches? (literal c :: gs) cs = true ↔ cs ∈ {[c]} * l := by
  cases cs with
  | nil =>
      exact iff_of_false Bool.false_ne_true
        (isLetters_singleton c).nil_notMem_mul
  | cons x xs =>
      rw [matches?, Bool.and_eq_true, beq_iff_eq, ih,
        (isLetters_singleton c).cons_mem_mul_iff]

/-- A star matches a run without dots. -/
theorem matches?_inSegment_iff (ih : ∀ cs, matches? gs cs = true ↔ cs ∈ l)
    (cs : List Char) :
    matches? (inSegment :: gs) cs = true ↔ cs ∈ dotFree * l := by
  rw [matches?]
  exact any_eq_true_iff_mem_mul (fun _ => mem_afterRun_iff)
    fun rest _ => ih rest

/-- Two dots match a run of segments. -/
theorem matches?_segments_iff (ih : ∀ cs, matches? gs cs = true ↔ cs ∈ l)
    (cs : List Char) :
    matches? (segments :: gs) cs = true ↔ cs ∈ {['.']} * segmentRun * l := by
  rw [mul_assoc]
  cases cs with
  | nil =>
      exact iff_of_false Bool.false_ne_true
        (isLetters_singleton '.').nil_notMem_mul
  | cons x xs =>
      rw [(isLetters_singleton '.').cons_mem_mul_iff]
      by_cases hx : x = '.'
      · rw [hx, and_iff_right rfl, matches?]
        exact any_eq_true_iff_mem_mul (fun _ => mem_afterSegments_iff)
          fun rest _ => ih rest
      · rw [matches?]
        · exact iff_of_false Bool.false_ne_true fun h => hx h.1.symm
        · intro cs heq
          exact hx (List.cons.inj heq).1

/-- Items read from a text take the class names that the text stands for. -/
theorem matches?_ofChars_iff (p cs : List Char) :
    matches? (ofChars p) cs = true ↔ cs ∈ typeLanguage p := by
  induction p using ofChars.induct generalizing cs with
  | case1 p ih =>
      rw [ofChars, typeLanguage]
      exact matches?_segments_iff ih cs
  | case2 p ih =>
      rw [ofChars, typeLanguage]
      exact matches?_inSegment_iff ih cs
  | case3 c p hdots hstar ih =>
      rw [ofChars, typeLanguage]
      · exact matches?_literal_iff c ih cs
      all_goals assumption
  | case4 => rw [ofChars, typeLanguage, matches?, List.isEmpty_iff,
        Language.mem_one]

end TypeGlob

-- ==================================================== names and parameters

namespace NameGlob

/-- What a run of any characters leaves of a text in one line. -/
theorem mem_afterRun_iff {rest cs : List Char} (h : '\n' ∉ cs) :
    rest ∈ afterRun cs ↔ LeavesRest ⊤ cs rest := by
  induction cs with
  | nil =>
      rw [leavesRest_nil_iff, afterRun, List.mem_singleton]
      exact (and_iff_right trivial).symm
  | cons c cs ih =>
      rw [List.mem_cons, not_or] at h
      rw [leavesRest_cons_iff, afterRun, List.mem_cons,
        if_neg (Ne.symm h.1), ih h.2]
      exact or_congr_left (and_iff_right trivial).symm

/-- Items read from a text take the names in one line that the text stands
for. -/
theorem matches?_ofChars_iff (p : List Char) {cs : List Char} (h : '\n' ∉ cs) :
    matches? (ofChars p) cs = true ↔ cs ∈ nameLanguage p := by
  induction p using nameLanguage.induct generalizing cs with
  | case1 p ih =>
      apply any_eq_true_iff_mem_mul (fun _ => mem_afterRun_iff h)
      rintro rest ⟨w, -, rfl⟩
      exact ih fun hrest => h (List.mem_append_right w hrest)
  | case2 c p hstar ih =>
      have hc : c ≠ '*' := fun heq => hstar heq
      rw [ofChars, List.map_cons, if_neg hc, ← ofChars, nameLanguage]
      · cases cs with
        | nil =>
            exact iff_of_false Bool.false_ne_true
              (isLetters_singleton c).nil_notMem_mul
        | cons x xs =>
            rw [List.mem_cons, not_or] at h
            rw [matches?, Bool.and_eq_true, beq_iff_eq, ih h.2,
              (isLetters_singleton c).cons_mem_mul_iff]
      · exact hstar
  | case3 =>
      rw [ofChars, List.map_nil, nameLanguage, matches?, List.isEmpty_iff,
        Language.mem_one]

end NameGlob

namespace ParamGlob

theorem mem_afterRun_iff {rest params : List String} :
    rest ∈ afterRun params ↔ LeavesRest ⊤ params rest := by
  induction params with
  | nil =>
      rw [leavesRest_nil_iff, afterRun, List.mem_singleton]
      exact (and_iff_right trivial).symm
  | cons c cs ih =>
      rw [leavesRest_cons_iff, afterRun, List.mem_cons, ih]
      exact or_congr_left (and_iff_right trivial).symm

/-- A parameter is matched by one type. -/
theorem isLetters_paramLanguage (arg : List Char) :
    IsLetters (paramLanguage arg) fun s => s.toList ∈ typeLanguage arg :=
  fun _ => Iff.rfl

/-- The part that a text between commas spells. -/
def ofChars (arg : List Char) : ParamGlob :=
  if arg = ['.', '.'] then anyRun else one (TypeGlob.ofChars arg)

/-- Parts read from texts take the signatures that the texts stand for. -/
theorem matches?_ofChars_iff (args : List (List Char)) (params : List String) :
    matches? (args.map ofChars) params = true ↔
    params ∈ paramsLanguage args := by
  induction args using paramsLanguage.induct generalizing params with
  | case1 args ih =>
      rw [List.map_cons, ofChars, if_pos rfl, matches?, paramsLanguage]
      exact any_eq_true_iff_mem_mul (fun _ => mem_afterRun_iff)
        fun rest _ => ih rest
  | case2 arg args hdots ih =>
      rw [List.map_cons, ofChars, if_neg hdots, paramsLanguage]
      · cases params with
        | nil =>
            exact iff_of_false Bool.false_ne_true
              (isLetters_paramLanguage arg).nil_notMem_mul
        | cons s params =>
            rw [matches?, Bool.and_eq_true, TypeGlob.matches?_ofChars_iff, ih,
              (isLetters_paramLanguage arg).cons_mem_mul_iff]
      · exact hdots
  | case3 => rw [List.map_nil, matches?, paramsLanguage, List.isEmpty_iff,
        Language.mem_one]

end ParamGlob

end JavaRefit
