/-
Dotted names and their segments.

A text is cut at every separator, so two texts with a separator between
them are cut into the pieces of the one and the pieces of the other; the
simple name of a dotted name is its last segment.

Chain: first of the proofs about texts; read where dotted names are
written and looked up.
-/
import Mathlib.Data.List.TakeWhile
import JavaRefit.Text.Dotted

namespace JavaRefit.Text

variable {sep : Char} {cs : List Char}

/-- There is always a part, perhaps an empty one. -/
theorem splitAtEach_ne_nil (sep : Char) (cs : List Char) :
    splitAtEach sep cs ≠ [] := by
  cases cs with
  | nil => exact List.cons_ne_nil _ _
  | cons c cs =>
      rw [splitAtEach]
      split
      · exact List.cons_ne_nil _ _
      · split <;> exact List.cons_ne_nil _ _

/-- Two texts with a separator between them. -/
theorem splitAtEach_append (sep : Char) (as bs : List Char) :
    splitAtEach sep (as ++ sep :: bs) =
      splitAtEach sep as ++ splitAtEach sep bs := by
  induction as with
  | nil => simp [splitAtEach]
  | cons a as ih =>
      rw [List.cons_append, splitAtEach, splitAtEach, ih]
      split
      · rfl
      · cases h : splitAtEach sep as with
        | nil => exact absurd h (splitAtEach_ne_nil sep as)
        | cons p ps => rfl

/-- A text without a separator. -/
theorem splitAtEach_of_not_mem (h : sep ∉ cs) : splitAtEach sep cs = [cs] := by
  induction cs with
  | nil => rfl
  | cons c cs ih =>
      rw [List.mem_cons, not_or] at h
      rw [splitAtEach, if_neg (Ne.symm h.1), ih h.2]

/-- A name without a dot, or one with a last dot in it. -/
theorem last_dot_cases (name : String) :
    '.' ∉ name.toList ∨
      ∃ as bs, name.toList = as ++ '.' :: bs ∧ '.' ∉ bs ∧
      packageName name = String.ofList as ∧
        simpleName name = String.ofList bs := by
  have hsplit := List.takeWhile_append_dropWhile (p := (· != '.'))
    (l := name.toList.reverse)
  have hbs : '.' ∉ name.toList.reverse.takeWhile (· != '.') := fun h => by
    have hne := List.mem_takeWhile_imp h
    simp at hne
  cases hdrop : name.toList.reverse.dropWhile (· != '.') with
  | nil =>
      rw [hdrop, List.append_nil] at hsplit
      rw [hsplit, List.mem_reverse] at hbs
      exact .inl hbs
  | cons d ds =>
      obtain rfl : d = '.' := by
        have hd := List.head?_dropWhile_not (· != '.') name.toList.reverse
        rw [hdrop] at hd
        simpa using hd
      refine .inr ⟨ds.reverse,
        (name.toList.reverse.takeWhile (· != '.')).reverse, ?_, ?_, ?_, rfl⟩
      · rw [hdrop] at hsplit
        have hrev := congrArg List.reverse hsplit
        rw [List.reverse_reverse, List.reverse_append, List.reverse_cons,
          List.append_assoc] at hrev
        exact hrev.symm
      · rwa [List.mem_reverse]
      · rw [packageName, hdrop]
        rfl

/-- The simple name is the last segment. -/
theorem segments_eq (name : String) :
    segments name = [simpleName name] ∧ simpleName name = name ∧
    packageName name = "" ∨
      segments name = segments (packageName name) ++ [simpleName name] ∧
        packageName name ++ "." ++ simpleName name = name := by
  rcases last_dot_cases name with h | ⟨as, bs, hname, hbs, hpackage, hsimple⟩
  · have hall : ∀ c ∈ name.toList.reverse, (c != '.') = true := fun c hc =>
      bne_iff_ne.2 fun he => h (he ▸ List.mem_reverse.1 hc)
    have hsimple : simpleName name = name := by
      rw [simpleName, List.takeWhile_eq_self_iff.2 hall, List.reverse_reverse,
        String.ofList_toList]
    refine .inl ⟨?_, hsimple, ?_⟩
    · rw [segments, splitAtEach_of_not_mem h, hsimple, List.map_singleton,
        String.ofList_toList]
    · rw [packageName, List.dropWhile_eq_nil_iff.2 hall]
      rfl
  · refine .inr ⟨?_, ?_⟩
    · rw [segments, segments, hname, splitAtEach_append,
        splitAtEach_of_not_mem hbs, hpackage, hsimple, String.toList_ofList,
        List.map_append, List.map_singleton]
    · apply String.toList_injective
      rw [hpackage, hsimple, hname]
      simp

/-- The simple name is one of the segments. -/
theorem simpleName_mem_segments (name : String) :
    simpleName name ∈ segments name := by
  rcases segments_eq name with ⟨h, -⟩ | ⟨h, -⟩ <;> rw [h] <;> simp

-- ============================================================ simple names

/-- The simple name of what ends in another name behind a dot is that of the
other name. -/
theorem simpleName_of_toList_eq {name last : String} {as : List Char}
    (h : name.toList = as ++ '.' :: last.toList) :
    simpleName name = simpleName last := by
  rw [simpleName, simpleName, h, List.reverse_append, List.reverse_cons,
    List.append_assoc]
  congr 2
  generalize last.toList.reverse = cs
  induction cs with
  | nil => rfl
  | cons c cs ih =>
      rw [List.cons_append, List.takeWhile_cons, List.takeWhile_cons, ih]

/-- The simple name is what stands behind the last dot. -/
theorem simpleName_append (outer last : String) :
    simpleName (outer ++ "." ++ last) = simpleName last := by
  have hlist : (outer ++ "." ++ last).toList =
      outer.toList ++ '.' :: last.toList := by simp
  exact simpleName_of_toList_eq hlist

theorem simpleName_qualify (outer last : String) :
    simpleName (qualify outer last) = simpleName last := by
  rw [qualify]
  split
  · rfl
  · exact simpleName_append outer last

/-- A name with a dot is what precedes the first one and what follows it. -/
theorem toList_eq_head_tail {name : String} (h : '.' ∈ name.toList) :
    name.toList = (headSegment name).toList ++ '.' ::
      (tailSegments name).toList := by
  have hsplit := List.takeWhile_append_dropWhile (p := (· != '.'))
    (l := name.toList)
  obtain ⟨bs, hbs⟩ : ∃ bs, name.toList.dropWhile (· != '.') = '.' :: bs := by
    cases hdrop : name.toList.dropWhile (· != '.') with
    | nil =>
        have hne := List.dropWhile_eq_nil_iff.1 hdrop '.' h
        simp at hne
    | cons b bs =>
        have hb := List.head?_dropWhile_not (· != '.') name.toList
        rw [hdrop] at hb
        exact ⟨bs, by simpa using hb⟩
  have htail : (tailSegments name).toList = bs := by
    rw [tailSegments, hbs, String.toList_ofList]
    rfl
  rw [hbs, ← htail] at hsplit
  rw [headSegment, String.toList_ofList]
  exact hsplit.symm

/-- A dotted name is its first segment and the others. -/
theorem headSegment_append_tailSegments {name : String}
    (h : '.' ∈ name.toList) :
    headSegment name ++ "." ++ tailSegments name = name := by
  apply String.toList_injective
  rw [toList_eq_head_tail h]
  simp

/-- The first segment has no dot. -/
theorem not_mem_headSegment (name : String) :
    '.' ∉ (headSegment name).toList := by
  rw [headSegment, String.toList_ofList]
  intro h
  have hne := List.mem_takeWhile_imp h
  simp at hne

/-- A name without a dot is its own first segment. -/
theorem headSegment_of_not_mem {name : String} (h : '.' ∉ name.toList) :
    headSegment name = name := by
  have hall : ∀ c ∈ name.toList, (c != '.') = true :=
    fun c hc => bne_iff_ne.2 fun heq => h (heq ▸ hc)
  rw [headSegment, List.takeWhile_eq_self_iff.2 hall, String.ofList_toList]

/-- What follows the first dot has the simple name of the whole, where there is
a dot. -/
theorem simpleName_tailSegments {name : String} (h : '.' ∈ name.toList) :
    simpleName (tailSegments name) = simpleName name :=
  (simpleName_of_toList_eq (toList_eq_head_tail h)).symm

/-- A name without a dot is its own simple name. -/
theorem simpleName_of_not_mem {name : String} (h : '.' ∉ name.toList) :
    simpleName name = name := by
  rcases segments_eq name with ⟨-, hsimple, -⟩ | ⟨-, hjoined⟩
  · exact hsimple
  · refine absurd ?_ h
    rw [← hjoined]
    simp

/-- A simple name has no dot. -/
theorem not_mem_simpleName (name : String) :
    '.' ∉ (simpleName name).toList := by
  rcases last_dot_cases name with h | ⟨as, bs, -, hbs, -, hsimple⟩
  · rwa [simpleName_of_not_mem h]
  · rwa [hsimple, String.toList_ofList]

end JavaRefit.Text
