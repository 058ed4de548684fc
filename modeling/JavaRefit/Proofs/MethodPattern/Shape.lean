/-
Which texts are method patterns, and what their parts are.

A pattern is blanks, a class, more blanks, a name and parameters in
parentheses; the parameters are cut at the commas, and each loses the
blanks around it. The reader takes every text of this shape and no
other. It goes from left to right, and each of its scans stops where the
shape has the next part begin, so a text has its parts in one way only.

Chain: after `Language`, for the part that a parameter spells, and
`Text.Blank`; read by `Meaning`.
-/
import JavaRefit.MethodPattern.Reader
import JavaRefit.Proofs.MethodPattern.Language
import JavaRefit.Proofs.Text.Blank

namespace JavaRefit

open Text

/-- The texts of a pattern's class, name and parameters. -/
structure PatternParts where
  owner : List Char
  name : List Char
  args : List (List Char)

namespace MethodPattern

-- =================================================================== shape

/-- At least one character, all of them such as a class or name may have. -/
def IsPart (cs : List Char) : Prop :=
  cs ≠ [] ∧ ∀ c ∈ cs, isPart c = true

/-- Class, name and what stands between the parentheses. -/
def HasShape (cs owner name inside : List Char) : Prop :=
  ∃ before between gap after,
    cs =
      before ++
        (owner ++
          (between ++ (name ++ (gap ++ '(' :: (inside ++ ')' :: after))))) ∧
      AllBlank before ∧ AllBlank between ∧ between ≠ [] ∧ AllBlank gap ∧
      AllBlank after ∧
        IsPart owner ∧ IsPart name ∧ ∀ c ∈ inside, isInside c = true

/-- What stands between the parentheses are these parameters; with nothing but
blanks there are none. -/
def HasArgs (inside : List Char) (args : List (List Char)) : Prop :=
  AllBlank inside ∧ args = [] ∨ Lists inside args

/-- The text has these parts. -/
def Spells (cs : List Char) (parts : PatternParts) : Prop :=
  ∃ inside, HasShape cs parts.owner parts.name inside ∧
    HasArgs inside parts.args

-- =================================================================== scans

/-- A part does not begin with a blank. -/
theorem stops_isBlank_of_isPart {as bs : List Char} (h : IsPart as) :
    Stops isBlank (as ++ bs) := by
  apply stops_append h.1
  intro c hc
  have hpart := h.2 c hc
  rw [isPart, Bool.and_eq_true, Bool.not_eq_true'] at hpart
  exact hpart.1

theorem isPart_of_isBlank {c : Char} (h : isBlank c = true) :
    isPart c = false := by
  rw [isPart, h]
  rfl

/-- A span is the longest run, and not empty. -/
theorem spanSome_eq_some_iff {p : Char → Bool} {cs as bs : List Char} :
    spanSome p cs = some (as, bs) ↔
      as ≠ [] ∧ cs = as ++ bs ∧ (∀ c ∈ as, p c = true) ∧ Stops p bs := by
  rw [← span_eq_iff, spanSome]
  split
  case isTrue h =>
    rw [List.isEmpty_iff] at h
    refine iff_of_false (by simp) ?_
    rintro ⟨hne, rfl, -⟩
    exact hne h
  case isFalse h =>
    rw [List.isEmpty_iff] at h
    rw [Option.some.injEq, Prod.mk.injEq]
    constructor
    · rintro ⟨rfl, rfl⟩
      exact ⟨h, rfl, rfl⟩
    · exact And.right

/-- The opening parenthesis ends a name, with blanks in front of it or
without. -/
theorem stops_isPart_gap {gap bs : List Char} (h : AllBlank gap) :
    Stops isPart (gap ++ '(' :: bs) := by
  rw [List.append_cons]
  apply stops_append
  · exact List.append_ne_nil_of_right_ne_nil gap (List.cons_ne_nil _ _)
  · intro c hc
    rcases List.mem_append.1 hc with hc | hc
    · exact isPart_of_isBlank (h c hc)
    · rw [List.mem_singleton.1 hc]
      rfl

/-- The reader finds the parts of the texts that have the shape, and of no
others. -/
theorem parts?_eq_some_iff {text : String} {owner name inside : List Char} :
    parts? text = some (owner, name, inside) ↔
    HasShape text.toList owner name inside := by
  constructor
  · intro h
    simp only [parts?, Option.bind_eq_bind, Option.bind_eq_some_iff,
      Prod.exists, spanSome_eq_some_iff] at h
    obtain ⟨_, _, ⟨howner, htext, hownerPart, -⟩, between, _,
        ⟨hbetween, rfl, hbetweenBlank, -⟩,
      _, afterName, ⟨hname, rfl, hnamePart, -⟩, h⟩ := h
    split at h
    case h_1 afterOpen hopen =>
      split at h
      case h_1 after hclose =>
        split at h
        case isTrue hafter =>
          cases h
          obtain ⟨before, hbefore, hbeforeBlank, -⟩ := dropBlanks_eq_iff.1 htext
          obtain ⟨gap, rfl, hgap, -⟩ := dropBlanks_eq_iff.1 hopen
          obtain ⟨hsplit, hinside, -⟩ := span_eq_iff.1 ⟨rfl, hclose⟩
          refine ⟨before, between, gap, after, ?_, hbeforeBlank, hbetweenBlank,
            hbetween, hgap,
            dropBlanks_eq_nil_iff.1 (List.isEmpty_iff.1 hafter),
            ⟨howner, hownerPart⟩, ⟨hname, hnamePart⟩, hinside⟩
          rw [← hsplit]
          exact hbefore
        case isFalse => cases h
      case h_2 => cases h
    case h_2 => cases h
  · rintro ⟨before, between, gap, after, htext, hbefore, hbetween, hne, hgap,
      hafter, howner, hname, hinside⟩
    -- where each scan of the reader stops
    have hstart := dropBlanks_eq_iff.2 ⟨before, htext, hbefore,
      stops_isBlank_of_isPart howner⟩
    have hbetweenStop :
        Stops isPart
          (between ++ (name ++ (gap ++ '(' :: (inside ++ ')' :: after)))) :=
      stops_append hne fun c hc => isPart_of_isBlank (hbetween c hc)
    have hopen : dropBlanks (gap ++ '(' :: (inside ++ ')' :: after)) =
        '(' :: (inside ++ ')' :: after) :=
      dropBlanks_eq_iff.2 ⟨gap, rfl, hgap, by rintro c ⟨⟩; rfl⟩
    have hclose : (inside ++ ')' :: after).takeWhile isInside = inside ∧
        (inside ++ ')' :: after).dropWhile isInside = ')' :: after :=
      span_eq_iff.2 ⟨rfl, hinside, by rintro c ⟨⟩; rfl⟩
    simp only [parts?, Option.bind_eq_bind, Option.bind_eq_some_iff,
      Prod.exists, spanSome_eq_some_iff]
    refine ⟨owner, _, ⟨howner.1, hstart, howner.2, hbetweenStop⟩, between, _,
      ⟨hne, rfl, hbetween, stops_isBlank_of_isPart hname⟩, name, _,
      ⟨hname.1, rfl, hname.2, stops_isPart_gap hgap⟩, ?_⟩
    simp only [hopen, hclose]
    exact if_pos (List.isEmpty_iff.2 (dropBlanks_eq_nil_iff.2 hafter))

-- ============================================================== parameters

/-- Arguments are trimmed one by one, none being empty. -/
theorem mapM_trimBlanks (pieces : List (List Char)) :
    (pieces.mapM fun raw =>
      let arg := trimBlanks raw
      if arg.isEmpty then none
      else if arg = ['.', '.'] then some ParamGlob.anyRun
      else some (ParamGlob.one (TypeGlob.ofChars arg))) =
      if [] ∈ pieces.map trimBlanks then none
      else some ((pieces.map trimBlanks).map ParamGlob.ofChars) := by
  induction pieces with
  | nil => rfl
  | cons raw pieces ih =>
      rw [List.mapM_cons, ih, List.map_cons, List.map_cons]
      by_cases hempty : trimBlanks raw = []
      · rw [hempty, if_pos List.mem_cons_self]
        rfl
      · have hcons : [] ∈ trimBlanks raw :: pieces.map trimBlanks ↔
            [] ∈ pieces.map trimBlanks := by
          rw [List.mem_cons, or_iff_right (Ne.symm hempty)]
        have hone : (if (trimBlanks raw).isEmpty then none
            else if trimBlanks raw = ['.', '.'] then some ParamGlob.anyRun
            else some (ParamGlob.one (TypeGlob.ofChars (trimBlanks raw)))) =
            some (ParamGlob.ofChars (trimBlanks raw)) := by
          rw [if_neg fun h => hempty (List.isEmpty_iff.1 h), ParamGlob.ofChars]
          split <;> rfl
        simp only [hone, hcons]
        split <;> rfl

/-- Blanks hold no arguments. -/
theorem hasArgs_iff_of_blank {inside : List Char} {args : List (List Char)}
    (h : AllBlank inside) : HasArgs inside args ↔ args = [] := by
  constructor
  · rintro (⟨-, hargs⟩ | hlists)
    · exact hargs
    · obtain ⟨rfl, hne⟩ := lists_iff.1 hlists
      rw [splitAtEach_of_not_mem h.comma_notMem, List.map_singleton,
        trimBlanks_eq_nil_iff.2 h] at hne
      exact absurd (List.mem_singleton_self []) hne
  · exact fun hargs => .inl ⟨h, hargs⟩

/-- Otherwise arguments stand between commas, none being empty. -/
theorem hasArgs_iff_of_not_blank {inside : List Char} {args : List (List Char)}
    (h : ¬ AllBlank inside) :
    HasArgs inside args ↔ (splitAtEach ',' inside).map trimBlanks = args ∧
    [] ∉ args := by
  rw [HasArgs, or_iff_right fun hblank => h hblank.1, lists_iff]

/-- The globs of the parameters are those of the arguments. -/
theorem paramGlobs?_eq_some_iff {inside : List Char} {globs : List ParamGlob} :
    paramGlobs? inside = some globs ↔
      ∃ args, HasArgs inside args ∧ args.map ParamGlob.ofChars = globs := by
  by_cases hblank : AllBlank inside
  · simp only [hasArgs_iff_of_blank hblank, exists_eq_left, List.map_nil]
    rw [paramGlobs?, if_pos
      (List.isEmpty_iff.2 (trimBlanks_eq_nil_iff.2 hblank)), Option.some.injEq]
  · have hne : ¬ (trimBlanks inside).isEmpty = true := fun h =>
      hblank (trimBlanks_eq_nil_iff.1 (List.isEmpty_iff.1 h))
    simp only [hasArgs_iff_of_not_blank hblank, and_assoc, exists_eq_left']
    rw [paramGlobs?, if_neg hne, mapM_trimBlanks, map_trimBlanks_splitAtEach]
    split
    case isTrue hmem =>
      exact iff_of_false (Option.some_ne_none _).symm fun h => h.1 hmem
    case isFalse hmem => rw [Option.some.injEq, and_iff_right hmem]

/-- No text lists parameters in two ways. -/
theorem HasArgs.unique {inside : List Char} {args args' : List (List Char)}
    (h : HasArgs inside args) (h' : HasArgs inside args') : args = args' := by
  by_cases hblank : AllBlank inside
  · rw [hasArgs_iff_of_blank hblank] at h h'
    rw [h, h']
  · rw [hasArgs_iff_of_not_blank hblank] at h h'
    rw [← h.1, ← h'.1]

-- ================================================================ patterns

/-- The pattern with these parts. -/
def ofParts (text : String) (overrides : Bool) (parts : PatternParts) :
    MethodPattern where
  text := text
  owner := TypeGlob.ofChars parts.owner
  name := NameGlob.ofChars parts.name
  params := parts.args.map ParamGlob.ofChars
  overrides := overrides

/-- A text is a pattern if and only if it has the parts of one. -/
theorem parse_eq_ok_iff {text : String} {overrides : Bool} {p : MethodPattern} :
    parse text overrides = .ok p ↔
      ∃ parts, Spells text.toList parts ∧ ofParts text overrides parts = p := by
  constructor
  · intro h
    rw [parse] at h
    split at h
    case h_1 => cases h
    case h_2 owner name inside hparts =>
      split at h
      case h_1 => cases h
      case h_2 globs hglobs =>
        cases h
        obtain ⟨args, hargs, rfl⟩ := paramGlobs?_eq_some_iff.1 hglobs
        exact ⟨⟨owner, name, args⟩,
          ⟨inside, parts?_eq_some_iff.1 hparts, hargs⟩, rfl⟩
  · rintro ⟨parts, ⟨inside, hshape, hargs⟩, rfl⟩
    have hglobs := paramGlobs?_eq_some_iff.2 ⟨parts.args, hargs, rfl⟩
    rw [parse, parts?_eq_some_iff.2 hshape]
    simp only [hglobs]
    rfl

/-- No text has the parts of a pattern in two ways. -/
theorem Spells.unique {text : String} {parts parts' : PatternParts}
    (h : Spells text.toList parts) (h' : Spells text.toList parts') :
    parts = parts' := by
  obtain ⟨inside, hshape, hargs⟩ := h
  obtain ⟨inside', hshape', hargs'⟩ := h'
  have heq := (parts?_eq_some_iff.2 hshape).symm.trans
    (parts?_eq_some_iff.2 hshape')
  obtain ⟨owner, name, args⟩ := parts
  obtain ⟨owner', name', args'⟩ := parts'
  obtain ⟨rfl, rfl, rfl⟩ : owner = owner' ∧ name = name' ∧
      inside = inside' := by simpa using heq
  obtain rfl : args = args' := hargs.unique hargs'
  rfl

end MethodPattern

end JavaRefit
