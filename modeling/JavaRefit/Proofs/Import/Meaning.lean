/-
What names mean once imports change.

A single name means the first thing that is found for it: a class of the
file, an import of its own, and then what needs none
(`FileNames.implicit?`). A change of imports touches the second of these.
An import that goes leaves its name to what comes after it
(`FileNames.Loses`), and one that comes takes its name from that
(`FileNames.TakesOver`); both at once is all that a change can do
(`FileNames.resolve?_eq_iff`). A dotted name follows its first word, unless
it spells a class as a whole (`FileNames.Swaps.meaning?_eq_iff`).

Chain: after attribution's names; read by the proofs about what names mean
after a run.
-/
import JavaRefit.Attribution.Env
import JavaRefit.Proofs.Text.Dotted

namespace JavaRefit

namespace FileNames

variable {f f' g : FileNames} {cp : ClassPath} {old new word : String}

-- ============================================================ single names

/-- What a single name means that is not of a class of the file and has
no import of its own. -/
def implicit? (f : FileNames) (cp : ClassPath) (name : String) :
    Option String :=
  if cp.packageHas f.package name then some (Text.qualify f.package name)
  else if cp.contains ("java.lang." ++ name) then some ("java.lang." ++ name)
  else (f.wildcards.find? fun p => cp.contains (p ++ "." ++ name)).map fun p =>
    p ++ "." ++ name

theorem resolve?_eq (f : FileNames) (cp : ClassPath) (name : String) :
    f.resolve? cp name =
    (f.declared.lookup name).or
      ((f.imported.reverse.lookup name).or (f.implicit? cp name)) := rfl

/-- The file has an import of the class. -/
def Imports (f : FileNames) (fqn : String) : Prop :=
  ∃ p ∈ f.imported, p.2 = fqn

instance (f : FileNames) (fqn : String) : Decidable (f.Imports fqn) :=
  inferInstanceAs (Decidable (∃ p ∈ f.imported, p.2 = fqn))

/-- Each import goes by the simple name of its class. -/
def ImportsPlainly (f : FileNames) : Prop :=
  ∀ p ∈ f.imported, p.1 = Text.simpleName p.2

/-- The file without its imports of a class. -/
def without (f : FileNames) (fqn : String) : FileNames :=
  { f with imported := f.imported.filter fun p => p.2 != fqn }

theorem without_of_not_imports (h : ¬f.Imports old) : f.without old = f := by
  have hall : f.imported.filter (fun p => p.2 != old) = f.imported :=
    List.filter_eq_self.2 fun p hp => bne_iff_ne.2 fun heq => h ⟨p, hp, heq⟩
  rw [without, hall]

/-- What is found first is found as well without what is not. -/
theorem lookup_filter_of_ne {ps : List (String × String)}
    (h : ps.lookup word ≠ some old) :
    (ps.filter fun p => p.2 != old).lookup word = ps.lookup word := by
  induction ps with
  | nil => rfl
  | cons p ps ih =>
      obtain ⟨name, fqn⟩ := p
      by_cases hname : word = name
      · subst hname
        rw [List.lookup_cons_self] at h ⊢
        have hkept : (fqn != old) = true :=
          bne_iff_ne.2 fun heq => h (congrArg some heq)
        rw [List.filter_cons, if_pos hkept, List.lookup_cons_self]
      · have hskip : ∀ qs : List (String × String),
            ((name, fqn) :: qs).lookup word = qs.lookup word := by
          intro qs
          rw [List.lookup_cons, beq_false_of_ne hname]
        rw [hskip] at h ⊢
        rw [← ih h, List.filter_cons]
        split
        · exact hskip _
        · rfl

/-- A name that does not mean a class means the same without the imports of
that. -/
theorem resolve?_without (h : f.resolve? cp word ≠ some old) :
    (f.without old).resolve? cp word = f.resolve? cp word := by
  rw [resolve?_eq] at h
  rw [resolve?_eq, resolve?_eq]
  show (f.declared.lookup word).or
    (((f.imported.filter _).reverse.lookup word).or (f.implicit? cp word)) = _
  rw [← List.filter_reverse]
  cases hdeclared : f.declared.lookup word with
  | some fqn => rfl
  | none =>
      rw [hdeclared, Option.none_or] at h
      rw [lookup_filter_of_ne fun heq => h (by rw [heq]; rfl)]

-- ================================================================= changes

/-- The file has lost its first import of a class, or is as it was. -/
inductive Drops (old : String) (f : FileNames) : FileNames → Prop
  | keep : Drops old f f
  | drop {before after : List (String × String)} : (∀ p ∈ before, p.2 ≠ old) →
      f.imported = before ++ (Text.simpleName old, old) :: after →
      Drops old f { f with imported := before ++ after }

/-- The file has got an import of a class, the name of which was not that of
an import and did not mean the class by itself, or is as it was. -/
inductive Brings (cp : ClassPath) (new : String) (f : FileNames) :
    FileNames → Prop
  | keep : Brings cp new f f
  | bring {before after : List (String × String)} :
      f.imported = before ++ after →
      (∀ p ∈ f.imported, p.1 ≠ Text.simpleName new) →
      f.implicit? cp (Text.simpleName new) ≠ some new →
      Brings cp new f { f with imported :=
        before ++ (Text.simpleName new, new) :: after }

/-- Without its last import of the class, the file has none. -/
theorem Drops.eq_without (h : Drops old f g) (hgone : ¬g.Imports old) :
    g = f.without old := by
  cases h with
  | keep => exact (without_of_not_imports hgone).symm
  | @drop before after hbefore himported =>
      have hkept : ∀ p ∈ before ++ after, (p.2 != old) = true := fun p hp =>
        bne_iff_ne.2 fun heq => hgone ⟨p, hp, heq⟩
      rw [without, himported, List.filter_append,
        List.filter_cons_of_neg (by simp), ← List.filter_append,
        List.filter_eq_self.2 hkept]

/-- As long as the file imports a class it loses nothing. -/
theorem Drops.resolve?_eq (h : Drops old f g) (hplain : f.ImportsPlainly)
    (hstays : g.Imports old) (word : String) :
    g.resolve? cp word = f.resolve? cp word := by
  cases h with
  | keep => rfl
  | @drop before after hbefore himported =>
      -- the import that stays is behind the one that goes, and the last one
      -- counts
      have hlater : (Text.simpleName old, old) ∈ after := by
        obtain ⟨⟨name, fqn⟩, hp, heq⟩ := hstays
        obtain rfl : fqn = old := heq
        have hafter := (List.mem_append.1 hp).resolve_left fun hmem =>
          hbefore _ hmem rfl
        have hname : name = Text.simpleName fqn := by
          refine hplain (name, fqn) ?_
          rw [himported]
          exact List.mem_append_right _ (List.mem_cons_of_mem _ hafter)
        rwa [hname] at hafter
      have hlookup : (before ++ after).reverse.lookup word =
          (before ++ (Text.simpleName old, old) :: after).reverse.lookup
            word := by
        simp only [List.reverse_append, List.reverse_cons, List.lookup_append,
          Option.or_assoc]
        by_cases hword : word = Text.simpleName old
        · obtain ⟨fqn, hfound⟩ : ∃ fqn,
              after.reverse.lookup word = some fqn := by
            rw [← Option.ne_none_iff_exists', Ne, List.lookup_eq_none_iff]
            intro hnone
            have hself := hnone _ (List.mem_reverse.2 hlater)
            rw [hword] at hself
            simp at hself
          rw [hfound, Option.some_or, Option.some_or]
        · have hskip : [(Text.simpleName old, old)].lookup word = none := by
            rw [List.lookup_cons, beq_false_of_ne hword, List.lookup_nil]
          rw [hskip, Option.none_or]
      show (f.declared.lookup word).or
        (((before ++ after).reverse.lookup word).or (f.implicit? cp word)) = _
      rw [hlookup, ← himported, FileNames.resolve?_eq]

theorem Drops.declared_eq (h : Drops old f g) : g.declared = f.declared := by
  cases h <;> rfl

theorem Drops.imports_iff (h : Drops old f g) (hne : old ≠ new) :
    g.Imports new ↔ f.Imports new := by
  cases h with
  | keep => exact Iff.rfl
  | @drop before after hbefore himported =>
      show (∃ p ∈ before ++ after, p.2 = new) ↔ ∃ p ∈ f.imported, p.2 = new
      simp [himported, or_and_right, exists_or, hne]

theorem Drops.importsPlainly (h : Drops old f g) (hplain : f.ImportsPlainly) :
    g.ImportsPlainly := by
  cases h with
  | keep => exact hplain
  | @drop before after hbefore himported =>
      refine fun p hp => hplain p ?_
      rw [himported]
      exact List.Sublist.subset
        ((List.sublist_cons_self _ after).append_left before) hp

/-- A class that comes to be imported is meant by its simple name from then on,
unless that is of a class of the file, and all other names mean what they
did. -/
structure Brought (cp : ClassPath) (new : String)
    (f f' : FileNames) : Prop where
  before : ¬f.Imports new
  after : f'.Imports new
  others : ∀ fqn, fqn ≠ new → (f'.Imports fqn ↔ f.Imports fqn)
  taken : f.declared.lookup (Text.simpleName new) = none →
    f'.resolve? cp (Text.simpleName new) = some new ∧
    f.resolve? cp (Text.simpleName new) ≠ some new
  kept : ∀ word, ¬(word = Text.simpleName new ∧ f.declared.lookup word = none) →
    f'.resolve? cp word = f.resolve? cp word

theorem Brings.eq_or_brought (h : Brings cp new f f')
    (hplain : f.ImportsPlainly) : f' = f ∨ Brought cp new f f' := by
  cases h with
  | keep => exact .inl rfl
  | @bring before after himported hfree hhidden =>
      have hnone (ps : List (String × String))
          (hps : ∀ p ∈ ps, p ∈ f.imported) :
          ps.lookup (Text.simpleName new) = none := by
        rw [List.lookup_eq_none_iff]
        exact fun p hp => bne_iff_ne.2 (hfree p (hps p hp)).symm
      have hbefore : ¬f.Imports new :=
        fun ⟨p, hp, heq⟩ => hfree p hp (heq ▸ hplain p hp)
      refine .inr ⟨hbefore, ?_, fun fqn hfqn => ?_, fun hdeclared => ⟨?_, ?_⟩,
        fun word hword => ?_⟩
      · exact ⟨_, List.mem_append_right before List.mem_cons_self, rfl⟩
      · show (∃ p ∈ before ++ (Text.simpleName new, new) :: after, p.2 = fqn) ↔
          ∃ p ∈ f.imported, p.2 = fqn
        simp [himported, or_and_right, exists_or, hfqn.symm]
      · rw [resolve?_eq]
        show (f.declared.lookup _).or
          (((before ++ (Text.simpleName new, new) :: after).reverse.lookup
          (Text.simpleName new)).or _) = _
        have hlater : ∀ p ∈ after.reverse, p ∈ f.imported := fun p hp =>
          himported ▸ List.mem_append_right before (List.mem_reverse.1 hp)
        simp only [hdeclared, List.reverse_append, List.reverse_cons,
          List.lookup_append, hnone _ hlater, List.lookup_cons_self,
          Option.none_or, Option.some_or]
      · rw [resolve?_eq, hdeclared, hnone _ fun p hp => List.mem_reverse.1 hp,
          Option.none_or, Option.none_or]
        exact hhidden
      · rw [resolve?_eq, resolve?_eq]
        show (f.declared.lookup word).or
          (((before ++ (Text.simpleName new, new) :: after).reverse.lookup
          word).or (f.implicit? cp word)) = _
        cases hdeclared : f.declared.lookup word with
        | some fqn => rfl
        | none =>
            have hne : word ≠ Text.simpleName new :=
              fun heq => hword ⟨heq, hdeclared⟩
            have hskip : [(Text.simpleName new, new)].lookup word = none := by
              rw [List.lookup_cons, beq_false_of_ne hne, List.lookup_nil]
            simp only [himported, List.reverse_append, List.reverse_cons,
              List.lookup_append, hskip, Option.none_or, Option.or_assoc]

-- ================================================================== moves

/-- A name of no class of the file comes to mean a class that comes to be
imported. -/
structure TakesOver (f f' : FileNames) (new word : String) : Prop where
  before : ¬f.Imports new
  after : f'.Imports new
  isName : word = Text.simpleName new
  free : f.declared.lookup word = none

instance (f f' : FileNames) (new word : String) :
    Decidable (TakesOver f f' new word) :=
  decidable_of_iff (¬f.Imports new ∧ f'.Imports new ∧
      word = Text.simpleName new ∧ f.declared.lookup word = none)
    ⟨fun ⟨before, after, isName, free⟩ => ⟨before, after, isName, free⟩,
      fun h => ⟨h.before, h.after, h.isName, h.free⟩⟩

/-- A name does not mean a class any more, now that this is not imported. -/
structure Loses (cp : ClassPath) (f f' : FileNames)
    (old word : String) : Prop where
  meant : f.resolve? cp word = some old
  gone : ¬f'.Imports old
  without : (f.without old).resolve? cp word ≠ some old

instance (cp : ClassPath) (f f' : FileNames) (old word : String) :
    Decidable (Loses cp f f' old word) :=
  decidable_of_iff (f.resolve? cp word = some old ∧ ¬f'.Imports old ∧
      (f.without old).resolve? cp word ≠ some old)
    ⟨fun ⟨meant, gone, without⟩ => ⟨meant, gone, without⟩,
      fun h => ⟨h.meant, h.gone, h.without⟩⟩

/-- A class that a name loses was imported. -/
theorem Loses.imports (h : Loses cp f f' old word) : f.Imports old := by
  by_contra hnot
  refine h.without ?_
  rw [without_of_not_imports hnot]
  exact h.meant

/-- A name comes to mean something else, as it loses its class or another one
takes it. -/
def Moves (cp : ClassPath) (f f' : FileNames) (old new word : String) : Prop :=
  TakesOver f f' new word ∨ Loses cp f f' old word

/-- Where only one class is dropped, a name means what it did unless it loses
that. -/
theorem Drops.resolve?_eq_iff (h : Drops old f g) (hplain : f.ImportsPlainly)
    (word : String) :
    g.resolve? cp word = f.resolve? cp word ↔ ¬Loses cp f g old word := by
  by_cases hstays : g.Imports old
  · exact iff_of_true (h.resolve?_eq hplain hstays word) fun hloses =>
      hloses.gone hstays
  · obtain rfl := h.eq_without hstays
    by_cases hmeant : f.resolve? cp word = some old
    · rw [hmeant]
      exact ⟨fun heq hloses => hloses.without heq, fun hloses =>
        by_contra fun hne => hloses ⟨hmeant, hstays, hne⟩⟩
    · exact iff_of_true (resolve?_without hmeant) fun hloses =>
        hmeant hloses.meant

/-- A change of imports that drops one class and then brings another one. -/
structure Swaps (cp : ClassPath) (old new : String)
    (f f' : FileNames) : Prop where
  plain : f.ImportsPlainly
  ne : old ≠ new
  exists_between : ∃ g, Drops old f g ∧ Brings cp new g f'

/-- A single name means what it did unless it moves. -/
theorem Swaps.resolve?_eq_iff (h : Swaps cp old new f f') (word : String) :
    f'.resolve? cp word = f.resolve? cp word ↔ ¬Moves cp f f' old new word := by
  obtain ⟨g, hdrops, hbrings⟩ := h.exists_between
  have hdropped : g.resolve? cp word = f.resolve? cp word ↔
      ¬Loses cp f g old word :=
    hdrops.resolve?_eq_iff h.plain word
  have hnew : g.Imports new ↔ f.Imports new := hdrops.imports_iff h.ne
  rcases hbrings.eq_or_brought (hdrops.importsPlainly h.plain)
    with rfl | hbrought
  · have hnot : ¬TakesOver f f' new word :=
      fun htakes => htakes.before (hnew.1 htakes.after)
    rw [hdropped, Moves, or_iff_right hnot]
  · have hloses : Loses cp f f' old word ↔ Loses cp f g old word := by
      have hold := hbrought.others old h.ne
      exact ⟨fun hl => ⟨hl.meant, hold.not.1 hl.gone, hl.without⟩, fun hl =>
        ⟨hl.meant, hold.not.2 hl.gone, hl.without⟩⟩
    by_cases hword : word = Text.simpleName new ∧ g.declared.lookup word = none
    · have htakes : TakesOver f f' new word :=
        ⟨hnew.not.1 hbrought.before, hbrought.after, hword.1,
          hdrops.declared_eq ▸ hword.2⟩
      refine iff_of_false (fun heq => ?_) fun hnot => hnot (.inl htakes)
      obtain ⟨rfl, hdeclared⟩ := hword
      obtain ⟨hafter, hbefore⟩ := hbrought.taken hdeclared
      -- what the name meant before is not the new class, nor is it the old one
      by_cases hsame : g.resolve? cp (Text.simpleName new) =
        f.resolve? cp (Text.simpleName new)
      · exact hbefore (hsame.trans (heq.symm.trans hafter))
      · have hmeant := (not_not.1 (hdropped.not.1 hsame)).meant
        exact h.ne (Option.some.inj (hmeant.symm.trans (heq.symm.trans hafter)))
    · have hnot : ¬TakesOver f f' new word := fun htakes =>
        hword ⟨htakes.isName, hdrops.declared_eq ▸ htakes.free⟩
      rw [hbrought.kept word hword, hdropped, Moves, or_iff_right hnot, hloses]

/-- What goes is looked up among the imports only. -/
theorem Swaps.declared_eq (h : Swaps cp old new f f') :
    f'.declared = f.declared := by
  obtain ⟨g, hdrops, hbrings⟩ := h.exists_between
  cases hdrops <;> cases hbrings <;> rfl

theorem Swaps.implicit?_eq (h : Swaps cp old new f f') (word : String) :
    f'.implicit? cp word = f.implicit? cp word := by
  obtain ⟨g, hdrops, hbrings⟩ := h.exists_between
  cases hdrops <;> cases hbrings <;> rfl

/-- What the file comes to import was imported, or it is the class that
comes. -/
theorem Swaps.mem_imported (h : Swaps cp old new f f') {p : String × String}
    (hp : p ∈ f'.imported) :
    p ∈ f.imported ∨ p = (Text.simpleName new, new) := by
  obtain ⟨g, hdrops, hbrings⟩ := h.exists_between
  have hdropped : g.imported ⊆ f.imported := by
    cases hdrops with
    | keep => exact List.Subset.refl _
    | @drop before after _ himported =>
        rw [himported]
        exact ((List.sublist_cons_self _ after).append_left before).subset
  cases hbrings with
  | keep => exact .inl (hdropped hp)
  | @bring before after himported _ _ =>
      have hor : p ∈ before ∨ p = (Text.simpleName new, new) ∨ p ∈ after := by
        simpa using hp
      rcases hor with hp | rfl | hp
      · exact .inl (hdropped (himported ▸ List.mem_append_left after hp))
      · exact .inr rfl
      · exact .inl (hdropped (himported ▸ List.mem_append_right before hp))

-- ------------------------------------------------------------ names to spare

/-- The simple name of the class is that of no class of the file, and no
other import goes by it. -/
structure Spares (f : FileNames) (fqn : String) : Prop where
  declared : f.declared.lookup (Text.simpleName fqn) = none
  imported : ∀ p ∈ f.imported, p.1 = Text.simpleName fqn → p.2 = fqn

theorem Swaps.spares (h : Swaps cp old new f f') (hf : f.Spares new) :
    f'.Spares new := by
  refine ⟨h.declared_eq ▸ hf.declared, fun p hp hname => ?_⟩
  rcases h.mem_imported hp with hp | rfl
  · exact hf.imported p hp hname
  · rfl

/-- A simple name that is spared for a class means it by an import or without
any. -/
theorem Spares.resolve?_eq_some_iff (h : f.Spares new)
    (hplain : f.ImportsPlainly) :
    f.resolve? cp (Text.simpleName new) = some new ↔
      f.Imports new ∨ f.implicit? cp (Text.simpleName new) = some new := by
  rw [resolve?_eq, h.declared, Option.none_or]
  cases hfound : f.imported.reverse.lookup (Text.simpleName new) with
  | some fqn =>
      obtain ⟨before, after, heq, -⟩ := List.lookup_eq_some_iff.1 hfound
      have hmem : (Text.simpleName new, fqn) ∈ f.imported := by
        rw [← List.mem_reverse, heq]
        exact List.mem_append_right _ List.mem_cons_self
      have hfqn : fqn = new := h.imported _ hmem rfl
      exact iff_of_true (congrArg some hfqn) (.inl ⟨_, hmem, hfqn⟩)
  | none =>
      have hnot : ¬f.Imports new := by
        rintro ⟨p, hp, heq⟩
        have hne := List.lookup_eq_none_iff.1 hfound p (List.mem_reverse.2 hp)
        rw [hplain p hp, heq] at hne
        simp at hne
      rw [Option.none_or, or_iff_right hnot]

/-- What takes a name over is what the name means from then on. -/
theorem Swaps.resolve?_of_takesOver (h : Swaps cp old new f f')
    (htakes : TakesOver f f' new word) : f'.resolve? cp word = some new := by
  obtain ⟨g, hdrops, hbrings⟩ := h.exists_between
  rcases hbrings.eq_or_brought (hdrops.importsPlainly h.plain)
    with rfl | hbrought
  · exact absurd ((hdrops.imports_iff h.ne).1 htakes.after) htakes.before
  · obtain rfl := htakes.isName
    exact (hbrought.taken (hdrops.declared_eq ▸ htakes.free)).1

/-- A name that moves comes to mean the one class or has meant the other. -/
theorem Swaps.eq_or_eq_of_moves (h : Swaps cp old new f f')
    (hmoves : Moves cp f f' old new word) :
    f'.resolve? cp word = some new ∨ f.resolve? cp word = some old := by
  rcases hmoves with htakes | hloses
  · exact .inl (h.resolve?_of_takesOver htakes)
  · exact .inr hloses.meant

-- ============================================================ written names

/-- The full name of the class that is found for some words, where one is
found. -/
def meaning? (f : FileNames) (cp : ClassPath) (words : String) :
    Option String :=
  (if '.' ∈ words.toList then some (f.resolveDotted cp words)
    else f.resolve? cp words).filter (· ≠ "")

/-- Some words move with the first of them, unless they spell a class as a
whole. -/
def MovesSpelled (cp : ClassPath) (f f' : FileNames)
    (old new words : String) : Prop :=
  ('.' ∈ words.toList → cp.contains words = false) ∧
    Moves cp f f' old new (Text.headSegment words)

instance (cp : ClassPath) (f f' : FileNames) (old new words : String) :
    Decidable (MovesSpelled cp f f' old new words) :=
  inferInstanceAs (Decidable (_ ∧ (_ ∨ _)))

theorem ne_empty_of_dot {name : String} (h : '.' ∈ name.toList) :
    name ≠ "" := by
  rintro rfl
  cases h

/-- A dotted name that spells no class is one behind what its first word
means. -/
theorem resolveDotted_of_not_contains {dotted : String}
    (hdot : '.' ∈ dotted.toList) (h : cp.contains dotted = false) :
    f.resolveDotted cp dotted =
      (f.resolve? cp (Text.headSegment dotted)).getD
        (Text.headSegment dotted) ++ "." ++ Text.tailSegments dotted := by
  rw [resolveDotted, h, if_neg Bool.false_ne_true]
  cases f.resolve? cp (Text.headSegment dotted) with
  | none => exact (Text.headSegment_append_tailSegments hdot).symm
  | some outer => rfl

theorem meaning?_of_dot {dotted : String} (hdot : '.' ∈ dotted.toList) :
    f.meaning? cp dotted = some (f.resolveDotted cp dotted) := by
  have hne : f.resolveDotted cp dotted ≠ "" := by
    refine ne_empty_of_dot ?_
    cases h : cp.contains dotted with
    | true => rwa [resolveDotted, h, if_pos rfl]
    | false =>
        rw [resolveDotted_of_not_contains hdot h]
        simp
  rw [meaning?, if_pos hdot, Option.filter_some, if_pos (decide_eq_true hne)]

theorem meaning?_of_word (hword : '.' ∉ word.toList) :
    f.meaning? cp word = (f.resolve? cp word).filter (· ≠ "") := by
  rw [meaning?, if_neg hword]

theorem meaning?_eq_some_iff_of_word (hword : '.' ∉ word.toList) {fqn : String}
    (hfqn : fqn ≠ "") :
    f.meaning? cp word = some fqn ↔ f.resolve? cp word = some fqn := by
  rw [meaning?_of_word hword, Option.filter_eq_some_iff]
  exact and_iff_left (decide_eq_true hfqn)

/-- Two meanings of a word, of which one is that of a dotted name, are not
taken for one. -/
theorem getD_ne {fqn : String} (hdot : '.' ∈ fqn.toList)
    (hword : '.' ∉ word.toList) {o : Option String} (ho : o ≠ some fqn) :
    o.getD word ≠ fqn := by
  cases o with
  | none =>
      rintro rfl
      exact hword hdot
  | some outer => exact fun heq => ho (congrArg some heq)

section

variable (h : Swaps cp old new f f') (hold : '.' ∈ old.toList)
  (hnew : '.' ∈ new.toList)
include h hold hnew

/-- A word that moves does not come to mean what it meant, whatever is left of
words that are not found. -/
theorem Swaps.getD_ne_of_moves (hword : '.' ∉ word.toList)
    (hmoves : Moves cp f f' old new word) :
    (f'.resolve? cp word).getD word ≠ (f.resolve? cp word).getD word := by
  have hne := (h.resolve?_eq_iff _).not_left.2 hmoves
  intro heq
  rcases h.eq_or_eq_of_moves hmoves with hafter | hbefore
  · rw [hafter] at heq hne
    exact getD_ne hnew hword (fun heq => hne heq.symm) heq.symm
  · rw [hbefore] at heq hne
    exact getD_ne hold hword hne heq

/-- A single name means what it did unless it moves, also where no class may be
without a name. -/
theorem Swaps.filter_resolve?_eq_iff (word : String) :
    (f'.resolve? cp word).filter (· ≠ "") =
      (f.resolve? cp word).filter (· ≠ "") ↔ ¬Moves cp f f' old new word := by
  have hfound {o : Option String} {fqn : String} (hdot : '.' ∈ fqn.toList)
      (heq : o.filter (· ≠ "") = (some fqn).filter (· ≠ "")) :
      o = some fqn := by
    rw [Option.filter_some,
      if_pos (decide_eq_true (ne_empty_of_dot hdot))] at heq
    exact (Option.filter_eq_some_iff.1 heq).1
  by_cases hmoves : Moves cp f f' old new word
  · refine iff_of_false (fun heq => ?_) (not_not.2 hmoves)
    have hne := (h.resolve?_eq_iff word).not_left.2 hmoves
    rcases h.eq_or_eq_of_moves hmoves with hafter | hbefore
    · rw [hafter] at heq hne
      exact hne (hfound hnew heq.symm).symm
    · rw [hbefore] at heq hne
      exact hne (hfound hold heq)
  · exact iff_of_true (by rw [(h.resolve?_eq_iff word).2 hmoves]) hmoves

/-- Words mean what they did unless they move. -/
theorem Swaps.meaning?_eq_iff (words : String) :
    f'.meaning? cp words = f.meaning? cp words ↔
    ¬MovesSpelled cp f f' old new words := by
  have hhead := Text.not_mem_headSegment words
  by_cases hdot : '.' ∈ words.toList
  · rw [meaning?_of_dot hdot, meaning?_of_dot hdot, Option.some_inj]
    cases hspelled : cp.contains words with
    | true =>
        rw [resolveDotted, resolveDotted, hspelled]
        exact iff_of_true rfl fun hmoves =>
          Bool.noConfusion (hspelled.symm.trans (hmoves.1 hdot))
    | false =>
        rw [resolveDotted_of_not_contains hdot hspelled,
          resolveDotted_of_not_contains hdot hspelled, String.append_left_inj,
          String.append_left_inj, MovesSpelled, hspelled,
          and_iff_right fun _ => rfl]
        by_cases hmoves : Moves cp f f' old new (Text.headSegment words)
        · exact iff_of_false (h.getD_ne_of_moves hold hnew hhead hmoves)
            (not_not.2 hmoves)
        · exact iff_of_true (by rw [(h.resolve?_eq_iff _).2 hmoves]) hmoves
  · rw [MovesSpelled, Text.headSegment_of_not_mem hdot,
      and_iff_right fun hmem => absurd hmem hdot, meaning?_of_word hdot,
      meaning?_of_word hdot]
    exact h.filter_resolve?_eq_iff hold hnew words

end

/-- A chain for the one class that does not spell it never comes to mean the
other class. -/
theorem Swaps.meaning?_ne (h : Swaps cp old new f f') {words : String}
    (hdot : '.' ∈ words.toList) (hspells : words ≠ old)
    (hmeant : f.meaning? cp words = some old) :
    f'.meaning? cp words ≠ some new := by
  rw [meaning?_of_dot hdot, Option.some_inj] at hmeant
  rw [meaning?_of_dot hdot, Ne, Option.some_inj]
  cases hspelled : cp.contains words with
  | true =>
      rw [resolveDotted, hspelled, if_pos rfl] at hmeant
      exact absurd hmeant hspells
  | false =>
      -- a class is not inside of itself
      have hinside (fqn : String) :
          fqn ++ "." ++ Text.tailSegments words ≠ fqn := fun heq => by
        have hlength := congrArg String.length heq
        rw [String.length_append, String.length_append] at hlength
        have hone : ".".length = 1 := rfl
        omega
      rw [resolveDotted_of_not_contains hdot hspelled] at hmeant ⊢
      by_cases hmoves : Moves cp f f' old new (Text.headSegment words)
      · rcases h.eq_or_eq_of_moves hmoves with hafter | hbefore
        · rw [hafter]
          exact hinside new
        · rw [hbefore] at hmeant
          exact absurd hmeant (hinside old)
      · rw [(h.resolve?_eq_iff _).2 hmoves, hmeant]
        exact h.ne

/-- A class is reached by its full name: it is one of the class path, or the
first word of the name means nothing else. -/
def Reaches (f : FileNames) (cp : ClassPath) (fqn : String) : Prop :=
  cp.contains fqn = true ∨
    ∀ outer, f.resolve? cp (Text.headSegment fqn) = some outer →
    outer = Text.headSegment fqn

instance (f : FileNames) (cp : ClassPath) (fqn : String) :
    Decidable (f.Reaches cp fqn) :=
  inferInstanceAs (Decidable (_ ∨
    ∀ outer ∈ f.resolve? cp (Text.headSegment fqn),
      outer = Text.headSegment fqn))

theorem meaning?_eq_self_iff {fqn : String} (hdot : '.' ∈ fqn.toList) :
    f.meaning? cp fqn = some fqn ↔ f.Reaches cp fqn := by
  rw [meaning?_of_dot hdot, Option.some_inj, Reaches]
  cases hspelled : cp.contains fqn with
  | true =>
      exact iff_of_true (by rw [resolveDotted, hspelled, if_pos rfl]) (.inl rfl)
  | false =>
      have hjoined := Text.headSegment_append_tailSegments hdot
      rw [resolveDotted_of_not_contains hdot hspelled,
        or_iff_right Bool.false_ne_true]
      conv => enter [1, 2]; rw [← hjoined]
      rw [String.append_left_inj, String.append_left_inj]
      cases f.resolve? cp (Text.headSegment fqn) with
      | none => exact iff_of_true rfl nofun
      | some outer =>
          exact ⟨fun h o ho => Option.some.inj ho ▸ h, fun h => h outer rfl⟩

end FileNames

-- ============================================================= names

/-- A name that is one word has no dot in it. -/
def Name.IsPlain (n : Name) : Prop :=
  n.outer? = none → '.' ∉ n.last.toList

theorem Name.IsPlain.not_mem_dotted {n : Name} (h : n.IsPlain)
    (houter : n.outer? = none) : '.' ∉ n.dotted.toList := by
  cases n with
  | simple i type => exact h houter
  | qualified lead outer last type => cases houter

/-- A name without a dot in it is one word. -/
theorem Name.outer?_eq_none_of_not_mem {n : Name} (h : '.' ∉ n.dotted.toList) :
    n.outer? = none ∧ n.last = n.dotted := by
  cases n with
  | simple i type => exact ⟨rfl, rfl⟩
  | qualified lead outer last type => exact absurd (by simp [Name.dotted]) h

/-- A written name means what is found for its words. -/
theorem FileNames.filter_resolveName? {f : FileNames} {cp : ClassPath}
    {n : Name} (h : n.IsPlain) :
    (f.resolveName? cp n).filter (· ≠ "") = f.meaning? cp n.dotted := by
  cases n with
  | simple i type => exact (meaning?_of_word (h rfl)).symm
  | qualified lead outer last type =>
      have hdot : '.' ∈
          (Name.qualified lead outer last type).dotted.toList := by
          simp [Name.dotted]
      rw [meaning?, if_pos hdot]
      rfl

end JavaRefit
