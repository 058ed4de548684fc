/-
What a file means once the text of a run is read again.

It means what it did, but for the words that move with the imports: in the
names of classes outside the parameters that are rewritten, in these for
the names that are not, in their annotations, and for the words of
expressions that stand for classes (`CatchRule.keepsMeanings_run`). What is
written for the legacy type means the replacement where it arrives
(`CatchRule.writesMeanings_run`).

Where a parameter is renamed as a whole, so are its annotations: what they
say of the legacy type they say of the replacement then
(`Rereads.saysAgain_of_renamed`). That is the one way for an annotation to
change; the others say what they said (`Rereads.saysAgain_of_kept`).

Chain: after `Arrival`; `Settled` reads it.
-/
import JavaRefit.Proofs.CatchRule.Arrival
import JavaRefit.Proofs.Rename.Annotated

namespace JavaRefit

namespace CatchRule

variable {r : CatchRule} {cp : ClassPath} {cu again : CompilationUnit}

-- ============================================================ annotations

/-- A class is written anew in the annotations of a parameter: it is the
legacy type, and the parameter is renamed. -/
def WritesAnew (r : CatchRule) (plan : Retargeting) (d : Variables)
    (fqn? : Option String) : Prop :=
  r.RenamesParameter plan d ∧ fqn? = some r.legacy

/-- A chain of words in an annotation keeps its words, unless the first of
them is written anew. -/
structure KeepsChain (r : CatchRule) (cp : ClassPath)
    (cu again : CompilationUnit) (plan : Retargeting) (d : Variables)
    (e e' : Expr) : Prop where
  kept : ∀ name type, (cu.mention cp e).use? = some (name, type) →
    ¬r.WritesAnew plan d (type.bind JavaType.fqn?) →
      (again.mention cp e').untyped = (cu.mention cp e).untyped
  written : ∀ name type, (cu.mention cp e).use? = some (name, type) →
    r.WritesAnew plan d (type.bind JavaType.fqn?) →
      ∃ rest, (cu.mention cp e).words = name ++ rest ∧
        (again.mention cp e').words =
          (if name = Text.simpleName r.legacy
            then (r.rename (r.mustQualify cp cu)).written else name) ++ rest

/-- What an annotation of a parameter says it says again, but for classes that
are written anew: of these it says the replacement, where that arrives. -/
structure SaysAgain (r : CatchRule) (cp : ClassPath)
    (cu again : CompilationUnit) (plan : Retargeting) (d : Variables)
    (m m' : Modifier) : Prop where
  kept : ∀ place n,
    (Node.modifier m).classAt? (cu.extendClassPath cp).contains place =
      some n → ¬r.WritesAnew plan d n.fqn? →
    ∃ n', (Node.modifier m').classAt? (cu.extendClassPath cp).contains place =
      some n' ∧ r.KeepsMeaning cp cu n n'
  written : ∀ place n,
    (Node.modifier m).classAt? (cu.extendClassPath cp).contains place =
      some n → r.WritesAnew plan d n.fqn? →
    ∃ n', (Node.modifier m').nameAt? place = some n' ∧
      n'.dotted = (r.rename (r.mustQualify cp cu)).respelled n ∧
      ((Node.modifier m').classAt? (cu.extendClassPath cp).contains place =
        some n' → (n'.fqn? = some r.replacement.fqn ↔ r.Arrives cp cu n))
  chains : List.Forall₂ (r.KeepsChain cp cu again plan d) m.chains m'.chains

/-- An annotation of a file, what it is in the tree after a run, and what is
read for that. -/
structure Reannotates (r : CatchRule) (cp : ClassPath)
    (cu again : CompilationUnit) (m m₁ m' : Modifier) : Prop where
  before : Node.modifier m ∈ cu.walk
  after : ∃ k ∈ (r.run cp cu).after.classes, Node.modifier m₁ ∈ k.walk
  again : Node.modifier m' ∈ again.walk
  untyped_eq : m'.untyped = m₁.untyped

theorem modifier_mem_walk {n : Node} (hn : n.IsProper) {d : Variables}
    (hd : Node.declaration d ∈ n.walk) {m : Modifier} (hm : m ∈ d.modifiers) :
    Node.modifier m ∈ n.walk := by
  have hchild : Node.modifier m ∈ (Node.declaration d).children :=
    List.mem_append_left _ (List.mem_map_of_mem hm)
  exact Node.walk_subset hn hd
    (Node.children_subset_walk (.declaration d) hchild)

namespace Rereads

variable (h : r.Rereads cp cu again) {m m₁ m' : Modifier}
  (ha : r.Reannotates cp cu again m m₁ m')
include h ha

/-- The class named at a place of an annotation. -/
theorem saysClass_before {place : List Nat} {n : Name}
    (hn : (Node.modifier m).classAt? (cu.extendClassPath cp).contains place =
      some n) : cu.SaysClass cp n := by
  obtain ⟨source, path, hread⟩ := h.before
  exact CompilationUnit.saysClass_of_classAt? hread ha.before not_false hn

theorem saysClass_again {place : List Nat} {n' : Name}
    (hn' : (Node.modifier m').classAt? (cu.extendClassPath cp).contains place =
      some n') : again.SaysClass cp n' := by
  obtain ⟨source, path, hread⟩ := h.after
  rw [← h.contains_eq] at hn'
  exact CompilationUnit.saysClass_of_classAt? hread ha.again not_false hn'

/-- A class that is named in an annotation after a run as before is so again,
and keeps what it means. -/
theorem keepsMeaning_below {place : List Nat} {n : Name}
    (hn : (Node.modifier m).classAt? (cu.extendClassPath cp).contains place =
      some n)
    (hn₁ : (Node.modifier m₁).classAt? (cu.extendClassPath cp).contains place =
      some n) :
    ∃ n', (Node.modifier m').classAt? (cu.extendClassPath cp).contains place =
      some n' ∧ r.KeepsMeaning cp cu n n' := by
  have huntyped : (Node.modifier m').untyped.classAt?
      (cu.extendClassPath cp).contains place = some n.untyped := by
    have hsame : (Node.modifier m').untyped = (Node.modifier m₁).untyped :=
      congrArg Node.modifier ha.untyped_eq
    rw [hsame, Node.classAt?_untyped (.modifier m₁), hn₁, Option.map_some]
  rw [Node.classAt?_untyped (.modifier m'), Option.map_eq_some_iff] at huntyped
  obtain ⟨n', hn', heq⟩ := huntyped
  obtain ⟨k, hk, hm₁⟩ := ha.after
  obtain ⟨l, hl, hname⟩ := Node.exists_mem_walk_of_classAt? (.modifier m₁) hn₁
  have hsays := h.saysClass_before ha hn
  have hdotted : n'.dotted = n.dotted := by
    rw [← n'.dotted_untyped, heq, n.dotted_untyped]
  exact ⟨n', hn', h.keepsMeaning hsays.plain hsays.means
    (h.saysClass_again ha hn').means hdotted
    ⟨k, hk, l, Node.walk_subset (.classDecl k) hm₁ hl, n, hname, rfl⟩⟩

/-- A name in an annotation after a run is read as a name with its words. -/
theorem isReadAs_below {place : List Nat} {n₁ : Name}
    (hn₁ : (Node.modifier m₁).nameAt? place = some n₁) :
    ∃ n', (Node.modifier m').nameAt? place = some n' ∧
      n'.dotted = n₁.dotted ∧
      ((Node.modifier m').classAt? (cu.extendClassPath cp).contains place =
        some n' → r.IsReadAs cp cu again n₁ n') := by
  have huntyped : (Node.modifier m').untyped.nameAt? place =
      some n₁.untyped := by
    have hsame : (Node.modifier m').untyped = (Node.modifier m₁).untyped :=
      congrArg Node.modifier ha.untyped_eq
    rw [hsame, Node.nameAt?_untyped (.modifier m₁), hn₁, Option.map_some]
  rw [Node.nameAt?_untyped (.modifier m'), Option.map_eq_some_iff] at huntyped
  obtain ⟨n', hn', heq⟩ := huntyped
  have hdotted : n'.dotted = n₁.dotted := by
    rw [← n'.dotted_untyped, heq, n₁.dotted_untyped]
  refine ⟨n', hn', hdotted, fun hclass => ⟨hdotted,
    (h.saysClass_again ha hclass).means, ?_⟩⟩
  obtain ⟨k, hk, hm₁⟩ := ha.after
  obtain ⟨l, hl, hname⟩ := Option.bind_eq_some_iff.1 hn₁
  exact ⟨k, hk, l, Node.walk_subset (.classDecl k) hm₁
    (Node.mem_walk_of_at? (.modifier m₁) hl), hname⟩

/-- The chains of an annotation after a run mention again what they did. -/
theorem mentions_chains :
    List.Forall₂ (fun e₁ e' =>
      (again.mention cp e').untyped = (cu.mention cp e₁).untyped)
      m₁.chains m'.chains := by
  have hcontains : (cu.untyped.extendClassPath cp).contains =
      (again.untyped.extendClassPath cp).contains := by
    rw [cu.contains_untyped, again.contains_untyped, h.contains_eq]
  have hchains : m'.chains.map Expr.untyped = m₁.chains.map Expr.untyped := by
    rw [← m'.chains_untyped, ha.untyped_eq, m₁.chains_untyped]
  rw [← List.forall₂_eq_eq_eq, List.forall₂_map_left_iff,
    List.forall₂_map_right_iff] at hchains
  refine hchains.flip.imp fun e₁ e' heq => ?_
  rw [CompilationUnit.mention, ← e'.mention_spelled hcontains, heq]
  exact e₁.mention_spelled rfl

end Rereads

/-- An annotation that stays says what it said. -/
theorem Rereads.saysAgain_of_kept (h : r.Rereads cp cu again)
    {m m' : Modifier} (ha : r.Reannotates cp cu again m m m')
    {plan : Retargeting} {d : Variables} (hkept : ¬r.RenamesParameter plan d) :
    r.SaysAgain cp cu again plan d m m' := by
  refine ⟨fun place n hn _ => h.keepsMeaning_below ha hn hn,
    fun place n _ hanew => absurd hanew.1 hkept, ?_⟩
  exact (h.mentions_chains ha).imp fun e e' heq =>
    ⟨fun _ _ _ _ => heq, fun _ _ _ hanew => absurd hanew.1 hkept⟩

/-- What attribution has left below an annotation of a file. -/
theorem allClasses_of_modifier {source : String} {path : Option String}
    (h : parseUnit source cp path = .ok cu) {m : Modifier}
    (hm : Node.modifier m ∈ cu.walk) :
    (Node.modifier m).AllClasses (cu.extendClassPath cp).contains
      Name.NamesClass Expr.IsUntypedAccess :=
  ((meansIn_parseUnit h).of_mem_walk (.unit cu) hm not_false).imp
    fun _ hc => hc.1

/-- A chain of words in an annotation that is renamed. -/
theorem Rereads.keepsChain_of_renamed (h : r.Rereads cp cu again)
    {m : Modifier} (hm : Node.modifier m ∈ cu.walk) {plan : Retargeting}
    {d : Variables} (hrenames : r.RenamesParameter plan d) {e e' : Expr}
    (he : e ∈ m.chains)
    (heq : (again.mention cp e').untyped = (cu.mention cp (e.edit
      ((r.rename (r.mustQualify cp cu)).editor :
        Editor RuleNote)).value).untyped) :
    r.KeepsChain cp cu again plan d e e' := by
  obtain ⟨source, path, hread⟩ := h.before
  obtain ⟨hdotted, hrecorded⟩ :=
    Modifier.isRecorded (allClasses_of_modifier hread hm) he
  rw [← cu.contains_untyped] at hrecorded
  have hwords {a b : Mention} (h : a.untyped = b.untyped) :
      a.words = b.words := by
    rw [← show a.untyped.words = a.words from rfl, h]
    rfl
  refine ⟨fun name type huse hnot => ?_, fun name type huse hanew => ?_⟩
  · obtain ⟨rest, hrenamed⟩ := Expr.exists_renamesUse (ω := RuleNote)
      (r := r.rename (r.mustQualify cp cu)) hdotted hrecorded huse
    rw [heq, hrenamed.kept fun hconcerns =>
      hnot ⟨hrenames, isClassNamed_iff_fqn?.1 hconcerns⟩]
  · obtain ⟨rest, hrenamed⟩ := Expr.exists_renamesUse (ω := RuleNote)
      (r := r.rename (r.mustQualify cp cu)) hdotted hrecorded huse
    have hafter := hrenamed.written (isClassNamed_iff_fqn?.2 hanew.2)
    refine ⟨rest, ?_, ?_⟩
    · show e.dotted?.getD "" = _
      rw [hrenamed.words, Option.getD_some]
    · rw [hwords heq]
      show Option.getD (Expr.dotted? _) "" = _
      rw [hafter, Option.getD_some]
      rfl

/-- An annotation that is renamed says the replacement where it said the
legacy type. -/
theorem Rereads.saysAgain_of_renamed (h : r.Rereads cp cu again)
    {t : Try Stmt} (ht : t ∈ cu.tries) {d : Variables}
    (hrenames : r.RenamesParameter (r.plan t) d) {m m' : Modifier}
    (ha : r.Reannotates cp cu again m (m.edit
      ((r.rename (r.mustQualify cp cu)).editor : Editor RuleNote)).value m') :
    r.SaysAgain cp cu again (r.plan t) d m m' := by
  obtain ⟨source, path, hread⟩ := h.before
  have hnamed := allClasses_of_modifier hread ha.before
  have hstays : ¬(r.rename (r.mustQualify cp cu)).Respells RuleNote
      (.modifier m) := id
  refine ⟨fun place n hn hnot => ?_, fun place n hn hanew => ?_, ?_⟩
  · have hother :
        ¬(r.rename (r.mustQualify cp cu)).concerns n.type = true :=
      fun hconcerns => hnot ⟨hrenames, isClassNamed_iff_fqn?.1 hconcerns⟩
    exact h.keepsMeaning_below ha hn
      (Node.classAt?_renamed_term (.modifier m) rfl hstays hnamed hn hother)
  · have hsays := h.saysClass_before ha hn
    have hrenamed :=
      Node.nameAt?_renamed_term (.modifier m) rfl hstays hnamed hn
    have hsaid := Renaming.said_edit (ω := RuleNote)
      (r := r.rename (r.mustQualify cp cu)) hsays.named hsays.plain
    have hconcerns : (r.rename (r.mustQualify cp cu)).concerns n.type = true :=
      isClassNamed_iff_fqn?.2 hanew.2
    rw [if_pos hconcerns] at hsaid
    obtain ⟨n', hn', hdotted, hread'⟩ := h.isReadAs_below ha hrenamed
    refine ⟨n', hn', hdotted.trans (congrArg Prod.fst hsaid), fun hclass => ?_⟩
    have hplan : r.plan t ≠ .unchanged := by
      rw [hrenames.1]
      nofun
    exact h.fqn?_written_iff ht hplan hsays.means hanew.2 hsaid
      (hread' hclass)
  · have hmentions := h.mentions_chains ha
    rw [m.chains_renamed, List.forall₂_map_left_iff] at hmentions
    exact (forall₂_mem hmentions).imp fun e e' ⟨he, _, heq⟩ =>
      h.keepsChain_of_renamed ha.before hrenames he heq

/-- The annotations in the parameters of clauses say what they said, but for
the legacy type where the parameter is renamed. -/
theorem Rereads.annotations (h : r.Rereads cp cu again) :
    List.Forall₂ (fun t t' => List.Forall₂ (fun c c' => List.Forall₂
        (r.SaysAgain cp cu again (r.plan t) c.declaration)
        c.declaration.modifiers c'.declaration.modifiers)
      t.catches t'.catches) cu.tries again.tries := by
  refine h.declarations.imp fun t t' ⟨ht, ht', hclauses⟩ => ?_
  refine hclauses.imp fun c c' ⟨hc, hc', hdeclaration⟩ => ?_
  obtain ⟨k, hk, hafter⟩ := exists_declaration_mem_walk h.ne cp ht hc
  have hbefore := Node.declaration_mem_walk (.unit cu) ht hc
  have hagain := Node.declaration_mem_walk (.unit again) ht' hc'
  have hmodifiers : (r.newDeclaration (r.mustQualify cp cu) (r.plan t)
      c.declaration).modifiers.map Modifier.untyped =
        c'.declaration.modifiers.map Modifier.untyped := by
    rw [Variables.untyped_eq, Variables.untyped_eq] at hdeclaration
    exact (congrArg Variables.modifiers hdeclaration).symm
  have hannotates {m m₁ m' : Modifier} (hm : m ∈ c.declaration.modifiers)
      (hm₁ : m₁ ∈ (r.newDeclaration (r.mustQualify cp cu) (r.plan t)
        c.declaration).modifiers)
      (hm' : m' ∈ c'.declaration.modifiers)
      (huntyped : m₁.untyped = m'.untyped) :
      r.Reannotates cp cu again m m₁ m' :=
    ⟨modifier_mem_walk (.unit cu) hbefore hm,
      ⟨k, hk, modifier_mem_walk (.classDecl k) hafter hm₁⟩,
      modifier_mem_walk (.unit again) hagain hm', huntyped.symm⟩
  rw [← List.forall₂_eq_eq_eq, List.forall₂_map_left_iff,
    List.forall₂_map_right_iff] at hmodifiers
  have hrelated := forall₂_mem hmodifiers
  by_cases hrenames : r.RenamesParameter (r.plan t) c.declaration
  · rw [modifiers_of_renamesParameter hrenames] at hrelated hannotates
    rw [List.forall₂_map_left_iff] at hrelated
    refine (forall₂_mem hrelated).imp fun m m' ⟨hm, _, hm₁, hm', heq⟩ => ?_
    exact h.saysAgain_of_renamed ht hrenames (hannotates hm hm₁ hm' heq)
  · rw [modifiers_of_not_renamesParameter h.ne hrenames] at hrelated hannotates
    refine hrelated.imp fun m m' ⟨hm, hm', heq⟩ => ?_
    exact h.saysAgain_of_kept (hannotates hm hm hm' heq) hrenames

-- ==================================================================== words

/-- Some chains of words are those of an annotation whose parameter is
renamed. -/
def IsOfRenamed (r : CatchRule) (cp : ClassPath) (cu : CompilationUnit)
    (ns : List Mention) : Prop :=
  ∃ t ∈ cu.tries, ∃ c ∈ t.catches,
    r.RenamesParameter (r.plan t) c.declaration ∧
      ∃ m ∈ c.declaration.modifiers, ns = m.chains.map (cu.mention cp)

/-- The mark stays, but for its type, and for what is mentioned where a
parameter is renamed. -/
structure KeepsMark (r : CatchRule) (cp : ClassPath) (cu : CompilationUnit)
    (m m₁ : Mark) : Prop where
  untyped : m₁.untyped = m.untyped
  mentions : ∀ ns, m = .annotates ns → r.IsOfRenamed cp cu ns ∨ m₁ = m

theorem keepsMark_self (m : Mark) : r.KeepsMark cp cu m m :=
  ⟨rfl, fun _ _ => .inr rfl⟩

/-- What a run does to the classes of a file leaves its marks, where
no variable is taken for the legacy type. -/
theorem marks_run {source : String} {path : Option String}
    (h : parseUnit source cp path = .ok cu)
    (hne : r.legacy ≠ r.replacement.fqn)
    (hkept : ∀ t ∈ cu.tries, ∀ c ∈ t.catches,
      ¬r.TakesForType (r.mustQualify cp cu) (r.plan t) c.declaration) :
    List.Forall₂ (r.KeepsMark cp cu) (cu.ownMarks cp)
      ((r.run cp cu).after.marks (cu.untyped.extendClassPath cp)) := by
  cases hchanged : (r.run cp cu).isChanged with
  | false =>
      rw [after_run_of_not_isChanged hchanged]
      exact forall₂_marks_self keepsMark_self _
  | true =>
      rw [after_run_of_isChanged hchanged,
        (CompilationUnit.importsOnly_applyDelta _ _).marks_eq]
      refine CompilationUnit.marksAlike_recaught keepsMark_self
        (recaught_edit hne fun t ht c hc => ?_)
      obtain ⟨name, hname⟩ := exists_isOfWord h ht hc
      refine markedAlike_newDeclaration
        (fun name type type' => ⟨rfl, fun _ heq => by cases heq⟩) _ hname
        (hkept t ht c hc) (forall₂_marks_modifiers keepsMark_self _ hne ?_)
      intro hrenames m hm ns ns' hmarks
      refine ⟨rfl, fun _ heq => .inl ?_⟩
      obtain rfl := Mark.annotates.inj heq
      exact ⟨t, ht, c, hc, hrenames, m, hm, Modifier.eq_of_marks hmarks⟩

namespace Rereads

variable (h : r.Rereads cp cu again)
include h

theorem ownMarks_spelled :
    (again.ownMarks cp).map Mark.spelled = ((r.run cp cu).after.marks
      (cu.untyped.extendClassPath cp)).map Mark.spelled := by
  have hcontains : (cu.untyped.extendClassPath cp).contains =
      (again.untyped.extendClassPath cp).contains := by
    rw [cu.contains_untyped, again.contains_untyped, h.contains_eq]
  rw [CompilationUnit.ownMarks, ← again.marks_spelled hcontains, h.untyped_eq,
    CompilationUnit.marks_spelled rfl]

/-- A word is looked up to what it was unless it moves. -/
theorem filter_resolve?_eq_iff (name : String) :
    (again.fileNames.resolve? (again.extendClassPath cp) name).filter
        (· ≠ "") =
      (cu.fileNames.resolve? (cu.extendClassPath cp) name).filter (· ≠ "") ↔
    ¬r.MovesWord cp cu name := by
  rw [h.fileNames_eq, FileNames.resolve?_congr h.contains_eq]
  exact h.swaps.filter_resolve?_eq_iff h.legacy.mem_dot h.replacement.mem_dot
    name

variable (hkept : ∀ t ∈ cu.tries, ∀ c ∈ t.catches,
    ¬r.TakesForType (r.mustQualify cp cu) (r.plan t) c.declaration)
include hkept

theorem ownMarks_untyped : (again.ownMarks cp).map Mark.untyped =
    (cu.ownMarks cp).map Mark.untyped := by
  obtain ⟨source, path, hparse⟩ := h.before
  have hrun := (marks_run hparse h.ne hkept).imp fun _ _ hm => hm.untyped
  exact (Mark.map_untyped_of_spelled h.ownMarks_spelled).trans
    (Mark.map_untyped_of_forall₂ hrun)

/-- A word that means no variable means none afterwards. -/
theorem means_ownMarks {i : Nat} {name : String}
    (hfree : Means name ((cu.ownMarks cp).take i) none) :
    Means name ((again.ownMarks cp).take i) none :=
  hfree.of_untyped (by
    rw [List.map_take, h.ownMarks_untyped hkept, List.map_take])

/-- A word of an expression that means no variable means the class that it
meant, unless it moves. -/
theorem uses_iff {i : Nat} {name : String} {type : Option JavaType}
    (huse : (cu.ownMarks cp)[i]? = some (.uses name type))
    (hfree : Means name ((cu.ownMarks cp).take i) none) :
    ∃ type', (again.ownMarks cp)[i]? = some (.uses name type') ∧
      Means name ((again.ownMarks cp).take i) none ∧
      (type'.bind JavaType.fqn? = type.bind JavaType.fqn? ↔
        ¬r.MovesWord cp cu name) := by
  obtain ⟨source, path, hread⟩ := h.before
  obtain ⟨source', path', hreread⟩ := h.after
  obtain ⟨m, hm, huntyped⟩ :=
    Mark.exists_getElem?_of_untyped (h.ownMarks_untyped hkept) huse
  obtain ⟨type', rfl⟩ := Mark.exists_of_untyped_eq_uses huntyped
  have hfree' := h.means_ownMarks hkept hfree
  refine ⟨type', hm, hfree', ?_⟩
  rw [CompilationUnit.fqn?_of_uses hread huse hfree,
    CompilationUnit.fqn?_of_uses hreread hm hfree']
  exact h.filter_resolve?_eq_iff name

/-- An annotation mentions what it did, unless its parameter is renamed. -/
theorem exists_annotates {i : Nat} {ns : List Mention}
    (hns : (cu.ownMarks cp)[i]? = some (.annotates ns)) :
    ∃ ns', (again.ownMarks cp)[i]? = some (.annotates ns') ∧
      (r.IsOfRenamed cp cu ns ∨
        ns'.map Mention.untyped = ns.map Mention.untyped) := by
  obtain ⟨source, path, hparse⟩ := h.before
  have hrun := Node.rel_getElem? (marks_run hparse h.ne hkept) i
  have hspelled := congrArg (·[i]?) h.ownMarks_spelled
  simp only [List.getElem?_map] at hspelled
  rw [hns] at hrun
  revert hspelled
  generalize ((r.run cp cu).after.marks
    (cu.untyped.extendClassPath cp))[i]? = o at hrun
  cases hrun with
  | @some _ m₁ hm₁ =>
      intro hspelled
      obtain ⟨m', hm', hmark⟩ := Option.map_eq_some_iff.1 hspelled
      obtain ⟨ns₁, rfl⟩ := Mark.exists_of_untyped_eq_annotates hm₁.untyped
      obtain ⟨ns', rfl, heq⟩ := Mark.exists_of_spelled_eq_annotates hmark
      refine ⟨ns', hm', (hm₁.mentions ns rfl).imp_right fun hsame => ?_⟩
      rw [heq, Mark.annotates.inj hsame]

/-- The first word of a chain in an annotation that means no variable means
the class that it meant, unless it moves. -/
theorem mentions_iff {i : Nat} {ns ns' : List Mention}
    (hns : (cu.ownMarks cp)[i]? = some (.annotates ns))
    (hns' : (again.ownMarks cp)[i]? = some (.annotates ns')) {a a' : Mention}
    (ha : a ∈ ns) (ha' : a' ∈ ns') {name : String}
    {type type' : Option JavaType} (huse : a.use? = some (name, type))
    (huse' : a'.use? = some (name, type'))
    (hfree : Means name ((cu.ownMarks cp).take i) none) :
    Means name ((again.ownMarks cp).take i) none ∧
      (type'.bind JavaType.fqn? = type.bind JavaType.fqn? ↔
        ¬r.MovesWord cp cu name) := by
  obtain ⟨source, path, hread⟩ := h.before
  obtain ⟨source', path', hreread⟩ := h.after
  have hfree' := h.means_ownMarks hkept hfree
  refine ⟨hfree', ?_⟩
  rw [CompilationUnit.fqn?_of_mention hread hns ha huse hfree,
    CompilationUnit.fqn?_of_mention hreread hns' ha' huse' hfree']
  exact h.filter_resolve?_eq_iff name

end Rereads

-- ================================================================= results

/-- What a file means is what it meant, but for the words that move with the
imports. -/
structure KeepsMeanings (r : CatchRule) (cp : ClassPath)
    (cu again : CompilationUnit) : Prop where
  /-- The names of classes at places outside rewritten parameters. -/
  places : ∀ place, (Node.unit cu).Keeps (.unit (r.run cp cu).after) place →
    Option.Rel (r.KeepsMeaning cp cu)
      ((Node.unit cu).classAt? (cu.extendClassPath cp).contains place)
      ((Node.unit again).classAt? (cu.extendClassPath cp).contains place)
  /-- The names in parameters, those aside that are written by the rule. -/
  clauses : r.AtClauses cp cu again fun _ c n₁ n' =>
    ∀ n ∈ c.declaration.typeTree.names, n₁.said = n.said →
      r.KeepsMeaning cp cu n n'
  /-- The words of expressions that mean no variable, where no variable is
  taken for the legacy type. -/
  words : (∀ t ∈ cu.tries, ∀ c ∈ t.catches,
      ¬r.TakesForType (r.mustQualify cp cu) (r.plan t) c.declaration) →
    ∀ i name type, (cu.ownMarks cp)[i]? = some (.uses name type) →
      Means name ((cu.ownMarks cp).take i) none →
      ∃ type', (again.ownMarks cp)[i]? = some (.uses name type') ∧
        Means name ((again.ownMarks cp).take i) none ∧
        (type'.bind JavaType.fqn? = type.bind JavaType.fqn? ↔
          ¬r.MovesWord cp cu name)
  /-- What the annotations of parameters say of classes. -/
  annotations : List.Forall₂ (fun t t' => List.Forall₂ (fun c c' =>
        List.Forall₂
          (r.SaysAgain cp cu again (r.plan t) c.declaration)
          c.declaration.modifiers c'.declaration.modifiers)
      t.catches t'.catches) cu.tries again.tries
  /-- The words in annotations: the chains are the same, but in renamed
  parameters, and where their first words mean no variable they mean what
  they meant. -/
  mentions : (∀ t ∈ cu.tries, ∀ c ∈ t.catches,
      ¬r.TakesForType (r.mustQualify cp cu) (r.plan t) c.declaration) →
    ∀ i ns, (cu.ownMarks cp)[i]? = some (.annotates ns) →
      ∃ ns', (again.ownMarks cp)[i]? = some (.annotates ns') ∧
        (r.IsOfRenamed cp cu ns ∨
          ns'.map Mention.untyped = ns.map Mention.untyped) ∧
        ∀ a ∈ ns, ∀ a' ∈ ns', ∀ name type type',
          a.use? = some (name, type) → a'.use? = some (name, type') →
          Means name ((cu.ownMarks cp).take i) none →
          Means name ((again.ownMarks cp).take i) none ∧
            (type'.bind JavaType.fqn? = type.bind JavaType.fqn? ↔
              ¬r.MovesWord cp cu name)

/-- The text that a run gives, where it can be read, means what the file meant,
but for the words that move with the imports. -/
theorem keepsMeanings_run (hne : r.legacy ≠ r.replacement.fqn)
    (hold : IsQualifiedName r.legacy) (hnew : IsQualifiedName r.replacement.fqn)
    {source : String} {path : Option String}
    (h : parseUnit source cp path = .ok cu)
    (hlegible : ∀ t ∈ cu.tries, ∀ c ∈ t.catches,
      (r.newDeclaration (r.mustQualify cp cu)
        (r.plan t) c.declaration).IsLegible) :
    ∃ again, parseUnit (r.run cp cu).source cp path = .ok again ∧
    r.KeepsMeanings cp cu again := by
  obtain ⟨again, hagain, hrereads⟩ := exists_rereads hne hold hnew h hlegible
  have hclauses : r.AtClauses cp cu again fun _ c n₁ n' =>
      ∀ n ∈ c.declaration.typeTree.names, n₁.said = n.said →
        r.KeepsMeaning cp cu n n' :=
    hrereads.atClauses.imp fun t c n₁ n' ⟨ht, hc, _, hread⟩ n hn hsaid =>
      hrereads.keepsMeaning_of_said ht hc hn hsaid hread
  refine ⟨again, hagain, fun place hplace => hrereads.rel_classAt? hplace,
    hclauses, fun hkept i name type huse hfree =>
      hrereads.uses_iff hkept huse hfree,
    hrereads.annotations, fun hkept i ns hns => ?_⟩
  obtain ⟨ns', hns', hsame⟩ := hrereads.exists_annotates hkept hns
  exact ⟨ns', hns', hsame, fun a ha a' ha' name type type' huse huse' hfree =>
    hrereads.mentions_iff hkept hns hns' ha ha' huse huse' hfree⟩

/-- The sample is read, and so is what comes of it. -/
theorem legible_sample : ∃ cu, sampleRule.legacy ≠ sampleRule.replacement.fqn ∧
    IsQualifiedName sampleRule.legacy ∧
    IsQualifiedName sampleRule.replacement.fqn ∧
    parseUnit sampleText sampleClassPath none = .ok cu ∧
    ∀ t ∈ cu.tries, ∀ c ∈ t.catches, (sampleRule.newDeclaration
      (sampleRule.mustQualify sampleClassPath cu)
        (sampleRule.plan t) c.declaration).IsLegible := by
  have hnames : IsQualifiedName sampleRule.legacy ∧
      IsQualifiedName sampleRule.replacement.fqn := by
    decide +kernel
  have hok : (parseUnit sampleText sampleClassPath none).isOk = true := by
    decide +kernel
  have hlegible : ∀ t ∈ (sampleUnit sampleText).tries, ∀ c ∈ t.catches,
      (sampleRule.newDeclaration
        (sampleRule.mustQualify sampleClassPath (sampleUnit sampleText))
        (sampleRule.plan t) c.declaration).IsLegible := by
    decide +kernel
  obtain ⟨hold, hnew⟩ := hnames
  obtain ⟨cu, h⟩ := exists_of_isOk hok
  have hunit : sampleUnit sampleText = cu := by rw [sampleUnit, h]
  exact ⟨cu, Recipe.ne_ruleOf (by decide) sampleClassPath, hold, hnew, h,
    hunit ▸ hlegible⟩

/-- The sample means what it meant. -/
theorem keepsMeanings_run_sample :
    ∃ cu again, sampleRule.legacy ≠ sampleRule.replacement.fqn ∧
    IsQualifiedName sampleRule.legacy ∧
      IsQualifiedName sampleRule.replacement.fqn ∧
      parseUnit sampleText sampleClassPath none = .ok cu ∧
      (∀ t ∈ cu.tries, ∀ c ∈ t.catches, (sampleRule.newDeclaration
        (sampleRule.mustQualify sampleClassPath cu)
          (sampleRule.plan t) c.declaration).IsLegible) ∧
      parseUnit (sampleRule.run sampleClassPath cu).source sampleClassPath
        none = .ok again ∧
      sampleRule.KeepsMeanings sampleClassPath cu again := by
  obtain ⟨cu, hne, hold, hnew, h, hlegible⟩ := legible_sample
  obtain ⟨again, hagain, hkeeps⟩ := keepsMeanings_run hne hold hnew h hlegible
  exact ⟨cu, again, hne, hold, hnew, h, hlegible, hagain, hkeeps⟩

/-- A file with a field whose type is a class inside the legacy type. -/
def sampleInside : String :=
  "import p.Api;import p.Old;class A\x7bApi a;Old.Kind k;void f()\x7btry\x7ba.call();\x7d" ++
    "catch(Old e)\x7b\x7d\x7d\x7d"

/-- The name of the class at a place of a file. -/
def sampleName (cu : CompilationUnit) (place : List Nat) : Option String :=
  ((Node.unit cu).classAt? (cu.extendClassPath sampleClassPath).contains
    place).bind Name.fqn?

/-- A run takes the import away that the type of the field depends on. -/
theorem keepsMeanings_run_sample_not :
    IsQualifiedName sampleRule.legacy ∧
    IsQualifiedName sampleRule.replacement.fqn ∧
      (parseUnit sampleInside sampleClassPath none).isOk = true ∧
      (parseUnit (sampleRule.run sampleClassPath
        (sampleUnit sampleInside)).source sampleClassPath none).isOk = true ∧
      sampleName (sampleUnit sampleInside) [0, 0, 1, 0] = some "p.Old.Kind" ∧
      sampleName (sampleUnit (sampleRule.run sampleClassPath
        (sampleUnit sampleInside)).source) [0, 0, 1, 0] = some "Old.Kind" := by
  have hsource :
      (sampleRule.run sampleClassPath (sampleUnit sampleInside)).source =
      "import p.Api;\nimport p.New;class A\x7bApi a;Old.Kind k;void f()\x7btry\x7ba.call();\x7d" ++
        "catch(New e)\x7b\x7d\x7d\x7d" := by
    decide +kernel
  rw [hsource]
  exact ⟨by decide +kernel, by decide +kernel, by decide +kernel,
    by decide +kernel, by decide +kernel, by decide +kernel⟩

/-- In the text that a run gives, where it can be read, the names of the
clauses mean what they meant, as far as their words do, or what is written for
the legacy type means the replacement if it arrives. -/
theorem writesMeanings_run (hne : r.legacy ≠ r.replacement.fqn)
    (hold : IsQualifiedName r.legacy) (hnew : IsQualifiedName r.replacement.fqn)
    {source : String} {path : Option String}
    (h : parseUnit source cp path = .ok cu)
    (hlegible : ∀ t ∈ cu.tries, ∀ c ∈ t.catches,
      (r.newDeclaration (r.mustQualify cp cu)
        (r.plan t) c.declaration).IsLegible) :
    ∃ again, parseUnit (r.run cp cu).source cp path = .ok again ∧
      r.AtClauses cp cu again fun _ c =>
        r.ReadsAs cp cu c.declaration.typeTree.names := by
  obtain ⟨again, hagain, hrereads⟩ := exists_rereads hne hold hnew h hlegible
  refine ⟨again, hagain, ?_⟩
  exact hrereads.atClauses.imp fun t c n₁ n' ⟨ht, hc, hn₁, hread⟩ =>
    hrereads.readsAs ht hc hn₁ hread

/-- What the names of the clauses of a file mean. -/
def sampleCaughtNames (cu : CompilationUnit) : List (List (Option String)) :=
  cu.tries.flatMap fun t => t.catches.map fun c =>
    c.declaration.typeTree.names.map Name.fqn?

/-- What is written in the sample arrives, and what is kept means what it
meant. -/
theorem writesMeanings_run_sample :
    ∃ cu again, sampleRule.legacy ≠ sampleRule.replacement.fqn ∧
    IsQualifiedName sampleRule.legacy ∧
      IsQualifiedName sampleRule.replacement.fqn ∧
      parseUnit sampleText sampleClassPath none = .ok cu ∧
      (∀ t ∈ cu.tries, ∀ c ∈ t.catches, (sampleRule.newDeclaration
        (sampleRule.mustQualify sampleClassPath cu)
          (sampleRule.plan t) c.declaration).IsLegible) ∧
      parseUnit (sampleRule.run sampleClassPath cu).source sampleClassPath
        none = .ok again ∧
      (sampleRule.AtClauses sampleClassPath cu again fun _ c =>
        sampleRule.ReadsAs sampleClassPath cu c.declaration.typeTree.names) ∧
      sampleCaughtNames again =
        [[some "p.New", some "p.Old"], [some "p.New"]] := by
  obtain ⟨cu, hne, hold, hnew, h, hlegible⟩ := legible_sample
  obtain ⟨again, hagain, hreads⟩ := writesMeanings_run hne hold hnew h hlegible
  have hcaught : sampleCaughtNames (sampleUnit sampleOnce) =
      [[some "p.New", some "p.Old"], [some "p.New"]] := by
    decide +kernel
  have hunit : sampleUnit sampleText = cu := by rw [sampleUnit, h]
  have hunit' : sampleUnit (sampleRule.run sampleClassPath cu).source =
      again := by
    rw [sampleUnit, hagain]
  rw [← source_run_sample.1, hunit, hunit'] at hcaught
  exact ⟨cu, again, hne, hold, hnew, h, hlegible, hagain, hreads, hcaught⟩

/-- The rule for another replacement, which goes by the simple name of the
legacy type. -/
def sampleNamesakes : CatchRule :=
  { sampleRule with replacement := .bare "q.Old" }

/-- A file that sees the legacy type by an import of its package. -/
def sampleShown : String :=
  "import p.*;class A\x7bApi a;void m()throws Old\x7b\x7dvoid f()\x7btry\x7ba.call();m();\x7d" ++
    "catch(Old e)\x7b\x7d\x7d\x7d"

/-- The import of the replacement takes the name over that the legacy type is
kept by. -/
theorem writesMeanings_run_sample_not :
    IsQualifiedName sampleNamesakes.legacy ∧
    IsQualifiedName sampleNamesakes.replacement.fqn ∧
      (parseUnit sampleShown sampleClassPath none).isOk = true ∧
      (parseUnit (sampleNamesakes.run sampleClassPath
        (sampleUnit sampleShown)).source sampleClassPath none).isOk = true ∧
      sampleCaughtNames (sampleNamesakes.run sampleClassPath
        (sampleUnit sampleShown)).after = [[some "q.Old", some "p.Old"]] ∧
      sampleCaughtNames
          (sampleUnit (sampleNamesakes.run sampleClassPath
            (sampleUnit sampleShown)).source) =
        [[some "q.Old", some "q.Old"]] := by
  have hsource :
      (sampleNamesakes.run sampleClassPath (sampleUnit sampleShown)).source =
      "import p.*;\nimport q.Old;class A\x7bApi a;void m()throws Old\x7b\x7dvoid f()\x7b" ++
        "try\x7ba.call();m();\x7dcatch(Old | Old e)\x7b\x7d\x7d\x7d" := by
    decide +kernel
  rw [hsource]
  exact ⟨by decide +kernel, by decide +kernel, by decide +kernel,
    by decide +kernel, by decide +kernel, by decide +kernel⟩

end CatchRule

end JavaRefit
