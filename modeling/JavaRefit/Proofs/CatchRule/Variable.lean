/-
What becomes of the variables of catch clauses.

A substitution renames the legacy type in the whole parameter, and takes
any word of that type with the simple name of the class for a reference to
it. A variable can be such a word: where the legacy type is all that a
clause catches, it is the type of the variable too
(`CatchRule.TakesForType`). Then the parameter is called like the
replacement, and the body goes on using the name it had.

That is the one way for a clause to lose its variable
(`CatchRule.variables_run`): every other one keeps the word, and where the
clauses inside keep theirs, the same uses in it go back to the same
declarations.

Chain: after `Reread`, by which clauses declare one word, and after what
attribution leaves at the nodes of a file, by which it has the type of
what is caught; `Names` reads it.
-/
import JavaRefit.Proofs.Attribution.Binding
import JavaRefit.Proofs.Attribution.RecordedUnit
import JavaRefit.Proofs.CatchRule.Reread
import JavaRefit.Proofs.Tree.Spelled

namespace JavaRefit

open Spelling

-- ================================================================== words

/-- The word of a name that is no longer than that. -/
def Name.word? : Name → Option String
  | .simple i _ => some i.name
  | .qualified .. => none

/-- The word that a declaration of one variable declares. -/
def Variables.word? (d : Variables) : Option String :=
  match d.declarators with
  | [p] => p.element.name.word?
  | _ => none

/-- The word that a clause declares. -/
def Catch.word? (c : Catch Stmt) : Option String :=
  c.declaration.word?

/-- The declaration is of one word, without a value and of the declared type. -/
def Variables.IsOfWord (d : Variables) (name : String) : Prop :=
  ∃ lead i type after, i.name = name ∧
    d.declarators = [⟨⟨lead, .simple i d.typeTree.type, none, type⟩, after⟩]

theorem Variables.IsOfWord.word? {d : Variables} {name : String}
    (h : d.IsOfWord name) : d.word? = some name := by
  obtain ⟨lead, i, type', after, rfl, hd⟩ := h
  rw [Variables.word?, hd]
  rfl

-- ================================================================ clauses

/-- What is met in a clause of a `try` statement is met in a walk that meets
the statement. -/
theorem Node.walk_catch_subset {n : Node} (hn : n.IsProper) {t : Try Stmt}
    (ht : t ∈ Node.tries n.walk) {c : Catch Stmt} (hc : c ∈ t.catches) :
    c.walk ⊆ n.walk := by
  obtain ⟨m, hm, hasTry⟩ := List.mem_filterMap.1 ht
  obtain rfl : m = .stmt (.tryCatch t) := by
    unfold Node.asTry at hasTry
    split at hasTry
    · rw [Option.some.inj hasTry]
    · cases hasTry
  refine List.Subset.trans (fun x hx => ?_) (Node.walk_subset hn hm)
  show x ∈ Stmt.walk (.tryCatch t)
  rw [Stmt.walk, Try.walk, Catch.walkAll_eq]
  refine List.mem_cons_of_mem _
    (List.mem_append_left _ (List.mem_append_right _ ?_))
  exact List.mem_flatMap.2 ⟨c, hc, hx⟩

/-- What a clause of a `try` statement declares is met in a walk that meets the
statement. -/
theorem Node.declaration_mem_walk {n : Node} (hn : n.IsProper) {t : Try Stmt}
    (ht : t ∈ Node.tries n.walk) {c : Catch Stmt} (hc : c ∈ t.catches) :
    Node.declaration c.declaration ∈ n.walk := by
  refine walk_catch_subset hn ht hc ?_
  rw [Catch.walk]
  exact List.mem_cons_of_mem _ (List.mem_append_left _
    (List.mem_cons_of_mem _ List.mem_cons_self))

namespace Renaming

variable (r : Renaming)

/-- What is written for the new class where single words are renamed. -/
def written : String :=
  if r.qualified then r.new.fqn else r.new.simpleName

theorem word?_fullName (lead : Trivia) {name : String}
    (hname : Text.simpleName name = name) :
    (r.fullName lead).word? = some name ↔ r.new.fqn = name := by
  rw [fullName]
  rcases Name.ofDotted_cases r.new.fqn with ⟨h, -⟩ | ⟨h, hjoined⟩
  · rw [h]
    exact Option.some_inj
  · rw [h]
    refine ⟨fun h => (by cases h), fun hfqn => ?_⟩
    -- a name with a dot in it is longer than its last word
    rw [hfqn, hname] at hjoined
    have hlength := congrArg String.length hjoined
    rw [String.length_append, String.length_append] at hlength
    have hdot : ".".length = 1 := rfl
    omega

/-- A single word stays the same just when it is not the simple name of the old
class or that of the new one is the same. -/
theorem word?_simple (i : Ident) :
    (r.simple i).word? = some i.name ↔
      (i.name = Text.simpleName r.old → r.written = i.name) := by
  unfold simple written
  split
  · next hold =>
    split
    · rw [word?_fullName r i.lead (by
        rw [hold, Text.simpleName_of_not_mem (Text.not_mem_simpleName r.old)])]
      exact ⟨fun h _ => h, fun h => h hold⟩
    · exact Option.some_inj.trans ⟨fun h _ => h, fun h => h hold⟩
  · next hold => exact ⟨fun _ h => absurd h hold, fun _ => rfl⟩

end Renaming

namespace CatchRule

variable (r : CatchRule) (qualified : Bool)

/-- A clause takes its variable for the legacy type: it catches that alone,
its variable is called like it, and the replacement is written in another
way. -/
def TakesForType (plan : Retargeting) (d : Variables) : Prop :=
  plan = .substitution ∧ isClassNamed r.legacy d.typeTree.type = true ∧
    d.word? = some (Text.simpleName r.legacy) ∧
    (r.rename qualified).written ≠ Text.simpleName r.legacy

variable {r}

/-- A renamed declaration declares what its name is renamed to. -/
theorem declarators_edit {d : Variables} {lead after : Trivia} {i : Ident}
    {type type' : Option JavaType}
    (hd : d.declarators = [⟨⟨lead, .simple i type, none, type'⟩, after⟩]) :
    ∃ type'',
      (d.edit ((r.rename qualified).editor :
        Editor RuleNote)).value.declarators =
      [⟨⟨lead, ((r.rename qualified).name (.simple i type) :
        Edited RuleNote Name).value, none, type''⟩, after⟩] := by
  obtain ⟨dlead, ms, t, ds⟩ := d
  dsimp only at hd
  subst hd
  generalize hname :
    ((r.rename qualified).name (.simple i type) :
      Edited RuleNote Name).value = n
  have hvalue : (Variables.edit ((r.rename qualified).editor : Editor RuleNote)
      ⟨dlead, ms, t,
        [⟨⟨lead, .simple i type, none, type'⟩, after⟩]⟩).value.declarators =
        [⟨((r.rename qualified).declarator ⟨lead, n, none, type'⟩ :
          Edited RuleNote Variable).value, after⟩] := by
    rw [← hname]
    rfl
  rw [hvalue, Renaming.declarator]
  split <;> exact ⟨_, rfl⟩

/-- Dropping the legacy type leaves what is declared. -/
theorem declarators_dropFrom {d : Variables} {lead after : Trivia} {n : Name}
    {type' : Option JavaType}
    (hd : d.declarators = [⟨⟨lead, n, none, type'⟩, after⟩]) (before : Trivia)
    (ps : List (RightPadded TypeTree)) :
    ∃ type'', (r.dropFrom d before ps).declarators =
      [⟨⟨lead, n, none, type''⟩, after⟩] := by
  unfold dropFrom
  split
  · exact ⟨_, by rw [hd]; rfl⟩
  · exact ⟨_, hd⟩

/-- The word that a substitution leaves. -/
theorem declarators_substituteIn {d : Variables} {lead after : Trivia}
    {i : Ident} {type' : Option JavaType} (hd : d.declarators =
      [⟨⟨lead, .simple i d.typeTree.type, none, type'⟩, after⟩]) :
    ∃ n type'', (r.substituteIn qualified d :
      Edited RuleNote Variables).value.declarators =
        [⟨⟨lead, n, none, type''⟩, after⟩] ∧
      n.word? = if isClassNamed r.legacy d.typeTree.type = true then
        ((r.rename qualified).simple i).word? else some i.name := by
  have hrenamed : ∃ n type'',
      (d.edit ((r.rename qualified).editor :
        Editor RuleNote)).value.declarators =
        [⟨⟨lead, n, none, type''⟩, after⟩] ∧
      n.word? = if isClassNamed r.legacy d.typeTree.type = true then
        ((r.rename qualified).simple i).word? else some i.name := by
    obtain ⟨type'', h⟩ := declarators_edit (r := r) qualified hd
    refine ⟨_, type'', h, ?_⟩
    rw [Renaming.name]
    show (if isClassNamed r.legacy d.typeTree.type = true then _ else _ :
      Edited RuleNote Name).value.word? = _
    split <;> rfl
  unfold substituteIn
  split
  · next before ps htree =>
    split
    · obtain ⟨type'', h⟩ := declarators_dropFrom (r := r) hd before ps
      refine ⟨_, type'', h, ?_⟩
      -- alternatives have no type of their own
      rw [htree]
      rfl
    · exact hrenamed
  · exact hrenamed

/-- The declaration that a clause gets declares the word that it declared,
renamed if the plan substitutes the replacement for the legacy type. -/
theorem declarators_newDeclaration {d : Variables} {lead after : Trivia}
    {i : Ident} {type' : Option JavaType}
    (hd : d.declarators =
      [⟨⟨lead, .simple i d.typeTree.type, none, type'⟩, after⟩])
    (plan : Retargeting) :
    ∃ n type'', (r.newDeclaration qualified plan d).declarators =
      [⟨⟨lead, n, none, type''⟩, after⟩] ∧
      n.word? = if plan = .substitution ∧
      isClassNamed r.legacy d.typeTree.type = true then
        ((r.rename qualified).simple i).word? else some i.name := by
  unfold newDeclaration
  split
  · cases plan with
    | unchanged =>
        exact ⟨.simple i d.typeTree.type, type', hd, (if_neg nofun).symm⟩
    | substitution => simpa using declarators_substituteIn qualified hd
    | augmentation =>
        refine ⟨.simple i d.typeTree.type, type', ?_, (if_neg nofun).symm⟩
        show (r.augmentIn qualified d).declarators = _
        unfold augmentIn
        split <;> exact hd
  · next hnone =>
    refine ⟨.simple i d.typeTree.type, type', hd,
      (if_neg fun h => hnone ?_).symm⟩
    obtain ⟨c, hc, -⟩ := isClassNamed_iff.1 h.2
    rw [TypeTree.caught_of_type hc, List.any_cons, ← hc, h.2, Bool.true_or]

variable {qualified}

/-- A clause keeps its word unless the variable is taken for the legacy type. -/
theorem word?_newDeclaration {d : Variables} {name : String}
    (h : d.IsOfWord name) (plan : Retargeting) :
    (r.newDeclaration qualified plan d).word? = some name ↔
    ¬r.TakesForType qualified plan d := by
  rw [TakesForType, h.word?]
  obtain ⟨lead, i, type', after, rfl, hd⟩ := h
  obtain ⟨n, type'', hnew, hword⟩ :=
    declarators_newDeclaration qualified hd plan
  rw [Variables.word?, hnew]
  show n.word? = some i.name ↔ _
  rw [hword]
  split
  · next hboth =>
    rw [Renaming.word?_simple]
    simp only [hboth, true_and, Option.some_inj, not_and, not_not]
    exact ⟨fun h hi => hi ▸ h hi, fun h hi => hi ▸ h hi⟩
  · next hnot => exact ⟨fun _ h => hnot ⟨h.1, h.2.1⟩, fun _ => rfl⟩

/-- The parameter is renamed as a whole: the plan substitutes the replacement
for the legacy type, and of the two only the legacy type is caught. -/
def RenamesParameter (r : CatchRule) (plan : Retargeting) (d : Variables) :
    Prop :=
  plan = .substitution ∧
    d.typeTree.caught.any (isClassNamed r.legacy) = true ∧
    d.typeTree.caught.any (isClassNamed r.replacement.fqn) = false

theorem modifiers_renamed (d : Variables) :
    (d.edit ((r.rename qualified).editor :
      Editor RuleNote)).value.modifiers = d.modifiers.map fun m =>
        (m.edit ((r.rename qualified).editor : Editor RuleNote)).value :=
  Modifier.editAll_value _ d.modifiers

/-- A parameter that is renamed has its annotations renamed with it. -/
theorem modifiers_of_renamesParameter {plan : Retargeting} {d : Variables}
    (h : r.RenamesParameter plan d) :
    (r.newDeclaration qualified plan d).modifiers = d.modifiers.map fun m =>
      (m.edit ((r.rename qualified).editor : Editor RuleNote)).value := by
  obtain ⟨rfl, hlegacy, hnone⟩ := h
  unfold newDeclaration
  rw [if_pos hlegacy]
  dsimp only
  unfold substituteIn
  split
  · next lead ps htree =>
    rw [htree, TypeTree.caught, List.any_map, Function.comp_def] at hnone
    rw [if_neg (Bool.eq_false_iff.1 hnone)]
    exact modifiers_renamed d
  · exact modifiers_renamed d

/-- Any other keeps its annotations. -/
theorem modifiers_of_not_renamesParameter
    (hne : r.legacy ≠ r.replacement.fqn) {plan : Retargeting} {d : Variables}
    (h : ¬r.RenamesParameter plan d) :
    (r.newDeclaration qualified plan d).modifiers = d.modifiers := by
  unfold newDeclaration
  split
  · next hlegacy =>
    cases plan with
    | unchanged => rfl
    | augmentation =>
        dsimp only
        unfold augmentIn
        split <;> rfl
    | substitution =>
        have hboth :
            d.typeTree.caught.any (isClassNamed r.replacement.fqn) = true := by
          by_contra hnot
          exact h ⟨rfl, hlegacy, Bool.eq_false_iff.2 hnot⟩
        dsimp only
        unfold substituteIn
        split
        · next lead ps htree =>
          rw [htree, TypeTree.caught, List.any_map, Function.comp_def] at hboth
          rw [if_pos hboth, Edited.value_replace]
          unfold dropFrom
          split <;> rfl
        · next hunion =>
          -- what is caught alone is not both types
          rw [TypeTree.caught_of_not_union hunion, List.any_cons, List.any_nil,
            Bool.or_false] at hlegacy hboth
          exact absurd (isClassNamed_inj hlegacy hboth) hne
  · rfl

/-- The annotations of a clause are marks again, and mention what they did
unless the parameter is renamed. -/
theorem forall₂_marks_modifiers {S : Mark → Mark → Prop}
    (hS : ∀ m, S m m) (cp : ClassPath) (hne : r.legacy ≠ r.replacement.fqn)
    {d : Variables} {plan : Retargeting}
    (hrenamed : r.RenamesParameter plan d → ∀ m ∈ d.modifiers, ∀ ns ns',
      m.marks cp = [.annotates ns] → S (.annotates ns) (.annotates ns')) :
    List.Forall₂ S (Modifier.marksAll cp d.modifiers) (Modifier.marksAll cp
      (r.newDeclaration qualified plan d).modifiers) := by
  by_cases hrenames : r.RenamesParameter plan d
  · rw [modifiers_of_renamesParameter hrenames, Modifier.marksAll,
      Modifier.marksAll]
    have hmodifiers : List.Forall₂ (fun m m' => m ∈ d.modifiers ∧
        m' = (m.edit ((r.rename qualified).editor : Editor RuleNote)).value)
        d.modifiers (d.modifiers.map fun m =>
          (m.edit ((r.rename qualified).editor : Editor RuleNote)).value) :=
      List.forall₂_map_right_iff.2 (List.forall₂_same.2 fun m hm => ⟨hm, rfl⟩)
    refine List.rel_flatMap hmodifiers ?_
    intro m m' hboth
    obtain ⟨hm, rfl⟩ := hboth
    cases m with
    | keyword lead word => exact .nil
    | annotated lead name args =>
        cases args with
        | none => exact .nil
        | some c => exact .cons (hrenamed hrenames _ hm _ _ rfl) .nil
  · rw [modifiers_of_not_renamesParameter hne hrenames]
    exact forall₂_marks_self hS _

/-- A clause whose variable is not taken for the legacy type declares it as
it did. -/
theorem markedAlike_newDeclaration {S : Mark → Mark → Prop}
    (hdeclares : ∀ name type type',
      S (.declares name type) (.declares name type')) (cp : ClassPath)
    {d : Variables} {name : String} (h : d.IsOfWord name) {plan : Retargeting}
    (hkept : ¬r.TakesForType qualified plan d)
    (hmodifiers : List.Forall₂ S (Modifier.marksAll cp d.modifiers)
      (Modifier.marksAll cp (r.newDeclaration qualified plan d).modifiers)) :
    d.MarkedAlike S cp (r.newDeclaration qualified plan d) := by
  have hword := (word?_newDeclaration h plan).2 hkept
  obtain ⟨lead, i, type', after, rfl, hd⟩ := h
  obtain ⟨n, type'', hnew, -⟩ := declarators_newDeclaration qualified hd plan
  rw [Variables.word?, hnew] at hword
  rw [Variables.MarkedAlike, Variables.marks, Variables.marks, hnew, hd]
  refine List.rel_append ?_ hmodifiers
  cases n with
  | simple j jtype =>
      have hj : j.name = i.name := Option.some.inj hword
      show List.Forall₂ S [.declares i.name _] [.declares j.name _]
      rw [hj]
      exact .cons (hdeclares i.name _ _) .nil
  | qualified => cases hword

-- =================================================================== runs

variable (r qualified)

/-- What comes of a clause: it gets the declaration of the plan, and in its
body nothing changes but what clauses there declare. -/
structure Leaves (plan : Retargeting) (c c' : Catch Stmt) : Prop where
  declaration : c'.declaration = r.newDeclaration qualified plan c.declaration
  body : ∀ P, r.Redeclares qualified P (Node.tries (Stmt.walkBlock c.body)) →
    Stmt.Recaught P (.block c.body) (.block c'.body)

variable {r qualified}

/-- What comes of the clauses of a file. -/
theorem clauses_run (hne : r.legacy ≠ r.replacement.fqn) (cp : ClassPath)
    (cu : CompilationUnit) : List.Forall₂ (fun t t' =>
        List.Forall₂ (r.Leaves (r.mustQualify cp cu) (r.plan t))
          t.catches t'.catches)
      cu.tries (r.run cp cu).after.tries := by
  cases hchanged : (r.run cp cu).isChanged with
  | false =>
      have hsettled := (isChanged_run_eq_false_iff hne cp cu).1 hchanged
      rw [after_run_of_not_isChanged hchanged]
      refine List.forall₂_same.2 fun t ht => List.forall₂_same.2 fun c _ =>
        ⟨?_, fun _ _ => .same _⟩
      rw [plan_eq_unchanged_iff.2 (hsettled t ht), newDeclaration, ite_self]
  | true =>
      rw [after_run_of_isChanged hchanged,
        CompilationUnit.tries_applyDelta, editor_eq, CompilationUnit.tries_edit
          (keepsBlocks_retarget r _), List.forall₂_map_right_iff]
      refine List.forall₂_same.2 fun t _ => ?_
      rw [Try.edited, (r.retarget_isRetargeted _ _).1, plan_editParts hne,
        Try.editParts_value, List.map_map, List.forall₂_map_right_iff]
      exact List.forall₂_same.2 fun c _ =>
        ⟨rfl, fun P h =>
          recaught_editBlock (fun p _ => recaught_editStmt hne p.element) h⟩

/-- In a file that was read every clause declares one word, which has the type
that is caught. -/
theorem exists_isOfWord {cp : ClassPath} {source : String}
    {path : Option String} {cu : CompilationUnit}
    (h : parseUnit source cp path = .ok cu) {t : Try Stmt} (ht : t ∈ cu.tries)
    {c : Catch Stmt} (hc : c ∈ t.catches) :
    ∃ name, c.declaration.IsOfWord name := by
  have hlaid := CompilationUnit.isLaidOut_of_parseTree
    (parseTree_of_parseUnit h)
  obtain ⟨us, hus, -⟩ := writes_declaration hlaid ht hc
  obtain ⟨i, type, type', hd⟩ := exists_variable hus
  have hconsistent :=
    (isAttributed_parseUnit h _
      (Node.declaration_mem_walk (.unit cu) ht hc)).consistent
  rw [Node.IsConsistent, hd, List.forall_mem_singleton] at hconsistent
  have htype : type = c.declaration.typeTree.type := hconsistent.2
  exact ⟨i.name, i.lead, ⟨"", i.name⟩, type', "", rfl, by rw [hd, ← htype]⟩

variable (r qualified)

/-- What is left of the variable of a clause. It keeps its word unless it is
taken for the legacy type; and where neither it nor the variable of a clause
inside is taken so, the uses in the clause go back to the declarations that
they went back to. -/
structure KeepsVariable (t : Try Stmt) (c c' : Catch Stmt) : Prop where
  word : ∃ name, c.word? = some name ∧
    (c'.word? = some name ↔ ¬r.TakesForType qualified (r.plan t) c.declaration)
  uses : ¬r.TakesForType qualified (r.plan t) c.declaration →
    (∀ u ∈ Node.tries (Stmt.walkBlock c.body), ∀ d ∈ u.catches,
      ¬r.TakesForType qualified (r.plan u) d.declaration) →
    ∀ cp i j, Mark.Binds (c'.marks cp) i j ↔ Mark.Binds (c.marks cp) i j

variable {r qualified}

/-- A run keeps the variable of every clause that is not taken for the legacy
type. -/
theorem variables_run (hne : r.legacy ≠ r.replacement.fqn) {cp : ClassPath}
    {source : String} {path : Option String} {cu : CompilationUnit}
    (h : parseUnit source cp path = .ok cu) :
    List.Forall₂ (fun t t' =>
        List.Forall₂ (r.KeepsVariable (r.mustQualify cp cu) t)
          t.catches t'.catches)
      cu.tries (r.run cp cu).after.tries := by
  refine ((List.forall₂_and_left _ _).2 ⟨fun t ht => ht,
    clauses_run hne cp cu⟩).imp ?_
  rintro t t' ⟨ht, hclauses⟩
  refine ((List.forall₂_and_left _ _).2 ⟨fun c hc => hc, hclauses⟩).imp ?_
  rintro c c' ⟨hc, hdeclaration, hbody⟩
  obtain ⟨name, hname⟩ := exists_isOfWord h ht hc
  refine ⟨⟨name, hname.word?, ?_⟩, fun hkept hinner own i j =>
    Mark.binds_congr ?_ i j⟩
  · rw [Catch.word?, hdeclaration]
    exact word?_newDeclaration hname _
  · let S : Mark → Mark → Prop := fun m m' => m'.untyped = m.untyped
    have hS : ∀ m, S m m := fun _ => rfl
    -- what annotations mention binds nothing
    have hdeclares {d : Variables} {plan : Retargeting} {name : String}
        (h : d.IsOfWord name)
        (hkept : ¬r.TakesForType (r.mustQualify cp cu) plan d) :
        d.MarkedAlike S own (r.newDeclaration (r.mustQualify cp cu) plan d) :=
      markedAlike_newDeclaration (fun _ _ _ => rfl) own h hkept
        (forall₂_marks_modifiers hS own hne fun _ _ _ _ _ _ => rfl)
    have hmarked : c.declaration.MarkedAlike S own c'.declaration :=
      hdeclaration ▸ hdeclares hname hkept
    have hredeclares : r.Redeclares (r.mustQualify cp cu)
        (Variables.MarkedAlike S own) (Node.tries (Stmt.walkBlock c.body)) := by
      intro u hu d hd
      have hu' : u ∈ cu.tries := by
        have hsubset := Node.walk_catch_subset (.unit cu) ht hc
        rw [Catch.walk] at hsubset
        obtain ⟨n, hn, htry⟩ := List.mem_filterMap.1 hu
        exact List.mem_filterMap.2
          ⟨n,
            hsubset (List.mem_cons_of_mem _ (List.mem_append_right _ hn)), htry⟩
      obtain ⟨inner, hinner'⟩ := exists_isOfWord h hu' hd
      exact hdeclares hinner' (hinner u hu d hd)
    have hmarks := (hbody _ hredeclares).marksAlike hS
    rw [Stmt.marks, Stmt.marks] at hmarks
    exact Mark.map_untyped_of_forall₂ (Catch.marksAlike hS hmarked hmarks)

/-- The words that the clauses of a file declare. -/
def sampleWords (cu : CompilationUnit) : List (List (Option String)) :=
  cu.tries.map fun t => t.catches.map Catch.word?

/-- The clauses of the sample keep their variables. -/
theorem variables_run_sample :
    ∃ cu, sampleRule.legacy ≠ sampleRule.replacement.fqn ∧
      parseUnit sampleText sampleClassPath none = .ok cu ∧
      sampleWords cu = [[some "o"], [some "e"]] ∧
      sampleWords (sampleRule.run sampleClassPath cu).after =
        [[some "o"], [some "e"]] ∧
      List.Forall₂ (fun t t' => List.Forall₂
          (sampleRule.KeepsVariable
            (sampleRule.mustQualify sampleClassPath cu) t)
          t.catches t'.catches)
        cu.tries (sampleRule.run sampleClassPath cu).after.tries := by
  have hne : sampleRule.legacy ≠ sampleRule.replacement.fqn :=
    Recipe.ne_ruleOf (by decide) sampleClassPath
  have hok : (parseUnit sampleText sampleClassPath none).isOk = true := by
    decide +kernel
  have hwords : sampleWords (sampleUnit sampleText) =
      [[some "o"], [some "e"]] := by
    decide +kernel
  have hafter : sampleWords
      (sampleRule.run sampleClassPath (sampleUnit sampleText)).after =
      [[some "o"], [some "e"]] := by
    decide +kernel
  obtain ⟨cu, h⟩ := exists_of_isOk hok
  have hunit : sampleUnit sampleText = cu := by rw [sampleUnit, h]
  rw [hunit] at hwords hafter
  exact ⟨cu, hne, h, hwords, hafter, variables_run hne h⟩

/-- A file in which a clause uses a variable that is called like the legacy
type. -/
def sampleUsedAlike : String :=
  "import p.*;class A\x7bApi a;void f()\x7btry\x7ba.call();\x7dcatch(Old Old)" ++
    "\x7bOld.x();\x7d\x7d\x7d"

/-- The marks of the clauses of a file. -/
def sampleMarks (cu : CompilationUnit) : List (List Mark) :=
  cu.tries.flatMap fun t => t.catches.map fun c =>
    (c.marks sampleClassPath).map Mark.untyped

/-- A run calls it like the replacement, and the use goes back to nothing in
the clause. -/
theorem variables_run_sample_not :
    (parseUnit sampleUsedAlike sampleClassPath none).isOk = true ∧
      sampleMarks (sampleUnit sampleUsedAlike) =
        [[.opens, .declares "Old" none, .opens, .uses "Old" none,
          .closes, .closes]] ∧
      sampleMarks (sampleRule.run sampleClassPath
        (sampleUnit sampleUsedAlike)).after =
        [[.opens, .declares "New" none, .opens, .uses "Old" none,
          .closes, .closes]] ∧
      sampleWords (sampleUnit sampleUsedAlike) = [[some "Old"]] ∧
      sampleWords (sampleRule.run sampleClassPath
        (sampleUnit sampleUsedAlike)).after = [[some "New"]] := by
  decide +kernel

end CatchRule

end JavaRefit
