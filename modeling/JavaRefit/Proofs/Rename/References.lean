/-
What a renaming does to a reference.

A reference to a class is a name in the place of one with the class as its
type. Where a single word stands, the simple name of the new class stands
afterwards, or its full name; where the full name of the old class stands,
that of the new one. A name that only ends in the old class, behind what
leads there from an outer class or an import, gets the new type and keeps
its words.

No reference is inside a chain that gives way as a whole: what is typed as
a whole has no types inside it, and what ends in `class` spells no class.
So the reference is found afterwards where it was before.

Chain: after `Place` and the proofs about what attribution leaves; read by
the proofs about the names of rewritten clauses.
-/
import JavaRefit.Proofs.Attribution.RecordedUnit
import JavaRefit.Proofs.CatchRule.Run
import JavaRefit.Proofs.Grammar.Words
import JavaRefit.Proofs.Rename.Place
import JavaRefit.Proofs.Tree.Spelled

namespace JavaRefit

-- ================================================================ chains

namespace Expr

/-- The chain of a name is that name. -/
theorem name?_ofName (n : Name) : (ofName n).name? = some n := by
  induction n with
  | simple i type => rfl
  | qualified lead outer last type ih => rw [ofName, name?, ih, Option.map_some]

/-- An expression that is a name is the chain of it. -/
theorem eq_ofName_of_name? {e : Expr} {n : Name} (h : e.name? = some n) :
    e = ofName n := by
  induction e using Expr.induction_on generalizing n with
  | ident i type => rw [← Option.some.inj h, ofName]
  | access lead target last type ih =>
      obtain ⟨outer, houter, rfl⟩ := Option.map_eq_some_iff.1 h
      rw [ofName, ← ih houter]
  | _ => cases h

end Expr

variable {ω : Type} (r : Renaming)

/-- A chain is renamed as the name that it is. -/
theorem Expr.edit_ofName (n : Name) :
    ((ofName n).edit (r.editor : Editor ω)).value =
      ofName (n.edit (r.editor : Editor ω)).value := by
  have hnode (n : Name) : (r.expr (ofName n) : Edited ω Expr).value =
      ofName (r.name n : Edited ω Name).value := by
    cases n with
    | simple i type =>
        by_cases hc : r.concerns type = true <;>
          simp [Renaming.expr, Renaming.name, ofName, Expr.type, Name.type, hc]
    | qualified lead outer last type =>
        have hdotted : (Expr.access lead (ofName outer) last type).dotted? =
            some (Name.qualified lead outer last type).dotted :=
          dotted?_ofName (.qualified lead outer last type)
        by_cases hc : r.concerns type = true
        · simp only [Renaming.expr, Renaming.name, ofName, Expr.type, Name.type,
            hc, if_true, Edited.value_replace, hdotted, Option.some.injEq]
          split <;> rfl
        · simp [Renaming.expr, Renaming.name, ofName, Expr.type, Name.type, hc]
  induction n with
  | simple i type => exact hnode (.simple i type)
  | qualified lead outer last type ih =>
      show (r.expr (.access lead
        ((ofName outer).edit (r.editor : Editor ω)).value last type) :
        Edited ω Expr).value = _
      rw [ih]
      exact hnode
        (.qualified lead (outer.edit (r.editor : Editor ω)).value last type)

/-- A name that is renamed is a name. -/
theorem Node.asName?_renamed {n : Node} {c : Name} (h : n.asName? = some c) :
    (n.renamed ω r).asName? = some (c.edit (r.editor : Editor ω)).value := by
  cases n with
  | name n =>
      obtain rfl := Option.some.inj h
      rfl
  | expr e =>
      obtain rfl := Expr.eq_ofName_of_name? h
      show (Expr.edit (r.editor : Editor ω) _).value.name? = _
      rw [Expr.edit_ofName, Expr.name?_ofName]
  | _ => cases h

-- ================================================================ places

namespace Node

/-- The name in the place of a class that the numbers of children lead to. -/
def classNameAt? : Node → List Nat → Option Name
  | _, [] => none
  | n, [i] => n.children[i]?.bind n.className?
  | n, i :: j :: place =>
      n.children[i]?.bind fun m => m.classNameAt? (j :: place)

/-- The name or the chain of words that the numbers of children lead to. -/
def nameAt? (n : Node) (place : List Nat) : Option Name :=
  (n.at? place).bind asName?

/-- Below an identifier no class is named. -/
theorem classNameAt?_ident (i : Ident) (place : List Nat) :
    (ident i).classNameAt? place = none := by
  rcases place with - | ⟨_, - | ⟨_, _⟩⟩ <;> rfl

theorem classNameAt?_name (n : Name) (place : List Nat) :
    (name n).classNameAt? place = none := by
  induction n generalizing place with
  | simple i type => rcases place with - | ⟨_, - | ⟨_, _⟩⟩ <;> rfl
  | qualified lead outer last type ih =>
      rcases place with - | ⟨i, - | ⟨j, place⟩⟩
      · rfl
      · rw [classNameAt?]
        cases (name (.qualified lead outer last type)).children[i]? <;> rfl
      · rcases i with - | - | i
        · exact ih (j :: place)
        · exact classNameAt?_ident last.element (j :: place)
        · rfl

/-- A class is named by a name, or by a chain of words, that is met in the
walk. -/
theorem exists_of_classNameAt? {n : Node} (hn : n.IsProper) {place : List Nat}
    {c : Name} (hc : n.classNameAt? place = some c) :
    ∃ m ∈ n.walk, m.asName? = some c := by
  induction place generalizing n with
  | nil => cases hc
  | cons i place ih =>
      rcases place with - | ⟨j, place⟩
      · obtain ⟨m, hm, hname⟩ := Option.bind_eq_some_iff.1 hc
        have hat : n.at? [i] = some m := by
          rw [at?_cons, hm]
          rfl
        exact ⟨m, mem_walk_of_at? hn hat, asName?_of_className? hname⟩
      · obtain ⟨k, hk, hname⟩ := Option.bind_eq_some_iff.1 hc
        have hmem := List.mem_of_getElem? hk
        obtain ⟨m, hm, hname⟩ := ih (isProper_of_mem_children k hmem) hname
        rw [walk_eq hn]
        exact ⟨m, List.mem_cons_of_mem n (List.mem_flatMap.2 ⟨k, hmem, hm⟩),
          hname⟩

/-- Inside a chain that ends in front of something without types no class is
named. -/
theorem type_eq_none_of_classNameAt?_access {lead : Trivia} {target : Expr}
    {last : LeftPadded Ident} {type : Option JavaType}
    (hspelling : target.dotted?.isSome = true)
    (huntyped : target.untyped = target) {place : List Nat} {c : Name}
    (hc : (expr (.access lead target last type)).classNameAt? place = some c) :
    c.type = none := by
  rcases place with - | ⟨i, - | ⟨j, place⟩⟩
  · cases hc
  · rcases i with - | - | i
    · have hclass : (expr (.access lead target last type)).className?
          (.expr target) = some c := hc
      have hname : target.untyped.name? = some c :=
        huntyped.symm ▸ asName?_of_className? hclass
      rw [Expr.name?_untyped] at hname
      obtain ⟨n, -, rfl⟩ := Option.map_eq_some_iff.1 hname
      cases n <;> rfl
    · cases hc
    · cases hc
  · rcases i with - | - | i
    · have hc : (expr target).classNameAt? (j :: place) = some c := hc
      cases target with
      | ident i type => rcases place with - | ⟨_, _⟩ <;> cases hc
      | access lead inner last type =>
          have hinner : inner.untyped = inner := (Expr.access.inj huntyped).2.1
          refine type_eq_none_of_classNameAt?_access ?_ hinner hc
          simpa [Expr.dotted?] using hspelling
      | _ => cases hspelling
    · rw [classNameAt?, Option.bind_eq_some_iff] at hc
      obtain ⟨m, hm, hc⟩ := hc
      obtain rfl := Option.some.inj hm
      rw [classNameAt?_ident] at hc
      cases hc
    · cases hc

variable {r}

/-- Inside a chain that gives way as a whole no other class is named. -/
theorem not_concerns_of_respells {n : Node} (hn : n.IsTypedWhole)
    (h : r.Respells ω n) {place : List Nat} {c : Name}
    (hc : n.classNameAt? place = some c) : r.concerns c.type = false := by
  cases n with
  | name n =>
      rw [classNameAt?_name] at hc
      cases hc
  | expr e =>
      cases e with
      | ident i type => rcases place with - | ⟨_, - | ⟨_, _⟩⟩ <;> cases hc
      | access lead target last type =>
          obtain ⟨hconcerns, hspells⟩ := h
          obtain ⟨text, htext, hold⟩ :
              ∃ text, (target.edit (r.editor : Editor ω)).value.dotted? =
              some text ∧ text ++ "." ++ last.element.name = r.old :=
                Option.map_eq_some_iff.1 hspells
          have hspelling : target.dotted?.isSome = true := by
            rw [← Expr.isSome_dotted?_renamed r, htext]
            rfl
          rcases hn with htype | huntyped | hlast
          · rw [htype] at hconcerns
            cases hconcerns
          · rw [type_eq_none_of_classNameAt?_access hspelling huntyped hc]
            rfl
          · split at hlast
            next hliteral =>
              have hclass : last.element.name = "class" := beq_iff_eq.1 hliteral
              have holdClass : r.old = "java.lang.Class" :=
                isClassNamed_inj hconcerns hlast
              have hsimple := congrArg Text.simpleName (hold.trans holdClass)
              rw [Text.simpleName_append, hclass] at hsimple
              exact absurd hsimple (by decide)
            next hliteral =>
              obtain ⟨i, type', rfl⟩ := hlast
              rcases place with - | ⟨k, - | ⟨j, place⟩⟩
              · cases hc
              · rcases k with - | - | k
                · have hclass :
                      (if isClassLiteral last &&
                        (Expr.ident i type').isNameChain then
                      (Expr.ident i type').name? else none) = some c := hc
                  rw [Bool.eq_false_iff.2 hliteral] at hclass
                  cases hclass
                · cases hc
                · cases hc
              · rcases k with - | - | k
                · rcases place with - | ⟨_, _⟩ <;> cases hc
                · rcases place with - | ⟨_, _⟩ <;> cases hc
                · cases hc
      | _ => cases h
  | _ => cases h

/-- A reference stands renamed where it stood, and means a class. -/
theorem nameAt?_renamed {n : Node} (hn : n.IsProper)
    (h : ∀ m ∈ n.walk, m.IsAttributed) {place : List Nat} {c : Name}
    (hc : n.classNameAt? place = some c)
    (hconcerns : r.concerns c.type = true) :
    (n.renamed ω r).nameAt? place = some (c.edit (r.editor : Editor ω)).value ∧
    c.NamesClass := by
  induction place generalizing n with
  | nil => cases hc
  | cons i place ih =>
      rw [walk_eq hn, List.forall_mem_cons, List.forall_mem_flatMap] at h
      obtain ⟨hself, hbelow⟩ := h
      have hstays : ¬ r.Respells ω n := fun hrespells => by
        rw [not_concerns_of_respells hself.whole hrespells hc] at hconcerns
        cases hconcerns
      have hchild {m : Node} (hm : n.children[i]? = some m) :
          (n.renamed ω r).children[i]? = some (m.renamed ω r) := by
        rw [children_renamed hn hstays, List.getElem?_map, hm, Option.map_some]
      rcases place with - | ⟨j, place⟩
      · obtain ⟨m, hm, hname⟩ := Option.bind_eq_some_iff.1 hc
        refine ⟨?_, hself.names m (List.mem_of_getElem? hm) c hname⟩
        rw [nameAt?, at?_cons, hchild hm]
        exact asName?_renamed r (asName?_of_className? hname)
      · obtain ⟨m, hm, hname⟩ := Option.bind_eq_some_iff.1 hc
        have hmem := List.mem_of_getElem? hm
        obtain ⟨hthere, hnames⟩ :=
          ih (isProper_of_mem_children m hmem) (hbelow m hmem) hname
        refine ⟨?_, hnames⟩
        rw [nameAt?, at?_cons, hchild hm]
        exact hthere

end Node

-- ============================================================ references

namespace Renaming

variable (r : Renaming)

/-- The new name in full spells the new class. -/
theorem dotted_fullName (lead : Trivia) :
    (r.fullName lead).dotted = r.new.fqn := by
  rw [fullName, Name.dotted_withType, Name.dotted_withLead,
    Name.dotted_ofDotted]

theorem lead_fullName (lead : Trivia) : (r.fullName lead).lead = lead := by
  have hlead (n : Name) : (n.withType r.newType).lead = n.lead := by
    cases n <;> rfl
  rw [fullName, hlead, Name.lead_withLead]

theorem lead_simple (i : Ident) : (r.simple i).lead = i.lead := by
  unfold simple
  split
  · split
    · exact r.lead_fullName i.lead
    · rfl
  · rfl

/-- A simple name is renamed to the new one, in full where that is needed. -/
theorem dotted_simple {i : Ident} (h : i.name = Text.simpleName r.old) :
    (r.simple i).dotted = if r.qualified then r.new.fqn
      else r.new.simpleName := by
  unfold simple
  rw [if_pos h]
  split
  · exact r.dotted_fullName i.lead
  · rfl

/-- What a simple name that carries the old class becomes. -/
theorem value_name_simple {i : Ident} {type : Option JavaType}
    (h : r.concerns type = true) :
    (r.name (.simple i type) : Edited ω Name).value = r.simple i := by
  unfold Renaming.name
  rw [if_pos (show r.concerns (Name.simple i type).type = true from h),
    Edited.value_replace]

/-- What a qualified name that carries the old class becomes. -/
theorem value_name_qualified {lead : Trivia} {outer : Name}
    {last : LeftPadded Ident} {type : Option JavaType}
    (h : r.concerns type = true) :
    (r.name (.qualified lead outer last type) : Edited ω Name).value =
      if (Name.qualified lead outer last type).dotted = r.old
        then r.fullName lead
      else .qualified lead outer last r.newType := by
  unfold Renaming.name
  rw [if_pos (show r.concerns (Name.qualified lead outer last type).type =
    true from h), Edited.value_replace]

end Renaming

/-- What is written for a name that has the class as its type. -/
structure Renaming.Rewrites (r : Renaming) (c c' : Name) : Prop where
  lead : c'.lead = c.lead
  type : c'.type = r.newType
  word : c.outer? = none → c'.dotted = if r.qualified then r.new.fqn
    else r.new.simpleName
  chain : c.outer? ≠ none → c'.dotted = if c.dotted = r.old then r.new.fqn
    else c.dotted

/-- A name of the old class is rewritten as it is spelled. -/
theorem Name.NamesClass.rewrites {c : Name} (h : c.NamesClass)
    (hconcerns : r.concerns c.type = true)
    (hword : c.outer? = none → Text.simpleName c.last = c.last) :
    r.Rewrites c (c.edit (r.editor : Editor ω)).value := by
  obtain ⟨k, htype, hold⟩ : ∃ k, c.type = some (.reference k) ∧
      k.fqn = r.old := by
    unfold Renaming.concerns isClassNamed at hconcerns
    split at hconcerns
    next k heq => exact ⟨k, heq, beq_iff_eq.1 hconcerns⟩
    next => cases hconcerns
  cases c with
  | simple i type =>
      have hvalue : ((Name.simple i type).edit (r.editor : Editor ω)).value =
          r.simple i :=
        r.value_name_simple hconcerns
      rw [hvalue]
      refine ⟨r.lead_simple i, r.type_simple i, fun houter =>
        r.dotted_simple ?_, fun h => absurd rfl h⟩
      rw [← hold, h.simple k htype]
      exact (hword houter).symm
  | qualified lead outer last type =>
      have hvalue : ((Name.qualified lead outer last type).edit
          (r.editor : Editor ω)).value =
          if (Name.qualified lead outer last type).dotted = r.old
            then r.fullName lead
          else .qualified lead outer last r.newType := by
        refine Eq.trans ?_ (r.value_name_qualified (ω := ω) hconcerns)
        show (r.name (.qualified lead (outer.edit (r.editor : Editor ω)).value
          last type) : Edited ω Name).value = _
        rw [edit_of_untyped r (h.outer outer rfl)]
      rw [hvalue]
      split
      next hspells =>
        exact ⟨r.lead_fullName lead, r.type_fullName lead, nofun, fun _ => by
          rw [if_pos hspells, r.dotted_fullName]⟩
      next hspells => exact ⟨rfl, rfl, nofun, fun _ => (if_neg hspells).symm⟩

/-- A reference to the class to rename stands where it stood, with the same
trivia in front and the new class as its type. For a single word there is the
simple name of the new class or, where that is not to be trusted, its full
name. For a chain that spells the old class there is one that spells the new
class. Any other chain has its words as they were. -/
theorem CompilationUnit.references_renamed {source : String} {cp : ClassPath}
    {path : Option String} {cu : CompilationUnit}
    (h : parseUnit source cp path = .ok cu) (r : Renaming) {place : List Nat}
    {c : Name} (hc : (Node.unit cu).classNameAt? place = some c)
    (hconcerns : r.concerns c.type = true) :
    ∃ c', (Node.unit (cu.edit (r.editor : Editor Empty)).value).nameAt?
      place = some c' ∧ c'.lead = c.lead ∧ c'.type = r.newType ∧
      (c.outer? = none → c'.dotted = if r.qualified then r.new.fqn
        else r.new.simpleName) ∧
      (c.outer? ≠ none → c'.dotted = if c.dotted = r.old then r.new.fqn
        else c.dotted) := by
  obtain ⟨hthere, hnames⟩ :=
    Node.nameAt?_renamed (.unit cu) (isAttributed_parseUnit h) hc hconcerns
  have hsimple (houter : c.outer? = none) :
      Text.simpleName c.last = c.last := by
    obtain ⟨m, hm, hname⟩ := Node.exists_of_classNameAt? (.unit cu) hc
    exact Text.simpleName_of_not_mem
      (not_mem_of_word? h hm (Node.word?_of_asName? hname houter))
  obtain ⟨hlead, htype, hword, hchain⟩ :=
    hnames.rewrites (ω := Empty) r hconcerns hsimple
  exact ⟨_, hthere, hlead, htype, hword, hchain⟩

/-- A class that is imported, and a variable of it. -/
def sampleReferring : String :=
  "import p.Old;class A\x7bOld o;\x7d"

theorem CompilationUnit.references_renamed_sample :
    ∃ cu c, parseUnit sampleReferring sampleClassPath none = .ok cu ∧
      (Node.unit cu).classNameAt? [1, 1, 0, 0] = some c ∧
      sampleRenaming.concerns c.type = true ∧ c.outer? = none ∧
      ∃ c',
        (Node.unit (cu.edit (sampleRenaming.editor :
          Editor Empty)).value).nameAt? [1, 1, 0, 0] =
          some c' ∧ c'.type = sampleRenaming.newType ∧ c'.dotted = "New" := by
  have hok : (parseUnit sampleReferring sampleClassPath none).isOk = true := by
    decide +kernel
  obtain ⟨cu, hcu⟩ := exists_of_isOk hok
  have hunit : sampleUnit sampleReferring = cu := by rw [sampleUnit, hcu]
  have hfacts : ((Node.unit (sampleUnit sampleReferring)).classNameAt?
      [1, 1, 0, 0]).any (fun c =>
      sampleRenaming.concerns c.type && c.outer?.isNone) = true := by
    decide +kernel
  rw [hunit, Option.any_eq_true] at hfacts
  obtain ⟨c, hc, hfacts⟩ := hfacts
  simp only [Bool.and_eq_true, Option.isNone_iff_eq_none] at hfacts
  obtain ⟨hconcerns, houter⟩ := hfacts
  obtain ⟨c', hthere, -, htype, hdotted, -⟩ :=
    references_renamed hcu sampleRenaming hc hconcerns
  exact ⟨cu, c, hcu, hc, hconcerns, houter, c', hthere, htype,
    (hdotted houter).trans (by decide)⟩

/-- A class in another one, and a variable of it that names both. -/
def sampleNested : String :=
  "package q;class A\x7bclass B\x7b\x7dA.B o;\x7d"

/-- The variable's type is the new class, and goes on naming the old one. -/
theorem CompilationUnit.references_renamed_sample_not :
    ∃ cu c c', parseUnit sampleNested sampleClassPath none = .ok cu ∧
      (Node.unit cu).classNameAt? [1, 1, 1, 0] = some c ∧
      isClassNamed "q.A.B" c.type = true ∧
      (Node.unit (cu.edit ((⟨"q.A.B", .bare "p.New", true⟩ : Renaming).editor :
        Editor Empty)).value).nameAt?
          [1, 1, 1, 0] = some c' ∧
        isClassNamed "p.New" c'.type = true ∧ c'.dotted = "A.B" := by
  have hok : (parseUnit sampleNested sampleClassPath none).isOk = true := by
    decide +kernel
  obtain ⟨cu, hcu⟩ := exists_of_isOk hok
  have hunit : sampleUnit sampleNested = cu := by rw [sampleUnit, hcu]
  have hbefore : ((Node.unit (sampleUnit sampleNested)).classNameAt?
      [1, 1, 1, 0]).any (fun c => isClassNamed "q.A.B" c.type) = true := by
    decide +kernel
  have hafter : ((Node.unit ((sampleUnit sampleNested).edit
      ((⟨"q.A.B", .bare "p.New", true⟩ : Renaming).editor :
        Editor Empty)).value).nameAt?
        [1, 1, 1, 0]).any (fun c => isClassNamed "p.New" c.type && c.dotted ==
          "A.B") = true := by
    decide +kernel
  rw [hunit, Option.any_eq_true] at hbefore hafter
  obtain ⟨c, hc, hold⟩ := hbefore
  obtain ⟨c', hc', hnew⟩ := hafter
  rw [Bool.and_eq_true, beq_iff_eq] at hnew
  exact ⟨cu, c, c', hcu, hc, hold, hc', hnew.1, hnew.2⟩

end JavaRefit
