/-
Variables are scoped lexically.

In a file with its types, whatever the class path: a word that is an
expression has the declared type of the variable it means where it
stands, and if it means none that of the class so called, whose full name
is the one found for the word (`typed_lexical`). What a word means is
certain where no class has two fields of a name.

A word after `this` is looked up in the same scopes as a word alone
(`typed_ownField`). So a local variable or parameter in a scope inside
the class hides the field from it, and a class without such a field lends
from the one around it.

Chain: after `Walks`; `Meaning` reads it.
-/
import JavaRefit.Proofs.Attribution.Walks

namespace JavaRefit

open ClassPath Mark

namespace CompilationUnit

variable {cu : CompilationUnit} {cp : ClassPath}

/-- No class of the file has two fields of a name. -/
def HasDistinctFields (cu : CompilationUnit) : Prop :=
  DistinctFields cu.declaredClasses

instance (cu : CompilationUnit) : Decidable cu.HasDistinctFields :=
  inferInstanceAs (Decidable (DistinctFields cu.declaredClasses))

/-- The class that a word of the file means, if it means one, as its type is
remembered in the end. -/
def classMeant (cu : CompilationUnit) (cp : ClassPath) (name : String) :
    Option JavaType :=
  ((cu.env cp).classOf (cu.fileNames.resolve? (cu.extendClassPath cp) name)
    (cu.typedQuery cp []).2).1

/-- The classes of a file lead back to its start. -/
theorem typedQuery_crosses {final : Memo}
    (hfinal : (cu.extendClassPath cp).Declares final) :
    (cu.extendClassPath cp).Asks final (cu.typedQuery cp) fun cu' =>
      (cu.HasDistinctFields →
        FieldsDistinct (cu'.marks (cu.extendClassPath cp))) ∧
      (cu.env cp).Crosses ((cu.env cp).classMeant final) [] (cu.env cp)
        (cu'.marks (cu.extendClassPath cp)) := by
  have hclasses {cs : List JavaClass} : (cu.extendClassPath cp).Asks final
      (cs.mapM (ClassDecl.typed (cu.env cp) cu.packageName)) fun cs' =>
        (DistinctFields (cs.flatMap (ClassDecl.declared cu.packageName)) →
          FieldsDistinct
            (cs'.flatMap (ClassDecl.marks (cu.extendClassPath cp)))) ∧
        (cu.env cp).Crosses ((cu.env cp).classMeant final) [] (cu.env cp)
          (cs'.flatMap (ClassDecl.marks (cu.extendClassPath cp))) := by
    induction cs with
    | nil =>
        exact .pure ⟨fun _ => .of_classless fun _ => List.not_mem_nil, .refl⟩
    | cons c cs ih =>
        rw [List.mapM_cons]
        have hclass := ClassDecl.typed_crosses hfinal
          (fun p (_ : p ∈ c.body.statements) => p.element.typed_walks hfinal)
          (Env.SameFile.refl : (cu.env cp).SameFile (cu.env cp)) cu.packageName
        refine hclass.bind fun c' => ih.bind fun cs' => .pure fun hcs hc =>
          ⟨fun hall => ?_, hc.2.trans hcs.2⟩
        rw [List.flatMap_cons, DistinctFields, List.forall_mem_append] at hall
        exact (hc.1 hall.1).append (hcs.1 hall.2)
  exact hclasses.bind fun cs => .pure fun hcs => hcs

/-- What a file leaves remembered are answers of its class path. -/
theorem declares_typedQuery (cu : CompilationUnit) (cp : ClassPath) :
    (cu.extendClassPath cp).Declares (cu.typedQuery cp []).2 :=
  have hempty : (cu.extendClassPath cp).Declares [] := declares_nil
  (typedQuery_crosses hempty [] hempty).1

/-- The file with its types leads back to its start, by what is remembered in
the end. -/
theorem typed_crosses (cu : CompilationUnit) (cp : ClassPath) :
    (cu.HasDistinctFields →
      FieldsDistinct ((cu.typed cp).marks (cu.extendClassPath cp))) ∧
    (cu.env cp).Crosses (cu.classMeant cp) [] (cu.env cp)
      ((cu.typed cp).marks (cu.extendClassPath cp)) :=
  (typedQuery_crosses (declares_typedQuery cu cp) [] declares_nil).2.2 (.refl _)

/-- All uses of variables in a file with its types fit what is before them. -/
theorem typed_allFit (cu : CompilationUnit) (cp : ClassPath) :
    AllFit (cu.classMeant cp) []
      ((cu.typed cp).marks (cu.extendClassPath cp)) :=
  (typed_crosses cu cp).2.fits [] (List.forall_mem_nil _) fun _ =>
    .outermost .nil

/-- Where no class of the file has two fields of a name, none around a place
has. -/
theorem HasDistinctFields.distinctAround (h : cu.HasDistinctFields)
    {before inside after : List Mark}
    (hmarks : (cu.typed cp).marks (cu.extendClassPath cp) =
      before ++ (inside ++ after)) : DistinctAround inside := by
  intro fields haround
  have hmem : .opensClass fields ∈
      (cu.typed cp).marks (cu.extendClassPath cp) := by
    rw [hmarks]
    exact List.mem_append_right _ (List.mem_append_left _ haround.mem)
  exact (typed_crosses cu cp).1 h fields hmem

/-- The class that a word means has the name that is found for the word;
without one there is none. -/
theorem fqn?_classMeant (cu : CompilationUnit) (cp : ClassPath)
    (name : String) : (cu.classMeant cp name).bind JavaType.fqn? =
      (cu.fileNames.resolve? (cu.extendClassPath cp) name).filter (· ≠ "") := by
  rw [classMeant]
  cases cu.fileNames.resolve? (cu.extendClassPath cp) name with
  | none => rfl
  | some fqn =>
      rw [Env.classOf, Option.filter_some]
      split
      next hempty =>
        rw [hempty]
        rfl
      next hname =>
        rw [if_pos (decide_eq_true hname)]
        exact congrArg some (fqn_typeOf_of_declares (declares_typedQuery cu cp))

/-- A word that is an expression has the declared type of the variable it
means, where it means one, and else that of the class it means. That is the
class whose full name is found for the word, and none if none is found. -/
theorem typed_lexical (h : cu.HasDistinctFields) {before after : List Mark}
    {name : String} {type : Option JavaType}
    (hmarks : (cu.typed cp).marks (cu.extendClassPath cp) =
      before ++ .uses name type :: after) :
    ∃ meaning, Means name before meaning ∧
      (∀ other, Means name before other → other = meaning) ∧
      type = meaning.getD (cu.classMeant cp name) ∧
      (cu.classMeant cp name).bind JavaType.fqn? =
        (cu.fileNames.resolve? (cu.extendClassPath cp) name).filter
          (· ≠ "") := by
  obtain ⟨meaning, hmeaning, htype⟩ :=
    typed_allFit cu cp before (.uses name type) after hmarks
  have hdistinct : DistinctAround before :=
    h.distinctAround (hmarks.trans (List.nil_append _).symm)
  exact ⟨meaning, hmeaning,
    fun other hother => hother.unique hdistinct hmeaning, htype,
    fqn?_classMeant cu cp name⟩

/-- A class in which a parameter hides one of two fields. -/
def sampleHiding : CompilationUnit :=
  match parseTree
    "class A\x7bboolean f,g;void m(int f)\x7bn(f,this.f,this.g);\x7d\x7d"
      none with
  | .ok cu => cu
  | .error _ => ⟨"", none, [], [], "", none⟩

/-- The fields of the class. -/
def sampleFields : List (String × Option JavaType) :=
  [("f", some (.primitive .boolean)), ("g", some (.primitive .boolean))]

/-- The marks in the class up to the words. -/
def sampleBody : List Mark :=
  [.opens, .declares "f" (some (.primitive .int)), .opens]

/-- The class has no two fields of a name. -/
theorem hasDistinctFields_sampleHiding : sampleHiding.HasDistinctFields := by
  decide +kernel

/-- Its marks with types. -/
theorem marks_sampleHiding :
    (sampleHiding.typed (.ofList [])).marks
      (sampleHiding.extendClassPath (.ofList [])) =
      .opensClass sampleFields :: (sampleBody ++
        [.uses "f" (some (.primitive .int)),
          .usesField "f" (some (.primitive .int)),
          .usesField "g" (some (.primitive .boolean)), .closes, .closes,
          .closes]) := by
  decide +kernel

/-- The word alone is the parameter. -/
theorem typed_lexical_hiding :
    sampleHiding.HasDistinctFields ∧
      (sampleHiding.typed (.ofList [])).marks
        (sampleHiding.extendClassPath (.ofList [])) =
        (.opensClass sampleFields :: sampleBody) ++
          .uses "f" (some (.primitive .int)) ::
          [.usesField "f" (some (.primitive .int)),
            .usesField "g" (some (.primitive .boolean)),
            .closes, .closes, .closes] ∧
      ∃ meaning, Means "f" (.opensClass sampleFields :: sampleBody) meaning ∧
        (∀ other, Means "f" (.opensClass sampleFields :: sampleBody) other →
          other = meaning) ∧
        some (.primitive .int) =
          meaning.getD (sampleHiding.classMeant (.ofList []) "f") ∧
        (sampleHiding.classMeant (.ofList []) "f").bind JavaType.fqn? =
          (sampleHiding.fileNames.resolve?
            (sampleHiding.extendClassPath (.ofList [])) "f").filter (· ≠ "") :=
  ⟨hasDistinctFields_sampleHiding, marks_sampleHiding,
    typed_lexical hasDistinctFields_sampleHiding marks_sampleHiding⟩

-- ============================================================ after `this`

/-- A word after `this` in a class that has no two fields of a name has the
declared type of the variable that it means in the scopes inside the class,
where there is one; else that of the field of the class; else that of
the variable that it means around the class. The one is certain where no class
in between has two fields of a name, the other where none around has; and so
both are if none of the file has (`HasDistinctFields.distinctAround`). -/
theorem typed_ownField {outer inside after : List Mark}
    {fields : List (String × Option JavaType)}
    (hfields : (fields.map Prod.fst).Nodup)
    {name : String} {type : Option JavaType}
    {local? outer? : Option (Option JavaType)}
    (hmarks : (cu.typed cp).marks (cu.extendClassPath cp) =
      outer ++ .opensClass fields :: (inside ++ .usesField name type :: after))
    (hinside : Means name inside local?) (houter : Means name outer outer?) :
    ∃ inner around, Means name inside inner ∧ Means name outer around ∧
      type = (inner.or ((fields.lookup name).or around)).join ∧
      (DistinctAround inside → inner = local?) ∧
      (DistinctAround outer → around = outer?) := by
  have hbefore : (cu.typed cp).marks (cu.extendClassPath cp) =
      (outer ++ .opensClass fields :: inside) ++
        .usesField name type :: after := by
    rw [hmarks, List.append_assoc, List.cons_append]
  obtain ⟨meaning, hmeaning, htype⟩ :=
    typed_allFit cu cp _ (.usesField name type) after hbefore
  rw [List.nil_append, List.append_cons] at hmeaning
  have hclass : Means name (outer ++ [.opensClass fields])
      ((fields.lookup name).or outer?) := by
    cases hlookup : fields.lookup name with
    | none => exact .aroundClass .nil hlookup houter
    | some declared => exact .field .nil (mem_of_lookup hlookup)
  rw [htype]
  obtain ⟨hsome, hlocal⟩ | ⟨hfree, hmeaning⟩ :=
    hinside.inside_or_before hclass hmeaning
  · obtain ⟨declared, rfl⟩ := Option.isSome_iff_exists.1 hsome
    exact ⟨some declared, outer?, hlocal, houter, rfl,
      fun hdistinct => hlocal.unique hdistinct hinside, fun _ => rfl⟩
  · have hnone : none = local? := (hinside.eq_none hfree).symm
    have hgives : Gives name outer meaning (.opensClass fields) :=
      hmeaning.gives .nil (.inl rfl)
    obtain ⟨declared, rfl, hmem⟩ | ⟨hlookup, haround⟩ := hgives
    · refine ⟨none, outer?, hfree, houter, ?_, fun _ => hnone, fun _ => rfl⟩
      rw [lookup_of_mem hfields hmem]
      rfl
    · refine ⟨none, meaning, hfree, haround, ?_, fun _ => hnone,
        fun hdistinct => haround.unique hdistinct houter⟩
      rw [hlookup]
      rfl

/-- Where no local variable hides it, the word is the field. -/
theorem typed_ownField_shown :
    (sampleFields.map Prod.fst).Nodup ∧
      (sampleHiding.typed (.ofList [])).marks
        (sampleHiding.extendClassPath (.ofList [])) =
        [] ++ .opensClass sampleFields ::
          ((sampleBody ++ [.uses "f" (some (.primitive .int)),
            .usesField "f" (some (.primitive .int))]) ++
            .usesField "g" (some (.primitive .boolean)) ::
              [.closes, .closes, .closes]) ∧
      Means "g"
        (sampleBody ++ [.uses "f" (some (.primitive .int)),
          .usesField "f" (some (.primitive .int))]) none ∧
      Means "g" [] none ∧
      ∃ inner around,
        Means "g" (sampleBody ++ [.uses "f" (some (.primitive .int)),
          .usesField "f" (some (.primitive .int))]) inner ∧
        Means "g" [] around ∧
        some (.primitive .boolean) =
          (inner.or ((sampleFields.lookup "g").or around)).join ∧
        (DistinctAround (sampleBody ++ [.uses "f" (some (.primitive .int)),
          .usesField "f" (some (.primitive .int))]) → inner = none) ∧
        (DistinctAround [] → around = none) := by
  have hparameter :
      Means "g" [.opens, .declares "f" (some (.primitive .int))] none :=
    .around (.mark rfl (by decide) .nil) (.outermost .nil : Means "g" [] none)
  have hinside : Means "g"
      (sampleBody ++ [.uses "f" (some (.primitive .int)),
        .usesField "f" (some (.primitive .int))]) none :=
    .around (.mark rfl (by decide) (.mark rfl (by decide) .nil)) hparameter
  have hfields : (sampleFields.map Prod.fst).Nodup := by decide
  exact ⟨hfields, marks_sampleHiding, hinside, .outermost .nil,
    typed_ownField hfields marks_sampleHiding hinside (.outermost .nil)⟩

/-- The field is a truth value, and the word after `this` is the number that
the parameter is. -/
theorem typed_ownField_hidden :
    sampleHiding.HasDistinctFields ∧
      (sampleHiding.typed (.ofList [])).marks
        (sampleHiding.extendClassPath (.ofList [])) =
        .opensClass sampleFields ::
          ((sampleBody ++ [.uses "f" (some (.primitive .int))]) ++
          .usesField "f" (some (.primitive .int)) ::
            [.usesField "g" (some (.primitive .boolean)), .closes,
              .closes, .closes]) ∧
      some (.primitive .int) ≠ (sampleFields.lookup "f").join :=
  ⟨hasDistinctFields_sampleHiding, marks_sampleHiding, by decide⟩

end CompilationUnit

end JavaRefit
