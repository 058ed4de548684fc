/-
What a document of class declarations has to be.

# The declarations

What a field says is a relation between the value there (or none) and
what it is read as: a field that may be left out says what it stands for
then. From these relations the ones for the entry of a member, for that
of a class and for a whole document are put together. The reader keeps to
them: it comes to some classes just where the document gives these
(`classInfos_eq_ok_iff`).

# The faults

A document that gives no classes is reported on, with one exception: where
the classes come to one that says what it is, and then has something under
its members that no list can be made of (`IsUnlisted`), no failure is made
of that. The interfaces of a class and the types that a member takes are
asked for being a list, and its members are not.

Chain: after `Except`; nothing reads it.
-/
import JavaRefit.ClassPath.Stub
import JavaRefit.Proofs.Except

namespace JavaRefit.Stub

-- ============================================================== one field

/-- The field gives a text, or none where it is left out or null. -/
inductive GivesText : Option Json → Option String → Prop
  | absent : GivesText none none
  | null : GivesText (some .null) none
  | text (s : String) : GivesText (some (.str s)) (some s)

/-- The field gives some texts, and none where it is left out or null. -/
inductive GivesTexts : Option Json → List String → Prop
  | absent : GivesTexts none []
  | null : GivesTexts (some .null) []
  | texts (ss : List String) : GivesTexts (some (.arr (ss.map .str))) ss

/-- The field gives the name of a member; that of a constructor is not asked
for. -/
inductive GivesName : Bool → Option Json → String → Prop
  | constructor (v : Option Json) : GivesName true v constructorName
  | method {s : String} (h : s ≠ "") : GivesName false (some (.str s)) s

/-- The field gives the kind of a class, which is an ordinary one where it is
left out. -/
inductive GivesKind : Option Json → ClassKind → Prop
  | absent : GivesKind none .ordinary
  | keyword (kind : ClassKind) : GivesKind (some (.str kind.text)) kind

/-- The field gives the superclass of a class. Where it is left out that is the
one above all classes, which itself has none, as interfaces have none. -/
inductive GivesSuper (fqn : String) (kind : ClassKind) :
    Option Json → Option String → Prop
  | top (h : kind = .interface ∨ fqn = objectName) :
      GivesSuper fqn kind none none
  | below (h : ¬(kind = .interface ∨ fqn = objectName)) :
      GivesSuper fqn kind none (some objectName)
  | given {v : Json} {s : Option String} (h : GivesText (some v) s) :
      GivesSuper fqn kind (some v) s

-- ================================================================ members

/-- The entry gives a method or a constructor. -/
inductive GivesMember (isConstructor : Bool) : Json → MethodInfo → Prop
  | intro {fields : List (String × Json)} {m : MethodInfo}
    (name : GivesName isConstructor (Json.lookup "name" fields) m.name)
    (returns : GivesText (Json.lookup "returns" fields) m.returns)
    (params : GivesTexts (Json.lookup "params" fields) m.params)
    (throws : GivesTexts (Json.lookup "throws" fields) m.throws) :
    GivesMember isConstructor (.obj fields) m

/-- The field gives some members, and none where it is left out; an empty text
or object gives none either. -/
inductive GivesMembers (isConstructor : Bool) :
    Option Json → List MethodInfo → Prop
  | absent : GivesMembers isConstructor none []
  | entries {entries : List Json} {ms : List MethodInfo}
    (h : List.Forall₂ (GivesMember isConstructor) entries ms) :
    GivesMembers isConstructor (some (.arr entries)) ms
  | emptyText : GivesMembers isConstructor (some (.str "")) []
  | emptyObject : GivesMembers isConstructor (some (.obj [])) []

/-- The field is there, and is nothing that could be gone through: it is null,
a truth value or a number. -/
inductive IsUnlisted : Option Json → Prop
  | null : IsUnlisted (some .null)
  | bool (b : Bool) : IsUnlisted (some (.bool b))
  | int (n : Int) : IsUnlisted (some (.int n))
  | real (x : Float) : IsUnlisted (some (.real x))

-- ================================================================ classes

/-- The fields say what a class is, its members aside. -/
structure GivesHead (fields : List (String × Json)) (fqn : String)
    (kind : ClassKind) (supertype : Option String)
    (interfaces : List String) : Prop where
  hasName : Json.lookup "name" fields = some (.str fqn)
  hasKind : GivesKind (Json.lookup "kind" fields) kind
  hasSuper : GivesSuper fqn kind (Json.lookup "super" fields) supertype
  hasInterfaces : GivesTexts (Json.lookup "interfaces" fields) interfaces

/-- The entry gives a class. -/
inductive GivesClass : Json → ClassInfo → Prop
  | intro {fields : List (String × Json)} {i : ClassInfo}
    (head : GivesHead fields i.fqn i.kind i.supertype i.interfaces)
    (methods : GivesMembers false (Json.lookup "methods" fields) i.methods)
    (constructors : GivesMembers true (Json.lookup "constructors" fields)
      i.constructors) :
    GivesClass (.obj fields) i

/-- The entry says what the class is, and then has something as its methods
that could not be gone through, or as its constructors after methods that are
in order. -/
inductive HidesMembers : Json → Prop
  | intro {fields : List (String × Json)} {fqn : String} {kind : ClassKind}
    {supertype : Option String} {interfaces : List String}
    (head : GivesHead fields fqn kind supertype interfaces)
    (hides : IsUnlisted (Json.lookup "methods" fields) ∨
      (∃ ms, GivesMembers false (Json.lookup "methods" fields) ms) ∧
        IsUnlisted (Json.lookup "constructors" fields)) :
    HidesMembers (.obj fields)

/-- The document gives the classes: one for each of its entries, in their
order. -/
def GivesClasses (document : Json) (infos : List ClassInfo) : Prop :=
  ∃ entries, document.get? "classes" = some (.arr entries) ∧
    List.Forall₂ GivesClass entries infos

/-- The first entry of the document that gives no class hides its members. -/
def StopsAtHidden (document : Json) : Prop :=
  ∃ before entry after, document.get? "classes" =
    some (.arr (before ++ entry :: after)) ∧
    (∀ e ∈ before, ∃ i, GivesClass e i) ∧ HidesMembers entry

-- ========================================================= what is read

theorem str?_eq_some_iff {v : Json} {s : String} :
    v.str? = some s ↔ v = .str s := by
  cases v <;> simp [Json.str?]

theorem mapM_str?_eq_some_iff {items : List Json} {ss : List String} :
    items.mapM Json.str? = some ss ↔ items = ss.map .str := by
  simp only [mapM_eq_some_iff, str?_eq_some_iff]
  rw [← List.forall₂_map_right_iff (R := Eq), List.forall₂_eq_eq_eq]

/-- A list of texts is read just from an entry that gives it. -/
theorem texts_eq_ok_iff {what : String} {v : Option Json} {ss : List String} :
    texts what v = .ok ss ↔ GivesTexts v ss := by
  constructor
  · intro h
    unfold texts at h
    split at h
    · cases h; exact .absent
    · cases h; exact .null
    · split at h
      · next hitems =>
        cases h
        rw [mapM_str?_eq_some_iff.1 hitems]
        exact .texts ss
      · cases h
    · cases h
  · intro h
    cases h with
    | absent => rfl
    | null => rfl
    | texts ss =>
        unfold texts
        simp only [mapM_str?_eq_some_iff.2 rfl]

/-- So is the kind of a class. -/
theorem classKind_eq_ok_iff {fqn : String} {v : Option Json}
    {kind : ClassKind} : classKind fqn v = .ok kind ↔ GivesKind v kind := by
  constructor
  · intro h
    unfold classKind at h
    split at h
    · cases h; exact .absent
    · next s =>
      split at h
      · next hs =>
        cases h
        unfold ClassKind.ofText? at hs
        split at hs
        · next hs' => cases hs; subst hs'; exact .keyword .ordinary
        · split at hs
          · next hs' => cases hs; subst hs'; exact .keyword .interface
          · cases hs
      · cases h
    · cases h
  · intro h
    cases h with
    | absent => rfl
    | keyword kind => cases kind <;> rfl

/-- So is its superclass. -/
theorem superclass_eq_ok_iff {fqn : String} {kind : ClassKind} {v : Option Json}
    {supertype : Option String} :
    superclass fqn kind v = .ok supertype ↔
    GivesSuper fqn kind v supertype := by
  constructor
  · intro h
    unfold superclass at h
    split at h
    · cases h
      split
      · next htop => exact .top htop
      · next hbelow => exact .below hbelow
    · cases h; exact .given .null
    · cases h; exact .given (.text _)
    · cases h
  · intro h
    cases h with
    | top h => exact congrArg Except.ok (if_pos h)
    | below h => exact congrArg Except.ok (if_neg h)
    | given h => cases h <;> rfl

-- ================================================================= a member

/-- The name of a method or constructor. -/
def memberName (isConstructor : Bool) (v : Option Json) :
    Except StubError String :=
  if isConstructor then .ok constructorName
  else match v with
    | some (.str s) => if s = "" then .error .memberWithoutName else .ok s
    | _ => .error .memberWithoutName

/-- The type that a method gives back. -/
def memberReturns (name : String) :
    Option Json → Except StubError (Option String)
  | none => .ok none
  | some .null => .ok none
  | some (.str s) => .ok (some s)
  | some _ => .error (.returnsNotText name)

/-- A member is read field by field. -/
theorem methodInfo_obj (isConstructor : Bool) (fields : List (String × Json)) :
    methodInfo isConstructor (.obj fields) = (do
      let name ← memberName isConstructor (Json.lookup "name" fields)
      let returns ← memberReturns name (Json.lookup "returns" fields)
      let params ← texts ("method " ++ name ++ ": params")
        (Json.lookup "params" fields)
      let throws ← texts ("method " ++ name ++ ": throws")
        (Json.lookup "throws" fields)
      return ⟨name, params, returns, throws⟩) := by
  dsimp only [methodInfo, memberName, memberReturns]
  generalize Json.lookup "name" fields = name
  generalize Json.lookup "returns" fields = returns
  cases isConstructor with
  | true =>
      cases returns with
      | none => rfl
      | some v => cases v <;> rfl
  | false =>
      cases name with
      | none => rfl
      | some v =>
          cases v with
          | str s =>
              by_cases hs : s = ""
              · subst hs
                rfl
              · simp only [Bool.false_eq_true, if_false, if_neg hs]
                cases returns with
                | none => rfl
                | some v => cases v <;> rfl
          | _ => rfl

/-- So is the name of a member. -/
theorem memberName_eq_ok_iff {isConstructor : Bool} {v : Option Json}
    {name : String} :
    memberName isConstructor v = .ok name ↔ GivesName isConstructor v name := by
  cases isConstructor with
  | true =>
      refine ⟨fun h => ?_, fun h => ?_⟩
      · cases h
        exact .constructor v
      · cases h
        rfl
  | false =>
      constructor
      · intro h
        unfold memberName at h
        rw [if_neg Bool.false_ne_true] at h
        split at h
        · split at h
          · cases h
          · next hs =>
            cases h
            exact .method hs
        · cases h
      · intro h
        cases h with
        | method hs => exact if_neg hs

/-- So is what a member returns. -/
theorem memberReturns_eq_ok_iff {name : String} {v : Option Json}
    {returns : Option String} :
    memberReturns name v = .ok returns ↔ GivesText v returns := by
  constructor
  · intro h
    unfold memberReturns at h
    split at h
    · cases h; exact .absent
    · cases h; exact .null
    · cases h; exact .text _
    · cases h
  · intro h
    cases h <;> rfl

/-- A member is read just where its entry gives one. -/
theorem methodInfo_eq_ok_iff {isConstructor : Bool} {entry : Json}
    {m : MethodInfo} :
    methodInfo isConstructor entry = .ok m ↔
    GivesMember isConstructor entry m := by
  constructor
  · intro h
    cases entry with
    | obj fields =>
        rw [methodInfo_obj] at h
        obtain ⟨name, hname, h⟩ := Except.bind_eq_ok.1 h
        obtain ⟨returns, hreturns, h⟩ := Except.bind_eq_ok.1 h
        obtain ⟨params, hparams, h⟩ := Except.bind_eq_ok.1 h
        obtain ⟨throws, hthrows, h⟩ := Except.bind_eq_ok.1 h
        cases h
        exact ⟨memberName_eq_ok_iff.1 hname, memberReturns_eq_ok_iff.1 hreturns,
          texts_eq_ok_iff.1 hparams, texts_eq_ok_iff.1 hthrows⟩
    | _ => cases h
  · intro h
    obtain ⟨name, returns, params, throws⟩ := h
    rw [methodInfo_obj]
    exact Except.bind_eq_ok.2 ⟨_, memberName_eq_ok_iff.2 name,
      Except.bind_eq_ok.2 ⟨_, memberReturns_eq_ok_iff.2 returns,
        Except.bind_eq_ok.2 ⟨_, texts_eq_ok_iff.2 params,
          Except.bind_eq_ok.2 ⟨_, texts_eq_ok_iff.2 throws, rfl⟩⟩⟩⟩

-- ============================================================ its members

variable {isConstructor : Bool} {v : Option Json}

/-- The members of a class are read just where the field gives them. -/
theorem memberInfos_eq_ok_iff {ms : List MethodInfo} :
    memberInfos isConstructor v = .ok ms ↔ GivesMembers isConstructor v ms := by
  unfold memberInfos
  rw [Except.bind_eq_ok]
  simp only [mapM_eq_ok_iff, methodInfo_eq_ok_iff]
  constructor
  · intro h
    obtain ⟨entries, hentries, h⟩ := h
    unfold memberEntries at hentries
    split at hentries
    · cases hentries
      cases h
      exact .absent
    · cases hentries
      exact .entries h
    · next s =>
      -- a character is no entry of a member, so that there is none
      cases hentries
      generalize hs : s.toList = cs at h
      cases cs with
      | nil =>
          cases h
          rw [String.toList_eq_nil_iff.1 hs]
          exact .emptyText
      | cons c cs =>
          cases h with
          | cons h => cases h
    · next fields =>
      cases hentries
      cases fields with
      | nil =>
          cases h
          exact .emptyObject
      | cons f fields =>
          cases h with
          | cons h => cases h
    · cases hentries
  · intro h
    cases h with
    | absent => exact ⟨[], rfl, .nil⟩
    | entries h => exact ⟨_, rfl, h⟩
    | emptyText => exact ⟨[], rfl, .nil⟩
    | emptyObject => exact ⟨[], rfl, .nil⟩

-- ================================================================ a class

theorem classInfo_obj {fields : List (String × Json)} {fqn : String}
    (hname : Json.lookup "name" fields = some (.str fqn)) :
    classInfo (.obj fields) = (do
      let kind ← classKind fqn (Json.lookup "kind" fields)
      let supertype ← superclass fqn kind (Json.lookup "super" fields)
      let interfaces ← texts (fqn ++ ": interfaces")
        (Json.lookup "interfaces" fields)
      let methods ← memberInfos false (Json.lookup "methods" fields)
      let constructors ← memberInfos true (Json.lookup "constructors" fields)
      return ⟨fqn, kind, supertype, interfaces, methods, constructors⟩) := by
  simp only [classInfo, hname]

/-- A class without a name is not read any further. -/
theorem classInfo_unnamed {entry : Json}
    (h : ¬∃ fields fqn, entry = .obj fields ∧
      Json.lookup "name" fields = some (.str fqn)) :
    classInfo entry = .error .classWithoutName := by
  unfold classInfo
  split
  · split
    · next fields _ fqn hname => exact absurd ⟨fields, fqn, rfl, hname⟩ h
    · rfl
  · rfl

/-- A class is read just where its entry gives one. -/
theorem classInfo_eq_ok_iff {entry : Json} {i : ClassInfo} :
    classInfo entry = .ok i ↔ GivesClass entry i := by
  constructor
  · intro h
    by_cases hnamed : ∃ fields fqn, entry = .obj fields ∧
        Json.lookup "name" fields = some (.str fqn)
    · obtain ⟨fields, fqn, rfl, hname⟩ := hnamed
      rw [classInfo_obj hname] at h
      obtain ⟨kind, hkind, h⟩ := Except.bind_eq_ok.1 h
      obtain ⟨supertype, hsuper, h⟩ := Except.bind_eq_ok.1 h
      obtain ⟨interfaces, hinterfaces, h⟩ := Except.bind_eq_ok.1 h
      obtain ⟨methods, hmethods, h⟩ := Except.bind_eq_ok.1 h
      obtain ⟨constructors, hconstructors, h⟩ := Except.bind_eq_ok.1 h
      cases h
      exact ⟨⟨hname, classKind_eq_ok_iff.1 hkind, superclass_eq_ok_iff.1 hsuper,
        texts_eq_ok_iff.1 hinterfaces⟩, memberInfos_eq_ok_iff.1 hmethods,
        memberInfos_eq_ok_iff.1 hconstructors⟩
    · rw [classInfo_unnamed hnamed] at h
      cases h
  · intro h
    obtain ⟨head, methods, constructors⟩ := h
    rw [classInfo_obj head.hasName]
    exact Except.bind_eq_ok.2 ⟨_, classKind_eq_ok_iff.2 head.hasKind,
      Except.bind_eq_ok.2 ⟨_, superclass_eq_ok_iff.2 head.hasSuper,
        Except.bind_eq_ok.2 ⟨_, texts_eq_ok_iff.2 head.hasInterfaces,
          Except.bind_eq_ok.2 ⟨_, memberInfos_eq_ok_iff.2 methods,
            Except.bind_eq_ok.2 ⟨_,
              memberInfos_eq_ok_iff.2 constructors, rfl⟩⟩⟩⟩⟩

/-- The classes of a document are read just where it gives them, one for each
entry in order. -/
theorem classInfos_eq_ok_iff {document : Json} {infos : List ClassInfo} :
    classInfos document = .ok infos ↔ GivesClasses document infos := by
  unfold classInfos GivesClasses
  constructor
  · intro h
    split at h
    · next entries hentries =>
      refine ⟨entries, hentries, ?_⟩
      simpa only [mapM_eq_ok_iff, classInfo_eq_ok_iff] using h
    · cases h
  · intro h
    obtain ⟨entries, hentries, h⟩ := h
    rw [hentries]
    simpa only [mapM_eq_ok_iff, classInfo_eq_ok_iff] using h

-- ===================================================== what is reported on

namespace StubError

/-- Every other fault is reported as one of a class path, with its wording and
the path. -/
theorem failure?_eq_some (path : Option String) {e : StubError}
    (h : e ≠ .membersNotListed) :
    e.failure? path = some ⟨"bad-classpath", e.message, path, none⟩ := by
  cases e with
  | membersNotListed => exact absurd rfl h
  | _ => rfl

end StubError

theorem texts_ne_unlisted {what : String} :
    texts what v ≠ .error .membersNotListed := by
  unfold texts
  split
  · nofun
  · nofun
  · split <;> nofun
  · nofun

theorem classKind_ne_unlisted {fqn : String} :
    classKind fqn v ≠ .error .membersNotListed := by
  unfold classKind
  split
  · nofun
  · split <;> nofun
  · nofun

theorem superclass_ne_unlisted {fqn : String} {kind : ClassKind} :
    superclass fqn kind v ≠ .error .membersNotListed := by
  unfold superclass
  split <;> nofun

theorem memberName_ne_unlisted :
    memberName isConstructor v ≠ .error .membersNotListed := by
  unfold memberName
  split
  · nofun
  · split
    · split <;> nofun
    · nofun

theorem memberReturns_ne_unlisted {name : String} :
    memberReturns name v ≠ .error .membersNotListed := by
  unfold memberReturns
  split <;> nofun

theorem methodInfo_ne_unlisted {entry : Json} :
    methodInfo isConstructor entry ≠ .error .membersNotListed := by
  intro h
  cases entry with
  | obj fields =>
      rw [methodInfo_obj] at h
      rcases Except.bind_eq_error.1 h with h | ⟨name, -, h⟩
      · exact memberName_ne_unlisted h
      rcases Except.bind_eq_error.1 h with h | ⟨returns, -, h⟩
      · exact memberReturns_ne_unlisted h
      rcases Except.bind_eq_error.1 h with h | ⟨params, -, h⟩
      · exact texts_ne_unlisted h
      rcases Except.bind_eq_error.1 h with h | ⟨throws, -, h⟩
      · exact texts_ne_unlisted h
      cases h
  | _ => cases h

/-- Members are found not to be listed just where what stands for them cannot
be gone through. -/
theorem memberInfos_unlisted_iff :
    memberInfos isConstructor v = .error .membersNotListed ↔ IsUnlisted v := by
  unfold memberInfos
  constructor
  · intro h
    rcases Except.bind_eq_error.1 h with h | ⟨entries, -, h⟩
    · cases v with
      | none => cases h
      | some v =>
          cases v with
          | null => exact .null
          | bool b => exact .bool b
          | int n => exact .int n
          | real x => exact .real x
          | str s => cases h
          | arr items => cases h
          | obj fields => cases h
    · obtain ⟨-, entry, -, -, -, h⟩ := mapM_eq_error_iff.1 h
      exact absurd h methodInfo_ne_unlisted
  · intro h
    cases h <;> rfl

/-- Nothing is reported on a class just where its entry hides its members. -/
theorem classInfo_unlisted_iff {entry : Json} :
    classInfo entry = .error .membersNotListed ↔ HidesMembers entry := by
  constructor
  · intro h
    by_cases hnamed : ∃ fields fqn, entry = .obj fields ∧
        Json.lookup "name" fields = some (.str fqn)
    · obtain ⟨fields, fqn, rfl, hname⟩ := hnamed
      rw [classInfo_obj hname] at h
      rcases Except.bind_eq_error.1 h with h | ⟨kind, hkind, h⟩
      · exact absurd h classKind_ne_unlisted
      rcases Except.bind_eq_error.1 h with h | ⟨supertype, hsuper, h⟩
      · exact absurd h superclass_ne_unlisted
      rcases Except.bind_eq_error.1 h with h | ⟨interfaces, hinterfaces, h⟩
      · exact absurd h texts_ne_unlisted
      have head : GivesHead fields fqn kind supertype interfaces :=
        ⟨hname, classKind_eq_ok_iff.1 hkind, superclass_eq_ok_iff.1 hsuper,
          texts_eq_ok_iff.1 hinterfaces⟩
      rcases Except.bind_eq_error.1 h with h | ⟨methods, hmethods, h⟩
      · exact ⟨head, .inl (memberInfos_unlisted_iff.1 h)⟩
      rcases Except.bind_eq_error.1 h with h | ⟨constructors, -, h⟩
      · exact ⟨head, .inr ⟨⟨methods, memberInfos_eq_ok_iff.1 hmethods⟩,
          memberInfos_unlisted_iff.1 h⟩⟩
      cases h
    · rw [classInfo_unnamed hnamed] at h
      cases h
  · intro h
    obtain ⟨head, hides⟩ := h
    rw [classInfo_obj head.hasName, classKind_eq_ok_iff.2 head.hasKind]
    show (superclass _ _ _ >>= _) = _
    rw [superclass_eq_ok_iff.2 head.hasSuper]
    show (texts _ _ >>= _) = _
    rw [texts_eq_ok_iff.2 head.hasInterfaces]
    show (memberInfos _ _ >>= _) = _
    rcases hides with hmethods | ⟨⟨methods, hmethods⟩, hconstructors⟩
    · rw [memberInfos_unlisted_iff.2 hmethods]
      rfl
    · rw [memberInfos_eq_ok_iff.2 hmethods]
      show (memberInfos _ _ >>= _) = _
      rw [memberInfos_unlisted_iff.2 hconstructors]
      rfl

/-- Nothing is reported on a document just where the first entry that gives no
class hides its members. -/
theorem classInfos_unlisted_iff {document : Json} :
    classInfos document = .error .membersNotListed ↔
    StopsAtHidden document := by
  unfold classInfos StopsAtHidden
  constructor
  · intro h
    split at h
    · next entries hentries =>
      obtain ⟨before, entry, after, rfl, hbefore, h⟩ := mapM_eq_error_iff.1 h
      refine ⟨before, entry, after, hentries, fun e he => ?_,
        classInfo_unlisted_iff.1 h⟩
      obtain ⟨i, hi⟩ := hbefore e he
      exact ⟨i, classInfo_eq_ok_iff.1 hi⟩
    · cases h
  · intro h
    obtain ⟨before, entry, after, hentries, hbefore, h⟩ := h
    rw [hentries]
    refine mapM_eq_error_iff.2 ⟨before, entry, after, rfl, fun e he => ?_,
      classInfo_unlisted_iff.2 h⟩
    obtain ⟨i, hi⟩ := hbefore e he
    exact ⟨i, classInfo_eq_ok_iff.2 hi⟩

/-- Reading a document comes to the classes that it gives, one for each entry
in their order, or it gives none. Then a failure of a class path is reported
with the path that was given, unless the first entry without a class hides its
members: no failure is made of those. -/
theorem classInfos_reported (document : Json) (path : Option String) :
    (∃ infos, classInfos document = .ok infos ∧ GivesClasses document infos) ∨
      ∃ e, classInfos document = .error e ∧
      (∀ infos, ¬GivesClasses document infos) ∧
        (e.failure? path = some ⟨"bad-classpath", e.message, path, none⟩ ∧
            ¬StopsAtHidden document ∨
          e.failure? path = none ∧ StopsAtHidden document) := by
  cases hread : classInfos document with
  | ok infos => exact .inl ⟨infos, rfl, classInfos_eq_ok_iff.1 hread⟩
  | error e =>
      refine .inr ⟨e, rfl, fun infos h => ?_, ?_⟩
      · rw [classInfos_eq_ok_iff.2 h] at hread
        cases hread
      · by_cases he : e = .membersNotListed
        · subst he
          exact .inr ⟨rfl, classInfos_unlisted_iff.1 hread⟩
        · refine .inl ⟨StubError.failure?_eq_some path he, fun h => he ?_⟩
          rw [classInfos_unlisted_iff.2 h] at hread
          exact (Except.error.inj hread).symm

/-- The document of one class, whose methods are a number. -/
def numbered : Json :=
  .obj [("classes", .arr [.obj [("name", .str "A"), ("methods", .int 3)]])]

/-- The classes of that document are not read, and there is no failure that
says so. -/
theorem classInfos_numbered_unreported :
    ¬((∃ infos, classInfos numbered = .ok infos) ∨
      ∃ e message, classInfos numbered = .error e ∧
        e.failure? (some "stubs.json") =
          some ⟨"bad-classpath", message, some "stubs.json", none⟩) := by
  have hread : classInfos numbered = .error .membersNotListed := rfl
  rw [hread]
  intro h
  rcases h with ⟨infos, h⟩ | ⟨e, message, he, h⟩
  · cases h
  · cases he
    cases h

end JavaRefit.Stub
