/-
Members, classes and whole files are read by their rules, both ways.

What follows the modifiers of a member is told from its first word, but
for a method and a field, which are told apart after their type, and a
constructor, which starts like them and is seen by a name with a
parenthesis after it. No type starts like that (`startsCall_type`).

Main statement: the tokens of a file are read as a tree exactly when they
spell it (`unit_eq_ok_iff`).

Chain: after `Statement`.
-/
import JavaRefit.Proofs.Grammar.Statement
import JavaRefit.Proofs.Reading.Unit

namespace JavaRefit

open Spelling

namespace Parser

-- =============================================================== methods

/-- A parameter opens as a declaration does. -/
theorem opens_parameter {R : Spelling TypeTree}
    (hR : ∀ ⦃us t⦄, R us t → Opens Word.opensType us) ⦃us : List Token⦄
    ⦃d : Variables⦄ (h : ParameterWith R us d) :
    Opens Word.opensDeclaration us := by
  obtain ⟨i, hms, ht, hled⟩ := h
  refine Opens.led hled
    (Opens.append (opens_modifiers_append hms (fun w hw => ?_) ?_))
  · simp [Word.opensDeclaration, hw]
  · exact (hR ht).imp fun w hw => by simp [Word.opensDeclaration, hw]

/-- The parameters that are read are spelled by the tokens read. -/
theorem parameters_sound :
    Sound (delimited (parameter typeTree) "(" ")")
      (Delimited (ParameterWith SpellsType) "(" ")") :=
  (parameter_sound typeTree_sound).delimited "(" ")"

/-- Parameters are read as spelled, whatever follows. -/
theorem parameters_complete {us : List Token} {c : Container Variables}
    (h : Delimited (ParameterWith SpellsType) "(" ")" us c)
    (rest : List Token) :
    delimited (parameter typeTree) "(" ")" (us ++ rest) = .ok (c, rest) := by
  have hparameter : Complete (parameter typeTree) (ParameterWith SpellsType)
      fun _ => false :=
    fun us d h rest _ => parameter_complete typeTree_complete
      (fun _ _ => opens_type) (fun _ => rfl) h rest
  exact delimited_complete (hparameter.below _)
    (opens_parameter fun _ _ => opens_type) rfl rfl rfl
    (by decide) (Nat.le_refl _) h rest

/-- Class types after a keyword, before what goes on no class type. -/
theorem classTypes_complete {word : String} {us : List Token}
    {o : Option (Container TypeTree)}
    (h : AfterKeyword SpellsClassType word us o) (rest : List Token)
    (hrest : Stops (fun w => w.extendsClassType || w == .symbol "," || w ==
      .keyword word) rest) :
    afterKeyword? classType word (us ++ rest) = .ok (o, rest) :=
  afterKeyword?_complete classType_complete rfl h rest
    (hrest.imp fun w hw => by simp_all)
    (hrest.imp fun w hw => by simp_all) (hrest.imp fun w hw => by simp_all)

section

variable {lead : Trivia} {ms : List Modifier}
  {returnType : Option TypeTree} {i : Ident}
  {mayLackBody : Bool}

theorem methodWith_sound : Sound (methodWith lead ms returnType i mayLackBody)
    (MethodWith lead ms returnType i mayLackBody) := by
  intro ts rest m h
  simp only [methodWith, bind_eq_ok] at h
  obtain ⟨params, t₁, h₁, throws, t₂, h₂, h⟩ := h
  obtain ⟨us, rfl, hus⟩ := parameters_sound h₁
  obtain ⟨vs, rfl, hvs⟩ := classType_sound.afterKeyword? "throws" h₂
  obtain ⟨bare, t₃, h₃, h⟩ := h
  obtain rfl := isNext_eq_ok h₃
  split at h
  next hbare =>
    rw [Bool.and_eq_true] at hbare
    obtain ⟨_, after, mid, h₄, rfl, rfl⟩ := terminated_eq_ok.1 h
    obtain ⟨rfl, rfl⟩ := pure_eq_ok.1 h₄
    exact ⟨us ++ vs ++ [⟨after, .symbol ";"⟩], by simp,
      .abstract hbare.1 hus hvs⟩
  next =>
    replace h := bind_eq_ok.1 h
    obtain ⟨b, t₄, h₄, h⟩ := h
    obtain ⟨rfl, rfl⟩ := pure_eq_ok.1 h
    obtain ⟨ws, rfl, hws⟩ := block_sound h₄
    exact ⟨us ++ vs ++ ws, by simp, .bodied hus hvs hws⟩

theorem methodWith_complete {us : List Token} {m : RightPadded Member}
    (h : MethodWith lead ms returnType i mayLackBody us m) (rest : List Token) :
    methodWith lead ms returnType i mayLackBody (us ++ rest) =
      .ok (m, rest) := by
  cases h with
  | @bodied us params vs throws ws body hparams hthrows hbody =>
      have hread := block_complete hbody rest
      obtain ⟨ws, rfl⟩ := opens_braced hbody
      have hstop : Stops (fun w => w.extendsClassType || w ==
          .symbol "," || w == .keyword "throws")
          (⟨body.lead, .symbol "\x7b"⟩ :: ws ++ rest) := Stops.cons.2 rfl
      have hno : Stops (· == .symbol ";")
          (⟨body.lead, .symbol "\x7b"⟩ :: ws ++ rest) := Stops.cons.2 rfl
      rw [methodWith, List.append_assoc, List.append_assoc,
        bind_ok (parameters_complete hparams _),
        bind_ok (classTypes_complete hthrows _ hstop),
        bind_ok (isNext_false hno), Bool.and_false,
        if_neg Bool.false_ne_true, bind_ok hread]
      rfl
  | @abstract us params vs throws after hmay hparams hthrows =>
      have hnext : Opens (· == .symbol ";") (⟨after, .symbol ";"⟩ :: rest) :=
        .cons rfl
      rw [methodWith, List.append_assoc, List.append_assoc, List.cons_append,
        List.nil_append, bind_ok (parameters_complete hparams _),
        bind_ok (classTypes_complete hthrows _ (Stops.cons.2 rfl)),
        bind_ok (isNext_true hnext), hmay, Bool.true_and, if_pos rfl]
      rfl

/-- Behind its name a method opens with a parenthesis. -/
theorem opens_method {us : List Token} {m : RightPadded Member}
    (h : MethodWith lead ms returnType i mayLackBody us m) :
    Opens (· == .symbol "(") us := by
  cases h with
  | bodied h _ _ => exact (opens_delimited h).append.append
  | abstract _ h _ => exact (opens_delimited h).append.append

end

-- =============================================================== classes

section

variable {nested : Parser (RightPadded Member)}
  {R : Spelling (RightPadded Member)} {n : Nat}

theorem classWith_sound (hn : Sound nested R) (lead : Trivia)
    (ms : List Modifier) (kind : LeftPadded ClassKind) :
    Sound (classWith nested lead ms kind) (ClassWith R lead ms kind) := by
  intro ts rest c h
  simp only [classWith, bind_eq_ok] at h
  obtain ⟨i, t₁, h₁, extends?, t₂, h₂, implements?, t₃, h₃, body,
      t₄, h₄, h⟩ := h
  obtain ⟨rfl, rfl⟩ := pure_eq_ok.1 h
  obtain rfl := ident_eq_ok.1 h₁
  obtain ⟨us, rfl, hus⟩ := classType_sound.afterKeyword? "extends" h₂
  obtain ⟨vs, rfl, hvs⟩ := classType_sound.afterKeyword? "implements" h₃
  obtain ⟨ws, rfl, hws⟩ := hn.braced h₄
  exact ⟨⟨i.lead, .name i.name⟩ :: (us ++ vs ++ ws), by simp, .mk i hus hvs hws⟩

/-- A class is read as spelled, above members that are. -/
theorem classWith_complete (hn : CompleteBelow n nested R fun _ => false)
    (hfirst : ∀ ⦃us m⦄, R us m →
      Opens (fun w => w.opensModifier || w.opensAfterModifiers) us)
    {lead : Trivia} {ms : List Modifier} {kind : LeftPadded ClassKind}
    {us : List Token} {c : JavaClass} (hlt : us.length ≤ n)
    (h : ClassWith R lead ms kind us c) (rest : List Token) :
    classWith nested lead ms kind (us ++ rest) = .ok (c, rest) := by
  obtain ⟨i, hextends, himplements, hbody⟩ := h
  rename_i us extends? vs implements? ws body
  simp only [List.length_cons, List.length_append] at hlt
  have hread := braced_complete hn hfirst (fun _ _ => rfl) rfl rfl
    (by omega) hbody rest
  obtain ⟨ws, rfl⟩ := opens_braced hbody
  have hstop (word : String) :
      Stops (fun w => w.extendsClassType || w == .symbol "," || w ==
        .keyword word)
        (⟨body.lead, .symbol "\x7b"⟩ :: ws ++ rest) := Stops.cons.2 rfl
  have hmid : Stops (fun w => w.extendsClassType || w == .symbol "," || w ==
      .keyword "extends")
      (vs ++ (⟨body.lead, .symbol "\x7b"⟩ :: ws ++ rest)) := by
    cases himplements with
    | none => exact hstop _
    | some _ => exact Stops.cons.2 rfl
  rw [classWith, List.cons_append, bind_ok (ident_ok i _), List.append_assoc,
    List.append_assoc, bind_ok (classTypes_complete hextends _ hmid),
    bind_ok (classTypes_complete himplements _ (hstop _)),
    bind_ok hread]
  rfl

end

-- =============================================================== members

/-- A name starts no call when no parenthesis comes after it. -/
theorem startsCall_name {us : List Token} {n : Name} (h : SpellsName us n)
    {rest : List Token} (hrest : Stops (· == .symbol "(") rest) :
    startsCall (us ++ rest) = false := by
  induction h generalizing rest with
  | simple i =>
      cases rest with
      | nil => rfl
      | cons t rest =>
          rw [Stops.cons, beq_eq_false_iff_ne] at hrest
          simp [startsCall, hrest]
  | dot dot i _ ih =>
      rw [List.append_assoc]
      exact ih (Stops.cons.2 rfl)

/-- A type starts no call when no parenthesis comes after it. -/
theorem startsCall_type {R : Spelling TypeTree} {us : List Token} {t : TypeTree}
    (h : TypeWith R us t) {rest : List Token}
    (hrest : Stops (· == .symbol "(") rest) :
    startsCall (us ++ rest) = false := by
  induction h generalizing rest with
  | @primitive tok p hp =>
      have hnone : asIdent tok = none := by
        have hno := asPrimitive_not_isName tok p hp
        obtain ⟨lead, w⟩ := tok
        cases w with
        | name s => cases hno
        | _ => rfl
      cases rest <;> simp [startsCall, hnone]
  | classType h =>
      cases h with
      | named h => exact startsCall_name h hrest
      | generic h hargs =>
          rw [List.append_assoc]
          exact startsCall_name h
            ((opens_delimited hargs).stops rest fun w hw => by
            rw [eq_of_beq hw]; rfl)
  | array _ ih =>
      rw [List.append_assoc]
      exact ih (Stops.cons.2 rfl)

/-- Declarators do not look like the parameters of a method. -/
theorem startsCall_declarators {us : List Token}
    {ds : List (RightPadded Variable)} (h : Padded SpellsDeclarator "," us ds)
    {rest : List Token} (hrest : Stops (· == .symbol "(") rest) :
    startsCall (us ++ rest) = false := by
  have hfirst : ∀ {us v}, SpellsDeclarator us v → ∀ {rest : List Token},
      Stops (· == .symbol "(") rest → startsCall (us ++ rest) = false := by
    intro us v h rest hrest
    cases h with
    | bare i => exact startsCall_name (.simple i) hrest
    | initialized i h =>
        exact @startsCall_name _ _ (.simple i) (_ :: _) (Stops.cons.2 rfl)
  cases h with
  | last h => exact hfirst h hrest
  | cons h _ =>
      rw [List.append_assoc]
      exact hfirst h (Stops.cons.2 rfl)

/-- A name and a parenthesis start a call. -/
theorem startsCall_of_opens (i : Ident) {us : List Token}
    (h : Opens (· == .symbol "(") us) (rest : List Token) :
    startsCall (⟨i.lead, .name i.name⟩ :: us ++ rest) = true := by
  obtain ⟨t, us, rfl, ht⟩ := h
  simp [startsCall, asIdent, eq_of_beq ht]

section

variable {nested : Parser (RightPadded Member)}
  {R : Spelling (RightPadded Member)} {n : Nat}

/-- What follows the modifiers of a member. -/
def memberRest (nested : Parser (RightPadded Member)) (lead : Trivia)
    (ms : List Modifier) : Parser (RightPadded Member) := do
  if let some kind ← take? asClassKind then
    return ⟨.nested (← classWith nested lead ms kind), ""⟩
  if let some before ← keyword? "void" then
    let i ← ident
    return ← methodWith lead ms (some (.primitive before .void none)) i true
  if ← ahead startsCall then
    let i ← ident
    return ← methodWith lead ms none i false
  let t ← typeTree
  if ← ahead startsCall then
    let i ← ident
    methodWith lead ms (some t) i true
  else
    let vs ← bounded (padded declarator ",")
    terminated (pure (.field ⟨lead, ms, t, vs⟩))

/-- A member is its trivia, its modifiers and the rest. -/
theorem memberWith_eq (nested : Parser (RightPadded Member)) :
    memberWith nested =
      takeLead >>= fun lead => modifiers >>= fun ms =>
        memberRest nested lead ms := rfl

/-- What is read behind the modifiers is spelled by the tokens read. -/
theorem memberRest_sound (hn : Sound nested R) (lead : Trivia)
    (ms : List Modifier) :
    Sound (memberRest nested lead ms) (MemberAfter R lead ms) := by
  intro ts rest m h
  simp only [memberRest, bind_eq_ok] at h
  obtain ⟨kind?, t₁, h₁, h⟩ := h
  obtain ⟨t, kind, rfl, ht, rfl⟩ | ⟨rfl, rfl, -⟩ := take?_eq_ok h₁
  · replace h := bind_eq_ok.1 h
    obtain ⟨c, t₂, h₂, h⟩ := h
    obtain ⟨rfl, rfl⟩ := pure_eq_ok.1 h
    obtain ⟨us, rfl, hus⟩ := classWith_sound hn lead ms kind h₂
    exact ⟨t :: us, rfl, .nested ht hus⟩
  replace h := bind_eq_ok.1 h
  obtain ⟨void?, t₂, h₂, h⟩ := h
  obtain ⟨before, rfl, rfl⟩ | ⟨rfl, rfl⟩ := keyword?_eq_ok h₂
  · replace h := bind_eq_ok.1 h
    obtain ⟨i, t₃, h₃, h⟩ := h
    obtain rfl := ident_eq_ok.1 h₃
    obtain ⟨us, rfl, hus⟩ := methodWith_sound h
    exact ⟨⟨before, .keyword "void"⟩ :: ⟨i.lead, .name i.name⟩ :: us, rfl,
      .void i hus⟩
  simp only [bind_eq_ok, ahead_eq_ok] at h
  obtain ⟨called, t₃, ⟨-, rfl⟩, h⟩ := h
  split at h
  · replace h := bind_eq_ok.1 h
    obtain ⟨i, t₄, h₄, h⟩ := h
    obtain rfl := ident_eq_ok.1 h₄
    obtain ⟨us, rfl, hus⟩ := methodWith_sound h
    exact ⟨⟨i.lead, .name i.name⟩ :: us, rfl, .constructor i hus⟩
  simp only [bind_eq_ok, ahead_eq_ok] at h
  obtain ⟨t, t₄, h₄, called', t₅, ⟨-, rfl⟩, h⟩ := h
  obtain ⟨us, rfl, hus⟩ := typeTree_sound h₄
  split at h
  · replace h := bind_eq_ok.1 h
    obtain ⟨i, t₅, h₅, h⟩ := h
    obtain rfl := ident_eq_ok.1 h₅
    obtain ⟨vs, rfl, hvs⟩ := methodWith_sound h
    exact ⟨us ++ ⟨i.lead, .name i.name⟩ :: vs, by simp, .method i hus hvs⟩
  · replace h := bind_eq_ok.1 h
    obtain ⟨ds, t₅, h₅, h⟩ := h
    obtain ⟨vs, rfl, hvs⟩ := Sound.bounded (declarator_sound.padded ",") h₅
    obtain ⟨_, after, mid, h₆, rfl, rfl⟩ := terminated_eq_ok.1 h
    obtain ⟨rfl, rfl⟩ := pure_eq_ok.1 h₆
    exact ⟨us ++ vs ++ [⟨after, .symbol ";"⟩], by simp, .field hus hvs⟩

/-- No type opens with the keyword of a class. -/
theorem opensType_not_class (w : Word) (h : w.opensType = true) :
    w.isClassWord = false := by
  have hclass : w ≠ .keyword "class" := by rintro rfl; cases h
  have hinterface : w ≠ .keyword "interface" := by rintro rfl; cases h
  simp [Word.isClassWord, hclass, hinterface]

/-- No type opens with the keyword of a method without result. -/
theorem opensType_ne_void (w : Word) (h : w.opensType = true) :
    (w == .keyword "void") = false := by
  refine beq_eq_false_iff_ne.2 ?_
  rintro rfl
  cases h

/-- What starts with a type or a name is neither a class nor without a type. -/
theorem memberRest_type (lead : Trivia) (ms : List Modifier) {us : List Token}
    (h : Opens Word.opensType us) :
    memberRest nested lead ms us =
      (ahead startsCall >>= fun called =>
        if called then ident >>= fun i => methodWith lead ms none i false
        else typeTree >>= fun t => ahead startsCall >>= fun called =>
          if called then ident >>= fun i => methodWith lead ms (some t) i true
          else bounded (padded declarator ",") >>= fun vs =>
            terminated (pure (.field ⟨lead, ms, t, vs⟩)) :
            Parser (RightPadded Member)) us := by
  have hclass := h.stops [] opensType_not_class
  have hvoid := h.stops [] opensType_ne_void
  rw [List.append_nil] at hclass hvoid
  rw [memberRest,
    bind_ok (take?_none (fun _ _ => asClassKind_isClassWord) hclass)]
  show (keyword? "void" >>= _) _ = _
  rw [bind_ok (keyword?_none hvoid)]

/-- Behind its modifiers a member is read as spelled: its first words tell its
sort. -/
theorem memberRest_complete (hn : CompleteBelow n nested R fun _ => false)
    (hfirst : ∀ ⦃us m⦄, R us m →
      Opens (fun w => w.opensModifier || w.opensAfterModifiers) us)
    {lead : Trivia} {ms : List Modifier} {us : List Token}
    {m : RightPadded Member} (hlt : us.length ≤ n)
    (h : MemberAfter R lead ms us m) (rest : List Token) :
    memberRest nested lead ms (us ++ rest) = .ok (m, rest) := by
  cases h with
  | @nested t kind us c hkind hc =>
      rw [List.length_cons] at hlt
      rw [memberRest, List.cons_append, bind_ok (take?_ok hkind _)]
      show (classWith nested lead ms kind >>= _) _ = _
      rw [bind_ok (classWith_complete hn hfirst (by omega) hc rest)]
      rfl
  | @void before us m i hm =>
      rw [memberRest, List.cons_append,
        bind_ok (take?_none (P := Word.isClassWord)
          (fun _ _ => asClassKind_isClassWord) (Stops.cons.2 rfl))]
      show (keyword? "void" >>= _) _ = _
      rw [bind_ok (keyword?_ok _ _ _)]
      show (ident >>= _) _ = _
      rw [List.cons_append, bind_ok (ident_ok i _)]
      exact methodWith_complete hm rest
  | @constructor us m i hm =>
      rw [memberRest_type lead ms (.append (.cons rfl)), bind_ok (ahead_ok _ _),
        startsCall_of_opens i (opens_method hm), if_pos rfl, List.cons_append,
        bind_ok (ident_ok i _)]
      exact methodWith_complete hm rest
  | @method us t vs m i ht hm =>
      have hstop : Stops (· == .symbol "(")
          (⟨i.lead, .name i.name⟩ :: vs ++ rest) := Stops.cons.2 rfl
      have hname : Stops Word.extendsType
          (⟨i.lead, .name i.name⟩ :: vs ++ rest) := Stops.cons.2 rfl
      have hno : startsCall (us ++ (⟨i.lead, .name i.name⟩ :: vs ++ rest)) =
          false := by
        obtain ⟨k, ht⟩ := ht
        cases k with
        | zero => exact ht.elim
        | succ k => exact startsCall_type ht hstop
      rw [memberRest_type lead ms (opens_type ht).append.append,
        List.append_assoc, bind_ok (ahead_ok _ _), hno,
        if_neg Bool.false_ne_true,
        bind_ok (typeTree_complete ht _ hname), bind_ok (ahead_ok _ _),
        startsCall_of_opens i (opens_method hm), if_pos rfl, List.cons_append,
        bind_ok (ident_ok i _)]
      exact methodWith_complete hm rest
  | @field us t vs ds after ht hds =>
      have hstop : Stops (· == .symbol "(")
          (vs ++ (⟨after, .symbol ";"⟩ :: rest)) :=
        (opens_declarators hds).stops _ fun w hw => by cases w with
          | name s => rfl
          | _ => cases hw
      have hno : startsCall (us ++ (vs ++ (⟨after, .symbol ";"⟩ :: rest))) =
          false := by
        obtain ⟨k, ht⟩ := ht
        cases k with
        | zero => exact ht.elim
        | succ k => exact startsCall_type ht hstop
      rw [memberRest_type lead ms (opens_type ht).append.append.append,
        List.append_assoc, List.append_assoc, List.cons_append, List.nil_append,
        bind_ok (ahead_ok _ _), hno,
        if_neg Bool.false_ne_true,
        bind_ok (typeTree_complete ht _
          ((opens_declarators hds).stops _ isName_not_extendsType)),
        bind_ok (ahead_ok _ _), startsCall_declarators hds (Stops.cons.2 rfl),
        if_neg Bool.false_ne_true,
        bind_ok (declarators_complete hds _ (Stops.cons.2 rfl)
          (Stops.cons.2 rfl))]
      rfl

theorem memberWith_sound (hn : Sound nested R) :
    Sound (memberWith nested) (MemberWith R) := by
  intro ts rest m h
  rw [memberWith_eq] at h
  simp only [bind_eq_ok] at h
  obtain ⟨lead, t₁, h₁, ms, t₂, h₂, h⟩ := h
  obtain ⟨us, rfl, hus⟩ := modifiers_sound h₂
  obtain ⟨vs, rfl, hvs⟩ := memberRest_sound hn lead ms h
  obtain ⟨xs, rfl, hled⟩ := led_of_takeLead
    (show takeLead ts = .ok (lead, us ++ vs ++ rest) by simpa using h₁)
    (by simp [(opens_memberAfter hvs).ne_nil])
  exact ⟨xs, rfl, .mk hus hvs hled⟩

/-- What opens a member behind its modifiers is no modifier. -/
theorem opensAfterModifiers_not_extendsModifiers (w : Word)
    (h : w.opensAfterModifiers = true) : extendsModifiers w = false := by
  simp only [Word.opensAfterModifiers, Word.isClassWord, Bool.or_eq_true,
    beq_iff_eq] at h
  rcases h with ((rfl | rfl) | rfl) | h
  · rfl
  · rfl
  · rfl
  · exact opensType_not_extendsModifiers w h

omit nested R n in

/-- The trivia at the head is no token. -/
theorem length_of_led {lead : Trivia} {us xs : List Token}
    (h : Led lead us xs) : xs.length = us.length := by
  cases h
  rfl

/-- A member is read as spelled, above members that are. -/
theorem memberWith_complete (hn : CompleteBelow n nested R fun _ => false)
    (hfirst : ∀ ⦃us m⦄, R us m →
      Opens (fun w => w.opensModifier || w.opensAfterModifiers) us)
    {xs : List Token} {m : RightPadded Member} (hlt : xs.length ≤ n)
    (h : MemberWith R xs m) (rest : List Token) :
    memberWith nested (xs ++ rest) = .ok (m, rest) := by
  obtain ⟨hms, hm, hled⟩ := h
  have hlen := length_of_led hled
  rw [List.length_append] at hlen
  rw [memberWith_eq, bind_ok (takeLead_ok hled rest), List.append_assoc,
    bind_ok (modifiers_complete hms _
      ((opens_memberAfter hm).stops _
        opensAfterModifiers_not_extendsModifiers))]
  exact memberRest_complete hn hfirst (by omega) hm rest

end

theorem memberOfDepth_sound (n : Nat) :
    Sound (memberOfDepth n) (SpellsMemberAt n) := by
  induction n with
  | zero => intro ts rest a h; exact absurd h stuck_ne_ok
  | succ n ih => exact memberWith_sound ih

theorem member_sound : Sound member SpellsMember := by
  intro ts rest m h
  obtain ⟨us, hts, hus⟩ := memberOfDepth_sound _ h
  exact ⟨us, hts, _, hus⟩

/-- A member opens with a modifier or with what may follow the modifiers. -/
theorem opens_member ⦃us : List Token⦄ ⦃m : RightPadded Member⦄
    (h : SpellsMember us m) :
    Opens (fun w => w.opensModifier || w.opensAfterModifiers) us := by
  obtain ⟨n, h⟩ := h
  cases n with
  | zero => exact h.elim
  | succ n => exact opens_memberWith h

/-- By induction on the depth: the fuel of a nested member is what is left of
the tokens. -/
theorem memberOfDepth_complete (m n : Nat) :
    CompleteBelow m (memberOfDepth m) (SpellsMemberAt n) fun _ => false := by
  induction m generalizing n with
  | zero => intro us c hlt; exact absurd hlt (Nat.not_lt_zero _)
  | succ m ih =>
      intro us c hlt h rest _
      cases n with
      | zero => exact h.elim
      | succ n =>
          exact memberWith_complete (ih n) (fun _ _ h => opens_member ⟨n, h⟩)
            (Nat.le_of_lt_succ hlt) h rest

theorem member_complete : Complete member SpellsMember fun _ => false := by
  rintro us m ⟨n, h⟩ rest hrest
  exact memberOfDepth_complete _ n (by rw [List.length_append]; omega)
    h rest hrest

-- ================================================================= files

theorem topClass_sound : Sound topClass SpellsTopClass := by
  intro ts rest c h
  simp only [topClass, bind_eq_ok] at h
  obtain ⟨lead, t₁, h₁, ms, t₂, h₂, kind, t₃, h₃, h⟩ := h
  obtain ⟨us, rfl, hus⟩ := modifiers_sound h₂
  obtain ⟨t, rfl, ht⟩ := take_eq_ok.1 h₃
  obtain ⟨vs, rfl, hvs⟩ := classWith_sound member_sound lead ms kind h
  obtain ⟨xs, rfl, hled⟩ := led_of_takeLead
    (show takeLead ts = .ok (lead, us ++ t :: vs ++ rest) by simpa using h₁)
      (by simp)
  exact ⟨xs, rfl, .mk hus ht hvs hled⟩

theorem topClass_complete :
    Complete topClass SpellsTopClass fun _ => false := by
  intro xs c h rest _
  obtain ⟨hms, hkind, hc, hled⟩ := h
  have hword : ∀ w : Word, w.isClassWord = true →
      extendsModifiers w = false := fun w hw =>
    opensAfterModifiers_not_extendsModifiers w
      (by simp [Word.opensAfterModifiers, hw])
  rw [topClass, bind_ok (takeLead_ok hled rest), List.append_assoc,
    List.cons_append,
    bind_ok (modifiers_complete hms _
      (Stops.cons.2 (hword _ (asClassKind_isClassWord hkind)))),
    bind_ok (take_ok hkind _)]
  exact classWith_complete (member_complete.below _) opens_member
    (Nat.le_refl _) hc rest

/-- The package declaration that is read is spelled by the tokens read. -/
theorem package?_sound : Sound package? SpellsPackage := by
  intro ts rest o h
  simp only [package?, bind_eq_ok] at h
  obtain ⟨lead?, t₁, h₁, h⟩ := h
  obtain ⟨lead, rfl, rfl⟩ | ⟨rfl, rfl⟩ := keyword?_eq_ok h₁
  · replace h := bind_eq_ok.1 h
    obtain ⟨p, t₂, h₂, h⟩ := h
    obtain ⟨rfl, rfl⟩ := pure_eq_ok.1 h
    obtain ⟨_, after, mid, h₃, rfl, rfl⟩ := terminated_eq_ok.1 h₂
    obtain ⟨n, h₄, rfl⟩ := map_eq_ok.1 h₃
    obtain ⟨us, rfl, hus⟩ := name_sound h₄
    exact ⟨⟨lead, .keyword "package"⟩ :: (us ++ [⟨after, .symbol ";"⟩]),
      by simp, .some hus⟩
  · obtain ⟨rfl, rfl⟩ := pure_eq_ok.1 h
    exact ⟨[], rfl, .none⟩

/-- A package declaration is read as spelled, or is absent where no keyword for
it stands. -/
theorem package?_complete {us : List Token} {p : Option (RightPadded Package)}
    (h : SpellsPackage us p) (rest : List Token)
    (hrest : Stops (· == .keyword "package") rest) :
    package? (us ++ rest) = .ok (p, rest) := by
  cases h with
  | none =>
      rw [package?, List.nil_append, bind_ok (keyword?_none hrest)]
      rfl
  | @some lead us n after h =>
      have hread : terminated (Package.mk lead <$> name)
          (us ++ ⟨after, .symbol ";"⟩ :: rest) =
          .ok (⟨⟨lead, n⟩, after⟩, rest) :=
        terminated_eq_ok.2 ⟨_, after, _,
          map_eq_ok.2 ⟨n, name_complete h _ (Stops.cons.2 rfl), rfl⟩, rfl, rfl⟩
      rw [package?, List.cons_append, bind_ok (keyword?_ok _ _ _),
        List.append_assoc, List.cons_append, List.nil_append]
      show (terminated (Package.mk lead <$> name) >>= _) _ = _
      rw [bind_ok hread]
      rfl

theorem importDecl_sound : Sound importDecl SpellsImport := by
  intro ts rest i h
  simp only [importDecl, bind_eq_ok] at h
  obtain ⟨lead, t₁, h₁, static?, t₂, h₂, h⟩ := h
  obtain ⟨_, after, mid, h₃, rfl, rfl⟩ := terminated_eq_ok.1 h
  obtain ⟨n, h₄, rfl⟩ := map_eq_ok.1 h₃
  obtain rfl := keyword_eq_ok.1 h₁
  obtain ⟨vs, rfl, hvs⟩ := importName_sound h₄
  obtain ⟨static, rfl, rfl⟩ | ⟨rfl, rfl⟩ := keyword?_eq_ok h₂
  · exact ⟨⟨lead, .keyword "import"⟩ ::
      ([⟨static, .keyword "static"⟩] ++ vs ++ [⟨after, .symbol ";"⟩]),
      by simp, .mk .some hvs⟩
  · exact ⟨⟨lead, .keyword "import"⟩ :: ([] ++ vs ++ [⟨after, .symbol ";"⟩]),
      by simp, .mk .none hvs⟩

/-- The name of an import opens with a word. -/
theorem opens_importName {us : List Token} {n : Name}
    (h : SpellsImportName us n) : Opens Word.isName us := by
  cases h with
  | named h =>
      obtain ⟨s, rest, rfl⟩ := opens_name h
      exact .cons rfl
  | star dot lead h =>
      obtain ⟨s, rest, rfl⟩ := opens_name h
      exact .cons rfl

theorem importDecl_complete :
    Complete importDecl SpellsImport fun _ => false := by
  intro us i h rest _
  obtain ⟨hstatic, hn⟩ := h
  rename_i lead us static? vs n after
  have hread : terminated (Import.mk lead static? <$> importName)
      (vs ++ ⟨after, .symbol ";"⟩ :: rest) =
        .ok (⟨⟨lead, static?, n⟩, after⟩, rest) :=
    terminated_eq_ok.2 ⟨_, after, _, map_eq_ok.2
      ⟨n, importName_complete hn _ (Stops.cons.2 rfl), rfl⟩, rfl, rfl⟩
  rw [importDecl, List.cons_append, bind_ok (keyword_ok _ _ _),
    List.append_assoc, List.append_assoc, List.cons_append, List.nil_append]
  cases hstatic with
  | none =>
      have hno : Stops (· == .keyword "static")
          (vs ++ ⟨after, .symbol ";"⟩ :: rest) :=
        (opens_importName hn).stops _ fun w hw => by cases w with
          | name s => rfl
          | _ => cases hw
      rw [List.nil_append, bind_ok (keyword?_none hno)]
      exact hread
  | some =>
      rw [List.cons_append, List.nil_append, bind_ok (keyword?_ok _ _ _)]
      exact hread

/-- The classes of a file start with no `import`, and none of its parts but the
first with `package`. -/
theorem stops_topClasses {us : List Token} {cs : List JavaClass}
    (h : Many SpellsTopClass us cs) :
    Stops (fun w => w == .keyword "import" || w == .keyword "package") us := by
  cases h with
  | nil => exact Stops.nil
  | cons h _ =>
      rw [← List.append_nil (_ ++ _)]
      refine (opens_topClass h).append.stops [] fun w hw => ?_
      rw [Bool.or_eq_false_iff]
      constructor <;> refine beq_eq_false_iff_ne.2 ?_ <;>
        rintro rfl <;> cases hw

/-- A file is read as spelled. -/
theorem unit_complete {close : Trivia} {path : Option String} {ts : List Token}
    {cu : CompilationUnit} (h : SpellsUnit close path ts cu) :
    unit close path ts = .ok (cu, []) := by
  cases h with
  | empty => rfl
  | @mk lead us p imports classes _ hparts hled =>
      obtain ⟨hp, himports, hclasses⟩ := hparts
      rename_i us vs ws
      have hstop := stops_topClasses hclasses
      have hnoImport : startsWith "import" ws = false :=
        startsWith_of_stops (hstop.imp fun w hw => by simp_all)
      have hnoPackage : Stops (· == .keyword "package") (vs ++ ws) := by
        cases himports with
        | nil => exact hstop.imp fun w hw => by simp_all
        | cons h _ =>
            exact (opens_import h).append.stops _ fun w hw => by
              rw [eq_of_beq hw]; rfl
      have hreadImports :
          bounded (manyWhile (startsWith "import") importDecl) (vs ++ ws) =
          .ok (imports, ws) :=
        manyWhile_complete (importDecl_complete.below _) opens_import
          (fun _ _ => rfl)
          (fun _ => startsWith_of_opens) (Nat.lt_succ_self _) himports
          (by rw [List.length_append]; omega) ws (fun _ _ => rfl) hnoImport
      have hreadClasses : bounded (manyWhile hasMore topClass) ws =
          .ok (classes, []) := by
        have hstarts : ∀ ⦃us⦄,
            Opens (fun w => w.opensModifier || w.isClassWord) us →
            hasMore us = true := by
          rintro us ⟨t, us, rfl, -⟩
          rfl
        have hread := manyWhile_complete (topClass_complete.below _)
          opens_topClass (fun _ _ => rfl)
          hstarts (Nat.lt_succ_self _) hclasses (Nat.lt_succ_self _)
            [] Stops.nil rfl
        rwa [List.append_nil] at hread
      have hlead : takeLead _ = .ok (lead, us ++ vs ++ ws ++ []) :=
        takeLead_ok hled []
      rw [List.append_nil, List.append_nil] at hlead
      rw [unit, bind_ok hlead, List.append_assoc,
        bind_ok (package?_complete hp _ hnoPackage), bind_ok hreadImports,
        bind_ok hreadClasses]
      rfl

/-- A file that is read is spelled by all the tokens. -/
theorem unit_sound {close : Trivia} {path : Option String}
    {ts rest : List Token} {cu : CompilationUnit}
    (h : unit close path ts = .ok (cu, rest)) :
    rest = [] ∧ SpellsUnit close path ts cu := by
  simp only [unit, bind_eq_ok] at h
  obtain ⟨lead, t₁, h₁, p, t₂, h₂, imports, t₃, h₃, classes, t₄, h₄, h⟩ := h
  obtain ⟨rfl, rfl⟩ := pure_eq_ok.1 h
  obtain rfl := manyWhile_hasMore_rest h₄
  obtain ⟨us, rfl, hus⟩ := package?_sound h₂
  obtain ⟨vs, rfl, hvs⟩ := Sound.bounded (importDecl_sound.manyWhile _) h₃
  obtain ⟨ws, rfl, hws⟩ := Sound.bounded (topClass_sound.manyWhile _) h₄
  refine ⟨rfl, ?_⟩
  have hparts : SpellsParts (us ++ vs ++ ws) (p, imports, classes) :=
    .mk hus hvs hws
  cases ts with
  | nil =>
      simp only [takeLead, Except.ok.injEq, Prod.mk.injEq] at h₁
      obtain ⟨rfl, h₁⟩ := h₁
      simp only [List.append_nil, List.nil_eq, List.append_eq_nil_iff] at h₁
      obtain ⟨rfl, rfl, rfl⟩ := h₁
      obtain rfl := eq_nil_of_many opens_import hvs rfl
      obtain rfl := eq_nil_of_many opens_topClass hws rfl
      cases hus
      exact .empty
  | cons t ts =>
      simp only [takeLead, Except.ok.injEq, Prod.mk.injEq] at h₁
      obtain ⟨rfl, h₁⟩ := h₁
      refine .mk hparts ?_
      rw [List.append_nil, ← List.append_assoc] at h₁
      rw [← h₁]
      exact .mk

/-- The tokens of a file are read as a tree exactly when they spell it. -/
theorem unit_eq_ok_iff {close : Trivia} {path : Option String}
    {ts rest : List Token} {cu : CompilationUnit} :
    unit close path ts = .ok (cu, rest) ↔
    rest = [] ∧ SpellsUnit close path ts cu := by
  refine ⟨unit_sound, ?_⟩
  rintro ⟨rfl, h⟩
  exact unit_complete h

end Parser

end JavaRefit
