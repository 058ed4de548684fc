/-
Any two derivations of a file are readings of each other.

A member is what is read from its tokens but for its body, and so is a
class; and a body stands at the same place in both derivations, since all
tokens of a block are in its tree. Between the braces of a class the
tokens are parted into members in one way only.

Chain: after `Ambiguous`; the choice among derivations rests on it.
-/
import JavaRefit.Proofs.Grammar.Ambiguous
import JavaRefit.Proofs.Reading.Unit

namespace JavaRefit

open Spelling JavaRefit.Parser

-- ============================================================ lead trivia

section
variable {lead lead' : Trivia} {us vs ws xs : List Token}

/-- The trivia that leads tokens, and the tokens without it, are determined. -/
theorem led_unique (h : Led lead us xs) (h' : Led lead' vs xs) :
    lead = lead' ∧ us = vs := by
  cases h
  cases h'
  exact ⟨rfl, rfl⟩

/-- The trivia in front of some tokens is at their start. -/
theorem suffix_of_led (h : Led lead us xs) (hws : us = vs ++ ws)
    (hvs : vs ≠ []) : ws <:+ xs := by
  obtain ⟨t, vs, rfl⟩ := List.exists_cons_of_ne_nil hvs
  subst hws
  cases h
  exact ⟨_ :: vs, rfl⟩

end

/-- Ends of the same tokens with the same length are the same. -/
theorem suffix_unique {us vs ws : List Token} (hvs : vs <:+ us)
    (hws : ws <:+ us) (hlength : vs.length = ws.length) : vs = ws :=
  (List.suffix_of_suffix_length_le hvs hws (Nat.le_of_eq hlength)).eq_of_length
    hlength

-- ================================================= derivations and readings

/-- A derivation of a method with a body as what is read from its tokens. -/
def MethodAs (us : List Token) (m m' : Method) : Prop :=
  ∃ vs b b', vs <:+ us ∧ Braced DerivesStmt vs b ∧ Braced SpellsStmt vs b' ∧
    m = { m with body := some b } ∧ m' = { m with body := some b' }

/-- A derivation of a class as what is read from its tokens. -/
def ClassAs (us : List Token) (c c' : JavaClass) : Prop :=
  ∃ vs, vs <:+ us ∧ Braced DerivesMember vs c.body ∧
    Braced SpellsMember vs c'.body ∧ c' = { c with body := c'.body }

/-- A derivation of a member as what is read from its tokens. -/
inductive MemberAs (us : List Token) : RightPadded Member →
    RightPadded Member → Prop
  | leaf {m} : m.element.needsSemicolon = true → MemberAs us m m
  | method {m m'} : MethodAs us m m' →
      MemberAs us ⟨.method m, ""⟩ ⟨.method m', ""⟩
  | nested {c c'} : ClassAs us c c' →
      MemberAs us ⟨.nested c, ""⟩ ⟨.nested c', ""⟩

/-- A derived class is read by the parser, perhaps as another. -/
theorem DerivesClass.readAs {us : List Token} {c : JavaClass}
    (h : DerivesClass us c) : ∃ c', SpellsTopClass us c' ∧ ClassAs us c c' := by
  obtain ⟨i, hms, hkind, hextends, himplements, hbody, hled⟩ := h
  rename_i us ms t kind vs _ ws _ bs b
  obtain ⟨b', hb'⟩ := hbody.lift (fun _ _ _ h => h.read) (Nat.le_refl _)
  have hsuffix := suffix_of_led hled
    (show _ = (us ++ t :: ⟨i.lead, .name i.name⟩ :: (vs ++ ws)) ++ bs by simp)
      (by simp)
  exact ⟨_, .mk hms hkind (.mk i hextends himplements hb') hled, bs, hsuffix,
    hbody, hb', rfl⟩

/-- A derived member is read by the parser, perhaps as another. -/
theorem DerivesMember.readAs {us : List Token} {m : RightPadded Member}
    (h : DerivesMember us m) : ∃ m', SpellsMember us m' ∧ MemberAs us m m' := by
  have hblock {vs : List Token} {b : Block Stmt}
      (hb : Braced DerivesStmt vs b) :
      ∃ b', Braced SpellsStmt vs b' :=
        hb.lift (fun _ _ _ h => h.read) (Nat.le_refl _)
  have hmember {vs : List Token} {m : RightPadded Member}
      (hm : MemberWith SpellsMember vs m) :
      SpellsMember vs m := spellsMember_of_memberWith hm
  cases h with
  | field hms ht hds hled =>
      exact ⟨_, hmember (.mk hms (.field ht hds) (by simpa using hled)),
        .leaf rfl⟩
  | @method lead us ms vs t ps params ts throws bs body after _ i hms ht hparams
      hthrows hbody hled =>
      have hsuffix := suffix_of_led hled
        (show _ = (us ++ vs ++ ⟨i.lead, .name i.name⟩ :: (ps ++ ts)) ++ bs by
          simp) (by simp)
      cases hbody with
      | semicolon =>
          cases ht with
          | type ht =>
              exact ⟨_,
                hmember (.mk hms (.method i ht (.abstract rfl hparams hthrows))
                (by simpa using hled)), .leaf rfl⟩
          | void =>
              exact ⟨_,
                hmember (.mk hms (.void i (.abstract rfl hparams hthrows))
                (by simpa using hled)), .leaf rfl⟩
      | block hb =>
          obtain ⟨b', hb'⟩ := hblock hb
          cases ht with
          | type ht =>
              exact ⟨_,
                hmember (.mk hms (.method i ht (.bodied hparams hthrows hb'))
                (by simpa using hled)),
                .method ⟨bs, _, _, hsuffix, hb, hb', rfl, rfl⟩⟩
          | void =>
              exact ⟨_, hmember (.mk hms (.void i (.bodied hparams hthrows hb'))
                (by simpa using hled)),
                .method ⟨bs, _, _, hsuffix, hb, hb', rfl, rfl⟩⟩
  | @constructor lead us ms ps params ts throws bs body _ i hms hparams
      hthrows hb hled =>
      have hsuffix := suffix_of_led hled
        (show _ = (us ++ ⟨i.lead, .name i.name⟩ :: (ps ++ ts)) ++ bs by simp)
          (by simp)
      obtain ⟨b', hb'⟩ := hblock hb
      exact ⟨_, hmember (.mk hms (.constructor i (.bodied hparams hthrows hb'))
        (by simpa using hled)), .method ⟨bs, _, _, hsuffix, hb, hb', rfl, rfl⟩⟩
  | nested hc =>
      obtain ⟨c', ⟨hms, hkind, hc', hled⟩, hcc'⟩ := hc.readAs
      exact ⟨_, hmember (.mk hms (.nested hkind hc') hled), .nested hcc'⟩

-- ==================================================================== bodies

/-- Two spellings of one block have the same number of tokens. -/
theorem length_eq_of_braced_stmt {us vs : List Token} {b : Block Stmt}
    (hus : Braced SpellsStmt us b) (hvs : Braced SpellsStmt vs b) :
    us.length = vs.length :=
  length_eq_of_reads block_reads (by simpa using block_complete hus [])
    (by simpa using block_complete hvs [])

/-- Two spellings of one class body have the same number of tokens. -/
theorem length_eq_of_braced_member {us vs : List Token} {b : Block Member}
    (hus : Braced SpellsMember us b) (hvs : Braced SpellsMember vs b) :
    us.length = vs.length := by
  have hread {ws : List Token} (h : Braced SpellsMember ws b) :
      braced member ws = .ok (b, []) := by
    simpa using braced_complete (member_complete.below _) opens_member
      (fun _ _ => rfl) rfl rfl
      (Nat.le_refl _) h []
  exact length_eq_of_reads member_reads.braced (hread hus) (hread hvs)

/-- Two methods that are read as the same one are readings of each other. -/
theorem reread_method {us : List Token} {m n p : Method} (hm : MethodAs us m p)
    (hn : MethodAs us n p) :
    RereadMember ⟨.method m, ""⟩ ⟨.method n, ""⟩ := by
  obtain ⟨vs, b, b', hvs, hb, hb', hm, hmp⟩ := hm
  obtain ⟨ws, c, c', hws, hc, hc', hn, hnp⟩ := hn
  rw [hmp, Method.mk.injEq] at hnp
  simp only [Option.some.injEq] at hnp
  obtain rfl : b' = c' := by tauto
  obtain rfl := suffix_unique hvs hws (length_eq_of_braced_stmt hb' hc')
  have hbc : RereadBlock b c :=
    reread_block (fun _ _ _ _ hs ht => hs.reread ht) (Nat.le_refl _) hb hc
  have hmn : n = { m with body := some c } := by
    rw [hn, Method.mk.injEq]
    tauto
  rw [hmn, hm]
  exact .method hbc

-- =================================================================== members

/-- A derived member opens as any member does. -/
theorem opens_derivesMember ⦃us : List Token⦄ ⦃m : RightPadded Member⦄
    (h : DerivesMember us m) :
    Opens (fun w => w.opensModifier || w.opensAfterModifiers) us := by
  obtain ⟨m', hm'⟩ := h.read
  exact opens_member hm'

/-- Two derived members at the head of the same tokens have the same tokens. -/
theorem member_split {us vs xs ys : List Token} {m n : RightPadded Member}
    (h : us ++ xs = vs ++ ys) (hm : DerivesMember us m)
    (hn : DerivesMember vs n) : us = vs := by
  obtain ⟨m', hm'⟩ := hm.read
  obtain ⟨n', hn'⟩ := hn.read
  exact (member_complete.split h hm' hn' (fun _ _ => rfl) (fun _ _ => rfl)).1

/-- Two classes that are read as the same one are readings of each other, if
that is so of their members. -/
theorem reread_class {n : Nat}
    (ih : ∀ ⦃us m m'⦄, us.length < n → DerivesMember us m →
      DerivesMember us m' → RereadMember m m') {us : List Token}
    {c d p : JavaClass} (hlt : us.length ≤ n) (hc : ClassAs us c p)
    (hd : ClassAs us d p) : RereadClass c d := by
  obtain ⟨vs, hvs, hb, hp, hcp⟩ := hc
  obtain ⟨ws, hws, hb', hp', hdp⟩ := hd
  obtain rfl := suffix_unique hvs hws (length_eq_of_braced_member hp hp')
  obtain ⟨inner, hinner, hms, hms', hlead, hclose⟩ := braced_inner hb hb'
  have hlength := hvs.length_le
  have hall : List.Forall₂ RereadMember c.body.statements d.body.statements :=
    hms.forall₂ opens_derivesMember opens_derivesMember (P := fun _ => false)
      (fun _ _ => rfl)
      (fun us vs xs ys m m' hle h hm hm' _ _ => by
        obtain rfl := member_split h hm hm'
        exact ⟨rfl, ih (by omega) hm hm'⟩) hms'
  refine .mk ?_ hall
  obtain ⟨_, _, _, _, _, _, _, ⟨lead, ms, close⟩, _⟩ := c
  obtain ⟨_, _, _, _, _, _, _, ⟨lead', ms', close'⟩, _⟩ := d
  obtain rfl : lead = lead' := hlead
  obtain rfl : close = close' := hclose
  rw [hcp, ClassDecl.mk.injEq] at hdp
  obtain ⟨rfl, rfl, rfl, rfl, rfl, rfl, rfl, -, rfl⟩ := hdp
  rfl

/-- Two derivations of a member are readings of each other. -/
theorem DerivesMember.reread {us : List Token} {m n : RightPadded Member}
    (hm : DerivesMember us m) (hn : DerivesMember us n) : RereadMember m n := by
  induction hlen : us.length using Nat.strong_induction_on
    generalizing us m n with
  | h k ih =>
  obtain ⟨p, hp, hmp⟩ := hm.readAs
  obtain ⟨q, hq, hnq⟩ := hn.readAs
  obtain rfl := member_complete.unique hp hq
  cases hmp with
  | leaf hleaf =>
      cases hnq with
      | leaf _ => exact .same m
      | method h =>
          obtain ⟨_, _, _, -, -, -, -, h⟩ := h
          rw [h] at hleaf
          cases hleaf
      | nested _ => cases hleaf
  | method h =>
      cases hnq with
      | leaf hleaf =>
          obtain ⟨_, _, _, -, -, -, -, h⟩ := h
          rw [h] at hleaf
          cases hleaf
      | method h' => exact reread_method h h'
  | nested h =>
      cases hnq with
      | leaf hleaf => cases hleaf
      | nested h' =>
          exact .nested (reread_class (fun _ _ _ hlt hm hn =>
            ih _ hlt hm hn rfl) (Nat.le_of_eq hlen) h h')

-- ====================================================================== files

/-- Any two derivations of a class from the same tokens are readings of each
other. -/
theorem DerivesClass.reread {us : List Token} {c d : JavaClass}
    (hc : DerivesClass us c) (hd : DerivesClass us d) : RereadClass c d := by
  obtain ⟨p, hp, hcp⟩ := hc.readAs
  obtain ⟨q, hq, hdq⟩ := hd.readAs
  obtain rfl := topClass_complete.unique hp hq
  exact reread_class (fun _ _ _ _ hm hn => hm.reread hn) (Nat.le_refl _) hcp hdq

/-- A derived class opens as any class does. -/
theorem opens_derivesClass ⦃us : List Token⦄ ⦃c : JavaClass⦄
    (h : DerivesClass us c) :
    Opens (fun w => w.opensModifier || w.isClassWord) us := by
  obtain ⟨c', hc', -⟩ := h.readAs
  exact opens_topClass hc'

/-- Two derived classes at the head of the same tokens have the same tokens. -/
theorem class_split {us vs xs ys : List Token} {c d : JavaClass}
    (h : us ++ xs = vs ++ ys) (hc : DerivesClass us c)
    (hd : DerivesClass vs d) : us = vs := by
  obtain ⟨p, hp, -⟩ := hc.readAs
  obtain ⟨q, hq, -⟩ := hd.readAs
  exact (topClass_complete.split h hp hq (fun _ _ => rfl) (fun _ _ => rfl)).1

/-- Any two derivations of the parts of a file have the same package and
imports, and classes that are readings of each other. -/
theorem DerivesParts.reread {us : List Token}
    {p p' : Option (RightPadded Package)}
    {imports imports' : List (RightPadded Import)}
    {classes classes' : List JavaClass}
    (h : DerivesParts us (p, imports, classes))
    (h' : DerivesParts us (p', imports', classes')) :
    p = p' ∧ imports =
      imports' ∧ List.Forall₂ RereadClass classes classes' := by
  obtain ⟨hp, himports, hclasses⟩ := h
  rename_i us vs ws
  generalize hus : us ++ vs ++ ws = xs at h'
  obtain ⟨hp', himports', hclasses'⟩ := h'
  rename_i us' vs' ws'
  have hclassesStop {zs : List Token} {cs : List JavaClass}
      (hcs : Many DerivesClass zs cs) :
      Stops (fun w => w == .keyword "import" || w == .keyword "package")
        zs := by
    obtain ⟨ds, hds⟩ :=
      hcs.lift (fun _ _ _ h => h.readAs.imp fun _ h => h.1) (Nat.lt_succ_self _)
    exact stops_topClasses hds
  have hpackage {ys zs : List Token} {is : List (RightPadded Import)}
      {cs : List JavaClass}
      (his : Many SpellsImport ys is) (hcs : Many DerivesClass zs cs) :
      Stops (· == .keyword "package") (ys ++ zs) := by
    cases his with
    | nil => exact (hclassesStop hcs).imp fun w hw => by simp_all
    | cons h _ =>
        exact (opens_import h).append.stops _ fun w hw => by
          rw [eq_of_beq hw]; rfl
  rw [List.append_assoc, List.append_assoc] at hus
  obtain ⟨rfl, hrest, rfl⟩ :=
    split_of_ok hus (package?_complete hp _ (hpackage himports hclasses))
    (package?_complete hp' _ (hpackage himports' hclasses'))
  obtain ⟨rfl, rfl, heq⟩ :=
    himports.split (Q := Eq) (P := fun _ => false) opens_import opens_import
    (fun _ _ => rfl) (fun _ _ _ _ _ _ _ h hi hj _ _ => by
      obtain ⟨rfl, -, rfl⟩ :=
        importDecl_complete.split h hi hj (fun _ _ => rfl) (fun _ _ => rfl)
      exact ⟨rfl, rfl⟩) (Nat.le_refl _) hrest himports' (fun _ _ => rfl)
        (fun _ _ => rfl)
    ((hclassesStop hclasses).imp fun w hw => by simp_all)
    ((hclassesStop hclasses').imp fun w hw => by simp_all)
  refine ⟨rfl, List.forall₂_eq_eq_eq ▸ heq, ?_⟩
  exact hclasses.forall₂ opens_derivesClass opens_derivesClass
    (P := fun _ => false) (fun _ _ => rfl)
    (fun _ _ _ _ _ _ _ h hc hd _ _ => by
      obtain rfl := class_split h hc hd
      exact ⟨rfl, hc.reread hd⟩) hclasses'

/-- Two derivations of a file are readings of each other. -/
theorem DerivesUnit.reread {close : Trivia} {path : Option String}
    {ts : List Token} {cu cu' : CompilationUnit}
    (h : DerivesUnit close path ts cu) (h' : DerivesUnit close path ts cu') :
    RereadUnit cu cu' := by
  cases h with
  | empty =>
      cases h' with
      | empty => exact ⟨rfl, .nil⟩
      | mk _ hled => cases hled
  | mk hparts hled =>
      cases h' with
      | empty => cases hled
      | mk hparts' hled' =>
          obtain ⟨rfl, rfl⟩ := led_unique hled hled'
          obtain ⟨rfl, rfl, hclasses⟩ := hparts.reread hparts'
          exact ⟨rfl, hclasses⟩

end JavaRefit
