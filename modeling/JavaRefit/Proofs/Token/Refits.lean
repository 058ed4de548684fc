/-
Tokens that may be put in the place of others.

Where separated tokens stand in a text, others can be put if they are
separated too, and start and end alike: the first with the same trivia in
front, and both with the same word or with a name or keyword where one
was (`Refits`). That is kept when tokens are put together, so it is
enough to know it of the places where something is changed.

Chain: after `Separated`; the rules of the language and what the catch
rule changes meet here.
-/
import JavaRefit.Proofs.Token.Separated

namespace JavaRefit

open Spelling Token

-- =========================================================== identifiers

namespace Word

/-- The word is a name or a reserved one. -/
def isIdentifier : Word → Bool
  | name _ => true
  | keyword _ => true
  | _ => false

theorem isIdentifier_nameWord (s : String) :
    (nameWord s).isIdentifier = true := by
  unfold nameWord
  split <;> rfl

end Word

namespace Token

/-- Which scanner cuts a word off: that of names, one of literals, or that of
symbols. -/
theorem spanWord_eq_some {c : Char} {cs rest : List Char} {w : Word}
    (h : spanWord (c :: cs) = some (w, rest)) :
    (isNameStart c = true ∧
      w = nameWord (String.ofList (c :: cs.takeWhile isNamePart)) ∧
        cs.dropWhile isNamePart = rest) ∨
      w.isLiteral = true ∨
      ∃ a, spanSymbol (c :: cs) = some (a, rest) ∧
      w = .symbol (String.ofList a) ∧
        ∀ ds, spanWord (c :: ds) =
          (spanSymbol (c :: ds)).map fun p =>
            (.symbol (String.ofList p.1), p.2) := by
  rw [spanWord] at h
  split at h
  next hstart =>
    rw [Option.some.injEq, Prod.mk.injEq] at h
    exact .inl ⟨hstart, h.1.symm, h.2⟩
  next hstart =>
    refine .inr ?_
    split at h
    next =>
      rw [Option.some.injEq, Prod.mk.injEq] at h
      exact .inl (by rw [← h.1]; rfl)
    next hdigit =>
      split at h
      next =>
        obtain ⟨_, -, he⟩ := Option.map_eq_some_iff.1 h
        rw [Prod.mk.injEq] at he
        exact .inl (by rw [← he.1]; rfl)
      next hquote =>
        split at h
        next =>
          obtain ⟨_, -, he⟩ := Option.map_eq_some_iff.1 h
          rw [Prod.mk.injEq] at he
          exact .inl (by rw [← he.1]; rfl)
        next hquote' =>
          obtain ⟨⟨a, b⟩, ha, he⟩ := Option.map_eq_some_iff.1 h
          rw [Prod.mk.injEq] at he
          obtain ⟨rfl, rfl⟩ := he
          refine .inr ⟨a, ha, rfl, fun ds => ?_⟩
          rw [spanWord, if_neg hstart, if_neg hdigit, if_neg hquote,
            if_neg hquote']

/-- No symbol goes on with a character that starts a name. -/
theorem spanSymbol_nameStart {x : Char} {xs a : List Char}
    (h : spanSymbol (x :: xs) = some (a, [])) {c : Char}
    (hc : isNameStart c = true) :
    spanSymbol (x :: (xs ++ [c])) = some (a, [c]) := by
  have hdouble : ∀ p ∈ doubleSymbols, isNameStart p.2 = false := by decide
  cases xs with
  | nil =>
      have hno : doubleSymbols.contains (x, c) = false := by
        rw [List.contains_eq_mem, decide_eq_false_iff_not]
        intro hmem
        have := hdouble _ hmem
        simp [hc] at this
      rw [spanSymbol] at h
      split at h
      next hx =>
        cases h
        rw [List.nil_append, spanSymbol, hno,
          if_neg Bool.false_ne_true, if_pos hx]
      next => cases h
  | cons y ys =>
      rw [spanSymbol] at h
      split at h
      next hxy =>
        cases h
        rw [List.cons_append, spanSymbol, if_pos hxy]
        rfl
      next => split at h <;> cases h

end Token

namespace Word

variable {w : Word}

/-- A name or keyword is written with the characters of names. -/
theorem IsWhole.of_isIdentifier (h : w.IsWhole) (hw : w.isIdentifier = true) :
    ∃ c cs, w.text.toList = c :: cs ∧ isNameStart c = true ∧
    (∀ d ∈ cs, isNamePart d = true) ∧
      w = nameWord (String.ofList (c :: cs)) := by
  obtain ⟨c, cs, hc⟩ := List.exists_cons_of_ne_nil h.ne_nil
  rw [IsWhole, hc] at h
  rcases spanWord_eq_some h
    with ⟨hstart, hword, hdrop⟩ | hliteral | ⟨a, -, rfl, -⟩
  · have hall := List.dropWhile_eq_nil_iff.1 hdrop
    exact ⟨c, cs, hc, hstart, hall,
      by rw [hword, List.takeWhile_eq_self_iff.2 hall]⟩
  · cases w with
    | literal s => cases hw
    | _ => cases hliteral
  · cases hw

/-- A name or keyword ends before a character that is in no name. -/
theorem IsWhole.endsBefore_iff (h : w.IsWhole) (hw : w.isIdentifier = true)
    {c : Char} : w.EndsBefore c ↔ isNamePart c = false := by
  obtain ⟨d, ds, hd, hstart, hall, hword⟩ := h.of_isIdentifier hw
  have hne : w ≠ .symbol "/" := by
    rintro rfl
    cases hw
  have hspan : spanWord (d :: (ds ++ [c])) =
      some (nameWord (String.ofList (d :: (ds ++ [c]).takeWhile isNamePart)),
        (ds ++ [c]).dropWhile isNamePart) := by
    rw [spanWord, if_pos hstart]
  rw [EndsBefore, hd, List.cons_append, hspan]
  constructor
  · rintro ⟨hcut, -⟩
    rw [Option.some.injEq, Prod.mk.injEq] at hcut
    exact head_dropWhile c (by rw [hcut.2]; rfl)
  · intro hc
    obtain ⟨ht, hr⟩ := @span_append isNamePart _ [c] hall fun e he => by
      cases he
      exact hc
    exact ⟨by rw [ht, hr, ← hword], fun h => absurd h hne⟩

/-- A symbol ends before every character that starts a name. -/
theorem IsWhole.endsBefore_of_isSymbol (h : w.IsWhole) (hw : w.isSymbol = true)
    {c : Char} (hc : isNameStart c = true) : w.EndsBefore c := by
  obtain ⟨x, xs, hx⟩ := List.exists_cons_of_ne_nil h.ne_nil
  have hslash : c ≠ '/' ∧ c ≠ '*' := by
    constructor <;> rintro rfl <;> revert hc <;> decide
  refine ⟨?_, fun _ => hslash⟩
  rw [IsWhole, hx] at h
  rw [hx, List.cons_append]
  rcases spanWord_eq_some h with ⟨-, hword, -⟩ | hliteral | ⟨a, hsymbol,
    hword, hspan⟩
  · rw [hword] at hw
    have hno :=
      isIdentifier_nameWord (String.ofList (x :: xs.takeWhile isNamePart))
    cases hn : nameWord (String.ofList (x :: xs.takeWhile isNamePart)) <;>
      rw [hn] at hw hno
    · cases hw
    · cases hw
    · cases hw
    · cases hno
  · cases w with
    | symbol s => cases hliteral
    | _ => cases hw
  · have hcut := spanSymbol_nameStart hsymbol hc
    have ha : a = x :: xs := by simpa [hword, Word.text] using hx
    rw [ha] at hcut
    rw [hspan, hcut, hword, ha]
    rfl

/-- The second word may be put in the place of the first: it is the same, or
both are names or keywords. -/
def Alike (w w' : Word) : Prop :=
  w' = w ∨ w.isIdentifier = true ∧ w'.isIdentifier = true

theorem Alike.refl (w : Word) : w.Alike w :=
  .inl rfl

theorem Alike.trans {u v w : Word} (huv : u.Alike v) (hvw : v.Alike w) :
    u.Alike w := by
  rcases huv with rfl | ⟨hu, hv⟩
  · exact hvw
  · rcases hvw with rfl | ⟨-, hw⟩
    · exact .inr ⟨hu, hv⟩
    · exact .inr ⟨hu, hw⟩

theorem isClosed_of_isIdentifier (h : w.isIdentifier = true) :
    w.isClosed = true := by
  cases w with
  | name s => rfl
  | keyword s => rfl
  | _ => cases h

end Word

-- ================================================================== places

/-- What is apart from one name or keyword is apart from another in its
place. -/
theorem Apart.of_alike_right {t u u' : Token} (h : Apart t u) (ht : t.IsWhole)
    (hu : u.IsWhole) (hu' : u'.IsWhole) (hlead : u'.lead = u.lead)
    (hword : u.word.Alike u'.word) : Apart t u' := by
  obtain ⟨lead, w⟩ := u
  obtain ⟨lead', w'⟩ := u'
  obtain rfl : lead' = lead := hlead
  obtain rfl | ⟨hw, hw'⟩ : w' = w ∨ _ := hword
  · exact h
  have hsymbol : w.isSymbol = false ∧ w'.isLiteral = false ∧
      w' ≠ .symbol "*" := by
    refine ⟨?_, ?_, ?_⟩
    · cases w with
      | symbol s => cases hw
      | _ => rfl
    · cases w' with
      | literal s => cases hw'
      | _ => rfl
    · rintro rfl
      cases hw'
  -- No literal stands in front of a name.
  have hliteral : t.word.isLiteral = true → False := fun hl => by
    have hs := h.meets.literal hl
    rw [hsymbol.1] at hs
    cases hs
  refine ⟨fun c hc => ?_, fun _ => hsymbol.2.1, fun _ => hsymbol.2.2, fun hl =>
    (hliteral hl).elim⟩
  obtain ⟨d, ds, hd, hdstart, -⟩ := hu.word.of_isIdentifier hw
  obtain ⟨e, es, he, hestart, -⟩ := hu'.word.of_isIdentifier hw'
  rw [Token.text, String.toList_append] at hc
  have hends := h.ends
  rw [Token.text, String.toList_append] at hends
  cases hl : lead'.toList with
  | cons x xs =>
      rw [hl] at hc hends
      exact hends c hc
  | nil =>
      dsimp only at hd he
      rw [hl, he] at hc
      rw [hl, hd] at hends
      obtain rfl : e = c := by simpa using hc
      have hends := hends d rfl
      cases hword : t.word with
      | symbol s =>
          exact hword ▸ ht.word.endsBefore_of_isSymbol
            (by rw [hword]; rfl) hestart
      | literal s => exact (hliteral (by rw [hword]; rfl)).elim
      | name s | keyword s =>
          rw [ht.word.endsBefore_iff (by rw [hword]; rfl), isNamePart,
            hdstart] at hends
          cases hends

/-- What is apart after one name or keyword is apart after another in its
place. -/
theorem Apart.of_alike_left {t t' u : Token} (h : Apart t u) (ht : t.IsWhole)
    (ht' : t'.IsWhole) (hword : t.word.Alike t'.word) : Apart t' u := by
  rcases hword with hword | ⟨hw, hw'⟩
  · refine ⟨fun c hc => hword ▸ h.ends c hc, ?_⟩
    exact ⟨fun h' => h.meets.dot (hword ▸ h'), fun h' =>
      h.meets.slash (hword ▸ h'), fun h' => h.meets.literal (hword ▸ h')⟩
  · refine ⟨fun c hc => ?_,
      meets_of_isClosed (Word.isClosed_of_isIdentifier hw') u⟩
    rw [ht'.word.endsBefore_iff hw']
    exact (ht.word.endsBefore_iff hw).1 (h.ends c hc)

theorem separated_append {us vs : List Token} : Separated (us ++ vs) ↔
    Separated us ∧ Separated vs ∧ ∀ t ∈ us.getLast?, ∀ u ∈ vs.head?,
      Apart t u := by
  constructor
  · rintro ⟨hwhole, hchain⟩
    obtain ⟨hus, hvs⟩ := List.forall_mem_append.1 hwhole
    obtain ⟨hcu, hcv, hjoin⟩ := List.isChain_append.1 hchain
    exact ⟨⟨hus, hcu⟩, ⟨hvs, hcv⟩, hjoin⟩
  · rintro ⟨hus, hvs, hjoin⟩
    exact ⟨List.forall_mem_append.2 ⟨hus.whole, hvs.whole⟩,
      List.isChain_append.2 ⟨hus.chain, hvs.chain, hjoin⟩⟩

theorem Separated.tail {t : Token} {ts : List Token} (h : Separated (t :: ts)) :
    Separated ts :=
  ⟨(List.forall_mem_cons.1 h.whole).2, h.chain.tail⟩

/-- Other trivia that is over may stand in front. -/
theorem Separated.withLead {lead lead' : Trivia} {w : Word} {ts : List Token}
    (h : Separated (⟨lead, w⟩ :: ts)) (hlead : Clean .between lead'.toList) :
    Separated (⟨lead', w⟩ :: ts) := by
  refine ⟨List.forall_mem_cons.2 ⟨⟨hlead, (h.whole _ List.mem_cons_self).word⟩,
    fun t ht => h.whole t (List.mem_cons_of_mem _ ht)⟩, ?_⟩
  obtain ⟨hjoin, hchain⟩ := List.isChain_cons.1 h.chain
  exact List.isChain_cons.2 ⟨fun u hu =>
    ⟨(hjoin u hu).ends, (hjoin u hu).meets.dot,
    (hjoin u hu).meets.slash, (hjoin u hu).meets.literal⟩, hchain⟩

theorem rel_trans {α : Type} {r : α → α → Prop}
    (htrans : ∀ ⦃a b c⦄, r a b → r b c → r a c) {o p q : Option α}
    (hop : Option.Rel r o p) (hpq : Option.Rel r p q) : Option.Rel r o q := by
  cases hop with
  | none => exact hpq
  | some hab => cases hpq with
    | some hbc => exact .some (htrans hab hbc)

/-- The second tokens may be put in the place of the first, wherever those
stand. -/
structure Refits (us us' : List Token) : Prop where
  separated : Separated us → Separated us'
  head : Option.Rel (fun t t' => t'.lead = t.lead ∧ t.word.Alike t'.word)
    us.head? us'.head?
  last : Option.Rel Word.Alike (us.getLast?.map Token.word)
    (us'.getLast?.map Token.word)

namespace Refits

variable {us us' vs vs' : List Token}

theorem refl (us : List Token) : Refits us us := by
  refine ⟨id, ?_, ?_⟩
  · cases us.head? with
    | none => exact .none
    | some t => exact .some ⟨rfl, .refl _⟩
  · cases us.getLast? with
    | none => exact .none
    | some t => exact .some (.refl _)

theorem trans {us'' : List Token} (h : Refits us us') (h' : Refits us' us'') :
    Refits us us'' :=
  ⟨fun hs => h'.separated (h.separated hs),
    rel_trans (fun _ _ _ ht hu => ⟨hu.1.trans ht.1, ht.2.trans hu.2⟩)
      h.head h'.head,
    rel_trans (fun _ _ _ hw hw' => hw.trans hw') h.last h'.last⟩

theorem append (hu : Refits us us') (hv : Refits vs vs') :
    Refits (us ++ vs) (us' ++ vs') := by
  refine ⟨fun h => ?_, ?_, ?_⟩
  · obtain ⟨hus, hvs, hjoin⟩ := separated_append.1 h
    have hus' := hu.separated hus
    have hvs' := hv.separated hvs
    refine separated_append.2 ⟨hus', hvs', fun t' ht' u' hu' => ?_⟩
    have hlast := hu.last
    have hhead := hv.head
    rw [Option.mem_def.1 ht'] at hlast
    rw [Option.mem_def.1 hu'] at hhead
    cases hut : us.getLast? with
    | none => rw [hut] at hlast; cases hlast
    | some t =>
    cases hvu : vs.head? with
    | none => rw [hvu] at hhead; cases hhead
    | some u =>
    rw [hut] at hlast
    rw [hvu] at hhead
    cases hlast with
    | some hlast =>
    cases hhead with
    | some hhead =>
    have ht := hus.whole t (List.mem_of_getLast? hut)
    have hwt' := hus'.whole t' (List.mem_of_getLast? ht')
    have hwu := hvs.whole u (List.mem_of_mem_head? hvu)
    have hwu' := hvs'.whole u' (List.mem_of_mem_head? hu')
    exact ((hjoin t hut u hvu).of_alike_left ht hwt' hlast).of_alike_right hwt'
      hwu hwu' hhead.1 hhead.2
  · rw [List.head?_append, List.head?_append]
    have h := hu.head
    generalize us.head? = o at h
    generalize us'.head? = o' at h
    cases h with
    | none => exact hv.head
    | some h => exact .some h
  · rw [List.getLast?_append, List.getLast?_append]
    have h := hv.last
    generalize vs.getLast? = o at h
    generalize vs'.getLast? = o' at h
    cases o with
    | none => cases o' with
      | none => exact hu.last
      | some t' => cases h
    | some t => cases o' with
      | none => cases h
      | some t' => exact h

theorem cons (t : Token) (h : Refits us us') : Refits (t :: us) (t :: us') :=
  append (refl [t]) h

/-- Trivia in front makes no difference. -/
theorem led {lead : Trivia} {xs : List Token} (hled : Led lead us xs)
    (h : Refits us us') : ∃ xs', Led lead us' xs' ∧ Refits xs xs' := by
  obtain ⟨⟩ := hled
  rename_i w ts
  have hhead := h.head
  cases us' with
  | nil => cases hhead
  | cons t' ts' =>
      obtain ⟨lead', w'⟩ := t'
      obtain ⟨hlead, hword⟩ : lead' = "" ∧ w.Alike w' := by
        cases hhead with
        | some hhead => exact hhead
      subst hlead
      refine ⟨⟨lead, w'⟩ :: ts', .mk, fun hs => ?_, .some ⟨rfl, hword⟩, ?_⟩
      · have hclean := (hs.whole _ List.mem_cons_self).lead
        exact (h.separated (hs.withLead .nil)).withLead hclean
      · have hlast := h.last
        cases ts with
        | nil => cases ts' with
          | nil => exact .some hword
          | cons u' us' =>
              rw [List.getLast?_cons_cons] at hlast ⊢
              exact hlast
        | cons u us => cases ts' with
          | nil =>
              rw [List.getLast?_cons_cons] at hlast ⊢
              exact hlast
          | cons u' us' =>
              rwa [List.getLast?_cons_cons, List.getLast?_cons_cons] at hlast ⊢

end Refits

end JavaRefit
