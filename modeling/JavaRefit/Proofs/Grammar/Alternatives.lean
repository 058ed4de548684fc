/-
Alternatives put in and taken out.

An alternative of a catch parameter starts with a name and ends with one
or with `>`. So it may stand after any `|`, and a `|` with a blank in
front may stand after it: alternatives can be taken out and put in and
leave tokens that are separated. What comes after the last one is another
matter, and needs a look at that one.

Chain: after `NameChain`; the catch rule takes alternatives out and puts
some in.
-/
import JavaRefit.Proofs.Grammar.NameChain

namespace JavaRefit

open Spelling Token

-- ============================================================ some in a row

section

variable {α : Type} {R : Spelling α} {separator : String} {us : List Token}

/-- Behind the last element no separator follows, so no trivia does. -/
theorem after_getLast?_padded {ps : List (RightPadded α)}
    (h : Padded R separator us ps) : ∀ p ∈ ps.getLast?, p.after = "" := by
  induction h with
  | last _ =>
      rintro p hp
      obtain rfl := Option.some.inj hp
      rfl
  | @cons us vs a after ps _ hps ih =>
      cases ps with
      | nil => cases hps
      | cons p ps => rwa [List.getLast?_cons_cons]

/-- One element in a row is spelled by all the tokens. -/
theorem spells_of_padded_singleton {a : α} {after : Trivia}
    (h : Padded R separator us [⟨a, after⟩]) : R us a := by
  cases h with
  | last h => exact h
  | cons _ h => cases h

/-- The first of some in a row is spelled by the first tokens. -/
theorem exists_first {p : RightPadded α} {ps : List (RightPadded α)}
    (h : Padded R separator us (p :: ps)) :
    ∃ vs, R vs p.element ∧ (Separated us → Separated vs) := by
  cases h with
  | last h => exact ⟨us, h, id⟩
  | cons h _ => exact ⟨_, h, fun hus => (separated_append.1 hus).1⟩

/-- Two elements or more: the first, a separator, the others. -/
theorem exists_of_padded_cons_cons {p q : RightPadded α}
    {qs : List (RightPadded α)} (h : Padded R separator us (p :: q :: qs)) :
    ∃ vs ws, us = vs ++ ⟨p.after, .symbol separator⟩ :: ws ∧ R vs p.element ∧
      Padded R separator ws (q :: qs) := by
  cases h with
  | cons h hps => exact ⟨_, _, rfl, h, hps⟩

end

/-- A name is an identifier. -/
theorem Word.isIdentifier_of_isName {w : Word} (h : w.isName = true) :
    w.isIdentifier = true := by
  cases w with
  | name s => rfl
  | _ => cases h

-- ============================================================ first words

/-- A class name with other trivia in front. -/
theorem classType_withLead {us : List Token} {t : TypeTree}
    (h : SpellsClassType us t) : ∃ s ts, us = ⟨t.lead, .name s⟩ :: ts ∧
      ∀ lead, SpellsClassType (⟨lead, .name s⟩ :: ts) (t.withLead lead) := by
  have hname {us : List Token} {n : Name} (h : SpellsName us n) :
      ∃ s ts, us = ⟨n.lead, .name s⟩ :: ts ∧
        ∀ lead, SpellsName (⟨lead, .name s⟩ :: ts) (n.withLead lead) := by
    induction h with
    | simple i => exact ⟨i.name, [], rfl, fun lead => .simple ⟨lead, i.name⟩⟩
    | @dot us n dot i _ ih =>
        obtain ⟨s, ts, rfl, hs⟩ := ih
        refine ⟨s, ts ++ _, rfl, fun lead => ?_⟩
        have hspells := SpellsName.dot dot i (hs lead)
        rwa [Parser.extendName, Name.lead_withLead,
          Name.withLead_withLead] at hspells
  cases h with
  | named h =>
      obtain ⟨s, ts, rfl, hs⟩ := hname h
      exact ⟨s, ts, rfl, fun lead => .named (hs lead)⟩
  | @generic us n vs args h hargs =>
      obtain ⟨s, ts, rfl, hs⟩ := hname h
      refine ⟨s, ts ++ vs, rfl, fun lead => ?_⟩
      have hspells := ClassTypeWith.generic (hs lead) hargs
      rwa [Name.lead_withLead, Name.withLead_withLead] at hspells

/-- Alternatives with other trivia in front of the first. -/
theorem alternatives_withLead {us : List Token} {p : RightPadded TypeTree}
    {ps : List (RightPadded TypeTree)}
    (h : Padded SpellsClassType "|" us (p :: ps)) :
    ∃ s ts, us = ⟨p.element.lead, .name s⟩ :: ts ∧
      ∀ lead, Padded SpellsClassType "|" (⟨lead, .name s⟩ :: ts)
        (⟨p.element.withLead lead, p.after⟩ :: ps) := by
  cases h with
  | last h =>
      obtain ⟨s, ts, rfl, hs⟩ := classType_withLead h
      exact ⟨s, ts, rfl, fun lead => .last (hs lead)⟩
  | cons h hps =>
      obtain ⟨s, ts, rfl, hs⟩ := classType_withLead h
      exact ⟨s, _, rfl, fun lead => .cons (hs lead) hps⟩

/-- Alternatives open with a name. -/
theorem opens_alternatives {us : List Token} {ps : List (RightPadded TypeTree)}
    (h : Padded SpellsClassType "|" us ps) : Opens Word.isName us :=
  opens_padded (fun us t h => by
    obtain ⟨s, ts, rfl, -⟩ := classType_withLead h
    exact .cons rfl) h

-- ============================================================= last words

/-- A class name may end with the word. -/
def Word.endsClassType (w : Word) : Bool :=
  w.isName || w == .symbol ">"

/-- The type is a name without type arguments. -/
def TypeTree.isNamed : TypeTree → Bool
  | .named _ => true
  | _ => false

/-- A catch type ends with a name. -/
def TypeTree.endsInName : TypeTree → Bool
  | .union _ ps => ps.getLast?.any fun p => p.element.isNamed
  | t => t.isNamed

/-- What a class name ends with. -/
theorem ends_classType {us : List Token} {t : TypeTree}
    (h : SpellsClassType us t) :
    Ends (fun w => if t.isNamed then w.isName else w == .symbol ">") us := by
  cases h with
  | named h => exact ends_name h
  | generic _ hargs =>
      exact (ends_delimited (P := (· == .symbol ">")) (by decide) hargs).append

/-- A class type ends with a name or with the bracket of its arguments. -/
theorem ends_endsClassType {us : List Token} {t : TypeTree}
    (h : SpellsClassType us t) : Ends Word.endsClassType us := by
  refine (ends_classType h).imp fun w hw => ?_
  rw [Word.endsClassType, Bool.or_eq_true]
  split at hw
  · exact .inl hw
  · exact .inr hw

/-- What a catch type ends with. -/
theorem ends_catchTypeWord {us : List Token} {t : TypeTree}
    (h : SpellsCatchType us t) :
    Ends (fun w => if t.endsInName then w.isName else w == .symbol ">") us := by
  have hpadded {us : List Token} {ps : List (RightPadded TypeTree)}
      (h : Padded SpellsClassType "|" us ps) :
      Ends (fun w => if ps.getLast?.any (fun p => p.element.isNamed)
        then w.isName else w == .symbol ">") us := by
    induction h with
    | last ha => exact ends_classType ha
    | @cons us vs a after ps _ hps ih =>
        cases ps with
        | nil => cases hps
        | cons p ps =>
            rw [List.getLast?_cons_cons]
            exact (ih.cons).append
  cases h with
  | single h =>
      cases h with
      | named h => exact ends_classType (.named h)
      | generic h hargs => exact ends_classType (.generic h hargs)
  | union h => exact hpadded h

-- ================================================================= places

namespace Token

/-- A bar ends before every character but another bar. -/
theorem endsBefore_bar {c : Char} (hc : c ≠ '|') :
    (Word.symbol "|").EndsBefore c := by
  refine ⟨?_, fun h => absurd (Word.symbol.inj h) (by decide)⟩
  have hdouble : doubleSymbols.contains ('|', c) = false := by
    simp [doubleSymbols, hc]
  show spanWord ['|', c] = _
  rw [spanWord, spanSymbol, hdouble]
  rfl

/-- The closing bracket of arguments ends before every character but the sign
it could be joined with. -/
theorem endsBefore_greater {c : Char} (hc : c ≠ '=') :
    (Word.symbol ">").EndsBefore c := by
  refine ⟨?_, fun h => absurd (Word.symbol.inj h) (by decide)⟩
  have hdouble : doubleSymbols.contains ('>', c) = false := by
    simp [doubleSymbols, hc]
  show spanWord ['>', c] = _
  rw [spanWord, spanSymbol, hdouble]
  rfl

/-- A token of a name starts with a character of names or, where there is
trivia in front, with what trivia starts with. -/
theorem head_of_isName {u : Token} (hu : u.IsWhole)
    (hname : u.word.isName = true) {c : Char} (hc : c ∈ u.text.toList.head?) :
    (isTriviaBlank c = true ∨ c = '/') ∨ u.lead.toList = [] ∧
    isNamePart c = true := by
  rcases head_of_whole hu hc with h | ⟨hlead, cs, hcs⟩
  · exact .inl h
  · obtain ⟨d, ds, hd, hstart, -⟩ :=
      hu.word.of_isIdentifier (Word.isIdentifier_of_isName hname)
    rw [hcs] at hd
    obtain rfl := (List.cons.inj hd).1
    exact .inr ⟨hlead, by rw [isNamePart, hstart]; rfl⟩

variable {t u : Token}

/-- A name may come after a `|`. -/
theorem apart_bar (ht : t.word = .symbol "|") (hu : u.IsWhole)
    (hname : u.word.isName = true) : Apart t u := by
  refine ⟨fun c hc => ht ▸ endsBefore_bar ?_,
    meets_of_isClosed (by rw [ht]; rfl) u⟩
  rintro rfl
  rcases head_of_isName hu hname hc with h | ⟨-, h⟩ <;> revert h <;> decide

/-- A name may come after a `>`. -/
theorem apart_greater (ht : t.word = .symbol ">") (hu : u.IsWhole)
    (hname : u.word.isName = true) : Apart t u := by
  refine ⟨fun c hc => ht ▸ endsBefore_greater ?_,
    meets_of_isClosed (by rw [ht]; rfl) u⟩
  rintro rfl
  rcases head_of_isName hu hname hc with h | ⟨-, h⟩ <;> revert h <;> decide

/-- A name may come after a name when there is trivia in front. -/
theorem apart_names (ht : t.IsWhole) (htname : t.word.isIdentifier = true)
    (hu : u.IsWhole) (hname : u.word.isName = true) (hlead : u.lead ≠ "") :
    Apart t u := by
  refine ⟨fun c hc => ?_,
    meets_of_isClosed (Word.isClosed_of_isIdentifier htname) u⟩
  rw [ht.word.endsBefore_iff htname]
  rcases head_of_isName hu hname hc with h | ⟨h, -⟩
  · simp only [isTriviaBlank, Bool.or_eq_true, beq_iff_eq] at h
    rcases h with ((((rfl | rfl) | rfl) | rfl) | rfl) | rfl <;> decide
  · exact absurd (String.toList_eq_nil_iff.1 h) hlead

/-- A blank and a `|` may come after a class name. -/
theorem apart_blank_bar (ht : t.IsWhole) (hends : t.word.endsClassType = true) :
    Apart t ⟨" ", .symbol "|"⟩ := by
  refine ⟨fun c hc => ?_, meets_of_isMark t rfl⟩
  obtain rfl : ' ' = c := by simpa [Token.text, Word.text] using hc
  rw [Word.endsClassType, Bool.or_eq_true, beq_iff_eq] at hends
  rcases hends with hname | hgreater
  · rw [ht.word.endsBefore_iff (Word.isIdentifier_of_isName hname)]
    decide
  · exact hgreater ▸ endsBefore_greater (by decide)

end Token

-- ========================================================== in and out

/-- What opens with a name has one at its head. -/
theorem Opens.head_of_isName {us : List Token} (h : Opens Word.isName us) :
    ∃ u ∈ us.head?, u.word.isName = true := by
  obtain ⟨u, us, rfl, hu⟩ := h
  exact ⟨u, rfl, hu⟩

/-- What is after a `|` can be changed for what starts with a name. -/
theorem separated_bar {us vs vs' : List Token} {after : Trivia}
    (h : Separated (us ++ ⟨after, .symbol "|"⟩ :: vs)) (hvs' : Separated vs')
    (hopens : Opens Word.isName vs') :
    Separated (us ++ ⟨after, .symbol "|"⟩ :: vs') := by
  obtain ⟨hus, hbar, hjoin⟩ := separated_append.1 h
  obtain ⟨u, hu, hname⟩ := hopens.head_of_isName
  refine separated_append.2 ⟨hus,
    ⟨List.forall_mem_cons.2 ⟨hbar.whole _ List.mem_cons_self, hvs'.whole⟩,
    List.isChain_cons.2 ⟨fun v hv => ?_, hvs'.chain⟩⟩, fun t ht u hu =>
      hjoin t ht u hu⟩
  obtain rfl : u = v := Option.some.inj (hu.symm.trans hv)
  exact apart_bar rfl (hvs'.whole u (List.mem_of_mem_head? hu)) hname

/-- A bar before names leaves the tokens apart. -/
theorem separated_cons_bar {vs : List Token} {after : Trivia}
    (hafter : Clean .between after.toList) (hvs : Separated vs)
    (hopens : Opens Word.isName vs) :
    Separated (⟨after, .symbol "|"⟩ :: vs) := by
  have hbar : (⟨after, .symbol "|"⟩ : Token).IsWhole :=
    ⟨hafter, (by decide :
      spanWord (Word.symbol "|").text.toList = some (.symbol "|", []))⟩
  exact @separated_bar [] _ _ _ (separated_singleton hbar) hvs hopens

/-- One blank is trivia. -/
theorem Token.clean_blank : Clean .between " ".toList :=
  .blank (by decide) .nil

/-- A class name can be put in front of alternatives, with a blank before the
`|`. -/
theorem separated_insert {us vs : List Token} {new : TypeTree}
    {ps : List (RightPadded TypeTree)} (hnew : SpellsClassType vs new)
    (hps : Padded SpellsClassType "|" us ps) (hvs : Separated vs)
    (hus : Separated us) : Separated (vs ++ ⟨" ", .symbol "|"⟩ :: us) := by
  refine separated_append.2 ⟨hvs,
    separated_cons_bar clean_blank hus (opens_alternatives hps),
    fun t ht u hu => ?_⟩
  obtain rfl : (⟨" ", .symbol "|"⟩ : Token) = u := Option.some.inj hu
  obtain ⟨init, last, rfl, hlast⟩ := ends_endsClassType hnew
  obtain rfl : last = t := by simpa using ht
  exact apart_blank_bar (hvs.whole last (by simp)) hlast

/-- Alternatives can be taken out. -/
theorem exists_sublist {us : List Token} {ps qs : List (RightPadded TypeTree)}
    (h : Padded SpellsClassType "|" us ps) (hqs : qs.Sublist ps)
    (hne : qs ≠ []) :
    ∃ us', Padded SpellsClassType "|" us' (RightPadded.closeLast "" qs) ∧
      (Separated us → Separated us') := by
  induction h generalizing qs with
  | @last us a ha =>
      obtain rfl : qs = [⟨a, ""⟩] := by
        rcases List.sublist_singleton.1 hqs with h | h
        · exact absurd h hne
        · exact h
      exact ⟨us, .last ha, id⟩
  | @cons us vs a after ps ha hps ih =>
      cases hqs with
      | cons _ hqs =>
          obtain ⟨us', hus', hs⟩ := ih hqs hne
          exact ⟨us', hus', fun h => hs (separated_append.1 h).2.1.tail⟩
      | @cons_cons qs _ _ hqs =>
          cases qs with
          | nil => exact ⟨us, .last ha, fun h => (separated_append.1 h).1⟩
          | cons q qs =>
              obtain ⟨vs', hvs', hs⟩ := ih hqs (List.cons_ne_nil _ _)
              exact ⟨_, .cons ha hvs', fun h =>
                separated_bar h (hs (separated_append.1 h).2.1.tail)
                  (opens_alternatives hvs')⟩

/-- A name can come after a catch type that does not end in one, and with
trivia in front of it after every one. -/
theorem separated_catchType_name {us : List Token} {t : TypeTree} {u : Token}
    (h : SpellsCatchType us t) (hus : Separated us) (hu : u.IsWhole)
    (hname : u.word.isName = true)
    (hapart : u.lead = "" → t.endsInName = false) : Separated (us ++ [u]) := by
  refine separated_append.2 ⟨hus, separated_singleton hu, fun v hv w hw => ?_⟩
  obtain rfl : u = w := Option.some.inj hw
  obtain ⟨init, last, rfl, hlast⟩ := ends_catchTypeWord h
  obtain rfl : last = v := by simpa using hv
  have hwhole := hus.whole last (by simp)
  dsimp only at hlast
  split at hlast
  · next hends =>
    refine apart_names hwhole (Word.isIdentifier_of_isName hlast) hu hname
      fun hlead => ?_
    rw [hapart hlead] at hends
    cases hends
  · exact apart_greater (beq_iff_eq.1 hlast) hu hname

/-- A name that comes right after a catch type comes after one that does
not end in a name. -/
theorem endsInName_of_separated {us : List Token} {t : TypeTree} {u : Token}
    (h : SpellsCatchType us t) (hsep : Separated (us ++ [u]))
    (hname : u.word.isName = true) (hlead : u.lead = "") :
    t.endsInName = false := by
  obtain ⟨hus, hu, hjoin⟩ := separated_append.1 hsep
  obtain ⟨init, last, rfl, hlast⟩ := ends_catchTypeWord h
  cases hends : t.endsInName with
  | false => rfl
  | true =>
      rw [hends] at hlast
      replace hlast : last.word.isName = true := hlast
      have hwhole := hus.whole last (by simp)
      obtain ⟨c, cs, hc, hstart, -⟩ :=
        (hu.whole u (by simp)).word.of_isIdentifier
          (Word.isIdentifier_of_isName hname)
      have hapart := (hjoin last (by simp) u (by simp)).ends c (by
        rw [Token.text, hlead, String.empty_append, hc]
        rfl)
      rw [hwhole.word.endsBefore_iff (Word.isIdentifier_of_isName hlast)]
        at hapart
      rw [isNamePart, hstart] at hapart
      cases hapart

/-- A catch type starts with a name after its trivia. -/
theorem head_catchType {us : List Token} {t : TypeTree}
    (h : SpellsCatchType us t) : ∃ s ts, us = ⟨t.lead, .name s⟩ :: ts := by
  cases h with
  | single h =>
      obtain ⟨s, ts, h, -⟩ := classType_withLead h
      exact ⟨s, ts, h⟩
  | union h =>
      obtain ⟨s, ts, h, -⟩ := alternatives_withLead h
      exact ⟨s, ts, h⟩

end JavaRefit
