/-
Texts that are cut into the tokens they were put together from.

Tokens keep their places when each of them is a word with trivia in front
that is over, and each ends before the first character of the next one
(`Separated`). A text is cut into tokens that are separated as soon as
they may stand next to one another, and separated tokens put together are
cut into themselves: the two sides of `Separated`.

Chain: after `Local` and the neighbours of the language; what is spelled
and separated is read again.
-/
import JavaRefit.Proofs.Grammar.Neighbours
import JavaRefit.Proofs.Reading.Unit
import JavaRefit.Proofs.Token.Local

namespace JavaRefit

namespace Token

-- ========================================================== first letters

/-- A symbol of one character that starts no longer one. -/
def isSingle (c : Char) : Bool :=
  !isNameStart c && !Text.isDecimalDigit c && c != '"' && c !=
    '\'' && singleSymbols.contains c &&
    !(doubleSymbols.map Prod.fst).contains c

theorem spanWord_single {c : Char} (h : isSingle c = true) (cs : List Char) :
    spanWord (c :: cs) = some (.symbol (String.ofList [c]), cs) := by
  simp only [isSingle, Bool.and_eq_true, Bool.not_eq_true', bne_iff_ne] at h
  obtain ⟨⟨⟨⟨⟨hstart, hdigit⟩, hquote⟩, hquote'⟩, hsingle⟩, hdouble⟩ := h
  have hsymbol : spanSymbol (c :: cs) = some ([c], cs) := by
    cases cs with
    | nil => rw [spanSymbol, if_pos hsingle]
    | cons d cs =>
        have hno : doubleSymbols.contains (c, d) = false := by
          rw [List.contains_eq_mem, decide_eq_false_iff_not] at hdouble ⊢
          exact fun hmem => hdouble (List.mem_map_of_mem hmem)
        rw [spanSymbol, hno, if_neg Bool.false_ne_true, if_pos hsingle]
  rw [spanWord, hstart, if_neg Bool.false_ne_true, hdigit,
    if_neg Bool.false_ne_true, if_neg hquote, if_neg hquote', hsymbol]
  rfl

/-- No word starts with a blank. -/
theorem spanWord_blank {c : Char} (h : isTriviaBlank c = true)
    (cs : List Char) : spanWord (c :: cs) = none := by
  simp only [isTriviaBlank, Bool.or_eq_true, beq_iff_eq] at h
  have hstart : isNameStart c = false := by
    rcases h with (((rfl | rfl) | rfl) | rfl) | rfl <;> decide
  have hdigit : Text.isDecimalDigit c = false := by
    rcases h with (((rfl | rfl) | rfl) | rfl) | rfl <;> decide
  have hquote : c ≠ '"' ∧ c ≠ '\'' := by
    rcases h with (((rfl | rfl) | rfl) | rfl) | rfl <;> decide
  have hsingle : singleSymbols.contains c = false := by
    rcases h with (((rfl | rfl) | rfl) | rfl) | rfl <;> decide
  have hdouble (d : Char) : doubleSymbols.contains (c, d) = false := by
    rcases h with (((rfl | rfl) | rfl) | rfl) | rfl <;> simp [doubleSymbols]
  have hsymbol : spanSymbol (c :: cs) = none := by
    cases cs with
    | nil => rw [spanSymbol, hsingle, if_neg Bool.false_ne_true]
    | cons d cs =>
        rw [spanSymbol, hdouble, if_neg Bool.false_ne_true, hsingle,
          if_neg Bool.false_ne_true]
  rw [spanWord, hstart, if_neg Bool.false_ne_true, hdigit,
    if_neg Bool.false_ne_true, if_neg hquote.1, if_neg hquote.2, hsymbol]
  rfl

theorem isNameStart_of_isDecimalDigit {c : Char}
    (h : Text.isDecimalDigit c = true) : isNameStart c = false := by
  obtain ⟨z, hz, hc⟩ := List.any_eq_true.1 h
  have hzeros : ∀ z ∈ Text.decimalZeros, z = 48 ∨ 1632 ≤ z := by decide
  simp only [Bool.and_eq_true, decide_eq_true_iff] at hc
  have hrange : (48 ≤ c.toNat ∧ c.toNat < 58) ∨ 1632 ≤ c.toNat := by
    rcases hzeros z hz with rfl | hz <;> omega
  have halpha : c.isAlpha = true → 65 ≤ c.toNat ∧ c.toNat ≤ 122 := by
    intro ha
    change (decide (c.val ≥ 65 ∧ c.val ≤ 90) ||
      decide (c.val ≥ 97) && decide (c.val ≤ 122)) = true at ha
    simp only [Bool.or_eq_true, Bool.and_eq_true, decide_eq_true_iff, ge_iff_le,
      UInt32.le_iff_toNat_le] at ha
    change (65 ≤ c.toNat ∧ c.toNat ≤ 90) ∨ (97 ≤ c.toNat ∧ c.toNat ≤ 122) at ha
    omega
  rw [isNameStart, Bool.or_eq_false_iff, Bool.or_eq_false_iff]
  refine ⟨⟨?_, ?_⟩, ?_⟩
  · rw [Bool.eq_false_iff]
    intro ha
    have := halpha ha
    omega
  · refine beq_eq_false_iff_ne.2 ?_
    rintro rfl
    revert hrange
    decide
  · refine beq_eq_false_iff_ne.2 ?_
    rintro rfl
    revert hrange
    decide

/-- A word that starts with a digit is a literal. -/
theorem isLiteral_of_isDecimalDigit {c : Char} {cs rest : List Char} {w : Word}
    (hc : Text.isDecimalDigit c = true)
    (h : spanWord (c :: cs) = some (w, rest)) :
    w.isLiteral = true := by
  rw [spanWord, isNameStart_of_isDecimalDigit hc, if_neg Bool.false_ne_true,
    if_pos hc] at h
  cases h
  rfl

end Token

open Token

-- ================================================================= tokens

namespace Word

/-- The characters of the word are a word, and that one. -/
def IsWhole (w : Word) : Prop :=
  spanWord w.text.toList = some (w, [])

/-- The word ends where the character comes after it. -/
def EndsBefore (w : Word) (c : Char) : Prop :=
  spanWord (w.text.toList ++ [c]) = some (w, [c]) ∧
    (w = .symbol "/" → c ≠ '/' ∧ c ≠ '*')

variable {w : Word} {rest : List Char}

theorem IsWhole.of_spanWord
    (h : spanWord (w.text.toList ++ rest) = some (w, rest)) : w.IsWhole := by
  have hlocal := @spanWord_local w rest [] h (fun _ h => by cases h)
    (fun _ _ h => by cases h)
  rwa [List.append_nil] at hlocal

/-- A word in front of a text is cut off when it ends before the first
character. -/
theorem IsWhole.spanWord_append (h : w.IsWhole)
    (hends : ∀ c ∈ rest.head?, w.EndsBefore c) (hp : NoFraction rest) :
    spanWord (w.text.toList ++ rest) = some (w, rest) := by
  cases rest with
  | nil => rwa [List.append_nil]
  | cons c rest => exact spanWord_local (hends c rfl).1 (fun _ h => h) hp

theorem IsWhole.ne_nil (h : w.IsWhole) : w.text.toList ≠ [] :=
  spanWord_ne_nil h

/-- A word that starts like a symbol of one character is that. -/
theorem IsWhole.eq_single (h : w.IsWhole) {c : Char} {cs : List Char}
    (hw : w.text.toList = c :: cs) (hc : isSingle c = true) :
    w = .symbol (String.ofList [c]) := by
  rw [IsWhole, hw, spanWord_single hc] at h
  cases h
  rfl

end Word

/-- The token is of a whole word, and the trivia in front of it is over
there. -/
structure Token.IsWhole (t : Token) : Prop where
  lead : Clean .between t.lead.toList
  word : t.word.IsWhole

/-- The second token may come right after the first. -/
structure Apart (t u : Token) : Prop where
  ends : ∀ c ∈ u.text.toList.head?, t.word.EndsBefore c
  meets : Meets t u

/-- The tokens are whole, and each is apart from the next. -/
structure Separated (ts : List Token) : Prop where
  whole : ∀ t ∈ ts, t.IsWhole
  chain : ts.IsChain Apart

/-- The characters of some tokens and the trivia after them. -/
def Token.chars (ts : List Token) (tail : Trivia) : List Char :=
  (TokenRun.textOf ts ++ tail).toList

namespace Token

theorem chars_nil (tail : Trivia) : chars [] tail = tail.toList := by
  simp [chars, TokenRun.textOf]

theorem chars_cons (t : Token) (ts : List Token) (tail : Trivia) :
    chars (t :: ts) tail = t.lead.toList ++
      (t.word.text.toList ++ chars ts tail) := by
  simp [chars, TokenRun.textOf, Token.text]

/-- What is written first where a token is: the first character of its trivia,
or of its word. -/
theorem head_text {t : Token} (h : t.IsWhole) (rest : List Char) :
    (t.lead.toList ++ (t.word.text.toList ++ rest)).head? =
      t.text.toList.head? := by
  obtain ⟨c, cs, hc⟩ := List.exists_cons_of_ne_nil h.word.ne_nil
  rw [Token.text, String.toList_append, hc]
  cases t.lead.toList <;> rfl

/-- A token starts with what trivia may start with, or with its word. -/
theorem head_of_whole {t : Token} (h : t.IsWhole) {c : Char}
    (hc : c ∈ t.text.toList.head?) :
    (isTriviaBlank c = true ∨ c = '/') ∨ t.lead.toList = [] ∧ ∃ cs,
      t.word.text.toList = c :: cs := by
  have hclean := h.lead
  rw [Token.text, String.toList_append] at hc
  cases hlead : t.lead.toList with
  | cons d ds =>
      rw [hlead] at hc hclean
      obtain rfl : d = c := by simpa using hc
      exact .inl (head_of_clean hclean)
  | nil =>
      obtain ⟨d, ds, hd⟩ := List.exists_cons_of_ne_nil h.word.ne_nil
      rw [hlead, hd] at hc
      obtain rfl : d = c := by simpa using hc
      exact .inr ⟨rfl, ds, hd⟩

/-- No trivia starts with a character that is neither a blank nor the start of
a comment. -/
theorem spanTrivia_stop {c : Char} {cs : List Char}
    (hblank : isTriviaBlank c = false)
    (hslash : c = '/' → ∀ d ∈ cs.head?, d ≠ '/' ∧ d ≠ '*') :
    spanTrivia .between (c :: cs) = ([], c :: cs) := by
  rw [spanTrivia, hblank, if_neg Bool.false_ne_true]
  · rintro ds hc rfl
    exact (hslash hc '/' rfl).1 rfl
  · rintro ds hc rfl
    exact (hslash hc '*' rfl).2 rfl

/-- Nothing but trivia, up to its end. -/
def OnlyTrivia (tail : Trivia) : Prop :=
  spanTrivia .between tail.toList = (tail.toList, [])

theorem OnlyTrivia.head {tail : Trivia} (h : OnlyTrivia tail) {c : Char}
    {cs : List Char} (hc : tail.toList = c :: cs) :
    isTriviaBlank c = true ∨ c = '/' := by
  by_contra hno
  rw [not_or, Bool.not_eq_true] at hno
  rw [OnlyTrivia, hc, spanTrivia_stop hno.1 fun h => absurd h hno.2] at h
  cases h

/-- What trivia starts with is in no name and in no number. -/
theorem isDecimalDigit_of_trivia {c : Char}
    (h : isTriviaBlank c = true ∨ c = '/') :
    Text.isDecimalDigit c = false ∧ c ≠ '.' ∧ c ≠ '*' := by
  simp only [isTriviaBlank, Bool.or_eq_true, beq_iff_eq] at h
  rcases h with ((((rfl | rfl) | rfl) | rfl) | rfl) | rfl <;> decide

section

variable {ts : List Token} {tail : Trivia} (h : Separated ts)
  (htail : OnlyTrivia tail)
include h htail

/-- What comes first in separated tokens and the trivia after them: trivia, or
a word without trivia in front. -/
theorem head_chars {c : Char} {cs : List Char} (hc : chars ts tail = c :: cs) :
    (isTriviaBlank c = true ∨ c = '/') ∨
      ∃ t us ds, ts = t :: us ∧ t.word.text.toList = c :: ds ∧
      cs = ds ++ chars us tail := by
  cases ts with
  | nil =>
      rw [chars_nil] at hc
      exact .inl (htail.head hc)
  | cons t us =>
      have ht := h.whole t List.mem_cons_self
      have hhead : c ∈ t.text.toList.head? := by
        rw [← head_text ht (chars us tail), ← chars_cons, hc]
        rfl
      rcases head_of_whole ht hhead with hstart | ⟨hlead, ds, hds⟩
      · exact .inl hstart
      · rw [chars_cons, hlead, hds, List.nil_append, List.cons_append,
          List.cons.injEq] at hc
        exact .inr ⟨t, us, ds, rfl, hds, hc.2.symm⟩

theorem noFraction_chars : NoFraction (chars ts tail) := by
  intro c cs hc
  rcases head_chars h htail hc with hpoint | ⟨t, us, ds, rfl, ht, hds⟩
  · exact absurd rfl (isDecimalDigit_of_trivia hpoint).2.1
  have hword := (h.whole t List.mem_cons_self).word.eq_single ht (by decide)
  obtain rfl : ds = [] := by
    rw [hword] at ht
    exact (List.cons.inj ht).2.symm
  have hus : Separated us :=
    ⟨fun u hu => h.whole u (List.mem_cons_of_mem t hu), h.chain.tail⟩
  rcases head_chars hus htail hds.symm with hc | ⟨u, vs, es, rfl, hu, -⟩
  · exact (isDecimalDigit_of_trivia hc).1
  · rw [← Bool.not_eq_true]
    intro hdigit
    have hwhole := (hus.whole u List.mem_cons_self).word
    rw [Word.IsWhole, hu] at hwhole
    have hno := ((List.isChain_cons_cons.1 h.chain).1).meets.dot hword
    rw [isLiteral_of_isDecimalDigit hdigit hwhole] at hno
    cases hno

end

theorem scanChars_of_trivia {cs a : List Char}
    (h : spanTrivia .between cs = (a, [])) :
    scanChars cs = ⟨[], String.ofList a, none⟩ := by
  rw [scanChars]
  split <;> simp_all

theorem scanChars_of_word {cs a rest after : List Char} {c : Char} {w : Word}
    (h : spanTrivia .between cs = (a, c :: rest))
    (hw : spanWord (c :: rest) = some (w, after)) :
    scanChars cs = { scanChars after with tokens :=
      ⟨String.ofList a, w⟩ :: (scanChars after).tokens } := by
  rw [scanChars]
  split
  next hrest => simp [h] at hrest
  next c' rest' hrest =>
    rw [h, List.cons.injEq] at hrest
    obtain ⟨rfl, rfl⟩ := hrest
    split
    next hnone => rw [hw] at hnone; cases hnone
    next w' after' hword =>
      rw [hw] at hword
      cases hword
      rw [h]

/-- Separated tokens and trivia are cut into themselves. -/
theorem scanChars_chars {ts : List Token} {tail : Trivia} (h : Separated ts)
    (htail : OnlyTrivia tail)
    (hlast : ∀ t ∈ ts.getLast?, ∀ c ∈ tail.toList.head?, t.word.EndsBefore c) :
    scanChars (chars ts tail) = ⟨ts, tail, none⟩ := by
  induction ts with
  | nil =>
      rw [chars_nil, scanChars_of_trivia htail, String.ofList_toList]
  | cons t ts ih =>
      have ht := h.whole t List.mem_cons_self
      have hts : Separated ts :=
        ⟨fun u hu => h.whole u (List.mem_cons_of_mem t hu), h.chain.tail⟩
      have hends : ∀ c ∈ (chars ts tail).head?, t.word.EndsBefore c := by
        cases ts with
        | nil =>
            rw [chars_nil]
            exact hlast t rfl
        | cons u us =>
            rw [chars_cons, head_text (hts.whole u List.mem_cons_self)]
            exact ((List.isChain_cons_cons.1 h.chain).1).ends
      have hword := ht.word.spanWord_append hends (noFraction_chars hts htail)
      obtain ⟨c, cs, hc⟩ := List.exists_cons_of_ne_nil ht.word.ne_nil
      have hblank : isTriviaBlank c = false := by
        rw [← Bool.not_eq_true]
        intro hblank
        rw [hc, List.cons_append, spanWord_blank hblank] at hword
        cases hword
      have hslash : c = '/' → ∀ d ∈ (cs ++ chars ts tail).head?,
          d ≠ '/' ∧ d ≠ '*' := by
        rintro rfl d hd
        have hdiv := ht.word.eq_single hc (by decide)
        obtain rfl : cs = [] := by
          rw [hdiv] at hc
          exact (List.cons.inj hc).2.symm
        exact (hends d hd).2 hdiv
      have hstop := spanTrivia_stop hblank hslash
      have hspan : spanTrivia .between (chars (t :: ts) tail) =
          (t.lead.toList, c :: (cs ++ chars ts tail)) := by
        rw [chars_cons, spanTrivia_append_of_clean ht.lead, hc,
          List.cons_append, hstop, List.append_nil]
      rw [hc, List.cons_append] at hword
      rw [scanChars_of_word hspan hword, ih hts fun u hu => hlast u ?_,
        String.ofList_toList]
      cases ts with
      | nil => cases hu
      | cons v vs => rwa [List.getLast?_cons_cons]

/-- No comment comes after the trivia in front of something. -/
theorem snd_spanTrivia_ne (cs ds : List Char) :
    (spanTrivia .between cs).2 ≠ '/' :: '/' :: ds := by
  intro h
  have hclean := @clean_spanTrivia .between cs
    (by rw [h]; exact List.cons_ne_nil _ _)
  have hagain := spanTrivia_append_of_clean hclean ('/' :: '/' :: ds)
  rw [← h, spanTrivia_append, h] at hagain
  have hlen := congrArg List.length (congrArg Prod.fst hagain)
  simp [spanTrivia] at hlen

/-- The tokens that a text is cut into are separated when they may stand next
to one another. -/
theorem separated_scanChars {cs : List Char}
    (h : (scanChars cs).tokens.IsChain Meets) :
    Separated (scanChars cs).tokens := by
  fun_induction scanChars cs with
  | case1 => exact ⟨List.forall_mem_nil _, .nil⟩
  | case2 => exact ⟨List.forall_mem_nil _, .nil⟩
  | case3 cs lead c rest hrest w after hword run ih =>
      have hrun := ih h.tail
      have happ := spanWord_append hword
      have hword' : spanWord (w.text.toList ++ after) = some (w, after) := by
        rw [happ, hword]
      have hclean : Clean .between lead.toList := by
        rw [String.toList_ofList]
        exact clean_spanTrivia (by rw [hrest]; exact List.cons_ne_nil _ _)
      refine ⟨List.forall_mem_cons.2 ⟨⟨hclean, .of_spanWord hword'⟩,
        hrun.whole⟩, ?_⟩
      refine List.isChain_cons.2 ⟨fun u hu => ?_, hrun.chain⟩
      have hmeets := (List.isChain_cons.1 h).1 u hu
      have hwhole := hrun.whole u (List.mem_of_mem_head? hu)
      refine ⟨fun d hd => ?_, hmeets⟩
      obtain ⟨ds, hds⟩ : ∃ ds, after = d :: ds := by
        obtain ⟨left, hafter, -⟩ := scanChars_text after
        obtain ⟨us, hus⟩ := List.head?_eq_some_iff.1 hu
        rw [hus] at hafter
        rw [← chars, chars_cons, List.append_assoc, List.append_assoc] at hafter
        have hhead := head_text hwhole (chars us run.tail ++ left)
        rw [← hafter, Option.mem_def.1 hd] at hhead
        exact List.head?_eq_some_iff.1 hhead
      have hfirst : StartsLike [d] after := by
        rw [hds]
        exact fun _ h => h
      have hpoint : NoFraction [d] := by
        intro e es he
        cases he
      refine ⟨spanWord_local hword' hfirst hpoint, fun hdiv => ?_⟩
      have hcut : c :: rest = '/' :: d :: ds := by
        rw [← happ, hds, show w = .symbol "/" from hdiv]
        rfl
      refine ⟨?_, ?_⟩
      · rintro rfl
        rw [hcut] at hrest
        exact snd_spanTrivia_ne cs ds hrest
      · rintro rfl
        rcases head_of_whole hwhole hd with hblank | ⟨-, es, hes⟩
        · exact (isDecimalDigit_of_trivia hblank).2.2 rfl
        · exact hmeets.slash hdiv (hwhole.word.eq_single hes (by decide))

end Token

end JavaRefit
