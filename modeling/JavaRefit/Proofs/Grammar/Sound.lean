/-
Readers keep to the rules.

`Sound p R`: whenever the reader succeeds, the tokens it takes spell what
it returns. A reader that takes one token, a list or a block has this
property as soon as its parts have it, and a reader bounded in depth has
it by induction on the depth.

Chain: after `Operators`; up to declarations here, statements after the
other direction, on which the reading of an expression as a statement
rests.
-/
import JavaRefit.Proofs.Grammar.First
import JavaRefit.Proofs.Grammar.Operators
import JavaRefit.Proofs.Reading.Stmt

namespace JavaRefit

open Spelling

namespace Parser

variable {α : Type}

-- ============================================================== the rule

/-- The tokens that a reader takes spell what it returns. -/
def Sound (p : Parser α) (R : Spelling α) : Prop :=
  ∀ ⦃ts rest : List Token⦄ ⦃a : α⦄, p ts = .ok (a, rest) → ∃ us,
    ts = us ++ rest ∧ R us a

/-- Fuel does not harm soundness: each amount of it is sound. -/
theorem Sound.bounded {p : Nat → Parser α} {R : Spelling α}
    (hp : ∀ n, Sound (p n) R) : Sound (bounded p) R :=
  fun _ _ _ h => hp _ h

/-- A test takes a token iff it lets it through. -/
theorem take_eq_ok {f : Token → Option α} {ts rest : List Token} {a : α} :
    take f ts = .ok (a, rest) ↔ ∃ t, ts = t :: rest ∧ f t = some a := by
  unfold take
  cases ts with
  | nil => simp
  | cons t ts =>
      cases h : f t with
      | none => simp [h]
      | some b =>
          simp only [h, Except.ok.injEq, Prod.mk.injEq, List.cons.injEq]
          constructor
          · rintro ⟨rfl, rfl⟩
            exact ⟨t, ⟨rfl, rfl⟩, h⟩
          · rintro ⟨_, ⟨rfl, rfl⟩, hf⟩
            rw [h] at hf
            exact ⟨Option.some.inj hf, rfl⟩

/-- A word is read iff it stands at the head of the tokens. -/
theorem word_eq_ok {w : Word} {ts rest : List Token} {lead : Trivia} :
    word w ts = .ok (lead, rest) ↔ ts = ⟨lead, w⟩ :: rest := by
  unfold word
  rw [take_eq_ok]
  constructor
  · rintro ⟨t, rfl, h⟩
    rw [leadOf_eq_some h]
  · rintro rfl
    exact ⟨_, rfl, if_pos rfl⟩

/-- A symbol is read iff it stands at the head of the tokens. -/
theorem symbol_eq_ok {s : String} {ts rest : List Token} {lead : Trivia} :
    symbol s ts = .ok (lead, rest) ↔ ts = ⟨lead, .symbol s⟩ :: rest :=
  word_eq_ok

/-- A keyword is read iff it stands at the head of the tokens. -/
theorem keyword_eq_ok {s : String} {ts rest : List Token} {lead : Trivia} :
    keyword s ts = .ok (lead, rest) ↔ ts = ⟨lead, .keyword s⟩ :: rest :=
  word_eq_ok

/-- An identifier is read iff a name stands at the head of the tokens. -/
theorem ident_eq_ok {ts rest : List Token} {i : Ident} :
    ident ts = .ok (i, rest) ↔ ts = ⟨i.lead, .name i.name⟩ :: rest := by
  unfold ident
  rw [take_eq_ok]
  constructor
  · rintro ⟨t, rfl, h⟩
    rw [asIdent_eq_some h]
  · rintro rfl
    exact ⟨_, rfl, rfl⟩

/-- A word taken only if it is next: it was, or nothing is taken. -/
theorem word?_eq_ok {w : Word} {ts rest : List Token} {o : Option Trivia}
    (h : word? w ts = .ok (o, rest)) :
    (∃ lead, o = some lead ∧ ts = ⟨lead, w⟩ :: rest) ∨
    (o = none ∧ ts = rest) := by
  obtain ⟨t, lead, rfl, ht, rfl⟩ | ⟨rfl, rfl, -⟩ := take?_eq_ok h
  · exact .inl ⟨lead, rfl, by rw [leadOf_eq_some ht]⟩
  · exact .inr ⟨rfl, rfl⟩

/-- An optional symbol is read, or nothing is. -/
theorem symbol?_eq_ok {s : String} {ts rest : List Token} {o : Option Trivia}
    (h : symbol? s ts = .ok (o, rest)) :
    (∃ lead, o = some lead ∧ ts = ⟨lead, .symbol s⟩ :: rest) ∨
    (o = none ∧ ts = rest) :=
  word?_eq_ok h

/-- An optional keyword is read, or nothing is. -/
theorem keyword?_eq_ok {s : String} {ts rest : List Token} {o : Option Trivia}
    (h : keyword? s ts = .ok (o, rest)) :
    (∃ lead, o = some lead ∧ ts = ⟨lead, .keyword s⟩ :: rest) ∨
    (o = none ∧ ts = rest) :=
  word?_eq_ok h

/-- Tokens that are left when the trivia in front is detached start where the
tokens do. -/
theorem led_of_takeLead {ts us rest : List Token} {lead : Trivia}
    (h : takeLead ts = .ok (lead, us ++ rest)) (hus : us ≠ []) :
    ∃ xs, ts = xs ++ rest ∧ Led lead us xs := by
  obtain ⟨u, us, rfl⟩ := List.exists_cons_of_ne_nil hus
  cases ts with
  | nil => simp [takeLead] at h
  | cons t ts =>
      simp only [takeLead, List.cons_append, Except.ok.injEq, Prod.mk.injEq,
        List.cons.injEq] at h
      obtain ⟨rfl, rfl, rfl⟩ := h
      exact ⟨t :: us, rfl, .mk⟩

-- ================================================================= lists

variable {element : Parser α} {R : Spelling α}

/-- Elements between separators are spelled as the grammar has them. -/
theorem Sound.padded (he : Sound element R) (separator : String) (n : Nat) :
    Sound (padded element separator n) (Padded R separator) := by
  induction n with
  | zero => intro ts rest ps h; exact absurd h stuck_ne_ok
  | succ n ih =>
      intro ts rest ps h
      simp only [Parser.padded, bind_eq_ok] at h
      obtain ⟨a, t₁, h₁, sep, t₂, h₂, h⟩ := h
      obtain ⟨us, rfl, ha⟩ := he h₁
      obtain ⟨after, rfl, rfl⟩ | ⟨rfl, rfl⟩ := symbol?_eq_ok h₂
      · replace h := bind_eq_ok.1 h
        obtain ⟨ps', t₃, h₃, h⟩ := h
        obtain ⟨rfl, rfl⟩ := pure_eq_ok.1 h
        obtain ⟨vs, rfl, hps⟩ := ih h₃
        exact ⟨us ++ ⟨after, .symbol separator⟩ :: vs, by simp, .cons ha hps⟩
      · obtain ⟨rfl, rfl⟩ := pure_eq_ok.1 h
        exact ⟨us, rfl, .last ha⟩

/-- So are elements between delimiters, and the delimiters belong to it. -/
theorem Sound.delimited (he : Sound element R) (opening closing : String) :
    Sound (delimited element opening closing)
      (Delimited R opening closing) := by
  intro ts rest c h
  simp only [Parser.delimited, bind_eq_ok] at h
  obtain ⟨before, t₁, h₁, close?, t₂, h₂, h⟩ := h
  obtain rfl := symbol_eq_ok.1 h₁
  obtain ⟨close, rfl, rfl⟩ | ⟨rfl, rfl⟩ := symbol?_eq_ok h₂
  · obtain ⟨rfl, rfl⟩ := pure_eq_ok.1 h
    exact ⟨_, rfl, .none⟩
  · simp only [bind_eq_ok] at h
    obtain ⟨ps, t₃, h₃, close, t₄, h₄, h⟩ := h
    obtain ⟨rfl, rfl⟩ := pure_eq_ok.1 h
    obtain ⟨us, rfl, hps⟩ := Sound.bounded (he.padded ",") h₃
    obtain rfl := symbol_eq_ok.1 h₄
    exact ⟨⟨before, .symbol opening⟩ :: (us ++ [⟨close, .symbol closing⟩]),
      by simp, .some hps⟩

/-- What a keyword may introduce is spelled with it, or is absent. -/
theorem Sound.afterKeyword? (he : Sound element R) (keyword : String) :
    Sound (afterKeyword? element keyword) (AfterKeyword R keyword) := by
  intro ts rest o h
  simp only [Parser.afterKeyword?, bind_eq_ok] at h
  obtain ⟨before?, t₁, h₁, h⟩ := h
  obtain ⟨before, rfl, rfl⟩ | ⟨rfl, rfl⟩ := keyword?_eq_ok h₁
  · replace h := bind_eq_ok.1 h
    obtain ⟨ps, t₂, h₂, h⟩ := h
    obtain ⟨rfl, rfl⟩ := pure_eq_ok.1 h
    obtain ⟨us, rfl, hps⟩ := Sound.bounded (he.padded ",") h₂
    exact ⟨_, rfl, .some hps⟩
  · obtain ⟨rfl, rfl⟩ := pure_eq_ok.1 h
    exact ⟨[], rfl, .none⟩

/-- Elements in a row are spelled one behind the other. -/
theorem Sound.manyWhile (he : Sound element R)
    (starts : List Token → Bool) (n : Nat) :
    Sound (manyWhile starts element n) (Many R) := by
  induction n with
  | zero => intro ts rest as h; exact absurd h stuck_ne_ok
  | succ n ih =>
      intro ts rest as h
      simp only [Parser.manyWhile, bind_eq_ok, ahead_eq_ok] at h
      obtain ⟨b, t₁, ⟨-, rfl⟩, h⟩ := h
      split at h
      · simp only [bind_eq_ok] at h
        obtain ⟨a, t₂, h₂, as', t₃, h₃, h⟩ := h
        obtain ⟨rfl, rfl⟩ := pure_eq_ok.1 h
        obtain ⟨us, rfl, ha⟩ := he h₂
        obtain ⟨vs, rfl, has⟩ := ih h₃
        exact ⟨us ++ vs, by simp, .cons ha has⟩
      · obtain ⟨rfl, rfl⟩ := pure_eq_ok.1 h
        exact ⟨[], rfl, .nil⟩

/-- Elements up to a closing symbol, and the symbol. -/
theorem Sound.untilSymbol (he : Sound element R) (closing : String) (n : Nat) :
    Sound (untilSymbol element closing n) fun us r =>
      ∃ vs, us = vs ++ [⟨r.2, .symbol closing⟩] ∧ Many R vs r.1 := by
  induction n with
  | zero => intro ts rest r h; exact absurd h stuck_ne_ok
  | succ n ih =>
      intro ts rest r h
      simp only [Parser.untilSymbol, bind_eq_ok] at h
      obtain ⟨close?, t₁, h₁, h⟩ := h
      obtain ⟨close, rfl, rfl⟩ | ⟨rfl, rfl⟩ := symbol?_eq_ok h₁
      · obtain ⟨rfl, rfl⟩ := pure_eq_ok.1 h
        exact ⟨_, rfl, [], rfl, .nil⟩
      · simp only [bind_eq_ok] at h
        obtain ⟨a, t₂, h₂, ⟨as, close⟩, t₃, h₃, h⟩ := h
        obtain ⟨rfl, rfl⟩ := pure_eq_ok.1 h
        obtain ⟨us, rfl, ha⟩ := he h₂
        obtain ⟨_, rfl, vs, rfl, has⟩ := ih h₃
        exact ⟨us ++ vs ++ [⟨close, .symbol closing⟩], by simp, us ++ vs,
          by simp, .cons ha has⟩

/-- A block is spelled with its braces. -/
theorem Sound.braced {element : Parser (RightPadded α)}
    {R : Spelling (RightPadded α)} (he : Sound element R) :
    Sound (braced element) (Braced R) := by
  intro ts rest b h
  simp only [Parser.braced, bind_eq_ok] at h
  obtain ⟨lead, t₁, h₁, ⟨as, close⟩, t₂, h₂, h⟩ := h
  obtain ⟨rfl, rfl⟩ := pure_eq_ok.1 h
  obtain rfl := symbol_eq_ok.1 h₁
  obtain ⟨_, rfl, us, rfl, has⟩ := Sound.bounded (he.untilSymbol "\x7d") h₂
  exact ⟨⟨lead, .symbol "\x7b"⟩ :: (us ++ [⟨close, .symbol "\x7d"⟩]),
    by simp, .mk has⟩

-- ================================================================= names

/-- A name that is spelled so far stays one as dots and words follow; the loop
keeps what it has read. -/
theorem nameRest_sound {starMayEnd : Bool} {n : Nat} :
    ∀ {us ts rest : List Token} {outer a : Name}, SpellsName us outer →
      nameRest starMayEnd n outer ts = .ok (a, rest) →
        ∃ vs, ts = vs ++ rest ∧
          if starMayEnd then SpellsImportName (us ++ vs) a
            else SpellsName (us ++ vs) a := by
  induction n with
  | zero => intro us ts rest outer a _ h; exact absurd h stuck_ne_ok
  | succ n ih =>
      intro us ts rest outer a houter h
      simp only [nameRest, bind_eq_ok] at h
      obtain ⟨dot?, t₁, h₁, h⟩ := h
      obtain ⟨dot, rfl, rfl⟩ | ⟨rfl, rfl⟩ := symbol?_eq_ok h₁
      · replace h := bind_eq_ok.1 h
        obtain ⟨star, t₂, h₂, h⟩ := h
        obtain rfl := isNext_eq_ok h₂
        split at h
        next hstar =>
          replace h := bind_eq_ok.1 h
          obtain ⟨lead, t₃, h₃, h⟩ := h
          obtain ⟨rfl, rfl⟩ := pure_eq_ok.1 h
          obtain rfl := symbol_eq_ok.1 h₃
          rw [Bool.and_eq_true] at hstar
          refine ⟨[⟨dot, .symbol "."⟩, ⟨lead, .symbol "*"⟩], rfl, ?_⟩
          rw [if_pos hstar.1]
          exact .star dot lead houter
        next =>
          replace h := bind_eq_ok.1 h
          obtain ⟨last, t₃, h₃, h⟩ := h
          obtain rfl := ident_eq_ok.1 h₃
          obtain ⟨vs, rfl, hvs⟩ := ih (.dot dot last houter) h
          exact ⟨_, rfl, by simpa using hvs⟩
      · obtain ⟨rfl, rfl⟩ := pure_eq_ok.1 h
        refine ⟨[], rfl, ?_⟩
        rw [List.append_nil]
        split
        · exact .named houter
        · exact houter

theorem name_sound : Sound name SpellsName := by
  intro ts rest n h
  simp only [name, bind_eq_ok] at h
  obtain ⟨first, t₁, h₁, h⟩ := h
  obtain rfl := ident_eq_ok.1 h₁
  obtain ⟨vs, rfl, hvs⟩ := nameRest_sound (.simple first) h
  exact ⟨_, rfl, hvs⟩

/-- The name of an import may end in a star. -/
theorem importName_sound : Sound importName SpellsImportName := by
  intro ts rest n h
  simp only [importName, bind_eq_ok] at h
  obtain ⟨first, t₁, h₁, h⟩ := h
  obtain rfl := ident_eq_ok.1 h₁
  obtain ⟨vs, rfl, hvs⟩ := nameRest_sound (.simple first) h
  exact ⟨_, rfl, hvs⟩

-- ================================================================= types

/-- A class type is a name with its arguments, if any. -/
theorem classTypeWith_sound {argument : Parser TypeTree} {R : Spelling TypeTree}
    (ha : Sound argument R) :
    Sound (classTypeWith argument) (ClassTypeWith R) := by
  intro ts rest t h
  simp only [classTypeWith, bind_eq_ok] at h
  obtain ⟨base, t₁, h₁, generic, t₂, h₂, h⟩ := h
  obtain rfl := isNext_eq_ok h₂
  obtain ⟨us, rfl, hus⟩ := name_sound h₁
  split at h
  · replace h := bind_eq_ok.1 h
    obtain ⟨args, t₃, h₃, h⟩ := h
    obtain ⟨rfl, rfl⟩ := pure_eq_ok.1 h
    obtain ⟨vs, rfl, hvs⟩ := ha.delimited "<" ">" h₃
    exact ⟨us ++ vs, by simp, .generic hus hvs⟩
  · obtain ⟨rfl, rfl⟩ := pure_eq_ok.1 h
    exact ⟨us, rfl, .named hus⟩

/-- Each pair of brackets makes an array type of what stands before it. -/
theorem dimensions_sound {R : Spelling TypeTree} {n : Nat} :
    ∀ {us ts rest : List Token} {t a : TypeTree}, TypeWith R us t →
      dimensions n t ts = .ok (a, rest) → ∃ vs,
        ts = vs ++ rest ∧ TypeWith R (us ++ vs) a := by
  induction n with
  | zero => intro us ts rest t a _ h; exact absurd h stuck_ne_ok
  | succ n ih =>
      intro us ts rest t a ht h
      simp only [dimensions, bind_eq_ok] at h
      obtain ⟨before?, t₁, h₁, h⟩ := h
      obtain ⟨before, rfl, rfl⟩ | ⟨rfl, rfl⟩ := symbol?_eq_ok h₁
      · replace h := bind_eq_ok.1 h
        obtain ⟨inner, t₂, h₂, h⟩ := h
        obtain rfl := symbol_eq_ok.1 h₂
        obtain ⟨vs, rfl, hvs⟩ := ih (.array ht) h
        exact ⟨_, rfl, by simpa using hvs⟩
      · obtain ⟨rfl, rfl⟩ := pure_eq_ok.1 h
        exact ⟨[], rfl, by simpa using ht⟩

/-- A type with its dimensions, above a parser of arguments that is sound. -/
theorem typeTreeWith_sound {argument : Parser TypeTree} {R : Spelling TypeTree}
    (ha : Sound argument R) : Sound (typeTreeWith argument) (TypeWith R) := by
  intro ts rest t h
  simp only [typeTreeWith, bind_eq_ok] at h
  obtain ⟨p?, t₁, h₁, h⟩ := h
  obtain ⟨tok, p, rfl, hp, rfl⟩ | ⟨rfl, rfl, -⟩ := take?_eq_ok h₁
  · obtain ⟨base, t₂, h₂, h₃⟩ := bind_eq_ok.1 h
    obtain ⟨rfl, rfl⟩ := pure_eq_ok.1 h₂
    obtain ⟨vs, rfl, hvs⟩ := dimensions_sound (R := R) (.primitive hp) h₃
    exact ⟨_, rfl, hvs⟩
  · obtain ⟨base, t₂, h₂, h₃⟩ := bind_eq_ok.1 h
    obtain ⟨us, rfl, hus⟩ := classTypeWith_sound ha h₂
    obtain ⟨vs, rfl, hvs⟩ := dimensions_sound (.classType hus) h₃
    exact ⟨us ++ vs, by simp, hvs⟩

/-- The nesting of arguments is the depth of the spelling. -/
theorem typeTreeOfDepth_sound (n : Nat) :
    Sound (typeTreeOfDepth n) (SpellsTypeAt n) := by
  induction n with
  | zero => intro ts rest a h; exact absurd h stuck_ne_ok
  | succ n ih => exact typeTreeWith_sound ih

theorem typeTree_sound : Sound typeTree SpellsType := by
  intro ts rest t h
  obtain ⟨us, hts, hus⟩ := typeTreeOfDepth_sound _ h
  exact ⟨us, hts, _, hus⟩

theorem classType_sound : Sound classType SpellsClassType :=
  classTypeWith_sound typeTree_sound

/-- The type of a catch parameter: alternatives between bars. -/
theorem catchType_sound : Sound catchType SpellsCatchType := by
  intro ts rest t h
  simp only [catchType, bind_eq_ok] at h
  obtain ⟨ps, t₁, h₁, h⟩ := h
  obtain ⟨us, rfl, hus⟩ := Sound.bounded (classType_sound.padded "|") h₁
  cases hus with
  | last ht =>
      obtain ⟨rfl, rfl⟩ := pure_eq_ok.1 h
      exact ⟨_, rfl, .single ht⟩
  | @cons us' vs a after ps ht hps =>
      obtain ⟨p, ps, rfl⟩ : ∃ p ps', ps = p :: ps' := by
        cases hps <;> exact ⟨_, _, rfl⟩
      obtain ⟨rfl, rfl⟩ := pure_eq_ok.1 h
      exact ⟨_, rfl, .union (.cons ht hps)⟩

-- =========================================================== expressions

section

variable {nested : Parser Expr} {R : Spelling Expr} (hn : Sound nested R)
include hn

/-- Arguments stand between parentheses. -/
theorem argumentsWith_sound :
    Sound (argumentsWith nested) (Delimited R "(" ")") :=
  hn.delimited "(" ")"

/-- The head of a postfix expression is one by itself. -/
theorem primaryWith_sound : Sound (primaryWith nested) (PostfixWith R) := by
  intro ts rest e h
  simp only [primaryWith, bind_eq_ok] at h
  obtain ⟨literal?, t₁, h₁, h⟩ := h
  obtain ⟨t, e', rfl, ht, rfl⟩ | ⟨rfl, rfl, -⟩ := take?_eq_ok h₁
  · obtain ⟨rfl, rfl⟩ := pure_eq_ok.1 h
    exact ⟨[t], rfl, .literal ht⟩
  replace h := bind_eq_ok.1 h
  obtain ⟨this?, t₂, h₂, h⟩ := h
  obtain ⟨lead, rfl, rfl⟩ | ⟨rfl, rfl⟩ := keyword?_eq_ok h₂
  · obtain ⟨rfl, rfl⟩ := pure_eq_ok.1 h
    exact ⟨_, rfl, .this⟩
  replace h := bind_eq_ok.1 h
  obtain ⟨open?, t₃, h₃, h⟩ := h
  obtain ⟨lead, rfl, rfl⟩ | ⟨rfl, rfl⟩ := symbol?_eq_ok h₃
  · simp only [bind_eq_ok] at h
    obtain ⟨inner, t₄, h₄, after, t₅, h₅, h⟩ := h
    obtain ⟨rfl, rfl⟩ := pure_eq_ok.1 h
    obtain ⟨us, rfl, hus⟩ := hn h₄
    obtain rfl := symbol_eq_ok.1 h₅
    exact ⟨⟨lead, .symbol "("⟩ :: (us ++ [⟨after, .symbol ")"⟩]), by simp,
      .parens hus⟩
  replace h := bind_eq_ok.1 h
  obtain ⟨new?, t₄, h₄, h⟩ := h
  obtain ⟨lead, rfl, rfl⟩ | ⟨rfl, rfl⟩ := keyword?_eq_ok h₄
  · simp only [bind_eq_ok] at h
    obtain ⟨base, t₅, h₅, args, t₆, h₆, h⟩ := h
    obtain ⟨rfl, rfl⟩ := pure_eq_ok.1 h
    obtain ⟨us, rfl, hus⟩ := classType_sound h₅
    obtain ⟨vs, rfl, hvs⟩ := argumentsWith_sound hn h₆
    exact ⟨⟨lead, .keyword "new"⟩ :: (us ++ vs), by simp, .new hus hvs⟩
  simp only [bind_eq_ok] at h
  obtain ⟨first, t₅, h₅, called, t₆, h₆, h⟩ := h
  obtain rfl := isNext_eq_ok h₆
  obtain rfl := ident_eq_ok.1 h₅
  split at h
  · replace h := bind_eq_ok.1 h
    obtain ⟨args, t₇, h₇, h⟩ := h
    obtain ⟨rfl, rfl⟩ := pure_eq_ok.1 h
    obtain ⟨vs, rfl, hvs⟩ := argumentsWith_sound hn h₇
    exact ⟨_, rfl, .bareCall first hvs⟩
  · obtain ⟨rfl, rfl⟩ := pure_eq_ok.1 h
    exact ⟨_, rfl, .name first⟩

/-- Selections and calls are read onto a target that is spelled so far. -/
theorem postfixRest_sound {n : Nat} :
    ∀ {us ts rest : List Token} {target e : Expr}, PostfixWith R us target →
      postfixRest nested n target ts = .ok (e, rest) →
        ∃ vs, ts = vs ++ rest ∧ PostfixWith R (us ++ vs) e := by
  induction n with
  | zero => intro us ts rest target e _ h; exact absurd h stuck_ne_ok
  | succ n ih =>
      intro us ts rest target e ht h
      simp only [postfixRest, bind_eq_ok] at h
      obtain ⟨dot?, t₁, h₁, h⟩ := h
      obtain ⟨dot, rfl, rfl⟩ | ⟨rfl, rfl⟩ := symbol?_eq_ok h₁
      · replace h := bind_eq_ok.1 h
        obtain ⟨class?, t₂, h₂, h⟩ := h
        obtain ⟨lead, rfl, rfl⟩ | ⟨rfl, rfl⟩ := keyword?_eq_ok h₂
        · obtain ⟨vs, rfl, hvs⟩ := ih (.classLiteral ht) h
          exact ⟨_, rfl, by simpa using hvs⟩
        · simp only [bind_eq_ok] at h
          obtain ⟨last, t₃, h₃, called, t₄, h₄, h⟩ := h
          obtain rfl := isNext_eq_ok h₄
          obtain rfl := ident_eq_ok.1 h₃
          split at h
          · replace h := bind_eq_ok.1 h
            obtain ⟨args, t₅, h₅, h⟩ := h
            obtain ⟨vs, rfl, hvs⟩ := argumentsWith_sound hn h₅
            obtain ⟨ws, rfl, hws⟩ := ih (.call last ht hvs) h
            exact ⟨⟨dot, .symbol "."⟩ :: ⟨last.lead, .name last.name⟩ ::
              (vs ++ ws), by simp, by simpa using hws⟩
          · obtain ⟨vs, rfl, hvs⟩ := ih (.access last ht) h
            exact ⟨_, rfl, by simpa using hvs⟩
      · obtain ⟨rfl, rfl⟩ := pure_eq_ok.1 h
        exact ⟨[], rfl, by simpa using ht⟩

/-- A postfix expression: its head, then what is selected from it. -/
theorem postfixWith_sound : Sound (postfixWith nested) (PostfixWith R) := by
  intro ts rest e h
  simp only [postfixWith, bind_eq_ok] at h
  obtain ⟨start, t₁, h₁, h⟩ := h
  obtain ⟨us, rfl, hus⟩ := primaryWith_sound hn h₁
  obtain ⟨vs, rfl, hvs⟩ := postfixRest_sound hn hus h
  exact ⟨us ++ vs, by simp, hvs⟩

/-- An operand: unary operators, then a postfix expression. -/
theorem operandWith_sound (n : Nat) :
    Sound (operandWith nested n) (OperandWith R) := by
  induction n with
  | zero => intro ts rest e h; exact absurd h stuck_ne_ok
  | succ n ih =>
      intro ts rest e h
      simp only [operandWith, bind_eq_ok] at h
      obtain ⟨op?, t₁, h₁, h⟩ := h
      obtain ⟨t, op, rfl, ht, rfl⟩ | ⟨rfl, rfl, -⟩ := take?_eq_ok h₁
      · replace h := bind_eq_ok.1 h
        obtain ⟨operand, t₂, h₂, h⟩ := h
        obtain ⟨rfl, rfl⟩ := pure_eq_ok.1 h
        obtain ⟨us, rfl, hus⟩ := ih h₂
        exact ⟨t :: us, rfl, .unary ht hus⟩
      · obtain ⟨us, hts, hus⟩ := postfixWith_sound hn h
        exact ⟨us, hts, .bare hus⟩

/-- Operands with the operators between them, not yet grouped. -/
theorem operandsWith_sound (n : Nat) :
    Sound (operandsWith nested n) (OperandsWith (OperandWith R)) := by
  induction n with
  | zero => intro ts rest run h; exact absurd h stuck_ne_ok
  | succ n ih =>
      intro ts rest run h
      simp only [operandsWith, bind_eq_ok] at h
      obtain ⟨op?, t₁, h₁, h⟩ := h
      obtain ⟨t, op, rfl, ht, rfl⟩ | ⟨rfl, rfl, -⟩ := take?_eq_ok h₁
      · simp only [bind_eq_ok] at h
        obtain ⟨e, t₂, h₂, run', t₃, h₃, h⟩ := h
        obtain ⟨rfl, rfl⟩ := pure_eq_ok.1 h
        obtain ⟨us, rfl, hus⟩ := Sound.bounded (operandWith_sound hn) h₂
        obtain ⟨vs, rfl, hvs⟩ := ih h₃
        exact ⟨t :: (us ++ vs), by simp, .cons ht hus hvs⟩
      · obtain ⟨rfl, rfl⟩ := pure_eq_ok.1 h
        exact ⟨[], rfl, .nil⟩

/-- An expression: operands grouped by level, then what is assigned. -/
theorem expressionWith_sound :
    Sound (expressionWith nested) (ExpressionWith R) := by
  intro ts rest e h
  simp only [expressionWith, bind_eq_ok, ahead_eq_ok] at h
  obtain ⟨unary, t₁, ⟨-, rfl⟩, h⟩ := h
  split at h
  · simp only [bind_eq_ok] at h
    obtain ⟨first, t₂, h₂, run, t₃, h₃, h⟩ := h
    obtain ⟨rfl, rfl⟩ := pure_eq_ok.1 h
    obtain ⟨us, rfl, hus⟩ := Sound.bounded (operandWith_sound hn) h₂
    obtain ⟨vs, rfl, hvs⟩ := Sound.bounded (operandsWith_sound hn) h₃
    exact ⟨us ++ vs, by simp, .binary (binaryWith_group hus hvs)⟩
  · simp only [bind_eq_ok] at h
    obtain ⟨first, t₂, h₂, assign?, t₃, h₃, h⟩ := h
    obtain ⟨us, rfl, hus⟩ := postfixWith_sound hn h₂
    obtain ⟨before, rfl, rfl⟩ | ⟨rfl, rfl⟩ := symbol?_eq_ok h₃
    · replace h := bind_eq_ok.1 h
      obtain ⟨value, t₄, h₄, h⟩ := h
      obtain ⟨rfl, rfl⟩ := pure_eq_ok.1 h
      obtain ⟨vs, rfl, hvs⟩ := hn h₄
      exact ⟨us ++ ⟨before, .symbol "="⟩ :: vs, by simp, .assign hus hvs⟩
    · replace h := bind_eq_ok.1 h
      obtain ⟨run, t₄, h₄, h⟩ := h
      obtain ⟨rfl, rfl⟩ := pure_eq_ok.1 h
      obtain ⟨vs, rfl, hvs⟩ := Sound.bounded (operandsWith_sound hn) h₄
      exact ⟨us ++ vs, by simp, .binary (binaryWith_group (.bare hus) hvs)⟩

end

/-- The nesting of expressions is the depth of the spelling. -/
theorem expressionOfDepth_sound (n : Nat) :
    Sound (expressionOfDepth n) (SpellsExprAt n) := by
  induction n with
  | zero => intro ts rest a h; exact absurd h stuck_ne_ok
  | succ n ih => exact expressionWith_sound ih

theorem expression_sound : Sound expression SpellsExpr := by
  intro ts rest e h
  obtain ⟨us, hts, hus⟩ := expressionOfDepth_sound _ h
  exact ⟨us, hts, _, hus⟩

-- ========================================================== declarations

/-- A modifier is a word or an annotation with its arguments. -/
theorem modifier_sound : Sound modifier SpellsModifier := by
  intro ts rest m h
  simp only [modifier, bind_eq_ok] at h
  obtain ⟨word?, t₁, h₁, h⟩ := h
  obtain ⟨t, m', rfl, ht, rfl⟩ | ⟨rfl, rfl, -⟩ := take?_eq_ok h₁
  · obtain ⟨rfl, rfl⟩ := pure_eq_ok.1 h
    exact ⟨[t], rfl, .word ht⟩
  simp only [bind_eq_ok] at h
  obtain ⟨lead, t₂, h₂, type, t₃, h₃, annotated, t₄, h₄, h⟩ := h
  obtain rfl := symbol_eq_ok.1 h₂
  obtain ⟨us, rfl, hus⟩ := name_sound h₃
  obtain rfl := isNext_eq_ok h₄
  split at h
  · replace h := bind_eq_ok.1 h
    obtain ⟨args, t₅, h₅, h⟩ := h
    obtain ⟨rfl, rfl⟩ := pure_eq_ok.1 h
    obtain ⟨vs, rfl, hvs⟩ := expression_sound.delimited "(" ")" h₅
    exact ⟨⟨lead, .symbol "@"⟩ :: (us ++ vs), by simp, .called hus hvs⟩
  · obtain ⟨rfl, rfl⟩ := pure_eq_ok.1 h
    exact ⟨⟨lead, .symbol "@"⟩ :: us, rfl, .marker hus⟩

/-- Modifiers stand in a row. -/
theorem modifiers_sound : Sound modifiers (Many SpellsModifier) :=
  Sound.bounded (modifier_sound.manyWhile startsModifier)

/-- A declared name with its value, if it has one. -/
theorem declarator_sound : Sound declarator SpellsDeclarator := by
  intro ts rest v h
  simp only [declarator, bind_eq_ok] at h
  obtain ⟨i, t₁, h₁, before?, t₂, h₂, h⟩ := h
  obtain rfl := ident_eq_ok.1 h₁
  obtain ⟨before, rfl, rfl⟩ | ⟨rfl, rfl⟩ := symbol?_eq_ok h₂
  · simp only [bind_eq_ok] at h
    obtain ⟨e, t₃, h₃, value?, t₄, h₄, h⟩ := h
    obtain ⟨rfl, rfl⟩ := pure_eq_ok.1 h₄
    obtain ⟨rfl, rfl⟩ := pure_eq_ok.1 h
    obtain ⟨us, rfl, hus⟩ := expression_sound h₃
    exact ⟨_, rfl, .initialized i hus⟩
  · simp only [bind_eq_ok] at h
    obtain ⟨value?, t₄, h₄, h⟩ := h
    obtain ⟨rfl, rfl⟩ := pure_eq_ok.1 h₄
    obtain ⟨rfl, rfl⟩ := pure_eq_ok.1 h
    exact ⟨_, rfl, .bare i⟩

/-- A declaration: modifiers, a type and declarators. -/
theorem declaration_sound : Sound declaration SpellsDeclaration := by
  intro ts rest d h
  simp only [declaration, bind_eq_ok] at h
  obtain ⟨lead, t₁, h₁, ms, t₂, h₂, t, t₃, h₃, ds, t₄, h₄, h⟩ := h
  obtain ⟨rfl, rfl⟩ := pure_eq_ok.1 h
  obtain ⟨us, rfl, hus⟩ := modifiers_sound h₂
  obtain ⟨vs, rfl, hvs⟩ := typeTree_sound h₃
  obtain ⟨ws, rfl, hws⟩ := Sound.bounded (declarator_sound.padded ",") h₄
  obtain ⟨xs, rfl, hled⟩ := led_of_takeLead
    (show takeLead ts = .ok (lead, us ++ vs ++ ws ++ t₄) by simpa using h₁)
    (by simp [(opens_type hvs).ne_nil])
  exact ⟨xs, rfl, .mk hus hvs hws hled⟩

/-- A parameter: modifiers, a type of the given sort and a name. -/
theorem parameter_sound {type : Parser TypeTree} {R : Spelling TypeTree}
    (ht : Sound type R) : Sound (parameter type) (ParameterWith R) := by
  intro ts rest d h
  simp only [parameter, bind_eq_ok] at h
  obtain ⟨lead, t₁, h₁, ms, t₂, h₂, t, t₃, h₃, i, t₄, h₄, h⟩ := h
  obtain ⟨rfl, rfl⟩ := pure_eq_ok.1 h
  obtain ⟨us, rfl, hus⟩ := modifiers_sound h₂
  obtain ⟨vs, rfl, hvs⟩ := ht h₃
  obtain rfl := ident_eq_ok.1 h₄
  obtain ⟨xs, rfl, hled⟩ := led_of_takeLead
    (show takeLead ts = .ok (lead, us ++ vs ++ [⟨i.lead, .name i.name⟩] ++ t₄)
      by simpa using h₁)
    (by simp)
  exact ⟨xs, rfl, .mk i hus hvs hled⟩

end Parser

end JavaRefit
