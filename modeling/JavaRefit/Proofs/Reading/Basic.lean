/-
What readers take is what they return.

`Reads p shown`: whenever the reader succeeds, the tokens it was given
are the pieces `shown` of what it returns and the tokens it leaves, as
solid runs. A reader that takes one token, a list or a block has this
property as soon as its parts have it; every reader of the language is
built of those.

Chain: after `Solid`; the files for the readers follow it.
-/
import JavaRefit.Parser.Basic
import JavaRefit.Proofs.Reading.Solid

namespace JavaRefit.Parser

open Piece

-- ============================================================== one step

/-- A reader after another succeeds when both do, in turn. -/
theorem bind_eq_ok {α β : Type} {p : Parser α} {f : α → Parser β}
    {ts rest : List Token} {b : β} : (p >>= f) ts = .ok (b, rest) ↔
      ∃ a mid, p ts = .ok (a, mid) ∧ f a mid = .ok (b, rest) := by
  show (p ts >>= fun r => f r.1 r.2) = .ok (b, rest) ↔ _
  cases hp : p ts with
  | error e => simp [bind, Except.bind]
  | ok r =>
      constructor
      · intro h
        exact ⟨r.1, r.2, rfl, h⟩
      · rintro ⟨a, mid, hr, h⟩
        cases hr
        exact h

/-- A reader that takes nothing gives its value and the tokens. -/
theorem pure_eq_ok {α : Type} {a b : α} {ts rest : List Token} :
    (pure a : Parser α) ts = .ok (b, rest) ↔ a = b ∧ ts = rest := by
  show (Except.ok (a, ts) : Except Nat _) = .ok (b, rest) ↔ _
  simp

/-- A reader whose value is changed succeeds as before. -/
theorem map_eq_ok {α β : Type} {f : α → β} {p : Parser α}
    {ts rest : List Token} {b : β} :
    (f <$> p) ts = .ok (b, rest) ↔ ∃ a, p ts = .ok (a, rest) ∧ f a = b := by
  rw [← bind_pure_comp, bind_eq_ok]
  simp only [pure_eq_ok]
  constructor
  · rintro ⟨a, mid, hp, rfl, rfl⟩
    exact ⟨a, hp, rfl⟩
  · rintro ⟨a, hp, rfl⟩
    exact ⟨a, rest, hp, rfl, rfl⟩

@[simp] theorem stuck_ne_ok {α : Type} {ts : List Token} {r : α × List Token} :
    (stuck : Parser α) ts ≠ .ok r := by
  simp [stuck]

-- ============================================================== the rule

/-- The tokens a reader takes are what it returns, piece by piece. -/
def Reads {α : Type} (p : Parser α) (shown : α → List Piece) : Prop :=
  ∀ ⦃ts rest : List Token⦄ ⦃a : α⦄, p ts = .ok (a, rest) →
    Token.flat ts = solid (shown a) ++ Token.flat rest

variable {α : Type}

/-- Counting the turns changes nothing. -/
theorem Reads.bounded {p : Nat → Parser α} {shown : α → List Piece}
    (hp : ∀ n, Reads (p n) shown) : Reads (bounded p) shown :=
  fun _ _ _ h => hp _ h

/-- Of two readers, the one that succeeds. -/
theorem Reads.orElse {p q : Parser α} {shown : α → List Piece}
    (hp : Reads p shown) (hq : Reads q shown) : Reads (orElse p q) shown := by
  intro ts rest a h
  unfold Parser.orElse at h
  split at h
  next r hr => exact hp (hr.trans h)
  next left hl =>
    split at h
    next r hr => exact hq (hr.trans h)
    next => cases h

-- ========================================================= single tokens

/-- A token that passes a test is what the test makes of it. -/
theorem Reads.take {f : Token → Option α} (shown : α → List Piece)
    (hf : ∀ ⦃t a⦄, f t = some a → gap t.lead ++ [.word t.word.text] =
      solid (shown a)) :
    Reads (take f) shown := by
  intro ts rest a h
  unfold Parser.take at h
  split at h
  next => cases h
  next t ts =>
    split at h
    next b hb =>
      cases h
      simp [← hf hb]
    next => cases h

/-- A token taken only if it passes a test. -/
theorem take?_eq_ok {f : Token → Option α} {ts rest : List Token} {o : Option α}
    (h : take? f ts = .ok (o, rest)) :
    (∃ t a, ts = t :: rest ∧ f t = some a ∧ o = some a) ∨
      (o = none ∧ rest = ts ∧ ∀ t ts', ts = t :: ts' → f t = none) := by
  unfold take? at h
  split at h
  next =>
    cases h
    exact .inr ⟨rfl, rfl, by simp⟩
  next t ts =>
    split at h
    next a ha =>
      cases h
      exact .inl ⟨t, a, rfl, ha, rfl⟩
    next hn =>
      cases h
      exact .inr ⟨rfl, rfl, by simpa using hn⟩

/-- The pieces of what may be missing. -/
def optional (shown : α → List Piece) : Option α → List Piece
  | none => []
  | some a => shown a

@[simp] theorem optional_none (shown : α → List Piece) :
    optional shown none = [] := rfl

@[simp] theorem optional_some (shown : α → List Piece) (a : α) :
    optional shown (some a) = shown a := rfl

/-- A token that is taken if it passes a test. -/
theorem Reads.take? {f : Token → Option α} (shown : α → List Piece)
    (hf : ∀ ⦃t a⦄, f t = some a → gap t.lead ++ [.word t.word.text] =
      solid (shown a)) :
    Reads (take? f) (optional shown) := by
  intro ts rest o h
  obtain ⟨t, a, rfl, ha, rfl⟩ | ⟨rfl, rfl, -⟩ := take?_eq_ok h
  · simp [← hf ha]
  · simp

/-- Looking ahead takes nothing. -/
theorem ahead_eq_ok {f : List Token → Bool} {ts rest : List Token} {b : Bool} :
    ahead f ts = .ok (b, rest) ↔ f ts = b ∧ ts = rest := by
  simp [ahead]

/-- Looking at the next word takes nothing. -/
theorem isNext_eq_ok {w : Word} {ts rest : List Token} {b : Bool}
    (h : isNext w ts = .ok (b, rest)) : ts = rest :=
  (ahead_eq_ok.1 h).2

theorem leadOf_eq_some {w : Word} {t : Token} {lead : Trivia}
    (h : leadOf w t = some lead) : t = ⟨lead, w⟩ := by
  unfold leadOf at h
  split at h
  next hw =>
    cases h
    rw [← hw]
  next => cases h

theorem word_reads (w : Word) : Reads (Parser.word w) fun lead =>
    [trivia lead, .word w.text] :=
  Reads.take _ fun _ _ h => by simp [leadOf_eq_some h]

theorem word?_reads (w : Word) :
    Reads (word? w) (optional fun lead => [trivia lead, .word w.text]) :=
  Reads.take? _ fun _ _ h => by simp [leadOf_eq_some h]

theorem symbol_reads (s : String) : Reads (symbol s) fun lead =>
    [trivia lead, .word s] :=
  word_reads (.symbol s)

theorem symbol?_reads (s : String) :
    Reads (symbol? s) (optional fun lead => [trivia lead, .word s]) :=
  word?_reads (.symbol s)

theorem keyword_reads (s : String) : Reads (keyword s) fun lead =>
    [trivia lead, .word s] :=
  word_reads (.keyword s)

theorem keyword?_reads (s : String) :
    Reads (keyword? s) (optional fun lead => [trivia lead, .word s]) :=
  word?_reads (.keyword s)

theorem asIdent_eq_some {t : Token} {i : Ident} (h : asIdent t = some i) :
    t = ⟨i.lead, .name i.name⟩ := by
  obtain ⟨lead, w⟩ := t
  cases w with
  | name s =>
      cases h
      rfl
  | _ => cases h

theorem ident_reads : Reads ident Ident.pieces :=
  Reads.take _ fun _ _ h => by simp [asIdent_eq_some h, Ident.pieces, Word.text]

/-- Trivia that is detached from the next token stands in front of what is
left. -/
theorem takeLead_reads : Reads takeLead fun lead => [trivia lead] := by
  intro ts rest lead h
  unfold takeLead at h
  split at h
  · cases h
    simp
  · cases h
    simp

-- ================================================================= lists

/-- The pieces of padded elements with a separator between them. -/
def paddedPieces (shown : α → List Piece) (separator : String)
    (ps : List (RightPadded α)) : List Piece :=
  separated separator (ps.map fun p => shown p.element ++ [trivia p.after])

/-- There is an element, and nothing is kept after the last one. -/
theorem padded_eq_concat {element : Parser α} {separator : String} :
    ∀ {n : Nat} {ts rest : List Token} {ps : List (RightPadded α)},
      padded element separator n ts = .ok (ps, rest) → ∃ init e,
        ps = init ++ [⟨e, ""⟩] := by
  intro n
  induction n with
  | zero => intro ts rest ps h; exact absurd h stuck_ne_ok
  | succ n ih =>
      intro ts rest ps h
      simp only [padded, bind_eq_ok] at h
      obtain ⟨e, t₁, -, sep, t₂, -, h⟩ := h
      cases sep with
      | none =>
          obtain ⟨rfl, -⟩ := pure_eq_ok.1 h
          exact ⟨[], e, rfl⟩
      | some after =>
          obtain ⟨ps', t₃, h₃, h⟩ := bind_eq_ok.1 h
          obtain ⟨rfl, -⟩ := pure_eq_ok.1 h
          obtain ⟨init, last, rfl⟩ := ih h₃
          exact ⟨⟨e, after⟩ :: init, last, rfl⟩

/-- Elements with a separator between them. -/
theorem Reads.padded {element : Parser α} {shown : α → List Piece}
    (he : Reads element shown) (separator : String) (n : Nat) :
    Reads (padded element separator n) (paddedPieces shown separator) := by
  induction n with
  | zero => intro ts rest a h; exact absurd h stuck_ne_ok
  | succ n ih =>
      intro ts rest ps h
      simp only [Parser.padded, bind_eq_ok] at h
      obtain ⟨e, t₁, h₁, sep, t₂, h₂, h⟩ := h
      have hsep := symbol?_reads separator h₂
      cases sep with
      | none =>
          obtain ⟨rfl, rfl⟩ := pure_eq_ok.1 h
          simp [he h₁, hsep, paddedPieces, separated]
      | some after =>
          obtain ⟨ps', t₃, h₃, h⟩ := bind_eq_ok.1 h
          obtain ⟨rfl, rfl⟩ := pure_eq_ok.1 h
          have hps := ih h₃
          -- one more element is read after a separator, so the rest is not
          -- empty
          obtain ⟨p, ps'', rfl⟩ : ∃ p ps'', ps' = p :: ps'' := by
            obtain ⟨init, last, rfl⟩ := padded_eq_concat h₃
            cases init <;> exact ⟨_, _, rfl⟩
          simp [he h₁, hsep, hps, paddedPieces, separated]

/-- Other trivia after the last element stands after all of them. -/
theorem solid_closeLast (shown : α → List Piece) (separator : String)
    (close : Trivia) (init : List (RightPadded α)) (e : α) :
    solid (paddedPieces shown separator
      (RightPadded.closeLast close (init ++ [⟨e, ""⟩])))
      = solid (paddedPieces shown separator (init ++ [⟨e, ""⟩])) ++
        gap close := by
  induction init with
  | nil => simp [RightPadded.closeLast, paddedPieces, separated]
  | cons p init ih =>
      cases init with
      | nil => simp [RightPadded.closeLast, paddedPieces, separated]
      | cons q init => simp_all [RightPadded.closeLast, paddedPieces, separated]

theorem closeLast_ne_nil (close : Trivia) {ps : List (RightPadded α)}
    (h : ps ≠ []) : RightPadded.closeLast close ps ≠ [] := by
  fun_cases RightPadded.closeLast close ps <;> simp_all

/-- The pieces of a container between two delimiters. -/
def containerPieces (shown : α → List Piece) (opening closing : String)
    (c : Container α) : List Piece :=
  enclosed c.before opening (c.elements.map fun p =>
    shown p.element ++ [trivia p.after]) c.close
    closing

/-- Elements between two delimiters. -/
theorem Reads.delimited {element : Parser α} {shown : α → List Piece}
    (he : Reads element shown) (opening closing : String) :
    Reads (delimited element opening closing)
      (containerPieces shown opening closing) := by
  intro ts rest c h
  simp only [Parser.delimited, bind_eq_ok] at h
  obtain ⟨before, t₁, h₁, close?, t₂, h₂, h⟩ := h
  have hopen := symbol_reads opening h₁
  have hclose := symbol?_reads closing h₂
  cases close? with
  | some close =>
      obtain ⟨rfl, rfl⟩ := pure_eq_ok.1 h
      simp [hopen, hclose, containerPieces, enclosed, separated]
  | none =>
      obtain ⟨ps, t₃, h₃, close, t₄, h₄, h⟩ := by
        simpa only [bind_eq_ok] using h
      obtain ⟨rfl, rfl⟩ := pure_eq_ok.1 h
      have hps := Reads.bounded (he.padded ",") h₃
      have hend := symbol_reads closing h₄
      obtain ⟨init, e, rfl⟩ := padded_eq_concat h₃
      have hlast := solid_closeLast shown "," close init e
      have hne : RightPadded.closeLast close (init ++ [⟨e, ""⟩]) ≠ [] :=
        closeLast_ne_nil close (by simp)
      simp only [paddedPieces] at hlast hps
      simp [hopen, hclose, hps, hend, containerPieces, enclosed, hlast, hne]

/-- A keyword and a list after it. -/
theorem Reads.afterKeyword? {element : Parser α} {shown : α → List Piece}
    (he : Reads element shown) (keyword : String) :
    Reads (afterKeyword? element keyword) (optional fun c =>
      afterKeyword c.before keyword
        (c.elements.map fun p => shown p.element ++ [trivia p.after])) := by
  intro ts rest o h
  simp only [Parser.afterKeyword?, bind_eq_ok] at h
  obtain ⟨before?, t₁, h₁, h⟩ := h
  have hword := keyword?_reads keyword h₁
  cases before? with
  | none =>
      obtain ⟨rfl, rfl⟩ := pure_eq_ok.1 h
      simp [hword]
  | some before =>
      obtain ⟨ps, t₂, h₂, h⟩ := bind_eq_ok.1 h
      obtain ⟨rfl, rfl⟩ := pure_eq_ok.1 h
      have hps := Reads.bounded (he.padded ",") h₂
      simp only [paddedPieces] at hps
      simp [hword, hps, afterKeyword]

/-- Elements up to a closing symbol. -/
theorem Reads.untilSymbol {element : Parser α} {shown : α → List Piece}
    (he : Reads element shown) (closing : String) (n : Nat) :
    Reads (untilSymbol element closing n)
      fun r => r.1.flatMap shown ++ [trivia r.2, .word closing] := by
  induction n with
  | zero => intro ts rest a h; exact absurd h stuck_ne_ok
  | succ n ih =>
      intro ts rest r h
      simp only [Parser.untilSymbol, bind_eq_ok] at h
      obtain ⟨close?, t₁, h₁, h⟩ := h
      have hclose := symbol?_reads closing h₁
      cases close? with
      | some close =>
          obtain ⟨rfl, rfl⟩ := pure_eq_ok.1 h
          simp [hclose]
      | none =>
          obtain ⟨e, t₂, h₂, ⟨es, close⟩, t₃, h₃, h⟩ := by
            simpa only [bind_eq_ok] using h
          obtain ⟨rfl, rfl⟩ := pure_eq_ok.1 h
          simp [hclose, he h₂, ih h₃]

/-- Statements or members between braces. -/
theorem Reads.braced {element : Parser (RightPadded α)}
    {shown : RightPadded α → List Piece} (he : Reads element shown) :
    Reads (braced element)
      fun b => bracedPieces b.lead (b.statements.flatMap shown) b.close := by
  intro ts rest b h
  simp only [Parser.braced, bind_eq_ok] at h
  obtain ⟨lead, t₁, h₁, ⟨es, close⟩, t₂, h₂, h⟩ := h
  obtain ⟨rfl, rfl⟩ := pure_eq_ok.1 h
  have hes := Reads.bounded (he.untilSymbol "\x7d") h₂
  simp [symbol_reads _ h₁, hes, bracedPieces]

/-- Elements one after the other. -/
theorem Reads.manyWhile {element : Parser α} {shown : α → List Piece}
    (he : Reads element shown) (starts : List Token → Bool) (n : Nat) :
    Reads (manyWhile starts element n) fun es => es.flatMap shown := by
  induction n with
  | zero => intro ts rest a h; exact absurd h stuck_ne_ok
  | succ n ih =>
      intro ts rest es h
      simp only [Parser.manyWhile, bind_eq_ok, ahead_eq_ok] at h
      obtain ⟨b, t₁, ⟨-, rfl⟩, h⟩ := h
      split at h
      · obtain ⟨e, t₂, h₂, es', t₃, h₃, h⟩ := by simpa only [bind_eq_ok] using h
        obtain ⟨rfl, rfl⟩ := pure_eq_ok.1 h
        simp [he h₂, ih h₃]
      · obtain ⟨rfl, rfl⟩ := pure_eq_ok.1 h
        simp

end JavaRefit.Parser
