/-
What a reader has read when it fails.

A reader tracks a language when two things hold. What it reads is in the
language, and what it has read when it fails is the start of something
longer that is. And as long as it stays in front of some token, it does
the same whatever stands behind that token: it looks at one token ahead
and no further. Each way to build readers keeps this, so that it is shown
for the readers by going along their definitions.

Readers that count their turns are compared with themselves on other
tokens, that is, with other counts. So a reader and another one are taken
together, each with a bound on the tokens that its count is good for.

Chain: after `Respaced`; the readers come next.
-/
import Mathlib.Computability.Language
import Mathlib.Order.CompletePartialOrder
import JavaRefit.Proofs.Grammar.Respaced

namespace JavaRefit

/-- The words of some tokens. -/
def wordsOf (ts : List Token) : List Word := ts.map Token.word

@[simp] theorem wordsOf_nil : wordsOf [] = [] := rfl

@[simp] theorem wordsOf_cons (t : Token) (ts : List Token) :
    wordsOf (t :: ts) = t.word :: wordsOf ts := rfl

@[simp] theorem wordsOf_append (ts us : List Token) :
    wordsOf (ts ++ us) = wordsOf ts ++ wordsOf us := List.map_append

@[simp] theorem length_wordsOf (ts : List Token) :
    (wordsOf ts).length = ts.length :=
  List.length_map ..

/-- A word with nothing in front. -/
def Word.bare (w : Word) : Token := ⟨"", w⟩

/-- Words with nothing in front have the same words as the tokens they are
of. -/
theorem SameWords.bare {ts : List Token} {ws : List Word}
    (h : wordsOf ts = ws) : SameWords ts (ws.map Word.bare) := by
  subst h
  simp [SameWords, wordsOf, Word.bare, Function.comp_def]

/-- The words that spell something. -/
def Words {α : Type} (R : Spelling α) : Language Word :=
  {ws | ∃ a, R (ws.map Word.bare) a}

/-- The single words that pass a test. -/
def Taken {α : Type} (g : Token → Option α) : Language Word :=
  {ws | ∃ w a, g w.bare = some a ∧ ws = [w]}

/-- What such a test lets through is among the words it takes. -/
theorem ReadsWord.taken {α β : Type} {blank : α → β} {g : Token → Option α}
    (hg : ReadsWord blank g) {t : Token} {a : α} (h : g t = some a) :
    [t.word] ∈ Taken g := by
  obtain ⟨b, hb, -⟩ := hg.respaced h ""
  exact ⟨t.word, b, hb, rfl⟩

/-- The single names. -/
def anyName : Language Word := {ws | ∃ s, ws = [Word.name s]}

namespace Parser

variable {α β : Type} {m m' n n' : Nat}

/-- The first reader tracks the language on fewer than `m` tokens, and does as
the second one on fewer than `m'`. -/
structure Tracks (m m' : Nat) (p p' : Parser α) (L : Language Word) : Prop where
  /-- Something can be read. -/
  inhabited : Nonempty α ∧ ∃ ws, ws ∈ L
  /-- What is read is in the language. -/
  read : ∀ ⦃ts rest : List Token⦄ ⦃a : α⦄, ts.length < m →
    p ts = .ok (a, rest) → ∃ c ∈ L, wordsOf ts = c ++ wordsOf rest
  /-- What is read before a failure is the start of something longer in the
  language. -/
  viable : ∀ ⦃ts : List Token⦄ ⦃left : Nat⦄, ts.length < m →
    p ts = .error left →
    ∃ c r vs, wordsOf ts = c ++ r ∧ r.length = left ∧ vs ≠ [] ∧ c ++ vs ∈ L
  /-- A reading that ends in front of a token does not depend on what is behind
  it. -/
  reads : ∀ ⦃pre rest rest' mid : List Token⦄ ⦃a : α⦄,
    (pre ++ rest).length < m →
    (pre ++ rest').length < m' → p (pre ++ rest) = .ok (a, mid) →
    rest.length < mid.length →
    ∃ left, mid = left ++ rest ∧ p' (pre ++ rest') = .ok (a, left ++ rest')
  /-- Nor does a failure at the token. -/
  fails : ∀ ⦃pre rest rest' : List Token⦄ ⦃k : Nat⦄, (pre ++ rest).length < m →
    (pre ++ rest').length < m' →
    p (pre ++ rest) = .error (k + rest.length) → 0 < k →
    p' (pre ++ rest') = .error (k + rest'.length)

namespace Tracks

variable {p p' : Parser α} {L M : Language Word}

/-- A parser that tracks a language never lengthens the tokens. -/
theorem length_of_read (h : Tracks m m' p p' L) {ts rest : List Token} {a : α}
    (hlt : ts.length < m) (hok : p ts = .ok (a, rest)) :
    rest.length ≤ ts.length := by
  obtain ⟨c, -, hc⟩ := h.read hlt hok
  replace hc := congrArg List.length hc
  simp only [length_wordsOf, List.length_append] at hc
  omega

/-- The words read are in the tracked language. -/
theorem mem_of_read (h : Tracks m m' p p' L) {ts rest : List Token} {a : α}
    {c : List Word} (hlt : ts.length < m) (hok : p ts = .ok (a, rest))
    (heq : wordsOf ts = c ++ wordsOf rest) :
    c ∈ L := by
  obtain ⟨d, hd, heq'⟩ := h.read hlt hok
  rwa [List.append_cancel_right (heq.symm.trans heq')]

/-- A failure is reported at a token that is there, or at the end. -/
theorem left_le (h : Tracks m m' p p' L) {ts : List Token} {left : Nat}
    (hlt : ts.length < m) (herror : p ts = .error left) : left ≤ ts.length := by
  obtain ⟨c, r, vs, hc, rfl, -⟩ := h.viable hlt herror
  replace hc := congrArg List.length hc
  simp only [length_wordsOf, List.length_append] at hc
  omega

/-- With no token in front, there is nothing to compare. -/
theorem of_cons (hinhabited : Nonempty α ∧ ∃ ws, ws ∈ L)
    (hread : ∀ ⦃ts rest : List Token⦄ ⦃a : α⦄, ts.length < m →
      p ts = .ok (a, rest) →
      ∃ c ∈ L, wordsOf ts = c ++ wordsOf rest)
    (hviable : ∀ ⦃ts : List Token⦄ ⦃left : Nat⦄, ts.length < m →
      p ts = .error left →
      ∃ c r vs, wordsOf ts = c ++ r ∧ r.length = left ∧ vs ≠ [] ∧ c ++ vs ∈ L)
    (hreads : ∀ ⦃t : Token⦄ ⦃pre rest rest' mid : List Token⦄ ⦃a : α⦄,
      (t :: pre ++ rest).length < m → (t :: pre ++ rest').length < m' →
      p (t :: pre ++ rest) = .ok (a, mid) → rest.length < mid.length →
      ∃ left, mid = left ++ rest ∧ p' (t :: pre ++ rest') =
        .ok (a, left ++ rest'))
    (hfails : ∀ ⦃t : Token⦄ ⦃pre rest rest' : List Token⦄ ⦃k : Nat⦄,
      (t :: pre ++ rest).length < m → (t :: pre ++ rest').length < m' →
      p (t :: pre ++ rest) = .error (k + rest.length) → 0 < k →
      p' (t :: pre ++ rest') = .error (k + rest'.length)) :
    Tracks m m' p p' L := by
  refine ⟨hinhabited, hread, hviable,
    fun pre rest rest' mid a hlt hlt' hok hmid => ?_,
    fun pre rest rest' k hlt hlt' herror hk => ?_⟩
  · cases pre with
    | nil =>
        obtain ⟨c, -, hc⟩ := hread hlt hok
        replace hc := congrArg List.length hc
        simp only [length_wordsOf, List.length_append, List.length_nil] at hc
        omega
    | cons t pre => exact hreads hlt hlt' hok hmid
  · cases pre with
    | nil =>
        obtain ⟨c, r, vs, hc, hr, -⟩ := hviable hlt herror
        replace hc := congrArg List.length hc
        simp only [length_wordsOf, List.length_append, List.length_nil] at hc
        omega
    | cons t pre => exact hfails hlt hlt' herror hk

/-- A larger language is tracked too. -/
theorem mono (h : Tracks m m' p p' L) (hL : L ≤ M) : Tracks m m' p p' M := by
  obtain ⟨⟨ha, ws, hws⟩, hread, hviable, hreads, hfails⟩ := h
  refine ⟨⟨ha, ws, hL hws⟩, fun ts rest a hlt hok => ?_,
    fun ts left hlt herror => ?_, hreads, hfails⟩
  · obtain ⟨c, hc, heq⟩ := hread hlt hok
    exact ⟨c, hL hc, heq⟩
  · obtain ⟨c, r, vs, heq, hr, hvs, hc⟩ := hviable hlt herror
    exact ⟨c, r, vs, heq, hr, hvs, hL hc⟩

/-- Fewer tokens are tracked, too. -/
theorem below (h : Tracks n n' p p' L) (hm : m ≤ n) (hm' : m' ≤ n') :
    Tracks m m' p p' L :=
  ⟨h.inhabited, fun _ _ _ hlt => h.read (Nat.lt_of_lt_of_le hlt hm),
    fun _ _ hlt => h.viable (Nat.lt_of_lt_of_le hlt hm),
    fun _ _ _ _ _ hlt hlt' =>
      h.reads (Nat.lt_of_lt_of_le hlt hm) (Nat.lt_of_lt_of_le hlt' hm'),
    fun _ _ _ _ hlt hlt' =>
      h.fails (Nat.lt_of_lt_of_le hlt hm) (Nat.lt_of_lt_of_le hlt' hm')⟩

/-- With no tokens for the second reader, it can be any. -/
theorem zero {q : Parser α} (h : Tracks m m' p p' L) : Tracks m 0 p q L :=
  ⟨h.inhabited, h.read, h.viable, fun _ _ _ _ _ _ hlt =>
    absurd hlt (Nat.not_lt_zero _),
    fun _ _ _ _ _ hlt => absurd hlt (Nat.not_lt_zero _)⟩

-- ============================================================ one by one

/-- Two parsers in a row: the second goes on where the first stopped. -/
theorem bind_eq (p : Parser α) (f : α → Parser β) (ts : List Token) :
    (p >>= f) ts = match p ts with
      | .ok (a, rest) => f a rest
      | .error left => .error left := by
  show (p ts >>= fun r => f r.1 r.2) = _
  cases p ts <;> rfl

/-- One reader after another, where what comes next depends on what was read. -/
theorem bind_of {f f' : α → Parser β} {S : α → Language Word}
    {Q : α → List Word → Prop} (hp : Tracks m m' p p' L)
    (hQ : ∀ ⦃ts rest : List Token⦄ ⦃a : α⦄ ⦃c : List Word⦄, ts.length < m →
      p ts = .ok (a, rest) →
      wordsOf ts = c ++ wordsOf rest → Q a c)
    (hf : ∀ a c, Q a c → Tracks n n' (f a) (f' a) (S a))
    (hM : ∀ a c, Q a c → ∀ d ∈ S a, c ++ d ∈ M)
    (hstart : ∀ c ∈ L, ∃ d, c ++ d ∈ M) (hβ : Nonempty β)
    (hlt : ∀ c ∈ L, m ≤ n + c.length ∧ m' ≤ n' + c.length) :
    Tracks m m' (p >>= f) (p' >>= f') M := by
  -- What is left of the tokens is few enough for the second reader.
  have hmid {ts mid : List Token} {a : α} (hts : ts.length < m)
      (hok : p ts = .ok (a, mid)) :
      ∃ c, wordsOf ts = c ++ wordsOf mid ∧ ts.length = c.length + mid.length ∧
      mid.length < n ∧
        m' ≤ n' + c.length ∧ Tracks n n' (f a) (f' a) (S a) ∧ ∀ d ∈ S a,
          c ++ d ∈ M := by
    obtain ⟨c, hc, heq⟩ := hp.read hts hok
    have hlength := congrArg List.length heq
    simp only [length_wordsOf, List.length_append] at hlength
    have ha := hQ hts hok heq
    obtain ⟨hm, hm'⟩ := hlt c hc
    exact ⟨c, heq, hlength, by omega, hm', hf a c ha, hM a c ha⟩
  refine ⟨?_, fun ts rest b hts hok => ?_, fun ts left hts herror => ?_,
    fun pre rest rest' mid b hts hts' hok hlt => ?_,
    fun pre rest rest' k hts hts' herror hk => ?_⟩
  · obtain ⟨-, ws, hws⟩ := hp.inhabited
    exact ⟨hβ, _, (hstart ws hws).choose_spec⟩
  · rw [bind_eq] at hok
    cases hpts : p ts with
    | error left => rw [hpts] at hok; cases hok
    | ok r =>
        obtain ⟨a, mid⟩ := r
        rw [hpts] at hok
        obtain ⟨c, heq, -, hn, -, hfa, hc⟩ := hmid hts hpts
        obtain ⟨d, hd, heq'⟩ := hfa.read hn hok
        exact ⟨c ++ d, hc d hd, by rw [heq, heq', List.append_assoc]⟩
  · rw [bind_eq] at herror
    cases hpts : p ts with
    | error left' =>
        rw [hpts] at herror
        cases herror
        obtain ⟨c, r, vs, heq, hr, hvs, hc⟩ := hp.viable hts hpts
        obtain ⟨d, hd⟩ := hstart _ hc
        refine ⟨c, r, vs ++ d, heq, hr, by simp [hvs], ?_⟩
        rwa [← List.append_assoc]
    | ok r =>
        obtain ⟨a, mid⟩ := r
        rw [hpts] at herror
        obtain ⟨c, heq, -, hn, -, hfa, hc⟩ := hmid hts hpts
        obtain ⟨d, r, vs, heq', hr, hvs, hd⟩ := hfa.viable hn herror
        refine ⟨c ++ d, r, vs, by rw [heq, heq', List.append_assoc],
          hr, hvs, ?_⟩
        rw [List.append_assoc]
        exact hc _ hd
  · rw [bind_eq] at hok ⊢
    cases hpts : p (pre ++ rest) with
    | error left => rw [hpts] at hok; cases hok
    | ok r =>
        obtain ⟨a, mid'⟩ := r
        rw [hpts] at hok
        obtain ⟨c, -, hlength, hn, hm', hfa, -⟩ := hmid hts hpts
        have hle := hfa.length_of_read hn hok
        obtain ⟨left, rfl, hpts'⟩ :=
          hp.reads hts hts' hpts (Nat.lt_of_lt_of_le hlt hle)
        rw [hpts']
        simp only [List.length_append] at hlength hts'
        exact hfa.reads hn (by rw [List.length_append]; omega) hok hlt
  · rw [bind_eq] at herror ⊢
    cases hpts : p (pre ++ rest) with
    | error left =>
        rw [hpts] at herror
        cases herror
        rw [hp.fails hts hts' hpts hk]
    | ok r =>
        obtain ⟨a, mid'⟩ := r
        rw [hpts] at herror
        obtain ⟨c, -, hlength, hn, hm', hfa, -⟩ := hmid hts hpts
        have hle := hfa.left_le hn herror
        obtain ⟨left, rfl, hpts'⟩ := hp.reads hts hts' hpts (by omega)
        rw [hpts']
        simp only [List.length_append] at hlength hts'
        exact hfa.fails hn (by rw [List.length_append]; omega) herror hk

/-- One reader after another, with a bound for the second one. -/
theorem bind_below {f f' : α → Parser β} (hp : Tracks m m' p p' L)
    (hf : ∀ a, Tracks n n' (f a) (f' a) M)
    (hlt : ∀ c ∈ L, m ≤ n + c.length ∧ m' ≤ n' + c.length) :
    Tracks m m' (p >>= f) (p' >>= f') (L * M) := by
  obtain ⟨⟨a⟩, -⟩ := hp.inhabited
  obtain ⟨hβ, ws, hws⟩ := (hf a).inhabited
  refine hp.bind_of (S := fun _ => M) (Q := fun _ c => c ∈ L) ?_
    (fun a _ _ => hf a) ?_ ?_ hβ hlt
  · exact fun ts rest a c hts hok heq => hp.mem_of_read hts hok heq
  · exact fun _ c hc d hd => Language.append_mem_mul hc hd
  · exact fun c hc => ⟨ws, Language.append_mem_mul hc hws⟩

/-- One reader after another. -/
theorem bind {f f' : α → Parser β} (hp : Tracks m m' p p' L)
    (hf : ∀ a, Tracks m m' (f a) (f' a) M) :
    Tracks m m' (p >>= f) (p' >>= f') (L * M) :=
  hp.bind_below hf fun _ _ => ⟨Nat.le_add_right _ _, Nat.le_add_right _ _⟩

/-- One reader after another, where the first one takes a token at least. -/
theorem bind_lt {f f' : α → Parser β} (hp : Tracks m m' p p' L) (hL : [] ∉ L)
    (hf : ∀ a, Tracks n n' (f a) (f' a) M) (hm : m ≤ n + 1)
    (hm' : m' ≤ n' + 1) :
    Tracks m m' (p >>= f) (p' >>= f') (L * M) := by
  refine hp.bind_below hf fun c hc => ?_
  have hne : c ≠ [] := fun h => hL (h ▸ hc)
  have hpos := List.length_pos_iff.2 hne
  omega

/-- A parser that reads nothing tracks the empty word alone. -/
theorem pure (a : α) : Tracks m m' (Pure.pure a) (Pure.pure a) 1 := by
  refine ⟨⟨⟨a⟩, [], rfl⟩, fun ts rest b _ hok => ?_, fun ts left _ herror => ?_,
    fun pre rest rest' mid b _ _ hok _ => ?_,
    fun pre rest rest' k _ _ herror _ => ?_⟩
  · cases hok
    exact ⟨[], rfl, rfl⟩
  · cases herror
  · cases hok
    exact ⟨pre, rfl, rfl⟩
  · cases herror

/-- A reader whose result is built up further. -/
theorem bind_pure {g : α → β} (hp : Tracks m m' p p' L) :
    Tracks m m' (p >>= fun a => Pure.pure (g a))
      (p' >>= fun a => Pure.pure (g a)) L := by
  have h := hp.bind fun a => (pure (g a) : Tracks m m' _ _ 1)
  rwa [mul_one] at h

/-- What is made of the value read is no matter for the words. -/
theorem map {g : α → β} (hp : Tracks m m' p p' L) :
    Tracks m m' (g <$> p) (g <$> p') L := by
  rw [← bind_pure_comp, ← bind_pure_comp]
  exact hp.bind_pure

-- ============================================================ next token

/-- A token that passes a test. -/
theorem take {g : Token → Option α} (hg : ∀ t a, g t = some a → [t.word] ∈ L)
    {t₀ : Token} {a₀ : α} (h₀ : g t₀ = some a₀) :
    Tracks m m' (take g) (take g) L := by
  refine .of_cons ⟨⟨a₀⟩, _, hg t₀ a₀ h₀⟩ (fun ts rest a _ hok => ?_)
    (fun ts left _ herror => ?_)
    (fun t pre rest rest' mid a _ _ hok _ => ?_)
      (fun t pre rest rest' k _ _ herror _ => ?_)
  · obtain ⟨t, rfl, ht⟩ := take_eq_ok.1 hok
    exact ⟨_, hg t a ht, rfl⟩
  · refine ⟨[], wordsOf ts, [t₀.word], rfl, ?_, List.cons_ne_nil _ _,
      hg t₀ a₀ h₀⟩
    rw [length_wordsOf]
    cases ts with
    | nil =>
        cases herror
        rfl
    | cons t ts =>
        rw [Parser.take] at herror
        cases ht : g t <;> rw [ht] at herror <;> cases herror
        rfl
  · rw [List.cons_append, Parser.take] at hok ⊢
    cases ht : g t <;> rw [ht] at hok <;> cases hok
    exact ⟨pre, rfl, rfl⟩
  · rw [List.cons_append, Parser.take] at herror ⊢
    cases ht : g t with
    | some a => rw [ht] at herror; cases herror
    | none =>
        rw [ht] at herror
        have hk := Except.error.inj herror
        simp only [List.length_cons, List.length_append] at hk ⊢
        exact congrArg Except.error (by omega)

/-- An optional token, with what follows in either case. -/
theorem take?_bind_cons (g : Token → Option α) (t : Token) (ts : List Token)
    (f : Option α → Parser β) : (take? g >>= f) (t :: ts) =
      match g t with
      | some a => f (some a) ts
      | none => f none (t :: ts) := by
  rw [bind_eq, take?]
  cases g t <;> rfl

/-- A test of the next token, after which one goes on either way. -/
theorem take?_bind {g : Token → Option α} {f f' : Option α → Parser β}
    {S T : Language Word} (hg : ∀ t a, g t = some a → [t.word] ∈ L)
    (hsome : ∀ a, Tracks n n' (f (some a)) (f' (some a)) S)
    (hnone : Tracks m m' (f none) (f' none) T) (hm : m ≤ n + 1)
    (hm' : m' ≤ n' + 1) :
    Tracks m m' (take? g >>= f) (take? g >>= f') (L * S + T) := by
  have hS (d : List Word) (t : Token) (a : α) (ht : g t = some a) (hd : d ∈ S) :
      t.word :: d ∈ L * S + T :=
    .inl (Language.append_mem_mul (hg t a ht) hd)
  refine .of_cons ⟨hnone.inhabited.1, ?_⟩ (fun ts rest b hts hok => ?_)
    (fun ts left hts herror => ?_)
      (fun t pre rest rest' mid a hts hts' hok hlt => ?_)
    (fun t pre rest rest' k hts hts' herror hk => ?_)
  · obtain ⟨ws, hws⟩ := hnone.inhabited.2
    exact ⟨ws, .inr hws⟩
  · cases ts with
    | nil =>
        obtain ⟨c, hc, heq⟩ := hnone.read hts hok
        exact ⟨c, .inr hc, heq⟩
    | cons t ts =>
        rw [take?_bind_cons] at hok
        cases ht : g t with
        | none =>
            rw [ht] at hok
            obtain ⟨c, hc, heq⟩ := hnone.read hts hok
            exact ⟨c, .inr hc, heq⟩
        | some a =>
            rw [ht] at hok
            rw [List.length_cons] at hts
            obtain ⟨c, hc, heq⟩ := (hsome a).read (by omega) hok
            exact ⟨t.word :: c, hS c t a ht hc, congrArg (t.word :: ·) heq⟩
  · cases ts with
    | nil =>
        obtain ⟨c, r, vs, heq, hr, hvs, hc⟩ := hnone.viable hts herror
        exact ⟨c, r, vs, heq, hr, hvs, .inr hc⟩
    | cons t ts =>
        rw [take?_bind_cons] at herror
        cases ht : g t with
        | none =>
            rw [ht] at herror
            obtain ⟨c, r, vs, heq, hr, hvs, hc⟩ := hnone.viable hts herror
            exact ⟨c, r, vs, heq, hr, hvs, .inr hc⟩
        | some a =>
            rw [ht] at herror
            rw [List.length_cons] at hts
            obtain ⟨c, r, vs, heq, hr, hvs, hc⟩ :=
              (hsome a).viable (by omega) herror
            exact ⟨t.word :: c, r, vs, congrArg (t.word :: ·) heq, hr, hvs,
              hS _ t a ht hc⟩
  · rw [List.cons_append, take?_bind_cons] at hok ⊢
    rw [List.cons_append, List.length_cons] at hts hts'
    cases ht : g t with
    | none =>
        rw [ht] at hok
        exact hnone.reads (show (t :: pre ++ rest).length < m from hts)
          hts' hok hlt
    | some a =>
        rw [ht] at hok
        exact (hsome a).reads (by omega) (by omega) hok hlt
  · rw [List.cons_append, take?_bind_cons] at herror ⊢
    rw [List.cons_append, List.length_cons] at hts hts'
    cases ht : g t with
    | none =>
        rw [ht] at herror
        exact hnone.fails (show (t :: pre ++ rest).length < m from hts)
          hts' herror hk
    | some a =>
        rw [ht] at herror
        exact (hsome a).fails (by omega) (by omega) herror hk

/-- A look at the next token, after which one goes on either way. -/
theorem ahead_bind {g : List Token → Bool} {f f' : Bool → Parser β}
    (hg : ∀ t ts ts', g (t :: ts) = g (t :: ts'))
    (hf : ∀ b, Tracks m m' (f b) (f' b) M) :
    Tracks m m' (ahead g >>= f) (ahead g >>= f') M := by
  have hahead (ts : List Token) (f : Bool → Parser β) :
      (ahead g >>= f) ts = f (g ts) ts := rfl
  refine .of_cons (hf true).inhabited (fun ts rest b hts hok => ?_)
    (fun ts left hts herror => ?_)
    (fun t pre rest rest' mid a hts hts' hok hlt => ?_)
    (fun t pre rest rest' k hts hts' herror hk => ?_)
  · exact (hf _).read hts hok
  · exact (hf _).viable hts herror
  · rw [hahead, List.cons_append] at hok ⊢
    rw [hg t _ (pre ++ rest)]
    exact (hf _).reads (show (t :: pre ++ rest).length < m from hts)
      hts' hok hlt
  · rw [hahead, List.cons_append] at herror ⊢
    rw [hg t _ (pre ++ rest)]
    exact (hf _).fails (show (t :: pre ++ rest).length < m from hts)
      hts' herror hk

/-- The trivia in front of the next token detached. -/
theorem takeLead_bind {f f' : Trivia → Parser β}
    (hf : ∀ lead, Tracks m m' (f lead) (f' lead) M) :
    Tracks m m' (takeLead >>= f) (takeLead >>= f') M := by
  have htake (t : Token) (ts : List Token) (f : Trivia → Parser β) :
      (takeLead >>= f) (t :: ts) = f t.lead (⟨"", t.word⟩ :: ts) := rfl
  refine .of_cons (hf "").inhabited (fun ts rest b hts hok => ?_)
    (fun ts left hts herror => ?_)
    (fun t pre rest rest' mid a hts hts' hok hlt => ?_)
    (fun t pre rest rest' k hts hts' herror hk => ?_)
  · cases ts with
    | nil => exact (hf "").read hts hok
    | cons t ts =>
        have hbare : (t.word.bare :: ts).length < m := hts
        have hread := (hf t.lead).read hbare hok
        exact hread
  · cases ts with
    | nil => exact (hf "").viable hts herror
    | cons t ts =>
        have hbare : (t.word.bare :: ts).length < m := hts
        have hviable := (hf t.lead).viable hbare herror
        exact hviable
  · exact (hf t.lead).reads (show (t.word.bare :: pre ++ rest).length <
      m from hts) hts' hok hlt
  · exact (hf t.lead).fails (show (t.word.bare :: pre ++ rest).length <
      m from hts) hts' herror hk

-- ============================================================== either or

/-- One reader and, where it fails, another one. What the second one reads is
not the start of anything that the first one could read: so a failure behind
that is none. -/
theorem orElse {N : Language Word} {q q' : Parser α} (hp : Tracks m m' p p' L)
    (hq : Tracks m m' q q' M) (hL : L ≤ N) (hM : M ≤ N)
    (hends : ∀ d ∈ M, ∀ y, d ++ y ∈ L → y = []) :
    Tracks m m' (orElse p q) (orElse p' q') N := by
  have hinhabited := (hp.mono hL).inhabited
  refine ⟨hinhabited, fun ts rest a hts hok => ?_, fun ts left hts herror => ?_,
    fun pre rest rest' mid a hts hts' hok hlt => ?_,
    fun pre rest rest' k hts hts' herror hk => ?_⟩
  · rw [Parser.orElse] at hok
    cases hpts : p ts with
    | ok r =>
        rw [hpts] at hok
        exact (hp.mono hL).read hts (hpts.trans hok)
    | error left =>
        rw [hpts] at hok
        cases hqts : q ts with
        | ok r =>
            rw [hqts] at hok
            exact (hq.mono hM).read hts (hqts.trans hok)
        | error left' => rw [hqts] at hok; cases hok
  · rw [Parser.orElse] at herror
    cases hpts : p ts with
    | ok r => rw [hpts] at herror; cases herror
    | error l =>
        rw [hpts] at herror
        cases hqts : q ts with
        | ok r => rw [hqts] at herror; cases herror
        | error l' =>
            rw [hqts] at herror
            cases herror
            rcases Nat.le_total l l' with hle | hle
            · rw [Nat.min_eq_left hle]
              exact (hp.mono hL).viable hts hpts
            · rw [Nat.min_eq_right hle]
              exact (hq.mono hM).viable hts hqts
  · rw [Parser.orElse] at hok ⊢
    cases hpts : p (pre ++ rest) with
    | ok r =>
        rw [hpts] at hok
        obtain ⟨left, rfl, hpts'⟩ := hp.reads hts hts' (hpts.trans hok) hlt
        rw [hpts']
        exact ⟨left, rfl, rfl⟩
    | error l =>
        rw [hpts] at hok
        cases hqts : q (pre ++ rest) with
        | error l' => rw [hqts] at hok; cases hok
        | ok r =>
            rw [hqts] at hok
            obtain ⟨d, hd, heq⟩ := hq.read hts (hqts.trans hok)
            obtain ⟨c, r, vs, heq', rfl, hvs, hc⟩ := hp.viable hts hpts
            -- The first reader fails before the second one is through.
            have hl : mid.length ≤ r.length := by
              obtain ⟨y, -, rfl⟩ | ⟨y, rfl, -⟩ :=
                List.append_eq_append_iff.1 (heq'.symm.trans heq)
              · simp
              · rw [List.append_assoc] at hc
                exact absurd (List.append_eq_nil_iff.1 (hends d hd _ hc)).2 hvs
            obtain ⟨j, hj⟩ :=
              Nat.exists_eq_add_of_lt (Nat.lt_of_lt_of_le hlt hl)
            obtain ⟨left, rfl, hqts'⟩ := hq.reads hts hts' (hqts.trans hok) hlt
            have hr : r.length = j + 1 + rest.length := by omega
            rw [hr] at hpts
            rw [hp.fails hts hts' hpts (Nat.succ_pos j), hqts']
            exact ⟨left, rfl, rfl⟩
  · rw [Parser.orElse] at herror ⊢
    cases hpts : p (pre ++ rest) with
    | ok r => rw [hpts] at herror; cases herror
    | error l =>
        rw [hpts] at herror
        cases hqts : q (pre ++ rest) with
        | ok r => rw [hqts] at herror; cases herror
        | error l' =>
            rw [hqts] at herror
            have hmin : min l l' = k + rest.length := Except.error.inj herror
            obtain ⟨i, rfl⟩ :=
              Nat.exists_eq_add_of_le' (show rest.length ≤ l by omega)
            obtain ⟨i', rfl⟩ :=
              Nat.exists_eq_add_of_le' (show rest.length ≤ l' by omega)
            rw [hp.fails hts hts' hpts (by omega),
              hq.fails hts hts' hqts (by omega)]
            exact congrArg Except.error (by omega)

-- =============================================================== counted

/-- Readers whose turns are counted: each step is good for one token more. What
they have so far is an accumulator. -/
theorem fuel {ι : Type} {P P' : Nat → ι → Parser α} {L : ι → Language Word}
    (hne : ∀ x, Nonempty α ∧ ∃ ws, ws ∈ L x)
    (step : ∀ ⦃k k' i j⦄, k < m → j ≤ i + 1 → i ≤ m' → j ≤ m' →
      (∀ x, Tracks k i (P k x) (P' k' x) (L x)) →
      ∀ x, Tracks (k + 1) j (P (k + 1) x) (P' (k' + 1) x) (L x))
    {k k' j : Nat} (hk : k ≤ m) (hj : j ≤ k') (hj' : j ≤ m') (x : ι) :
    Tracks k j (P k x) (P' k' x) (L x) := by
  induction k generalizing k' j x with
  | zero =>
      exact ⟨hne x, fun _ _ _ hlt => absurd hlt (Nat.not_lt_zero _),
        fun _ _ hlt => absurd hlt (Nat.not_lt_zero _),
        fun _ _ _ _ _ hlt => absurd hlt (Nat.not_lt_zero _),
        fun _ _ _ _ hlt => absurd hlt (Nat.not_lt_zero _)⟩
  | succ k ih =>
      cases k' with
      | zero =>
          -- There is no token for the second reader, so that another count
          -- does as well.
          obtain rfl : j = 0 := Nat.le_zero.1 hj
          exact (step hk (Nat.zero_le 1) (Nat.zero_le m') hj'
            (fun x => ih (Nat.le_of_succ_le hk) (Nat.le_refl 0)
              (Nat.zero_le _) x) x).zero
      | succ k' =>
          exact step hk (by omega : j ≤ j - 1 + 1) (by omega) hj'
            (fun x => ih (Nat.le_of_succ_le hk) (by omega) (by omega) x) x

/-- A reader that is given enough turns for the tokens. -/
theorem loop {ι : Type} {P P' : Nat → ι → Parser α} {L : ι → Language Word}
    (hne : ∀ x, Nonempty α ∧ ∃ ws, ws ∈ L x)
    (step : ∀ ⦃k k' i j⦄, k < m → j ≤ i + 1 → i ≤ m' → j ≤ m' →
      (∀ x, Tracks k i (P k x) (P' k' x) (L x)) →
      ∀ x, Tracks (k + 1) j (P (k + 1) x) (P' (k' + 1) x) (L x)) (x : ι) :
    Tracks m m' (bounded fun n => P n x) (bounded fun n => P' n x) (L x) := by
  have hone {ts : List Token} (hts : ts.length < m) :
      Tracks (ts.length + 1) 0 (P (ts.length + 1) x) (P' 0 x) (L x) :=
    fuel hne step hts (Nat.le_refl 0) (Nat.zero_le m') x
  have htwo {ts ts' : List Token} (hts : ts.length < m)
      (hts' : ts'.length < m') :
      Tracks (ts.length + 1) (ts'.length + 1) (P (ts.length + 1) x)
        (P' (ts'.length + 1) x) (L x) :=
    fuel hne step hts (Nat.le_refl _) hts' x
  exact ⟨hne x, fun ts rest a hts hok =>
    (hone hts).read (Nat.lt_succ_self _) hok,
    fun ts left hts herror => (hone hts).viable (Nat.lt_succ_self _) herror,
    fun pre rest rest' mid a hts hts' hok hlt =>
      (htwo hts hts').reads (Nat.lt_succ_self _) (Nat.lt_succ_self _) hok hlt,
    fun pre rest rest' k hts hts' herror hk =>
      (htwo hts hts').fails (Nat.lt_succ_self _) (Nat.lt_succ_self _) herror hk⟩

/-- A reader that only counts. -/
theorem turns {P P' : Nat → Parser α} (hne : Nonempty α ∧ ∃ ws, ws ∈ L)
    (step : ∀ ⦃k k' i j⦄, k < m → j ≤ i + 1 → i ≤ m' → j ≤ m' →
      Tracks k i (P k) (P' k') L →
      Tracks (k + 1) j (P (k + 1)) (P' (k' + 1)) L) :
    Tracks m m' (bounded P) (bounded P') L := by
  have h : ∀ _ : Unit, Tracks m m' (bounded P) (bounded P') L :=
    loop (fun _ => hne) fun k k' i j hk hj hi hj' ih _ =>
      step hk hj hi hj' (ih ())
  exact h ()

-- =========================================================== given words

/-- The parser of one word tracks that word. -/
theorem word (w : Word) : Tracks m m' (word w) (word w) {[w]} :=
  take (fun t lead ht => by rw [leadOf_eq_some ht]; rfl)
    (if_pos rfl : leadOf w w.bare = some "")

/-- After an optional word the two ways to go on are tracked apart. -/
theorem word?_bind {w : Word} {f f' : Option Trivia → Parser β}
    {S T : Language Word} (hsome : ∀ lead,
      Tracks n n' (f (some lead)) (f' (some lead)) S)
    (hnone : Tracks m m' (f none) (f' none) T) (hm : m ≤ n + 1)
    (hm' : m' ≤ n' + 1) :
    Tracks m m' (word? w >>= f) (word? w >>= f') ({[w]} * S + T) :=
  take?_bind (fun t lead ht => by rw [leadOf_eq_some ht]; rfl)
    hsome hnone hm hm'

/-- A look ahead reads nothing, so either way to go on must be tracked. -/
theorem isNext_bind {w : Word} {f f' : Bool → Parser β}
    (hf : ∀ b, Tracks m m' (f b) (f' b) M) :
    Tracks m m' (isNext w >>= f) (isNext w >>= f') M :=
  ahead_bind (fun _ _ _ => rfl) hf

/-- A choice by a condition, tracked on both sides. -/
theorem ite {c : Prop} [Decidable c] {q q' : Parser α}
    (hp : c → Tracks m m' p p' L) (hq : ¬c → Tracks m m' q q' L) :
    Tracks m m' (if c then p else q) (if c then p' else q') L := by
  split
  · exact hp ‹c›
  · exact hq ‹¬c›

/-- One reader or the other, as the next word has it. -/
theorem isNext_ite {w : Word} {q q' : Parser α} (hp : Tracks m m' p p' L)
    (hq : Tracks m m' q q' M) :
    Tracks m m' (isNext w >>= fun b => if b = true then p else q)
      (isNext w >>= fun b => if b = true then p' else q') (L + M) :=
  isNext_bind fun _ => ite (fun _ => hp.mono fun _ => Or.inl) fun _ =>
    hq.mono fun _ => Or.inr

/-- The parser of an identifier tracks the names. -/
theorem ident : Tracks m m' ident ident anyName :=
  take (fun t i ht => ⟨i.name, by rw [asIdent_eq_some ht]⟩)
    (rfl : asIdent (Word.name "").bare = some ⟨"", ""⟩)

end Tracks

end Parser

end JavaRefit
