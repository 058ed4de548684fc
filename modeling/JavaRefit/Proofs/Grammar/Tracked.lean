/-
The readers up to declarations track what they read.

One statement for each reader, by going along its definition. A reader over
a reader of the nested parts is good for one token more than that: whatever
nests is between delimiters or behind a word. So depth is counted like
turns, and the knot is tied.

Chain: after `Tracks` and the rules that solve themselves in `Derived`;
statements and what is above them come next.
-/
import JavaRefit.Proofs.Grammar.Derived
import JavaRefit.Proofs.Grammar.Tracks

namespace JavaRefit

open Spelling
open scoped Computability

/-- The rule for types is its own solution. -/
theorem spellsType_of_typeWith {us : List Token} {t : TypeTree}
    (h : TypeWith SpellsType us t) : SpellsType us t := by
  have hn : Parser.CompleteBelow us.length
      (Parser.typeTreeOfDepth us.length) SpellsType
      Word.extendsType := fun vs t hlt ⟨n, h⟩ =>
        Parser.typeTreeOfDepth_complete _ n hlt h
  have hread := Parser.typeTreeWith_complete hn (fun _ _ => opens_type)
    (Nat.le_refl _) h [] Stops.nil
  obtain ⟨vs, hvs, hspells⟩ :=
    Parser.typeTreeOfDepth_sound (us.length + 1) hread
  rw [List.append_nil, List.append_nil] at hvs
  exact ⟨us.length + 1, by rwa [← hvs] at hspells⟩

/-- Some class types between bars are the type of a catch parameter. -/
theorem exists_catchType {us : List Token} {ps : List (RightPadded TypeTree)}
    (h : Padded SpellsClassType "|" us ps) : ∃ t, SpellsCatchType us t := by
  cases h with
  | last ht => exact ⟨_, .single ht⟩
  | @cons _ _ _ _ qs ht hqs =>
      obtain ⟨q, qs, rfl⟩ : ∃ q qs', qs = q :: qs' := by
        cases hqs <;> exact ⟨_, _, rfl⟩
      exact ⟨_, .union (.cons ht hqs)⟩

/-- The rule for expressions is its own solution. -/
theorem spellsExpr_of_expressionWith {us : List Token} {e : Expr}
    (h : ExpressionWith SpellsExpr us e) : SpellsExpr us e := by
  have hn : Parser.CompleteBelow us.length
      (Parser.expressionOfDepth us.length) SpellsExpr
      Word.extendsExpr := fun vs e hlt ⟨n, h⟩ =>
        Parser.expressionOfDepth_complete _ n hlt h
  have hread := Parser.expressionWith_complete hn (fun _ _ => opens_expr)
    (Nat.le_refl _) h []
    Stops.nil
  obtain ⟨vs, hvs, hspells⟩ :=
    Parser.expressionOfDepth_sound (us.length + 1) hread
  rw [List.append_nil, List.append_nil] at hvs
  exact ⟨us.length + 1, by rwa [← hvs] at hspells⟩

namespace Parser

namespace Tracks

variable {α β : Type} {m m' n n' : Nat}

-- ================================================================= lists

section

variable {element element' : Parser α} {R : Spelling α}

/-- One element or more with a separator between them. -/
theorem padded {separator : String}
    (he : Tracks m m' element element' (Words R)) :
    Tracks m m' (bounded (padded element separator))
      (bounded (padded element' separator)) (Words (Padded R separator)) := by
  obtain ⟨⟨a⟩, ws, b, hb⟩ := he.inhabited
  refine turns ⟨⟨[]⟩, ws, _, .last hb⟩ fun k k' i j hk hj hi hj' ih => ?_
  refine mono (bind (he.below hk hj') fun a =>
    word?_bind (fun after => bind_pure ih) (pure _) (Nat.le_refl _) hj) ?_
  rintro _ ⟨c, ⟨a, ha⟩, _, ⟨_, rfl, d, ⟨ps, hps⟩, rfl⟩ | rfl, rfl⟩
  · refine ⟨⟨a, ""⟩ :: ps, ?_⟩
    simp only [List.map_append, List.map_cons, List.map_nil]
    exact .cons ha hps
  · exact ⟨[⟨a, ""⟩], by simpa using .last ha⟩

/-- Elements between delimiters, over a reader that need not be good for the
opening one. -/
theorem delimited {opening closing : String}
    (he : Tracks n n' element element' (Words R)) (hm : m ≤ n + 1)
    (hm' : m' ≤ n' + 1) :
    Tracks m m' (delimited element opening closing)
      (delimited element' opening closing)
        (Words (Delimited R opening closing)) := by
  refine mono (bind_lt (word _) (by rintro ⟨⟩) (fun before => word?_bind
    (fun close => pure _) (bind (padded he) fun ps => bind_pure (word _))
      (Nat.le_succ n)
    (Nat.le_succ n')) hm hm') ?_
  rintro _ ⟨_, rfl, _, ⟨_, rfl, _, rfl, rfl⟩ | ⟨c, ⟨ps, hps⟩, _, rfl, rfl⟩, rfl⟩
  · exact ⟨_, .none⟩
  · refine ⟨⟨"", RightPadded.closeLast "" ps, ""⟩, ?_⟩
    simp only [List.map_append, List.map_cons, List.map_nil]
    exact .some hps

/-- A keyword and elements, or nothing. -/
theorem afterKeyword? {keyword : String}
    (he : Tracks m m' element element' (Words R)) :
    Tracks m m' (afterKeyword? element keyword) (afterKeyword? element' keyword)
      (Words (AfterKeyword R keyword)) := by
  refine mono (word?_bind (fun before => bind_pure (padded he)) (pure _)
    (Nat.le_succ m) (Nat.le_succ m')) ?_
  rintro _ (⟨_, rfl, c, ⟨ps, hps⟩, rfl⟩ | rfl)
  · exact ⟨_, .some hps⟩
  · exact ⟨_, .none⟩

/-- Spelled words in a row are the words of a spelled row. -/
theorem kstar_words_le (R : Spelling α) : (Words R)∗ ≤ Words (Many R) := by
  refine kstar_le_of_mul_le_right ?_ ?_
  · rintro _ rfl
    exact ⟨_, .nil⟩
  · rintro _ ⟨c, ⟨a, ha⟩, d, ⟨as, has⟩, rfl⟩
    refine ⟨a :: as, ?_⟩
    rw [List.map_append]
    exact .cons ha has

/-- Elements up to a closing symbol. -/
theorem untilSymbol {closing : String}
    (he : Tracks m m' element element' (Words R)) (hne : [] ∉ Words R) :
    Tracks m m' (bounded (untilSymbol element closing))
      (bounded (untilSymbol element' closing))
        ((Words R)∗ * {[.symbol closing]}) := by
  refine turns ⟨⟨[], ""⟩, _,
    Language.append_mem_mul (Language.nil_mem_kstar _) rfl⟩
    fun k k' i j hk hj hi hj' ih => ?_
  refine mono (word?_bind (fun close => pure _)
    (bind_lt (he.below hk hj') hne (fun a => bind_pure ih) (Nat.le_refl _) hj)
    (Nat.le_refl _) hj) (le_of_eq ?_)
  rw [mul_one, ← mul_assoc, ← one_add_mul,
    Language.one_add_self_mul_kstar_eq_kstar]

/-- Elements between braces, over a reader that need not be good for the
opening one. -/
theorem braced {element element' : Parser (RightPadded α)}
    {R : Spelling (RightPadded α)} (he : Tracks n n' element element' (Words R))
    (hne : [] ∉ Words R) (hm : m ≤ n + 1) (hm' : m' ≤ n' + 1) :
    Tracks m m' (braced element) (braced element') (Words (Braced R)) := by
  refine mono (bind_lt (word _) (by rintro ⟨⟩)
    (fun lead => bind_pure (untilSymbol he hne)) hm hm') ?_
  rintro _ ⟨_, rfl, _, ⟨c, hc, _, rfl, rfl⟩, rfl⟩
  obtain ⟨as, has⟩ := kstar_words_le R hc
  refine ⟨⟨"", as, ""⟩, ?_⟩
  simp only [List.map_append, List.map_cons, List.map_nil]
  exact .mk has

/-- Elements as long as one more starts. -/
theorem manyWhile {starts : List Token → Bool}
    (he : Tracks m m' element element' (Words R)) (hne : [] ∉ Words R)
    (hstarts : ∀ t ts ts', starts (t :: ts) = starts (t :: ts')) :
    Tracks m m' (bounded (manyWhile starts element))
      (bounded (manyWhile starts element')) (Words (Many R)) := by
  refine mono (turns ⟨⟨[]⟩, [], Language.nil_mem_kstar _⟩
    fun k k' i j hk hj hi hj' ih => ?_)
    (kstar_words_le R)
  refine ahead_bind hstarts fun b => ?_
  cases b with
  | true =>
      exact mono (bind_lt (he.below hk hj') hne (fun a => bind_pure ih)
        (Nat.le_refl _) hj)
        mul_kstar_le_kstar
  | false => exact mono (pure _) one_le_kstar

end

-- ================================================================= names

/-- A dot and a word. -/
def dotted : Language Word := {[Word.symbol "."]} * anyName

/-- The dots and words after the start of a name, and what may end it. -/
theorem nameRest {starMayEnd : Bool} {E : Language Word} (hone : 1 ≤ E)
    (hstar : starMayEnd = false ∨ [Word.symbol ".", Word.symbol "*"] ∈ E)
    (x : Name) :
    Tracks m m' (bounded fun n => nameRest starMayEnd n x)
      (bounded fun n => nameRest starMayEnd n x) (dotted∗ * E) := by
  have hone' : 1 ≤ dotted∗ * E := one_le_mul one_le_kstar hone
  refine loop (fun x => ⟨⟨x⟩, [], hone' rfl⟩)
    (fun k k' i j hk hj hi hj' ih x => ?_) x
  have hmore : {[Word.symbol "."]} * (anyName * (dotted∗ * E)) ≤
      dotted∗ * E := by
    rw [← mul_assoc, ← mul_assoc]
    exact mul_le_mul_left mul_kstar_le_kstar E
  refine mono (word?_bind (S := {ws | Word.symbol "." :: ws ∈ dotted∗ * E})
    (fun dot => isNext_bind fun next => ite (fun h => ?_) fun _ => ?_) (pure _)
      (Nat.le_refl _)
    hj) ?_
  · refine mono (bind_pure (word _)) ?_
    rintro _ rfl
    obtain rfl | hstar := hstar
    · cases h
    · exact ⟨[], Language.nil_mem_kstar _, _, hstar, rfl⟩
  · exact mono (bind ident fun last => ih _) fun ws hws =>
      hmore ⟨_, rfl, ws, hws, rfl⟩
  · rintro _ (⟨_, rfl, d, hd, rfl⟩ | rfl)
    · exact hd
    · exact hone' rfl

/-- A word and dotted words behind it spell a name. -/
theorem names_le : anyName * dotted∗ ≤ Words SpellsName := by
  refine mul_kstar_le ?_ ?_
  · rintro _ ⟨s, rfl⟩
    exact ⟨_, .simple ⟨"", s⟩⟩
  · rintro _ ⟨c, ⟨x, hx⟩, _, ⟨_, rfl, _, ⟨s, rfl⟩, rfl⟩, rfl⟩
    refine ⟨extendName x "" ⟨"", s⟩, ?_⟩
    rw [List.map_append]
    exact .dot "" ⟨"", s⟩ hx

theorem name : Tracks m m' name name (Words SpellsName) := by
  refine mono (bind ident fun first =>
    nameRest (E := 1) (le_refl _) (.inl rfl) _) ?_
  rw [mul_one]
  exact names_le

theorem importName :
    Tracks m m' importName importName (Words SpellsImportName) := by
  refine mono (bind ident fun first =>
    nameRest (E := 1 + {[.symbol ".", .symbol "*"]})
    (fun _ => Or.inl) (.inr (.inr rfl)) _) ?_
  rw [← mul_assoc]
  rintro _ ⟨c, hc, _, rfl | rfl, rfl⟩
  · obtain ⟨x, hx⟩ := names_le hc
    exact ⟨x, .named (by simpa using hx)⟩
  · obtain ⟨x, hx⟩ := names_le hc
    refine ⟨extendName x "" ⟨"", "*"⟩, ?_⟩
    rw [List.map_append]
    exact .star "" "" hx

/-- What opens with a word is not empty. -/
theorem nil_notMem_words {R : Spelling α} {P : Word → Bool}
    (h : ∀ ⦃us a⦄, R us a → Opens P us) : [] ∉ Words R :=
  fun ⟨_, ha⟩ => (h ha).ne_nil rfl

-- ================================================================= types

section

variable {argument argument' : Parser TypeTree} {R : Spelling TypeTree}

/-- The parser of class types tracks their words, above arguments that are
tracked. -/
theorem classTypeWith (ha : Tracks n n' argument argument' (Words R))
    (hm : m ≤ n + 1) (hm' : m' ≤ n' + 1) :
    Tracks m m' (classTypeWith argument) (classTypeWith argument')
      (Words (ClassTypeWith R)) := by
  have hname : [] ∉ Words SpellsName := fun ⟨x, hx⟩ => by
    obtain ⟨s, rest, hs⟩ := opens_name hx
    cases hs
  refine mono (bind_lt name hname (fun base => isNext_ite
    (bind_pure (delimited ha (Nat.le_succ n) (Nat.le_succ n'))) (pure _))
      hm hm') ?_
  rintro _ ⟨c, ⟨x, hx⟩, d, ⟨args, hargs⟩ | rfl, rfl⟩
  · refine ⟨.generic x.lead (x.withLead "") args none, ?_⟩
    rw [List.map_append]
    exact .generic hx hargs
  · exact ⟨_, .named (by simpa using hx)⟩

/-- A pair of brackets. -/
def brackets : Language Word := {[Word.symbol "[", Word.symbol "]"]}

/-- The loop over dimensions tracks pairs of brackets. -/
theorem dimensions (x : TypeTree) :
    Tracks m m' (bounded fun n => dimensions n x)
      (bounded fun n => dimensions n x)
      brackets∗ := by
  refine loop (fun x => ⟨⟨x⟩, [], Language.nil_mem_kstar _⟩)
    (fun k k' i j hk hj hi hj' ih x => ?_) x
  refine mono (word?_bind (fun before => bind (word _) fun inner => ih _)
    (pure _) (Nat.le_refl _) hj) ?_
  have hmore : brackets * brackets∗ ≤ brackets∗ := mul_kstar_le_kstar
  rintro _ (⟨_, rfl, _, ⟨_, rfl, d, hd, rfl⟩, rfl⟩ | rfl)
  · exact hmore ⟨_, rfl, d, hd, rfl⟩
  · exact Language.nil_mem_kstar _

/-- The parser of types tracks their words, above arguments that are tracked. -/
theorem typeTreeWith (ha : Tracks n n' argument argument' (Words R))
    (hm : m ≤ n + 1) (hm' : m' ≤ n' + 1) :
    Tracks m m' (typeTreeWith argument) (typeTreeWith argument')
      (Words (TypeWith R)) := by
  refine mono (take?_bind (fun _ _ => readsWord_asPrimitive.taken)
    (fun p => bind (pure p) fun base => dimensions base)
    (bind (classTypeWith ha hm hm') fun base => dimensions base) (Nat.le_succ m)
      (Nat.le_succ m')) ?_
  rw [one_mul, ← add_mul]
  refine mul_kstar_le ?_ ?_
  · rintro _ (⟨w, x, hx, rfl⟩ | ⟨x, hx⟩)
    · exact ⟨x, .primitive hx⟩
    · exact ⟨x, .classType hx⟩
  · rintro _ ⟨c, ⟨x, hx⟩, _, rfl, rfl⟩
    refine ⟨.array x.lead (x.withLead "") ⟨"", ""⟩ none, ?_⟩
    rw [List.map_append]
    exact .array hx

end

theorem typeTree : Tracks m m' typeTree typeTree (Words SpellsType) := by
  have hint : SpellsType [(Word.keyword "int").bare]
      (.primitive "" .int none) :=
    ⟨1, .primitive rfl⟩
  refine turns ⟨⟨.primitive "" .int none⟩, [.keyword "int"], _, hint⟩
    fun k k' i j hk hj hi hj' ih => ?_
  refine mono (typeTreeWith ih (Nat.le_refl _) hj) ?_
  rintro _ ⟨t, ht⟩
  exact ⟨t, spellsType_of_typeWith ht⟩

theorem classType : Tracks m m' classType classType (Words SpellsClassType) :=
  classTypeWith typeTree (Nat.le_succ m) (Nat.le_succ m')

theorem catchType :
    Tracks m m' catchType catchType (Words SpellsCatchType) := by
  have hmem : Words (Padded SpellsClassType "|") ≤ Words SpellsCatchType :=
    fun c ⟨ps, hps⟩ => exists_catchType hps
  have hp : Tracks m m' (bounded (Parser.padded Parser.classType "|")) _ _ :=
    padded classType
  refine hp.bind_of (S := fun _ => 1)
    (Q := fun a c => a ≠ [] ∧ c ∈ Words SpellsCatchType) ?_ ?_ ?_ ?_
      ⟨.primitive "" .int none⟩
    fun _ _ => ⟨Nat.le_add_right _ _, Nat.le_add_right _ _⟩
  · intro ts rest ps c hts hok heq
    refine ⟨?_, hmem (hp.mem_of_read hts hok heq)⟩
    obtain ⟨us, -, hps⟩ := Sound.bounded (classType_sound.padded "|") hok
    rintro rfl
    cases hps
  · rintro (_ | ⟨p, _ | ⟨q, ps⟩⟩) c ⟨hne, -⟩
    · exact absurd rfl hne
    · exact pure _
    · exact pure _
  · rintro ps c ⟨-, hc⟩ _ rfl
    rwa [List.append_nil]
  · exact fun c hc => ⟨[], by rw [List.append_nil]; exact hmem hc⟩

-- =========================================================== expressions

section

variable {nested nested' : Parser Expr} {R : Spelling Expr}
  (hn : Tracks n n' nested nested' (Words R))
include hn

theorem argumentsWith (hm : m ≤ n + 1) (hm' : m' ≤ n' + 1) :
    Tracks m m' (argumentsWith nested) (argumentsWith nested')
      (Words (Delimited R "(" ")")) :=
  delimited hn hm hm'

/-- The parser of what a postfix expression begins with tracks its words. -/
theorem primaryWith (hm : m ≤ n + 1) (hm' : m' ≤ n' + 1) :
    Tracks m m' (primaryWith nested) (primaryWith nested')
      (Words (PostfixWith R)) := by
  refine mono (take?_bind (fun _ _ => readsWord_asLiteral.taken)
    (fun e => pure e) (word?_bind (fun lead => pure _)
      (word?_bind (fun lead => bind hn fun inner => bind_pure (word _))
        (word?_bind (fun lead => bind classType fun base => bind_pure
            (argumentsWith hn (Nat.le_succ n) (Nat.le_succ n')))
          (bind ident fun first =>
            isNext_ite (bind_pure (argumentsWith hn hm hm')) (pure _))
          hm hm') hm hm') hm hm') hm hm') ?_
  rintro _ (⟨_, ⟨w, e, he, rfl⟩, _, rfl, rfl⟩ | ⟨_, rfl, _, rfl, rfl⟩ |
    ⟨_, rfl, _, ⟨c, ⟨e, he⟩, _, rfl, rfl⟩, rfl⟩ | ⟨_, rfl, _,
      ⟨c, ⟨t, ht⟩, d, ⟨args, hargs⟩, rfl⟩, rfl⟩ |
    ⟨_, ⟨s, rfl⟩, d, ⟨args, hargs⟩ | rfl, rfl⟩)
  · exact ⟨e, .literal he⟩
  · exact ⟨_, .this⟩
  · refine ⟨.parens "" ⟨e, ""⟩ none, ?_⟩
    simp only [List.map_append, List.map_cons, List.map_nil]
    exact .parens he
  · refine ⟨.new "" t args none none, ?_⟩
    simp only [List.map_append, List.map_cons, List.cons_append,
      List.nil_append]
    exact .new ht hargs
  · exact ⟨_, .bareCall ⟨"", s⟩ hargs⟩
  · exact ⟨_, .name ⟨"", s⟩⟩

/-- The accesses and calls after the start of an expression. -/
theorem postfixRest (hm : m ≤ n + 1) (hm' : m' ≤ n' + 1) (x : Expr) :
    Tracks m m' (bounded fun n => postfixRest nested n x)
      (bounded fun n => postfixRest nested' n x) ({[Word.symbol "."]} *
        ({[Word.keyword "class"]} + anyName *
          (Words (Delimited R "(" ")") + 1)))∗ := by
  refine loop (fun x => ⟨⟨x⟩, [], Language.nil_mem_kstar _⟩)
    (fun k k' i j hk hj hi hj' ih x => ?_) x
  refine mono (word?_bind (fun dot => word?_bind (fun lead => ih _)
    (bind ident fun last =>
      isNext_ite (bind (argumentsWith hn (by omega) (by omega))
        fun args => ih _)
      (ih _)) (Nat.le_succ k) (Nat.le_succ i)) (pure _) (Nat.le_refl _) hj)
        (le_of_eq ?_)
  generalize Words (Delimited R "(" ")") = A
  generalize hX : {[Word.symbol "."]} *
    ({[Word.keyword "class"]} + anyName * (A + 1)) = X
  rw [← add_one_mul, ← mul_assoc anyName, ← add_mul, ← mul_assoc, hX, add_comm,
    Language.one_add_self_mul_kstar_eq_kstar]

theorem postfixWith (hm : m ≤ n + 1) (hm' : m' ≤ n' + 1) :
    Tracks m m' (postfixWith nested) (postfixWith nested')
      (Words (PostfixWith R)) := by
  refine mono (bind (primaryWith hn hm hm') fun start =>
    postfixRest hn hm hm' start) ?_
  refine mul_kstar_le (le_refl _) ?_
  rintro _ ⟨c, ⟨e, he⟩, _,
    ⟨_, rfl, _, rfl | ⟨_, ⟨s, rfl⟩, d, ⟨args, hargs⟩ | rfl, rfl⟩, rfl⟩, rfl⟩
  · refine ⟨.access e.lead (e.withLead "") ⟨"", ⟨"", "class"⟩⟩ none, ?_⟩
    rw [List.map_append]
    exact .classLiteral he
  · refine ⟨.call e.lead (some ⟨e.withLead "", ""⟩) ⟨"", s⟩ args none, ?_⟩
    rw [List.map_append]
    exact .call ⟨"", s⟩ he hargs
  · refine ⟨.access e.lead (e.withLead "") ⟨"", ⟨"", s⟩⟩ none, ?_⟩
    rw [List.map_append]
    exact .access ⟨"", s⟩ he

theorem operandWith (hm : m ≤ n + 1) (hm' : m' ≤ n' + 1) :
    Tracks m m' (bounded (operandWith nested)) (bounded (operandWith nested'))
      (Words (OperandWith R)) := by
  obtain ⟨⟨e⟩, ws, x, hx⟩ := (postfixWith hn hm hm').inhabited
  refine turns ⟨⟨e⟩, ws, x, .bare hx⟩ fun k k' i j hk hj hi hj' ih => ?_
  refine mono (take?_bind (fun _ _ => readsWord_asUnaryOp.taken)
    (fun op => bind_pure ih)
    (postfixWith hn (by omega) (by omega)) (Nat.le_refl _) hj) ?_
  rintro _ (⟨_, ⟨w, op, hop, rfl⟩, c, ⟨e, he⟩, rfl⟩ | ⟨e, he⟩)
  · exact ⟨_, .unary hop he⟩
  · exact ⟨e, .bare he⟩

theorem operandsWith (hm : m ≤ n + 1) (hm' : m' ≤ n' + 1) :
    Tracks m m' (bounded (operandsWith nested)) (bounded (operandsWith nested'))
      (Words (OperandsWith (OperandWith R))) := by
  refine turns ⟨⟨[]⟩, [], [], .nil⟩ fun k k' i j hk hj hi hj' ih => ?_
  refine mono (take?_bind (fun _ _ => readsWord_asBinaryOp.taken)
    (fun op => bind (operandWith hn (by omega) (by omega)) fun e =>
      bind_pure ih) (pure _)
    (Nat.le_refl _) hj) ?_
  rintro _ (⟨_, ⟨w, op, hop, rfl⟩, _,
    ⟨c, ⟨e, he⟩, d, ⟨run, hrun⟩, rfl⟩, rfl⟩ | rfl)
  · refine ⟨(op, e) :: run, ?_⟩
    simp only [List.map_append, List.map_cons, List.cons_append,
      List.nil_append]
    exact .cons hop he hrun
  · exact ⟨[], .nil⟩

/-- The parser of expressions tracks their words, above nested ones that are
tracked. -/
theorem expressionWith (hm : m ≤ n + 1) (hm' : m' ≤ n' + 1) :
    Tracks m m' (expressionWith nested) (expressionWith nested')
      (Words (ExpressionWith R)) := by
  refine ahead_bind (fun _ _ _ => rfl) fun unary =>
    ite (fun _ => ?_) fun _ => ?_
  · refine mono (bind (operandWith hn hm hm') fun first =>
      bind_pure (operandsWith hn hm hm')) ?_
    rintro _ ⟨c, ⟨e, he⟩, d, ⟨run, hrun⟩, rfl⟩
    refine ⟨group e run, ?_⟩
    rw [List.map_append]
    exact .binary (binaryWith_group he hrun)
  · refine mono (bind (postfixWith hn hm hm') fun first =>
      word?_bind (fun before => bind_pure hn)
      (bind_pure (operandsWith hn hm hm')) hm hm') ?_
    rintro _ ⟨c, ⟨e, he⟩, _,
      ⟨_, rfl, d, ⟨value, hvalue⟩, rfl⟩ | ⟨run, hrun⟩, rfl⟩
    · refine ⟨.assign e.lead (e.withLead "") ⟨"", value⟩ none, ?_⟩
      rw [List.map_append]
      exact .assign he hvalue
    · refine ⟨group e run, ?_⟩
      rw [List.map_append]
      exact .binary (binaryWith_group (.bare he) hrun)

end

theorem expression : Tracks m m' expression expression (Words SpellsExpr) := by
  have hthis : SpellsExpr [(Word.keyword "this").bare]
      (.ident ⟨"", "this"⟩ none) :=
    ⟨1, .binary (.operand (.bare .this))⟩
  refine turns ⟨⟨.ident ⟨"", "this"⟩ none⟩, [.keyword "this"], _, hthis⟩
    fun k k' i j hk hj hi hj' ih => ?_
  refine mono (expressionWith ih (Nat.le_refl _) hj) ?_
  rintro _ ⟨e, he⟩
  exact ⟨e, spellsExpr_of_expressionWith he⟩

-- ========================================================== declarations

theorem modifier : Tracks m m' modifier modifier (Words SpellsModifier) := by
  refine mono (take?_bind (fun _ _ => readsWord_asModifierWord.taken)
    (fun x => pure x)
    (bind (word _) fun lead => bind name fun type => isNext_ite
      (bind_pure (delimited expression (Nat.le_succ m) (Nat.le_succ m')))
        (pure _))
    (Nat.le_succ m) (Nat.le_succ m')) ?_
  rintro _ (⟨_, ⟨w, x, hx, rfl⟩, _, rfl, rfl⟩ |
    ⟨_, rfl, _, ⟨c, ⟨x, hx⟩, d, ⟨args, hargs⟩ | rfl, rfl⟩, rfl⟩)
  · exact ⟨x, .word hx⟩
  · refine ⟨.annotated "" x (some args), ?_⟩
    simp only [List.map_append, List.map_cons, List.cons_append,
      List.nil_append]
    exact .called hx hargs
  · exact ⟨.annotated "" x none, .marker (by simpa using hx)⟩

theorem modifiers :
    Tracks m m' modifiers modifiers (Words (Many SpellsModifier)) :=
  manyWhile modifier (nil_notMem_words opens_modifier) fun _ _ _ => rfl

theorem declarator :
    Tracks m m' declarator declarator (Words SpellsDeclarator) := by
  refine mono (bind ident fun i =>
    word?_bind (fun before => bind_pure expression) (pure _)
    (Nat.le_succ m) (Nat.le_succ m')) ?_
  rintro _ ⟨_, ⟨s, rfl⟩, _, ⟨_, rfl, c, ⟨e, he⟩, rfl⟩ | rfl, rfl⟩
  · exact ⟨_, .initialized ⟨"", s⟩ he⟩
  · exact ⟨_, .bare ⟨"", s⟩⟩

/-- Words start with a word that has nothing in front. -/
theorem led_bare {ws : List Word} (hne : ws ≠ []) :
    Led "" (ws.map Word.bare) (ws.map Word.bare) := by
  obtain ⟨w, ws, rfl⟩ := List.exists_cons_of_ne_nil hne
  exact .mk

theorem declaration :
    Tracks m m' declaration declaration (Words SpellsDeclaration) := by
  refine mono (takeLead_bind fun lead => bind modifiers fun ms =>
    bind typeTree fun t => bind_pure (padded declarator)) ?_
  rintro _ ⟨c, ⟨ms, hms⟩, _, ⟨d, ⟨t, ht⟩, e, ⟨vs, hvs⟩, rfl⟩, rfl⟩
  have hne : c ++ (d ++ e) ≠ [] := by
    have hd : d ≠ [] :=
      fun h => nil_notMem_words (fun _ _ => opens_type) ⟨t, h ▸ ht⟩
    simp [hd]
  exact ⟨⟨"", ms, t, vs⟩, .mk hms ht hvs (by simpa using led_bare hne)⟩

/-- The parser of parameters tracks their words if that of their types does. -/
theorem parameter {type type' : Parser TypeTree} {R : Spelling TypeTree}
    (ht : Tracks m m' type type' (Words R)) :
    Tracks m m' (parameter type) (parameter type')
      (Words (ParameterWith R)) := by
  refine mono (takeLead_bind fun lead => bind modifiers fun ms =>
    bind ht fun t => bind_pure ident) ?_
  rintro _ ⟨c, ⟨ms, hms⟩, _, ⟨d, ⟨t, ht⟩, _, ⟨s, rfl⟩, rfl⟩, rfl⟩
  have hne : c ++ (d ++ [Word.name s]) ≠ [] := by simp
  exact ⟨_, .mk ⟨"", s⟩ hms ht (by simpa [Word.bare] using led_bare hne)⟩

/-- Something with the semicolon after it. -/
theorem terminated {p p' : Parser α} {L : Language Word}
    (hp : Tracks m m' p p' L) :
    Tracks m m' (terminated p) (terminated p') (L * {[.symbol ";"]}) :=
  bind hp fun _ => bind_pure (word _)

end Tracks

end Parser

end JavaRefit
