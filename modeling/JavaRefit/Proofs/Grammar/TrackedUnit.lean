/-
The readers of statements, members and files track what they read.

Two places look further than at the next token. Where a statement may be
a declaration or an expression, both are tried; each ends at the first
semicolon, so that the one that fails first is not to be blamed for what
comes after. And where a member may start with its name, the token after
the name decides; the name itself is read either way.

Chain: after `Tracked`; the place of a failure rests on it.
-/
import JavaRefit.Proofs.Grammar.Tracked

namespace JavaRefit

open Spelling
open scoped Computability

namespace Parser

namespace Tracks

variable {α β : Type} {m m' n n' : Nat}

-- ============================================================ statements

theorem condition :
    Tracks m m' condition condition (Words SpellsCondition) := by
  refine mono (bind (word _) fun lead => bind expression fun e =>
    bind_pure (word _)) ?_
  rintro _ ⟨_, rfl, _, ⟨c, ⟨e, he⟩, _, rfl, rfl⟩, rfl⟩
  refine ⟨⟨"", ⟨e, ""⟩⟩, ?_⟩
  simp only [List.map_append, List.map_cons, List.cons_append, List.nil_append]
  exact .mk he

theorem head : Tracks m m' head head (Words SpellsHead) := by
  refine mono (word?_bind (fun lead => bind_pure condition)
    (bind (word _) fun lead => bind_pure condition) (Nat.le_succ m)
      (Nat.le_succ m')) ?_
  rintro _ (⟨_, rfl, c, ⟨x, hx⟩, rfl⟩ | ⟨_, rfl, c, ⟨x, hx⟩, rfl⟩)
  · exact ⟨_, .whileLoop hx⟩
  · exact ⟨_, .ifElse hx⟩

/-- A declaration, or else an expression, up to a semicolon. -/
theorem declaration_orElse {R : Spelling (RightPadded Stmt)} :
    Tracks m m'
      (Parser.orElse (Parser.terminated (Stmt.declaration <$>
        Parser.declaration)) (Parser.terminated
          (Stmt.expr <$> Parser.expression)))
            (Parser.orElse (Parser.terminated (Stmt.declaration <$>
              Parser.declaration)) (Parser.terminated
                (Stmt.expr <$> Parser.expression))) (Words (PlainWith R)) := by
  refine orElse (terminated (map declaration))
    (terminated (map expression)) ?_ ?_ ?_
  · rintro _ ⟨c, ⟨d, hd⟩, _, rfl, rfl⟩
    refine ⟨⟨.declaration d, ""⟩, ?_⟩
    rw [List.map_append]
    exact .declaration hd
  · rintro _ ⟨c, ⟨e, he⟩, _, rfl, rfl⟩
    by_cases hd : ∃ d, SpellsDeclaration (c.map Word.bare) d
    · obtain ⟨d, hd⟩ := hd
      refine ⟨⟨.declaration d, ""⟩, ?_⟩
      rw [List.map_append]
      exact .declaration hd
    · refine ⟨⟨.expr e, ""⟩, ?_⟩
      rw [List.map_append]
      exact .expr he fun d h => hd ⟨d, h⟩
  · rintro _ ⟨c, ⟨e, he⟩, _, rfl, rfl⟩ y ⟨d, ⟨x, hx⟩, _, rfl, hy⟩
    replace hy := congrArg (List.map Word.bare) hy
    simp only [List.map_append, List.map_cons, List.map_nil, List.append_assoc,
      List.cons_append, List.nil_append] at hy
    rw [← eq_of_append_semicolon (tidy_declaration hx) (tidy_expr he) hy] at hy
    simpa using hy

section

variable {nested nested' : Parser (RightPadded Stmt)}
  {R : Spelling (RightPadded Stmt)}
  (hn : Tracks n n' nested nested' (Words R)) (hne : [] ∉ Words R)
include hn hne

/-- The parser of clauses tracks their words, above statements that are
tracked. -/
theorem catchWith (hm : m ≤ n + 1) (hm' : m' ≤ n' + 1) :
    Tracks m m' (catchWith nested) (catchWith nested')
      (Words (CatchWith R)) := by
  refine mono (bind (word _) fun lead => bind (word _) fun opening =>
    bind (parameter catchType)
    fun d => bind (word _) fun closing => bind_pure (braced hn hne hm hm')) ?_
  rintro _ ⟨_, rfl, _,
    ⟨_, rfl, _, ⟨c, ⟨d, hd⟩, _, ⟨_, rfl, e, ⟨b, hb⟩, rfl⟩, rfl⟩, rfl⟩, rfl⟩
  refine ⟨⟨"", ⟨"", ⟨d, ""⟩⟩, b⟩, ?_⟩
  simp only [List.map_append, List.map_cons, List.cons_append, List.nil_append]
  exact .mk hd hb

/-- Behind its keyword a try is a block, clauses and perhaps a last block. -/
theorem tryWith (hm : m ≤ n + 1) (hm' : m' ≤ n' + 1) (lead : Trivia) :
    Tracks m m' (tryWith nested lead) (tryWith nested' lead)
      (Words (Braced R) * (Words (Many (CatchWith R)) *
        Words (FinallyWith R))) := by
  have hcatch : [] ∉ Words (CatchWith R) :=
    nil_notMem_words (P := fun _ => true) fun us c h => by
    cases h
    exact .cons rfl
  refine bind (braced hn hne hm hm') fun b => bind
    (manyWhile (catchWith hn hne hm hm') hcatch fun _ _ _ => rfl) fun cs => mono
      (word?_bind (fun before => bind_pure (braced hn hne hm hm')) (pure _)
        (Nat.le_succ m) (Nat.le_succ m')) ?_
  rintro _ (⟨_, rfl, c, ⟨b, hb⟩, rfl⟩ | rfl)
  · exact ⟨_, .some hb⟩
  · exact ⟨_, .none⟩

theorem plainWith (hm : m ≤ n + 1) (hm' : m' ≤ n' + 1) :
    Tracks m m' (plainWith nested) (plainWith nested')
      (Words (PlainWith R)) := by
  refine mono (isNext_ite (bind_pure (braced hn hne hm hm'))
    (word?_bind (fun lead => pure _)
    (word?_bind (fun lead =>
      bind_pure (tryWith hn hne (Nat.le_succ n) (Nat.le_succ n') lead))
      (word?_bind (fun lead => terminated (map expression))
        (word?_bind (fun lead =>
          isNext_ite (terminated (pure _)) (terminated (map expression)))
          (declaration_orElse (R := R)) hm hm') hm hm') hm hm') hm hm')) ?_
  rintro _ (⟨b, hb⟩ | ⟨_, rfl, _, rfl, rfl⟩ |
    ⟨_, rfl, _, ⟨c, ⟨b, hb⟩, _, ⟨d, ⟨cs, hcs⟩, e, ⟨f, hf⟩, rfl⟩, rfl⟩, rfl⟩ |
    ⟨_, rfl, _, ⟨c, ⟨e, he⟩, _, rfl, rfl⟩, rfl⟩ |
    ⟨_, rfl, _, ⟨_, rfl, _, rfl, rfl⟩ | ⟨c, ⟨e, he⟩, _, rfl, rfl⟩, rfl⟩ | h)
  · exact ⟨_, .block hb⟩
  · exact ⟨_, .empty⟩
  · refine ⟨⟨.tryCatch ⟨"", b, cs, f⟩, ""⟩, ?_⟩
    simp only [List.map_append, List.map_cons, List.cons_append,
      List.nil_append, ← List.append_assoc]
    exact .tryCatch hb hcs hf
  · refine ⟨⟨.throwing "" e, ""⟩, ?_⟩
    simp only [List.map_append, List.map_cons, List.cons_append,
      List.nil_append]
    exact .throwing he
  · exact ⟨_, .returningNone⟩
  · refine ⟨⟨.returning "" (some e), ""⟩, ?_⟩
    simp only [List.map_append, List.map_cons, List.cons_append,
      List.nil_append]
    exact .returning he
  · exact h

end

-- ========================================================== conditionals

/-- Words that spell heads and, after them, what depends on how many of these
are of an `if`. -/
def HeadsThen (S : Nat → Language Word) : Language Word :=
  {ws | ∃ c heads d, Many SpellsHead (c.map Word.bare) heads ∧
    d ∈ S (Branch.openings heads) ∧ ws = c ++ d}

/-- After the heads what follows may depend on how many branches they open, and
on nothing else of them. -/
theorem heads_bind {f f' : List Head → Parser β} {S : Nat → Language Word}
    (hf : ∀ heads, Tracks m m' (f heads) (f' heads)
      (S (Branch.openings heads))) :
    Tracks m m' (bounded (Parser.manyWhile startsHead Parser.head) >>= f)
      (bounded (Parser.manyWhile startsHead Parser.head) >>= f')
        (HeadsThen S) := by
  have hp : Tracks m m' (bounded (Parser.manyWhile startsHead Parser.head))
      _ _ :=
    manyWhile head (nil_notMem_words opens_head) fun _ _ _ => rfl
  refine hp.bind_of (S := fun heads => S (Branch.openings heads))
    (Q := fun heads c => ∃ hs, Many SpellsHead (c.map Word.bare) hs ∧
      Branch.openings hs = Branch.openings heads) ?_
        (fun heads _ _ => hf heads) ?_ ?_
    (hf []).inhabited.1 fun _ _ => ⟨Nat.le_add_right _ _, Nat.le_add_right _ _⟩
  · intro ts rest heads c hts hok heq
    obtain ⟨us, rfl, hus⟩ := Sound.bounded (head_sound.manyWhile startsHead) hok
    rw [wordsOf_append] at heq
    obtain ⟨hs, hhs, hblank⟩ :=
      respaced_head.many hus (SameWords.bare (List.append_cancel_right heq))
    refine ⟨hs, hhs, ?_⟩
    rw [← Branch.openings_blank hs, hblank, Branch.openings_blank]
  · rintro heads c ⟨hs, hhs, hopenings⟩ d hd
    exact ⟨c, hs, d, hhs, hopenings ▸ hd, rfl⟩
  · rintro c ⟨hs, hhs⟩
    obtain ⟨d, hd⟩ := (hf hs).inhabited.2
    exact ⟨d, c, hs, d, hhs, hd, rfl⟩

/-- The words of branches that have a shape when so many `if` before them are
without an `else`. -/
def BranchWords (R : Spelling (RightPadded Stmt)) (opened : Nat) :
    Language Word :=
  {ws | ∃ bs, Many (BranchWith R) (ws.map Word.bare) bs ∧
    Branch.fits opened bs = true}

/-- There may be no branch at all. -/
theorem nil_mem_branchWords (R : Spelling (RightPadded Stmt)) (opened : Nat) :
    [] ∈ BranchWords R opened := by
  refine ⟨[], .nil, ?_⟩
  cases opened <;> rfl

section

variable {nested nested' : Parser (RightPadded Stmt)}
  {R : Spelling (RightPadded Stmt)}
  (hn : Tracks n n' nested nested' (Words R)) (hne : [] ∉ Words R)
include hn hne

/-- The parser of branches tracks as many as the heads have opened. -/
theorem branchesWith (hm : m ≤ n + 1) (hm' : m' ≤ n' + 1) (opened : Nat) :
    Tracks m m' (bounded fun n =>
      branchesWith (Parser.plainWith nested) n opened)
        (bounded fun n => branchesWith (Parser.plainWith nested') n opened)
          (BranchWords R opened) := by
  refine loop (fun opened => ⟨⟨[]⟩, [], nil_mem_branchWords R opened⟩)
    (fun k k' i j hk hj hi hj' ih opened => ?_) opened
  cases opened with
  | zero =>
      refine mono (pure _) ?_
      rintro _ rfl
      exact nil_mem_branchWords R 0
  | succ opened =>
      refine mono (word?_bind (fun lead => heads_bind
        (S := fun k => Words (PlainWith R) * BranchWords R (opened + k))
          fun heads =>
          bind (plainWith hn hne (by omega) (by omega)) fun body =>
            bind_pure (ih _)) (pure _)
        (Nat.le_refl _) hj) ?_
      rintro _
        (⟨_, rfl, _, ⟨c, heads, _, hheads,
          ⟨d, ⟨body, hbody⟩, e, ⟨bs, hbs, hfits⟩, rfl⟩, rfl⟩,
        rfl⟩ | rfl)
      · refine ⟨⟨"", heads, body⟩ :: bs, ?_, hfits⟩
        have hb : BranchWith R (⟨"", .keyword "else"⟩ :: _) ⟨"", heads, body⟩ :=
          .mk hheads hbody
        simpa [Word.bare] using Many.cons hb hbs
      · exact nil_mem_branchWords R _

/-- The parser of statements tracks their words, above nested statements that
are tracked. -/
theorem statementWith (hm : m ≤ n + 1) (hm' : m' ≤ n' + 1) :
    Tracks m m' (statementWith nested) (statementWith nested')
      (Words (StatementWith R)) := by
  refine mono (heads_bind (S := fun k => Words (PlainWith R) * BranchWords R k)
    fun heads =>
    bind (plainWith hn hne hm hm') fun body =>
      bind_pure (branchesWith hn hne hm hm' _)) ?_
  rintro _ ⟨c, heads, _, hheads,
    ⟨d, ⟨body, hbody⟩, e, ⟨bs, hbs, hfits⟩, rfl⟩, rfl⟩
  refine ⟨Branch.shape heads body bs, ?_⟩
  simp only [List.map_append, ← List.append_assoc]
  exact .mk hheads hbody hbs hfits

end

theorem statement : Tracks m m' statement statement (Words SpellsStmt) := by
  have hempty : PlainWith (SpellsStmtAt 0) [(Word.symbol ";").bare]
      ⟨.empty "", ""⟩ := .empty
  obtain ⟨s, hs⟩ := StatementWith.plain hempty
  refine turns ⟨⟨s⟩, [.symbol ";"], s, 1, hs⟩ fun k k' i j hk hj hi hj' ih => ?_
  refine mono (statementWith ih (nil_notMem_words opens_stmt)
    (Nat.le_refl _) hj) ?_
  rintro _ ⟨s, hs⟩
  exact ⟨s, spellsStmt_of_statementWith hs⟩

theorem block : Tracks m m' block block (Words (Braced SpellsStmt)) :=
  braced statement (nil_notMem_words opens_stmt) (Nat.le_succ m)
    (Nat.le_succ m')

-- =============================================================== members

/-- The words of a class after its modifiers and keyword, whatever these are. -/
def ClassWords (R : Spelling (RightPadded Member)) : Language Word :=
  {ws | ∀ lead ms kind, ws ∈ Words (ClassWith R lead ms kind)}

/-- The parser of a class tracks its words, above members that are tracked. -/
theorem classWith {nested nested' : Parser (RightPadded Member)}
    {R : Spelling (RightPadded Member)}
    (hn : Tracks n n' nested nested' (Words R)) (hne : [] ∉ Words R)
    (hm : m ≤ n + 1) (hm' : m' ≤ n' + 1) (lead : Trivia) (ms : List Modifier)
    (kind : LeftPadded ClassKind) :
    Tracks m m' (classWith nested lead ms kind) (classWith nested' lead ms kind)
      (ClassWords R) := by
  refine mono (bind ident fun i =>
    bind (afterKeyword? classType) fun extends? => bind
    (afterKeyword? classType) fun implements? =>
      bind_pure (braced hn hne hm hm')) ?_
  rintro _ ⟨_, ⟨s, rfl⟩, _,
    ⟨c, ⟨e, he⟩, _, ⟨d, ⟨i, hi⟩, b, ⟨body, hbody⟩, rfl⟩, rfl⟩, rfl⟩ lead ms kind
  refine ⟨⟨lead, ms, kind.before, kind.element, .simple ⟨"", s⟩ none, e, i,
    body, none⟩, ?_⟩
  simp only [List.map_append, List.map_cons, List.cons_append, List.nil_append,
    ← List.append_assoc]
  exact .mk ⟨"", s⟩ he hi hbody

/-- The words of a method after its name, whatever comes before. -/
def MethodWords (mayLackBody : Bool) : Language Word :=
  {ws | ∀ lead ms returnType i,
    ws ∈ Words (MethodWith lead ms returnType i mayLackBody)}

/-- The parser of a method tracks its words, from the parameters on. -/
theorem methodWith (lead : Trivia) (ms : List Modifier)
    (returnType : Option TypeTree) (i : Ident) (mayLackBody : Bool) :
    Tracks m m' (methodWith lead ms returnType i mayLackBody)
      (methodWith lead ms returnType i mayLackBody)
        (MethodWords mayLackBody) := by
  have hparams : Tracks m m'
      (Parser.delimited (Parser.parameter Parser.typeTree) "(" ")") _ _ :=
    delimited (parameter typeTree) (Nat.le_succ m) (Nat.le_succ m')
  refine mono (bind hparams fun params =>
    bind (afterKeyword? classType) fun throws =>
    isNext_bind (M :=
      {ws | (mayLackBody = true ∧ ws = [.symbol ";"]) ∨
        ws ∈ Words (Braced SpellsStmt)})
      fun next => ite (fun h => mono (terminated (pure _)) ?_)
        fun _ => mono (bind_pure block) fun _ => Or.inr) ?_
  · rintro _ ⟨_, rfl, _, rfl, rfl⟩
    exact .inl ⟨(Bool.and_eq_true_iff.1 h).1, rfl⟩
  · rintro _ ⟨c, ⟨params, hparams⟩, _,
      ⟨d, ⟨throws, hthrows⟩, e, ⟨hmay, rfl⟩ | ⟨b, hb⟩, rfl⟩, rfl⟩
      lead ms returnType i
    · refine ⟨⟨.method ⟨lead, ms, returnType, i, params, throws, none, none⟩,
        ""⟩, ?_⟩
      simp only [List.map_append, ← List.append_assoc]
      exact .abstract hmay hparams hthrows
    · refine ⟨⟨.method ⟨lead, ms, returnType, i, params, throws, some b, none⟩,
        ""⟩, ?_⟩
      simp only [List.map_append, ← List.append_assoc]
      exact .bodied hparams hthrows hb

/-- The reader does not fail at a name. -/
def Passes (p : Parser α) : Prop :=
  ∀ (i : Ident) (ts : List Token),
    p (⟨i.lead, .name i.name⟩ :: ts) ≠ .error (ts.length + 1)

/-- A reader that reads a name where nothing else is does not fail at it
elsewhere. -/
theorem passes_of_ok {p : Parser α} {L : Language Word}
    (hp : ∀ m m', Tracks m m' p p L) (hok : ∀ i : Ident, ∃ r,
      p [⟨i.lead, .name i.name⟩] = .ok r) : Passes p := by
  intro i ts herror
  obtain ⟨r, hr⟩ := hok i
  rw [Nat.add_comm] at herror
  have hlt : ([⟨i.lead, .name i.name⟩] ++ ts : List Token).length <
      ts.length + 2 := Nat.lt_succ_self _
  have hlt' : ([⟨i.lead, .name i.name⟩] ++ [] : List Token).length < 2 :=
    Nat.lt_succ_self _
  have hfails := (hp _ _).fails hlt hlt' herror Nat.one_pos
  rw [List.append_nil, hr] at hfails
  cases hfails

/-- What comes after a name is behind it. -/
theorem passes_bind {p : Parser α} {f : α → Parser β} {L M : Language Word}
    (hp : ∀ m m', Tracks m m' p p L) (hL : [] ∉ L) (hpasses : Passes p)
    (hf : ∀ m m' a, Tracks m m' (f a) (f a) M) : Passes (p >>= f) := by
  intro i ts herror
  rw [bind_eq] at herror
  cases hpts : p (⟨i.lead, .name i.name⟩ :: ts) with
  | error left =>
      rw [hpts] at herror
      cases herror
      exact hpasses i ts hpts
  | ok r =>
      obtain ⟨a, mid⟩ := r
      rw [hpts] at herror
      obtain ⟨c, hc, heq⟩ :=
        (hp (ts.length + 2) 0).read (Nat.lt_succ_self _) hpts
      have hlength := congrArg List.length heq
      have hpos := List.length_pos_iff.2 fun h => hL (h ▸ hc)
      simp only [wordsOf_cons, List.length_cons, length_wordsOf,
        List.length_append] at hlength
      have hle := (hf (mid.length + 1) 0 a).left_le (Nat.lt_succ_self _) herror
      omega

/-- One reader or the other, as the next two tokens have it. Only the first of
them is a name where the second one matters, and neither reader stops there. -/
theorem startsCall_ite {p q : Parser α} {L M : Language Word}
    (hp : ∀ m m', Tracks m m' p p L) (hq : ∀ m m', Tracks m m' q q M)
    (hL : [] ∉ L) (hM : [] ∉ M) (hpp : Passes p) (hqp : Passes q) :
    Tracks m m' (ahead startsCall >>= fun b => if b = true then p else q)
      (ahead startsCall >>= fun b => if b = true then p else q) (L + M) := by
  let r (b : Bool) : Parser α := if b = true then p else q
  have hr (b : Bool) (m m' : Nat) : Tracks m m' (r b) (r b) (L + M) :=
    ite (fun _ => (hp m m').mono fun _ => Or.inl) fun _ =>
      (hq m m').mono fun _ => Or.inr
  have hne : [] ∉ L + M := fun h => h.elim hL hM
  have hpasses (b : Bool) : Passes (r b) := by
    cases b
    · exact hqp
    · exact hpp
  show Tracks m m' (fun ts => r (startsCall ts) ts)
    (fun ts => r (startsCall ts) ts) (L + M)
  refine .of_cons (hr true 0 0).inhabited
    (fun ts rest a hts hok => (hr _ m m').read hts hok)
    (fun ts left hts herror => (hr _ m m').viable hts herror)
    (fun t pre rest rest' mid a hts hts' hok hlt => ?_)
    (fun t pre rest rest' k hts hts' herror hk => ?_)
  · cases pre with
    | cons u pre =>
        exact (hr _ m m').reads (show (t :: u :: pre ++ rest).length <
          m from hts) hts' hok hlt
    | nil =>
        obtain ⟨c, hc, heq⟩ := (hr _ m m').read hts hok
        have hlength := congrArg List.length heq
        have hpos := List.length_pos_iff.2 fun h => hne (h ▸ hc)
        simp only [length_wordsOf, List.length_append, List.length_cons,
          List.length_nil] at hlength
        omega
  · cases pre with
    | cons u pre =>
        exact (hr _ m m').fails (show (t :: u :: pre ++ rest).length <
          m from hts) hts' herror hk
    | nil =>
        cases ht : asIdent t with
        | none =>
            have hno (ts : List Token) : startsCall ([t] ++ ts) = false := by
              cases ts <;> simp [startsCall, ht]
            rw [hno] at herror ⊢
            exact (hr _ m m').fails (show ([t] ++ rest).length < m from hts)
              hts' herror hk
        | some i =>
            have hle := (hr _ m m').left_le hts herror
            simp only [List.length_append, List.length_cons,
              List.length_nil] at hle
            obtain rfl : k = 1 := by omega
            rw [asIdent_eq_some ht, Nat.add_comm] at herror
            exact absurd herror (hpasses _ i rest)

/-- An identifier passes at a name. -/
theorem passes_ident : Passes Parser.ident :=
  passes_of_ok (fun _ _ => ident) fun _ => ⟨_, rfl⟩

/-- A name is one word. -/
theorem nil_notMem_anyName : [] ∉ anyName := by
  rintro ⟨s, ⟨⟩⟩

/-- Words whose first part is not empty are not empty. -/
theorem nil_notMem_mul {L : Language Word} (h : [] ∉ L) (M : Language Word) :
    [] ∉ L * M :=
  fun ⟨_, hc, _, _, hnil⟩ => h ((List.append_eq_nil_iff.1 hnil).1 ▸ hc)

/-- A name and what follows the name of a method. -/
theorem passes_method (lead : Trivia) (ms : List Modifier)
    (returnType : Option TypeTree) (mayLackBody : Bool) :
    Passes (Parser.ident >>= fun i =>
      Parser.methodWith lead ms returnType i mayLackBody) :=
  passes_bind (fun _ _ => ident) nil_notMem_anyName passes_ident
    fun _ _ i => methodWith lead ms returnType i mayLackBody

/-- A type passes where a type is. -/
theorem passes_typeTree : Passes Parser.typeTree :=
  passes_of_ok (fun _ _ => typeTree) fun i =>
    ⟨_, typeTree_complete ⟨1, .classType (.named (.simple i))⟩ [] Stops.nil⟩

/-- The names of the variables declared by a field. -/
theorem passes_declarators :
    Passes (bounded (Parser.padded Parser.declarator ",")) :=
  passes_of_ok (fun _ _ => padded declarator) fun _ => ⟨_, rfl⟩

/-- The parser of members tracks their words: what it tries first fails only
where no such member goes on. -/
theorem memberWith {nested nested' : Parser (RightPadded Member)}
    {R : Spelling (RightPadded Member)}
    (hn : Tracks n n' nested nested' (Words R)) (hne : [] ∉ Words R)
    (hm : m ≤ n + 1) (hm' : m' ≤ n' + 1) :
    Tracks m m' (memberWith nested) (memberWith nested')
      (Words (MemberWith R)) := by
  have hcall (b : Bool) : [] ∉ anyName * MethodWords b :=
    nil_notMem_mul nil_notMem_anyName _
  have htype : [] ∉ Words SpellsType := nil_notMem_words fun _ _ => opens_type
  have hdeclarators : [] ∉ Words (Padded SpellsDeclarator ",") :=
    nil_notMem_words (P := Word.isName) fun _ _ h =>
      opens_padded (fun _ _ h => by
      obtain ⟨lead, s, rest, rfl⟩ := opens_declarator h
      exact .cons rfl) h
  -- What comes after the type: a method, or variables.
  have hafter lead ms t m m' := (startsCall_ite
    (fun m m' => bind ident fun i => methodWith lead ms (some t) i true)
    (fun m m' => bind (padded declarator) fun vs =>
      terminated (pure (Member.field ⟨lead, ms, t, vs⟩)))
    (hcall true) (nil_notMem_mul hdeclarators _)
      (passes_method lead ms (some t) true)
    (passes_bind (fun _ _ => padded declarator) hdeclarators passes_declarators
      fun m m' vs =>
      terminated (pure (Member.field ⟨lead, ms, t, vs⟩))) : Tracks m m' _ _ _)
  refine mono (takeLead_bind fun lead => bind modifiers fun ms => take?_bind
    (fun _ _ => readsWord_asClassKind.taken)
    (fun kind => bind_pure (classWith hn hne (Nat.le_succ n)
      (Nat.le_succ n') lead ms kind))
    (word?_bind (fun before => bind ident fun i => methodWith lead ms _ i true)
      (startsCall_ite (fun m m' => bind ident fun i =>
        methodWith lead ms none i false)
        (fun m m' => bind typeTree fun t => hafter lead ms t m m') (hcall false)
        (nil_notMem_mul htype _) (passes_method lead ms none false)
        (passes_bind (fun _ _ => typeTree) htype passes_typeTree fun m m' t =>
          hafter lead ms t m m'))
      (Nat.le_succ m) (Nat.le_succ m')) hm hm') ?_
  rintro _ ⟨c, ⟨ms, hms⟩, d, hd, rfl⟩
  obtain ⟨x, hx⟩ : ∃ x, MemberAfter R "" ms (d.map Word.bare) x := by
    obtain ⟨_, ⟨w, kind, hk, rfl⟩, e, he, rfl⟩ | ⟨_, rfl, _,
        ⟨_, ⟨s, rfl⟩, e, he, rfl⟩, rfl⟩ |
      ⟨_, ⟨s, rfl⟩, e, he, rfl⟩ | ⟨e, ⟨t, ht⟩, _, ⟨_, ⟨s, rfl⟩, e', he, rfl⟩ |
        ⟨e', ⟨vs, hvs⟩, _, ⟨_, rfl, _, rfl, rfl⟩, rfl⟩, rfl⟩ := hd
    · obtain ⟨x, hx⟩ := he "" ms kind
      exact ⟨_, .nested hk hx⟩
    · obtain ⟨x, hx⟩ := he "" ms (some (.primitive "" .void none)) ⟨"", s⟩
      exact ⟨x, .void ⟨"", s⟩ hx⟩
    · obtain ⟨x, hx⟩ := he "" ms none ⟨"", s⟩
      exact ⟨x, .constructor ⟨"", s⟩ hx⟩
    · obtain ⟨x, hx⟩ := he "" ms (some t) ⟨"", s⟩
      refine ⟨x, ?_⟩
      rw [List.map_append]
      exact .method ⟨"", s⟩ ht hx
    · refine ⟨⟨.field ⟨"", ms, t, vs⟩, ""⟩, ?_⟩
      have h : MemberAfter R "" ms (_ ++ _ ++ [⟨"", .symbol ";"⟩]) _ :=
        .field ht hvs
      simpa [Word.bare] using h
  have hne : c ++ d ≠ [] := by
    have hd := (opens_memberAfter hx).ne_nil
    rw [Ne, List.map_eq_nil_iff] at hd
    simp [hd]
  exact ⟨x, .mk hms hx (by simpa using led_bare hne)⟩

theorem member : Tracks m m' member member (Words SpellsMember) := by
  obtain ⟨⟨x⟩, -⟩ :=
    (methodWith "" [] none ⟨"", ""⟩ true : Tracks 0 0 _ _ _).inhabited
  have hfield : SpellsMember [(Word.keyword "int").bare, (Word.name "").bare,
      (Word.symbol ";").bare]
      ⟨.field ⟨"", [], .primitive "" .int none,
        [⟨⟨"", .simple ⟨"", ""⟩ none, none, none⟩, ""⟩]⟩, ""⟩ := by
    have htype : SpellsType [(Word.keyword "int").bare]
        (.primitive "" .int none) :=
      ⟨1, .primitive rfl⟩
    exact ⟨1, .mk .nil (.field htype (.last (.bare ⟨"", ""⟩))) .mk⟩
  refine turns ⟨⟨x⟩, [.keyword "int", .name "", .symbol ";"], _, hfield⟩
    fun k k' i j hk hj hi hj' ih => ?_
  refine mono (memberWith ih (nil_notMem_words opens_member)
    (Nat.le_refl _) hj) ?_
  rintro _ ⟨x, hx⟩
  exact ⟨x, spellsMember_of_memberWith hx⟩

-- ================================================================= files

theorem topClass : Tracks m m' topClass topClass (Words SpellsTopClass) := by
  refine mono (takeLead_bind fun lead => bind modifiers fun ms => bind
    (take (fun _ _ => readsWord_asClassKind.taken)
      (rfl : asClassKind (Word.keyword "class").bare = some ⟨"", .ordinary⟩))
    fun kind => classWith member (nil_notMem_words opens_member) (Nat.le_succ m)
      (Nat.le_succ m')
      lead ms kind) ?_
  rintro _ ⟨c, ⟨ms, hms⟩, _, ⟨_, ⟨w, kind, hk, rfl⟩, d, hd, rfl⟩, rfl⟩
  obtain ⟨x, hx⟩ := hd "" ms kind
  refine ⟨x, .mk hms hk hx ?_⟩
  simpa using led_bare (by simp : c ++ ([w] ++ d) ≠ [])

/-- The parser of the package declaration tracks its words, or none. -/
theorem package? : Tracks m m' package? package? (Words SpellsPackage) := by
  refine mono (word?_bind (fun lead => bind_pure (terminated (map name)))
    (pure _) (Nat.le_succ m) (Nat.le_succ m')) ?_
  rintro _ (⟨_, rfl, _, ⟨c, ⟨x, hx⟩, _, rfl, rfl⟩, rfl⟩ | rfl)
  · refine ⟨some ⟨⟨"", x⟩, ""⟩, ?_⟩
    simp only [List.map_append, List.map_cons, List.cons_append,
      List.nil_append]
    exact .some hx
  · exact ⟨_, .none⟩

theorem importDecl :
    Tracks m m' importDecl importDecl (Words SpellsImport) := by
  refine mono (bind (word _) fun lead =>
    word?_bind (fun static => terminated (map importName))
    (terminated (map importName)) (Nat.le_succ m) (Nat.le_succ m')) ?_
  rintro _ ⟨_, rfl, _, ⟨_, rfl, _, ⟨c, ⟨x, hx⟩, _, rfl, rfl⟩, rfl⟩ | ⟨c,
    ⟨x, hx⟩, _, rfl, rfl⟩, rfl⟩
  · refine ⟨⟨⟨"", some "", x⟩, ""⟩, ?_⟩
    simp only [List.map_append, List.map_cons, List.cons_append,
      List.nil_append]
    exact .mk .some hx
  · refine ⟨⟨⟨"", none, x⟩, ""⟩, ?_⟩
    simp only [List.map_append, List.map_cons, List.cons_append,
      List.nil_append]
    exact .mk .none hx

/-- The tokens of a file are tracked. -/
theorem unit (close : Trivia) (path : Option String) :
    Tracks m m' (unit close path) (unit close path)
      (Words (SpellsUnit close path)) := by
  refine mono (takeLead_bind fun lead => bind package? fun p => bind
    (manyWhile importDecl (nil_notMem_words opens_import) fun _ _ _ => rfl)
    fun imports => bind_pure (manyWhile topClass
      (nil_notMem_words opens_topClass) fun _ _ _ => rfl)) ?_
  rintro _ ⟨c, ⟨p, hp⟩, _,
    ⟨d, ⟨imports, himports⟩, e, ⟨classes, hclasses⟩, rfl⟩, rfl⟩
  by_cases hne : c ++ (d ++ e) = []
  · refine ⟨⟨"", none, [], [], close, path⟩, ?_⟩
    show SpellsUnit close path ((c ++ (d ++ e)).map Word.bare) _
    rw [hne]
    exact .empty
  · exact ⟨⟨"", p, imports, classes, close, path⟩,
      .mk (.mk hp himports hclasses) (by simpa using led_bare hne)⟩

end Tracks

end Parser

end JavaRefit
