/-
Which node gets which trivia: declarations, statements, classes, files.

Declarations, methods, classes and files keep the trivia in front of their
first token themselves, and that token is part of something below them,
which is then left with none. So what such a node starts with is found by
counting: the parts up to the first that cannot be missing are as many
pieces as tokens (`Node.startsIn_of_led`).

The trivia of a file is trivia, and holds no tokens; every node starts with
the word of a token behind the trivia in front of it (`placed_parseTree`).
That speaks of all trivia in the file, since each is kept by a node
(`CompilationUnit.keep_walk`).

Chain: after `Placed`; last of the proofs about where trivia is kept.
-/
import JavaRefit.Proofs.Grammar.Placed
import JavaRefit.Proofs.Grammar.Plain
import JavaRefit.Proofs.Grammar.Text
import JavaRefit.Proofs.Token.Trivia

namespace JavaRefit

open Piece Spelling
open Node (AllSitIn)
open Token (Leads leads_empty leads_of_mem)

-- =================================================== trivia taken off a token

@[simp] theorem Token.flat_append (ts us : List Token) :
    flat (ts ++ us) = flat ts ++ flat us := by
  induction ts with
  | nil => rfl
  | cons t ts ih =>
      rw [List.cons_append, flat_cons, ih, flat_cons, List.append_assoc,
        List.cons_append]

/-- What is spelled is shown as its tokens. -/
theorem solid_of_complete {α : Type} {p : Parser α} {R : Spelling α}
    {P : Word → Bool} {shown : α → List Piece} (hc : Parser.Complete p R P)
    (hr : Parser.Reads p shown) {us : List Token} {a : α} (h : R us a) :
    solid (shown a) = Token.flat us := by
  have hread := hr (hc h [] Stops.nil)
  rw [List.append_nil, Token.flat_nil, List.append_nil] at hread
  exact hread.symm

/-- The words of modifiers are those of their tokens. -/
theorem solid_modifiers {us : List Token} {ms : List Modifier}
    (h : Many SpellsModifier us ms) :
    solid (Modifier.listPieces ms) = Token.flat us :=
  solid_of_complete Parser.modifiers_complete Parser.modifiers_reads h

/-- The words of a type are those of its tokens. -/
theorem solid_type {us : List Token} {t : TypeTree} (h : SpellsType us t) :
    solid t.pieces = Token.flat us :=
  solid_of_complete Parser.typeTree_complete Parser.typeTree_reads h

section

variable {lead : Trivia} {us xs : List Token}

/-- The first token has the trivia that leads them all. -/
theorem Spelling.Led.leads_lead (h : Led lead us xs) : Leads xs lead := by
  cases h with
  | @mk w ts => exact leads_of_mem (t := ⟨lead, w⟩) List.mem_cons_self

/-- What the tokens behind lead is led by all of them. -/
theorem Spelling.Led.leads {s : Trivia} (h : Led lead us xs) (hs : Leads us s) :
    Leads xs s := by
  cases h with
  | mk =>
      obtain rfl | ⟨t, ht, rfl⟩ := hs
      · exact leads_empty
      · rcases List.mem_cons.1 ht with rfl | ht
        · exact leads_empty
        · exact leads_of_mem (List.mem_cons_of_mem _ ht)

/-- What sits in the tokens sits in them with trivia in front: of the first
token only the word was used. -/
theorem Spelling.Led.sitsIn {n : Node} (h : Led lead us xs) (hn : n.SitsIn us) :
    n.SitsIn xs := by
  refine ⟨fun s hs => h.leads (hn.spaces s hs), hn.starts.imp_right ?_⟩
  rintro ⟨t, ht, rest, hstarts⟩
  cases h with
  | @mk w ts =>
      rcases List.mem_cons.1 ht with rfl | ht
      · exact ⟨⟨lead, w⟩, List.mem_cons_self, rest, hstarts⟩
      · exact ⟨t, List.mem_cons_of_mem _ ht, rest, hstarts⟩

/-- Nodes that sit in the tokens without the first trivia sit in them with
it. -/
theorem Spelling.Led.allSitIn {ns : List Node} (h : Led lead us xs)
    (hns : AllSitIn us ns) : AllSitIn xs ns :=
  fun n hn => h.sitsIn (hns n hn)

/-- A node that takes the trivia off its first token starts with the word of
that token. -/
theorem Node.startsIn_of_led {ts vs : List Token} {n : Node}
    {ps more : List Piece} (hled : Led lead us xs) (hus : us = ts ++ vs)
    (hne : ts ≠ []) (hlead : n.lead = lead)
    (hpieces : n.pieces = .trivia lead :: (ps ++ more))
    (hps : solid ps = Token.flat ts) :
    n.StartsIn xs := by
  obtain ⟨t, ts, rfl⟩ := List.exists_cons_of_ne_nil hne
  cases hled with
  | @mk w us =>
      rw [List.cons_append, List.cons.injEq] at hus
      obtain ⟨rfl, -⟩ := hus
      refine ⟨⟨lead, w⟩, List.mem_cons_self, Token.flat ts ++ solid more, ?_⟩
      rw [hpieces, hlead, solid_trivia, solid_append, hps, Token.flat_cons,
        gap_empty, List.nil_append, List.cons_append]

end

-- ============================================================ declarations

theorem places_modifier : SpellsModifier.Places Modifier.walk := by
  intro us m h
  cases h with
  | @word t m h =>
      obtain rfl := Parser.asModifierWord_eq_some h
      have hmem := List.mem_singleton_self t
      exact .cons ⟨List.forall_mem_singleton.2 (leads_of_mem hmem),
        .inr (Node.startsIn_of_pieces hmem rfl)⟩ .nil
  | @marker lead us n hn =>
      have hmem : (⟨lead, .symbol "@"⟩ : Token) ∈ ⟨lead, .symbol "@"⟩ :: us :=
        List.mem_cons_self
      exact .cons ⟨List.forall_mem_singleton.2 (leads_of_mem hmem),
        .inr (Node.startsIn_of_pieces hmem rfl)⟩
          ((places_name hn).mono (by simp +contextual))
  | @called lead us n vs args hn hargs =>
      have hmem : (⟨lead, .symbol "@"⟩ : Token) ∈
          ⟨lead, .symbol "@"⟩ :: (us ++ vs) := List.mem_cons_self
      have hc : args.SitsIn (⟨lead, .symbol "@"⟩ :: (us ++ vs)) Expr.walk :=
        (sitsIn_delimited places_expr hargs).mono (by simp +contextual)
      refine .cons ⟨List.forall_mem_cons.2 ⟨leads_of_mem hmem, hc.spaces⟩,
        .inr (Node.startsIn_of_pieces hmem rfl)⟩
          (((places_name hn).mono (by simp +contextual)).append ?_)
      rw [Expr.walkAll_eq]
      exact allSitIn_elements hc.elements

/-- A declared name without a value. -/
theorem allSitIn_declarator {us : List Token} {i : Ident}
    (h : ⟨i.lead, .name i.name⟩ ∈ us) {initializer : Option (LeftPadded Expr)}
    (hbefore : ∀ v ∈ initializer, Leads us v.before)
    (hvalue : ∀ v ∈ initializer, AllSitIn us v.element.walk) :
    AllSitIn us (Variable.walk ⟨i.lead, .simple ⟨"", i.name⟩ none, initializer,
      none⟩) := by
  have hname : (Node.name (.simple ⟨"", i.name⟩ none)).SitsIn us :=
    ⟨List.forall_mem_singleton.2 leads_empty,
      .inr (Node.startsIn_of_pieces h rfl)⟩
  have hstarts : (Node.declarator ⟨i.lead, .simple ⟨"", i.name⟩ none,
      initializer, none⟩).StartsIn us := by
    refine ⟨⟨i.lead, .name i.name⟩, h, ?_⟩
    simp [Node.pieces, Node.lead, Variable.pieces, Name.pieces,
      Ident.pieces, Word.text]
  cases initializer with
  | none =>
      exact .cons ⟨List.forall_mem_singleton.2 (leads_of_mem h), .inr hstarts⟩
        (.cons hname .nil)
  | some v =>
      refine .cons ⟨?_, .inr hstarts⟩ (.cons hname (hvalue v rfl))
      exact List.forall_mem_cons.2 ⟨leads_of_mem h,
        List.forall_mem_singleton.2 (hbefore v rfl)⟩

theorem places_declarator : SpellsDeclarator.Places Variable.walk := by
  intro us v h
  cases h with
  | bare i =>
      exact allSitIn_declarator List.mem_cons_self (fun _ h => nomatch h)
        fun _ h => nomatch h
  | @initialized i before us e he =>
      refine allSitIn_declarator List.mem_cons_self ?_ ?_
      · rintro _ ⟨⟩
        exact leads_of_mem (t := ⟨before, .symbol "="⟩) (by simp)
      · rintro _ ⟨⟩
        exact (places_expr he).mono (by simp +contextual)

/-- Modifiers, a type and declared names, of which the first token gives its
trivia to the whole. -/
theorem allSitIn_declaration {lead : Trivia} {us vs ws xs : List Token}
    {ms : List Modifier} {t : TypeTree} {ds : List (RightPadded Variable)}
    (hms : Many SpellsModifier us ms) (hsolid : solid t.pieces = Token.flat vs)
    (hne : vs ≠ []) (ht : AllSitIn vs t.walk)
    (hds : ∀ p ∈ ds, p.SitsIn ws Variable.walk)
    (hled : Led lead (us ++ vs ++ ws) xs) :
    AllSitIn xs (Variables.walk ⟨lead, ms, t, ds⟩) := by
  have hall : ∀ p ∈ ds, p.SitsIn (us ++ vs ++ ws) Variable.walk :=
    fun p hp => (hds p hp).mono (by simp +contextual)
  refine .cons ⟨?_, .inr ?_⟩ (hled.allSitIn ((AllSitIn.append ?_ ?_).append ?_))
  · exact List.forall_mem_cons.2 ⟨hled.leads_lead, fun s hs =>
      hled.leads (leads_afters hall s hs)⟩
  · refine Node.startsIn_of_led hled rfl
      (List.append_ne_nil_of_right_ne_nil us hne) rfl rfl ?_
    rw [solid_append, solid_modifiers hms, hsolid, Token.flat_append]
  · exact (places_many places_modifier hms).mono (by simp +contextual)
  · exact ht.mono (by simp +contextual)
  · exact allSitIn_elements hall

theorem places_declaration : SpellsDeclaration.Places Variables.walk := by
  intro us d h
  cases h with
  | mk hms ht hds hled =>
      exact allSitIn_declaration hms (solid_type ht) (opens_type ht).ne_nil
        (places_type ht)
        (sitsIn_padded places_declarator hds) hled

/-- The nodes of a parameter sit in its tokens if those of its type do. -/
theorem places_parameter {R : Spelling TypeTree} (hR : R.Places TypeTree.walk)
    (hsolid : ∀ ⦃us t⦄, R us t → solid t.pieces = Token.flat us)
    (hne : ∀ ⦃us t⦄, R us t → us ≠ []) :
    (ParameterWith R).Places Variables.walk := by
  intro us d h
  cases h with
  | mk i hms ht hled =>
      refine allSitIn_declaration hms (hsolid ht) (hne ht) (hR ht) ?_ hled
      exact List.forall_mem_singleton.2 ⟨leads_empty,
        allSitIn_declarator List.mem_cons_self
        (fun _ h => nomatch h) fun _ h => nomatch h⟩

theorem places_methodParameter :
    (ParameterWith SpellsType).Places Variables.walk :=
  places_parameter places_type (fun _ _ => solid_type) fun _ _ h =>
    (opens_type h).ne_nil

theorem places_catchParameter :
    (ParameterWith SpellsCatchType).Places Variables.walk :=
  places_parameter places_catchType
    (fun _ _ => solid_of_complete Parser.catchType_complete
      Parser.catchType_reads)
    fun _ _ h => (opens_catchType h).ne_nil

-- ============================================================== statements

theorem places_condition : SpellsCondition.Places Expr.walkCondition := by
  intro us c h
  cases h with
  | @mk lead us e after he =>
      have hmem : (⟨lead, .symbol "("⟩ : Token) ∈
        ⟨lead, .symbol "("⟩ :: (us ++ [⟨after, .symbol ")"⟩]) :=
          List.mem_cons_self
      refine .cons ⟨?_, .inr (Node.startsIn_of_pieces hmem rfl)⟩
        ((places_expr he).mono (by simp +contextual))
      exact List.forall_mem_cons.2 ⟨leads_of_mem hmem,
        List.forall_mem_singleton.2
          (leads_of_mem (t := ⟨after, .symbol ")"⟩) (by simp))⟩

/-- The nodes of a block sit where the block does. -/
theorem allSitIn_block {us : List Token} {b : Block Stmt}
    (h : b.SitsIn us Stmt.walk) : AllSitIn us (Stmt.walkBlock b) := by
  have hpieces : Stmt.blockPieces b =
      bracedPieces b.lead (Stmt.allPieces b.statements) b.close := by
    rw [Stmt.blockPieces]
  have hblock : (Node.block b).SitsIn us :=
    ⟨h.spaces, .inr (Node.startsIn_of_pieces h.token hpieces)⟩
  rw [Stmt.walkBlock, Stmt.walkAll_eq]
  exact .cons hblock (allSitIn_elements h.statements)

section

variable {R : Spelling (RightPadded Stmt)}
  (hR : ∀ ⦃us p⦄, R us p → p.SitsIn us Stmt.walk)
include hR

/-- The nodes of a block sit in its tokens, if those of its statements do. -/
theorem places_block : (Braced R).Places Stmt.walkBlock :=
  fun _ _ h => allSitIn_block (sitsIn_braced hR h)

theorem places_catch : (CatchWith R).Places Catch.walk := by
  intro us c h
  cases h with
  | @mk lead opening us d closing vs b hd hb =>
      have hmem : (⟨lead, .keyword "catch"⟩ : Token) ∈
          ⟨lead, .keyword "catch"⟩ ::
        ⟨opening, .symbol "("⟩ :: (us ++ ⟨closing, .symbol ")"⟩ :: vs) :=
          List.mem_cons_self
      have hopening :
          (⟨opening, .symbol "("⟩ : Token) ∈ ⟨lead, .keyword "catch"⟩ ::
        ⟨opening, .symbol "("⟩ ::
          (us ++ ⟨closing, .symbol ")"⟩ :: vs) := by simp
      refine .cons ⟨List.forall_mem_singleton.2 (leads_of_mem hmem),
        .inr (Node.startsIn_of_pieces hmem rfl)⟩ (.append (.cons ⟨?_,
          .inr (Node.startsIn_of_pieces hopening rfl)⟩ ?_) ?_)
      · exact List.forall_mem_cons.2 ⟨leads_of_mem hopening,
          List.forall_mem_singleton.2
            (leads_of_mem (t := ⟨closing, .symbol ")"⟩) (by simp))⟩
      · exact (places_catchParameter hd).mono (by simp +contextual)
      · exact (places_block hR hb).mono (by simp +contextual)

theorem places_finally : (FinallyWith R).Places Stmt.walkFinally := by
  intro us f h
  cases h with
  | none => exact .nil
  | some hb => exact (places_block hR hb).mono (by simp +contextual)

omit hR in

/-- The trivia before the last block is led by a token. -/
theorem leads_finally {us : List Token} {f : Option (LeftPadded (Block Stmt))}
    (h : FinallyWith R us f) :
    ∀ s ∈ f.toList.map LeftPadded.before, Leads us s := by
  cases h with
  | none => exact List.forall_mem_nil _
  | @some before us b _ =>
      exact List.forall_mem_singleton.2
        (leads_of_mem (t := ⟨before, .keyword "finally"⟩) (by simp))

theorem sitsIn_plain ⦃us : List Token⦄ ⦃s : RightPadded Stmt⦄
    (h : PlainWith R us s) : s.SitsIn us Stmt.walk := by
  cases h with
  | block hb => exact ⟨leads_empty, places_block hR hb⟩
  | @empty lead =>
      exact ⟨leads_empty, .cons ⟨List.forall_mem_singleton.2
        (leads_of_mem (t := ⟨lead, .symbol ";"⟩) (by simp)), .inl rfl⟩ .nil⟩
  | @tryCatch lead us b vs cs ws f hb hcs hf =>
      have hmem : (⟨lead, .keyword "try"⟩ : Token) ∈
          ⟨lead, .keyword "try"⟩ :: (us ++ vs ++ ws) :=
        List.mem_cons_self
      refine ⟨leads_empty, .cons ⟨?_, .inr (Node.startsIn_of_pieces hmem rfl)⟩
        (.append (.append ?_ ?_) ?_)⟩
      · exact List.forall_mem_cons.2 ⟨leads_of_mem hmem,
          fun s hs => (leads_finally hf s hs).mono (by simp +contextual)⟩
      · exact (places_block hR hb).mono (by simp +contextual)
      · rw [Catch.walkAll_eq]
        exact (places_many (places_catch hR) hcs).mono (by simp +contextual)
      · exact (places_finally hR hf).mono (by simp +contextual)
  | @throwing lead us e after he =>
      have hmem : (⟨lead, .keyword "throw"⟩ : Token) ∈
        ⟨lead, .keyword "throw"⟩ :: (us ++ [⟨after, .symbol ";"⟩]) :=
          List.mem_cons_self
      exact ⟨leads_of_mem (t := ⟨after, .symbol ";"⟩) (by simp), .cons
        ⟨List.forall_mem_singleton.2 (leads_of_mem hmem),
          .inr (Node.startsIn_of_pieces hmem rfl)⟩
        ((places_expr he).mono (by simp +contextual))⟩
  | @returningNone lead after =>
      have hmem : (⟨lead, .keyword "return"⟩ : Token) ∈
        [⟨lead, .keyword "return"⟩, ⟨after, .symbol ";"⟩] := List.mem_cons_self
      exact ⟨leads_of_mem (t := ⟨after, .symbol ";"⟩) (by simp), .cons
        ⟨List.forall_mem_singleton.2 (leads_of_mem hmem),
          .inr (Node.startsIn_of_pieces hmem rfl)⟩ .nil⟩
  | @returning lead us e after he =>
      have hmem : (⟨lead, .keyword "return"⟩ : Token) ∈
        ⟨lead, .keyword "return"⟩ :: (us ++ [⟨after, .symbol ";"⟩]) :=
          List.mem_cons_self
      exact ⟨leads_of_mem (t := ⟨after, .symbol ";"⟩) (by simp), .cons
        ⟨List.forall_mem_singleton.2 (leads_of_mem hmem),
          .inr (Node.startsIn_of_pieces hmem rfl)⟩
        ((places_expr he).mono (by simp +contextual))⟩
  | @declaration us d after hd =>
      exact ⟨leads_of_mem (t := ⟨after, .symbol ";"⟩) (by simp),
        (places_declaration hd).mono (by simp +contextual)⟩
  | @expr us e after he =>
      exact ⟨leads_of_mem (t := ⟨after, .symbol ";"⟩) (by simp),
        (places_expr he).mono (by simp +contextual)⟩

end

/-- The keyword of the head is one of the tokens, and so are those of its
condition. -/
structure Head.SitsIn (us : List Token) (h : Head) : Prop where
  token : ⟨h.lead, .keyword (if h.loops then "while" else "if")⟩ ∈ us
  condition : AllSitIn us (Expr.walkCondition h.condition)

/-- A head that sits in some tokens sits in more of them. -/
theorem Head.SitsIn.mono {us vs : List Token} {h : Head} (hh : h.SitsIn us)
    (hsub : ∀ t ∈ us, t ∈ vs) : h.SitsIn vs :=
  ⟨hsub _ hh.token, hh.condition.mono hsub⟩

theorem sitsIn_head ⦃us : List Token⦄ ⦃h : Head⦄ (hspells : SpellsHead us h) :
    h.SitsIn us := by
  cases hspells with
  | whileLoop hc =>
      exact ⟨List.mem_cons_self,
        (places_condition hc).mono (by simp +contextual)⟩
  | ifElse hc =>
      exact ⟨List.mem_cons_self,
        (places_condition hc).mono (by simp +contextual)⟩

/-- The nodes of heads in a row sit in the tokens of the row. -/
theorem sitsIn_heads {us : List Token} {heads : List Head}
    (h : Many SpellsHead us heads) : ∀ h ∈ heads, h.SitsIn us := by
  induction h with
  | nil => exact List.forall_mem_nil _
  | cons hh _ ih =>
      exact List.forall_mem_cons.2 ⟨(sitsIn_head hh).mono (by simp +contextual),
        fun h hmem => (ih h hmem).mono (by simp +contextual)⟩

/-- An `else`, with the heads and the statement after it. -/
structure Branch.SitsIn (us : List Token) (b : Branch) : Prop where
  token : ⟨b.elseLead, .keyword "else"⟩ ∈ us
  heads : ∀ h ∈ b.heads, h.SitsIn us
  body : b.body.SitsIn us Stmt.walk

/-- A branch that sits in some tokens sits in more of them. -/
theorem Branch.SitsIn.mono {us vs : List Token} {b : Branch} (h : b.SitsIn us)
    (hsub : ∀ t ∈ us, t ∈ vs) : b.SitsIn vs :=
  ⟨hsub _ h.token, fun h' hh => (h.heads h' hh).mono hsub, h.body.mono hsub⟩

section

variable {R : Spelling (RightPadded Stmt)}
  (hR : ∀ ⦃us p⦄, R us p → p.SitsIn us Stmt.walk)
include hR

/-- The nodes of branches in a row sit in the tokens of the row. -/
theorem sitsIn_branches {us : List Token} {bs : List Branch}
    (h : Many (BranchWith R) us bs) : ∀ b ∈ bs, b.SitsIn us := by
  induction h with
  | nil => exact List.forall_mem_nil _
  | cons hb _ ih =>
      refine List.forall_mem_cons.2 ⟨?_, fun b hmem =>
        (ih b hmem).mono (by simp +contextual)⟩
      cases hb with
      | mk hheads hbody =>
          exact ⟨by simp, fun h hh =>
            (sitsIn_heads hheads h hh).mono (by simp +contextual),
            (sitsIn_plain hR hbody).mono (by simp +contextual)⟩

/-- The nodes of a statement sit in its tokens, whichever head its branches
belong to. -/
theorem sitsIn_statementWith ⦃us : List Token⦄ ⦃s : RightPadded Stmt⦄
    (h : StatementWith R us s) : s.SitsIn us Stmt.walk := by
  cases h with
  | @mk us heads vs body ws branches hheads hbody hbranches _ =>
      have hbs : ∀ b ∈ branches, b.SitsIn (us ++ vs ++ ws) :=
        fun b hb => (sitsIn_branches hR hbranches b hb).mono
          (by simp +contextual)
      refine Branch.shape_induction_parts (H := Head.SitsIn (us ++ vs ++ ws))
        (E := fun lead => ⟨lead, .keyword "else"⟩ ∈ us ++ vs ++ ws)
        (Q := fun p => p.SitsIn (us ++ vs ++ ws) Stmt.walk) ?_ ?_ ?_
        (fun h hh => (sitsIn_heads hheads h hh).mono (by simp +contextual))
        ((sitsIn_plain hR hbody).mono (by simp +contextual))
        fun b hb => ⟨(hbs b hb).token, (hbs b hb).heads, (hbs b hb).body⟩
      · intro h p hh hloops hp
        have hmem := hh.token
        rw [if_pos hloops] at hmem
        refine ⟨leads_empty, .cons ⟨?_, .inr (Node.startsIn_of_pieces hmem rfl)⟩
          (hh.condition.append hp.nodes)⟩
        exact List.forall_mem_cons.2 ⟨leads_of_mem hmem,
          List.forall_mem_singleton.2 hp.after⟩
      · intro h p hh hloops hp
        have hmem := hh.token
        rw [hloops, if_neg Bool.false_ne_true] at hmem
        refine ⟨leads_empty, .cons ⟨?_, .inr (Node.startsIn_of_pieces hmem rfl)⟩
          ((hh.condition.append hp.nodes).append .nil)⟩
        exact List.forall_mem_cons.2 ⟨leads_of_mem hmem,
          List.forall_mem_singleton.2 hp.after⟩
      · intro h p lead q hh hloops hlead hp hq
        have hmem := hh.token
        rw [hloops, if_neg Bool.false_ne_true] at hmem
        refine ⟨leads_empty, .cons ⟨?_, .inr (Node.startsIn_of_pieces hmem rfl)⟩
          ((hh.condition.append hp.nodes).append
            (.cons ⟨?_, .inr (Node.startsIn_of_pieces hlead rfl)⟩ hq.nodes))⟩
        · exact List.forall_mem_cons.2 ⟨leads_of_mem hmem,
            List.forall_mem_singleton.2 hp.after⟩
        · exact List.forall_mem_cons.2 ⟨leads_of_mem hlead,
            List.forall_mem_singleton.2 hq.after⟩

end

/-- The nodes of a statement sit in the tokens that spell it. -/
theorem sitsIn_stmt ⦃us : List Token⦄ ⦃s : RightPadded Stmt⦄
    (h : SpellsStmt us s) : s.SitsIn us Stmt.walk := by
  obtain ⟨n, h⟩ := h
  induction n generalizing us s with
  | zero => cases h
  | succ n ih => exact sitsIn_statementWith (fun us s h => ih h) h

-- ================================================================= members

/-- A node with modifiers first: they and what follows them up to the first
word that cannot be missing are taken together. -/
theorem Node.startsIn_of_modifiers {lead : Trivia} {us vs ws xs : List Token}
    {ms : List Modifier} {n : Node} {ps more : List Piece}
    (hms : Many SpellsModifier us ms) (hled : Led lead (us ++ vs ++ ws) xs)
    (hne : vs ≠ []) (hlead : n.lead = lead)
    (hpieces : n.pieces =
      .trivia lead :: (Modifier.listPieces ms ++ ps ++ more))
    (hps : solid ps = Token.flat vs) : n.StartsIn xs := by
  refine startsIn_of_led hled rfl (List.append_ne_nil_of_right_ne_nil us hne)
    hlead hpieces ?_
  rw [solid_append, solid_modifiers hms, hps, Token.flat_append]

/-- The nodes of a class body sit where the body does. -/
theorem allSitIn_classBody {us : List Token} {b : Block Member}
    (h : b.SitsIn us Member.walk) : AllSitIn us (Member.walkBlock b) := by
  have hpieces : Member.blockPieces b =
      bracedPieces b.lead (Member.allPieces b.statements) b.close := by
    rw [Member.blockPieces]
  have hbody : (Node.classBody b).SitsIn us :=
    ⟨h.spaces, .inr (Node.startsIn_of_pieces h.token hpieces)⟩
  rw [Member.walkBlock, Member.walkAll_eq]
  exact .cons hbody (allSitIn_elements h.statements)

/-- The pieces of a class up to its keyword. -/
theorem ClassDecl.exists_pieces (c : JavaClass) : ∃ more, c.pieces =
    .trivia c.lead :: (Modifier.listPieces c.modifiers ++
      [.trivia c.kindLead, .word c.kind.text] ++ more) := by
  refine ⟨c.name.pieces ++ TypeTree.listPieces "extends" c.extends? ++
    TypeTree.listPieces "implements" c.implements? ++
      Member.blockPieces c.body, ?_⟩
  simp [pieces]

/-- The pieces of a method up to its name. -/
theorem Method.exists_pieces (m : Method) : ∃ more, m.pieces =
    .trivia m.lead :: (Modifier.listPieces m.modifiers ++
      (m.returnType.elim [] TypeTree.pieces ++ m.name.pieces) ++ more) := by
  obtain ⟨lead, modifiers, returnType, name, parameters, throws,
      body, type⟩ := m
  cases returnType <;> exact ⟨_, by
    simp only [pieces, Option.elim, List.append_assoc]; rfl⟩

/-- A class with its modifiers. -/
theorem allSitIn_class {R : Spelling (RightPadded Member)}
    (hR : ∀ ⦃us p⦄, R us p → p.SitsIn us Member.walk) {lead : Trivia}
    {us vs xs : List Token} {ms : List Modifier} {t : Token}
    {kind : LeftPadded ClassKind} {c : JavaClass}
    (hms : Many SpellsModifier us ms) (hkind : Parser.asClassKind t = some kind)
    (h : ClassWith R lead ms kind vs c) (hled : Led lead (us ++ t :: vs) xs) :
    AllSitIn xs c.walk := by
  obtain ⟨hbefore, htext⟩ := Parser.asClassKind_eq_some hkind
  cases h with
  | @mk i es extends? is implements? bs body hextends himplements hbody =>
      obtain ⟨hespaces, henodes⟩ := sitsIn_classTypes hextends
      obtain ⟨hispaces, hinodes⟩ := sitsIn_classTypes himplements
      have hname :
          AllSitIn (us ++ t :: ⟨i.lead, .name i.name⟩ :: (es ++ is ++ bs))
          (Name.simple i none).walk :=
            (places_name (.simple i)).mono (by simp +contextual)
      have hled' : Led lead (us ++ [t] ++ ⟨i.lead, .name i.name⟩ ::
          (es ++ is ++ bs)) xs := by
        rwa [List.append_assoc]
      rw [ClassDecl.walk]
      refine .cons ⟨?_, .inr ?_⟩ (hled.allSitIn
        ((((AllSitIn.append ?_ hname).append ?_).append ?_).append ?_))
      · refine List.forall_mem_cons.2 ⟨hled.leads_lead, List.forall_mem_cons.2
          ⟨hled.leads (hbefore ▸ leads_of_mem (by simp)), fun s hs =>
            hled.leads ?_⟩⟩
        rcases List.mem_append.1 hs with hs | hs
        · exact (hespaces s hs).mono (by simp +contextual)
        · exact (hispaces s hs).mono (by simp +contextual)
      · obtain ⟨more, hpieces⟩ := ClassDecl.exists_pieces
          ⟨lead, ms, kind.before, kind.element, .simple i none, extends?,
            implements?, body, none⟩
        refine Node.startsIn_of_modifiers hms hled' (List.cons_ne_nil _ _)
          rfl hpieces ?_
        rw [hbefore, htext, solid_trivia]
        rfl
      · exact (places_many places_modifier hms).mono (by simp +contextual)
      · exact henodes.mono (by simp +contextual)
      · exact hinodes.mono (by simp +contextual)
      · exact allSitIn_classBody
          ((sitsIn_braced hR hbody).mono (by simp +contextual))

/-- The parameters and exceptions of a method. -/
theorem sitsIn_signature {us vs : List Token} {params : Container Variables}
    {throws : Option (Container TypeTree)}
    (hparams : Delimited (ParameterWith SpellsType) "(" ")" us params)
    (hthrows : AfterKeyword SpellsClassType "throws" vs throws) :
    (∀ s ∈ params.spaces ++ Container.optionalSpaces throws,
      Leads (us ++ vs) s) ∧
      AllSitIn (us ++ vs) (params.elements.flatMap (fun p => p.element.walk) ++
        TypeTree.walkList throws) := by
  have hc : params.SitsIn (us ++ vs) Variables.walk :=
    (sitsIn_delimited places_methodParameter hparams).mono (by simp +contextual)
  obtain ⟨hspaces, hnodes⟩ := sitsIn_classTypes hthrows
  exact ⟨List.forall_mem_append.2 ⟨hc.spaces, fun s hs =>
    (hspaces s hs).mono (by simp +contextual)⟩,
    (allSitIn_elements hc.elements).append (hnodes.mono (by simp +contextual))⟩

/-- A method with its modifiers and its result, if it has one. -/
theorem allSitIn_method {lead : Trivia} {us vs ws ts bs xs : List Token}
    {ms : List Modifier} {returnType : Option TypeTree} {i : Ident}
    {params : Container Variables} {throws : Option (Container TypeTree)}
    {body : Option (Block Stmt)} (hms : Many SpellsModifier us ms)
    (hreturn : solid (returnType.elim [] TypeTree.pieces) = Token.flat vs)
    (hnodes : AllSitIn vs (returnType.elim [] TypeTree.walk))
    (hparams : Delimited (ParameterWith SpellsType) "(" ")" ws params)
    (hthrows : AfterKeyword SpellsClassType "throws" ts throws)
    (hbody : AllSitIn bs (body.elim [] Stmt.walkBlock))
    (hled : Led lead (us ++ (vs ++ [⟨i.lead, .name i.name⟩]) ++
      (ws ++ ts ++ bs)) xs) :
    AllSitIn xs (Method.walk ⟨lead, ms, returnType, i, params, throws, body,
      none⟩) := by
  obtain ⟨hspaces, hsignature⟩ := sitsIn_signature hparams hthrows
  have hname : (⟨i.lead, .name i.name⟩ : Token) ∈
    us ++ (vs ++ [⟨i.lead, .name i.name⟩]) ++ (ws ++ ts ++ bs) := by simp
  refine .cons ⟨?_, .inr ?_⟩ (hled.allSitIn ((AllSitIn.append ?_ ?_).append
    (.cons (Node.sitsIn_ident hname (leads_of_mem hname) rfl)
      (AllSitIn.append ?_ ?_))))
  · exact List.forall_mem_cons.2 ⟨hled.leads_lead,
      fun s hs => hled.leads ((hspaces s hs).mono
        (by simp only [List.mem_append]; tauto))⟩
  · obtain ⟨more, hpieces⟩ :=
      Method.exists_pieces ⟨lead, ms, returnType, i, params, throws, body, none⟩
    refine Node.startsIn_of_modifiers hms hled (by simp) rfl hpieces ?_
    rw [solid_append, hreturn, Token.flat_append, Ident.pieces, solid_trivia]
    rfl
  · exact (places_many places_modifier hms).mono (by simp +contextual)
  · replace hnodes :
        AllSitIn (us ++ (vs ++ [⟨i.lead, .name i.name⟩]) ++ (ws ++ ts ++ bs))
      (returnType.elim [] TypeTree.walk) := hnodes.mono (by simp +contextual)
    cases returnType <;> exact hnodes
  · exact hsignature.mono (by simp only [List.mem_append]; tauto)
  · replace hbody :
        AllSitIn (us ++ (vs ++ [⟨i.lead, .name i.name⟩]) ++ (ws ++ ts ++ bs))
      (body.elim [] Stmt.walkBlock) := hbody.mono (by simp +contextual)
    cases body <;> exact hbody

theorem sitsIn_methodWith {lead : Trivia} {us vs ws xs : List Token}
    {ms : List Modifier} {returnType : Option TypeTree} {i : Ident}
    {mayLackBody : Bool} {m : RightPadded Member}
    (hms : Many SpellsModifier us ms)
    (hreturn : solid (returnType.elim [] TypeTree.pieces) = Token.flat vs)
    (hnodes : AllSitIn vs (returnType.elim [] TypeTree.walk))
    (h : MethodWith lead ms returnType i mayLackBody ws m)
    (hled : Led lead (us ++ (vs ++ ⟨i.lead, .name i.name⟩ :: ws)) xs) :
    m.SitsIn xs Member.walk := by
  cases h with
  | @bodied ps params ts throws bs body hparams hthrows hbody =>
      refine ⟨leads_empty, ?_⟩
      rw [Member.walk]
      exact allSitIn_method hms hreturn hnodes hparams hthrows
        (places_block sitsIn_stmt hbody)
        (by simpa using hled)
  | @abstract ps params ts throws after _ hparams hthrows =>
      refine ⟨hled.leads (leads_of_mem (t := ⟨after, .symbol ";"⟩) (by simp)),
        ?_⟩
      have hbody : AllSitIn [⟨after, .symbol ";"⟩]
          ((none : Option (Block Stmt)).elim [] Stmt.walkBlock) :=
        .nil
      rw [Member.walk]
      exact allSitIn_method hms hreturn hnodes hparams hthrows hbody
        (by simpa using hled)

/-- The nodes of a member sit in its tokens, if those of what it nests do. -/
theorem sitsIn_memberWith {R : Spelling (RightPadded Member)}
    (hR : ∀ ⦃us p⦄, R us p → p.SitsIn us Member.walk) ⦃us : List Token⦄
    ⦃m : RightPadded Member⦄ (h : MemberWith R us m) :
    m.SitsIn us Member.walk := by
  cases h with
  | @mk lead us ms vs m xs hms hm hled =>
      cases hm with
      | nested hkind hc =>
          refine ⟨leads_empty, ?_⟩
          rw [Member.walk]
          exact allSitIn_class hR hms hkind hc hled
      | @void before us' m i hm =>
          have hmem := List.mem_singleton_self
            (⟨before, .keyword "void"⟩ : Token)
          have hvoid : AllSitIn [⟨before, .keyword "void"⟩]
              ((some (TypeTree.primitive before .void none)).elim []
                TypeTree.walk) :=
            .cons ⟨List.forall_mem_singleton.2 (leads_of_mem hmem),
              .inr (Node.startsIn_of_pieces hmem rfl)⟩ .nil
          refine sitsIn_methodWith hms ?_ hvoid hm (by simpa using hled)
          simp [TypeTree.pieces, Word.text, Primitive.text]
      | constructor i hm =>
          have hnone : AllSitIn []
              ((none : Option TypeTree).elim [] TypeTree.walk) := .nil
          exact sitsIn_methodWith hms rfl hnone hm hled
      | @method us' t vs' m i ht hm =>
          have hresult : solid ((some t).elim [] TypeTree.pieces) =
              Token.flat us' := solid_type ht
          exact sitsIn_methodWith hms hresult (places_type ht) hm hled
      | @field us' t vs' ds after ht hds =>
          have hds' : ∀ p ∈ ds,
              p.SitsIn (vs' ++ [⟨after, .symbol ";"⟩]) Variable.walk :=
            fun p hp => (sitsIn_padded places_declarator hds p hp).mono
              (by simp +contextual)
          refine ⟨hled.leads (leads_of_mem (t := ⟨after, .symbol ";"⟩)
            (by simp)), ?_⟩
          rw [Member.walk]
          exact allSitIn_declaration hms (solid_type ht) (opens_type ht).ne_nil
            (places_type ht) hds'
            (by simpa using hled)

/-- The nodes of a member sit in the tokens that spell it. -/
theorem sitsIn_member ⦃us : List Token⦄ ⦃m : RightPadded Member⦄
    (h : SpellsMember us m) : m.SitsIn us Member.walk := by
  obtain ⟨n, h⟩ := h
  induction n generalizing us m with
  | zero => cases h
  | succ n ih => exact sitsIn_memberWith (fun us m h => ih h) h

-- =================================================================== files

/-- The nodes of a class sit in the tokens that spell it. -/
theorem places_topClass : SpellsTopClass.Places ClassDecl.walk := by
  intro us c h
  cases h with
  | mk hms hkind hc hled => exact allSitIn_class sitsIn_member hms hkind hc hled

theorem sitsIn_package {us : List Token} {o : Option (RightPadded Package)}
    (h : SpellsPackage us o) : ∀ p ∈ o.toList, p.SitsIn us Package.walk := by
  cases h with
  | none => exact List.forall_mem_nil _
  | @some lead us n after hn =>
      have hmem : (⟨lead, .keyword "package"⟩ : Token) ∈
        ⟨lead, .keyword "package"⟩ :: (us ++ [⟨after, .symbol ";"⟩]) :=
          List.mem_cons_self
      exact List.forall_mem_singleton.2
        ⟨leads_of_mem (t := ⟨after, .symbol ";"⟩) (by simp), .cons
        ⟨List.forall_mem_singleton.2 (leads_of_mem hmem),
          .inr (Node.startsIn_of_pieces hmem rfl)⟩
        ((places_name hn).mono (by simp +contextual))⟩

theorem sitsIn_import ⦃us : List Token⦄ ⦃p : RightPadded Import⦄
    (h : SpellsImport us p) : p.SitsIn us Import.walk := by
  cases h with
  | @mk lead us static? vs n after hstatic hn =>
      have hmem : (⟨lead, .keyword "import"⟩ : Token) ∈
        ⟨lead, .keyword "import"⟩ :: (us ++ vs ++ [⟨after, .symbol ";"⟩]) :=
          List.mem_cons_self
      refine ⟨leads_of_mem (t := ⟨after, .symbol ";"⟩) (by simp), .cons
        ⟨List.forall_mem_cons.2 ⟨leads_of_mem hmem, ?_⟩,
          .inr (Node.startsIn_of_pieces hmem rfl)⟩
        ((places_importName hn).mono (by simp +contextual))⟩
      cases hstatic with
      | none => exact List.forall_mem_nil _
      | @some before =>
          exact List.forall_mem_singleton.2
            (leads_of_mem (t := ⟨before, .keyword "static"⟩) (by simp))

/-- The nodes below a file sit in its tokens. -/
theorem allSitIn_parts {us : List Token} {p : Option (RightPadded Package)}
    {imports : List (RightPadded Import)} {classes : List JavaClass}
    (h : SpellsParts us (p, imports, classes)) :
    (∀ s ∈ RightPadded.afters p.toList ++ RightPadded.afters imports,
      Leads us s) ∧ AllSitIn us (p.toList.flatMap (fun p => p.element.walk) ++
        imports.flatMap (fun p => p.element.walk) ++
          classes.flatMap ClassDecl.walk) := by
  cases h with
  | @mk us p vs imports ws classes hp himports hclasses =>
      have hp' : ∀ q ∈ p.toList, q.SitsIn (us ++ vs ++ ws) Package.walk :=
        fun q hq => (sitsIn_package hp q hq).mono (by simp +contextual)
      have hi' : ∀ q ∈ imports, q.SitsIn (us ++ vs ++ ws) Import.walk :=
        fun q hq => (sitsIn_many sitsIn_import himports q hq).mono
          (by simp +contextual)
      exact ⟨List.forall_mem_append.2 ⟨leads_afters hp', leads_afters hi'⟩,
        ((allSitIn_elements hp').append (allSitIn_elements hi')).append
          ((places_many places_topClass hclasses).mono (by simp +contextual))⟩

/-- Trivia that a spelled file keeps is in front of a token or after the last,
and every node starts with the word of a token, unless it is a statement
without words or the file has no tokens. -/
theorem sitsIn_unit {close : Trivia} {path : Option String} {ts : List Token}
    {cu : CompilationUnit} (h : SpellsUnit close path ts cu) : ∀ n ∈ cu.walk,
      (∀ s ∈ n.spaces, s = close ∨ Leads ts s) ∧
        (n.kind = .empty ∨ n.kind = .compilationUnit ∧ ts = [] ∨
          n.StartsIn ts) := by
  have hsolid : solid cu.pieces = Token.flat ts ++ gap close :=
    Parser.unit_reads (Parser.unit_complete h)
  rw [cu.walk_eq]
  cases h with
  | empty =>
      refine List.forall_mem_singleton.2 ⟨?_, .inr (.inl ⟨rfl, rfl⟩)⟩
      simp [Node.spaces, RightPadded.afters, Leads]
  | @mk lead us p imports classes xs hparts hled =>
      obtain ⟨hspaces, hnodes⟩ := allSitIn_parts hparts
      refine List.forall_mem_cons.2 ⟨⟨?_, .inr (.inr ?_)⟩, fun n hn => ?_⟩
      · refine List.forall_mem_cons.2 ⟨.inr hled.leads_lead,
          List.forall_mem_append.2
          ⟨fun s hs => .inr (hled.leads (hspaces s hs)),
            List.forall_mem_singleton.2 (.inl rfl)⟩⟩
      · cases hled with
        | @mk w ts =>
            refine ⟨⟨lead, w⟩, List.mem_cons_self,
              Token.flat ts ++ gap close, ?_⟩
            rw [Node.pieces, hsolid, Token.flat_cons, List.append_assoc,
              List.cons_append]
            rfl
      · have hn := hled.sitsIn (hnodes n hn)
        exact ⟨fun s hs => .inr (hn.spaces s hs), hn.starts.imp_right .inr⟩

/-- A node that starts with the word of a token is printed so. -/
theorem Node.StartsIn.print_eq {us : List Token} {n : Node}
    (h : n.StartsIn us) :
    ∃ t ∈ us, ∃ rest, n.print = n.lead ++ t.word.text ++ rest := by
  obtain ⟨t, ht, rest, hstarts⟩ := h
  refine ⟨t, ht, textAll rest, ?_⟩
  calc n.print = textAll (solid n.pieces) := (textAll_solid _).symm
    _ = n.lead ++ t.word.text ++ textAll rest := by
        rw [hstarts, textAll_append, textAll_gap, textAll_cons,
          String.append_assoc, Piece.text]

/-- The trivia that the node keeps is blanks and comments, and has no tokens.
The node is printed as the trivia in front of it and then the word of a token,
but for a statement without words and a file without tokens. -/
structure Node.Placed (ts : List Token) (n : Node) : Prop where
  spaces : ∀ s ∈ n.spaces, Token.IsTrivia s.toList ∧ (Token.scan s).tokens = []
  starts : n.kind = .empty ∨ n.kind = .compilationUnit ∧ ts = [] ∨
    ∃ t ∈ ts, t.word.text ≠ "" ∧ ∃ rest, n.print = n.lead ++ t.word.text ++ rest

/-- Every node of a file that was read keeps trivia and nothing else, and
starts with a token behind the trivia in front of it. -/
theorem placed_parseTree {source : String} {path : Option String}
    {cu : CompilationUnit} (h : parseTree source path = .ok cu) :
    ∀ n ∈ cu.walk, n.Placed (Token.scan source).tokens := by
  obtain ⟨⟨rest, hunit⟩, hstop, -⟩ := unit_of_parseTree h
  obtain ⟨-, hspells⟩ := Parser.unit_sound hunit
  have hseparated : Separated (Token.scan source).tokens :=
    Token.separated_scanChars (tidy_unit hspells).chain
  have honly : ∀ s, s = (Token.scan source).tail ∨
      Leads (Token.scan source).tokens s → Token.OnlyTrivia s := by
    rintro s (rfl | rfl | ⟨t, ht, rfl⟩)
    · exact Token.onlyTrivia_scanChars hstop
    · exact Token.OnlyTrivia.empty
    · exact (hseparated.whole t ht).onlyTrivia
  intro n hn
  obtain ⟨hspaces, hstarts⟩ := sitsIn_unit hspells n hn
  refine ⟨fun s hs => ?_, hstarts.imp_right (Or.imp_right fun hword => ?_)⟩
  · have hs := honly s (hspaces s hs)
    exact ⟨hs.isTrivia, by rw [hs.scan]⟩
  · obtain ⟨t, ht, rest, hprint⟩ := hword.print_eq
    refine ⟨t, ht, fun hempty => (hseparated.whole t ht).word.ne_nil ?_,
      rest, hprint⟩
    rw [hempty]
    rfl

/-- Comments between modifiers, in an argument list without arguments, and in
front of an operator. -/
theorem placed_parseTree_commented :
    ∃ cu,
      parseTree
        "class A \x7b /* a */ final // b\n int x = f( /* c */ ) /* d */ + 1; \x7d" none = .ok cu ∧
      ∀ n ∈ cu.walk, n.Placed (Token.scan
        "class A \x7b /* a */ final // b\n int x = f( /* c */ ) /* d */ + 1; \x7d").tokens := by
  have hok :
      (parseTree
        "class A \x7b /* a */ final // b\n int x = f( /* c */ ) /* d */ + 1; \x7d"
      none).isOk = true := by decide +kernel
  obtain ⟨cu, hcu⟩ := exists_of_isOk hok
  exact ⟨cu, hcu, placed_parseTree hcu⟩

end JavaRefit
