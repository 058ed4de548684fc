/-
Which node gets which trivia.

The trivia in front of a token goes to one place: to the outermost node
that starts with the token, or beside the separator, delimiter or keyword
that the token is. So whatever trivia a spelled tree keeps is empty or
stands in front of one of its tokens, and behind the trivia in front of a
node comes the word of a token (`Node.SitsIn`, of all nodes on a walk).

A chain is where this could fail: what was a node of its own becomes the
start of a longer one, and the trivia in front moves outwards. That it
moves as a whole is what `SitsIn.bare` and `SitsIn.chained` say. Nodes
that start with a list which may be empty (modifiers, say) take the
trivia off whatever token comes first, so there it is counted in tokens
what their text begins with (`startsIn_of_led`).

Chain: after the rules and both directions of the reader; the spaces of a
file that was read are told with it.
-/
import JavaRefit.Proofs.Grammar.Unit
import JavaRefit.Proofs.Reading.Unit
import JavaRefit.Proofs.Tree.Lead
import JavaRefit.Proofs.Tree.Spaces

namespace JavaRefit

open Piece Spelling

-- ================================================================= sitting

/-- Trivia that is empty or in front of one of the tokens. -/
def Token.Leads (us : List Token) (s : Trivia) : Prop :=
  s = "" ∨ ∃ t ∈ us, t.lead = s

theorem Token.leads_empty {us : List Token} : Leads us "" :=
  .inl rfl

/-- The trivia of a token among some is led by one of them. -/
theorem Token.leads_of_mem {us : List Token} {t : Token} (h : t ∈ us) :
    Leads us t.lead :=
  .inr ⟨t, h, rfl⟩

/-- More tokens lead more trivia. -/
theorem Token.Leads.mono {us vs : List Token} {s : Trivia} (h : Leads us s)
    (hsub : ∀ t ∈ us, t ∈ vs) : Leads vs s :=
  h.imp_right fun ⟨t, ht, hs⟩ => ⟨t, hsub t ht, hs⟩

namespace Node

/-- Behind the trivia in front of the node comes the word of one of the
tokens. -/
def StartsIn (us : List Token) (n : Node) : Prop :=
  ∃ t ∈ us, ∃ rest, solid n.pieces = gap n.lead ++ .word t.word.text :: rest

/-- The trivia of the node is that of some tokens, and the node starts with a
word of one, unless it is empty. -/
structure SitsIn (us : List Token) (n : Node) : Prop where
  spaces : ∀ s ∈ n.spaces, Token.Leads us s
  starts : n.kind = .empty ∨ n.StartsIn us

variable {us vs : List Token} {n n' : Node}

/-- A node that sits in some tokens sits in more of them. -/
theorem SitsIn.mono (h : n.SitsIn us) (hsub : ∀ t ∈ us, t ∈ vs) : n.SitsIn vs :=
  ⟨fun s hs => (h.spaces s hs).mono hsub,
    h.starts.imp_right fun ⟨t, ht, hstarts⟩ => ⟨t, hsub t ht, hstarts⟩⟩

/-- The node with its own trivia first and then a word starts with the word. -/
theorem startsIn_of_pieces {t : Token} {rest : List Piece} (ht : t ∈ us)
    (h : n.pieces = .trivia n.lead :: .word t.word.text :: rest) :
    n.StartsIn us :=
  ⟨t, ht, solid rest, by rw [h, solid_trivia, solid_word]⟩

/-- The node without the trivia in front of it. -/
theorem SitsIn.bare (h : n.SitsIn us)
    (hspaces : ∀ s ∈ n'.spaces, s = "" ∨ s ∈ n.spaces)
    (hkind : n'.kind = n.kind) (hlead : n'.lead = "")
    (hpieces : solid n.pieces = gap n.lead ++ solid n'.pieces) :
    n'.SitsIn us := by
  refine ⟨fun s hs => (hspaces s hs).elim .inl (h.spaces s), ?_⟩
  rw [hkind]
  refine h.starts.imp_right fun ⟨t, ht, rest, hstarts⟩ => ⟨t, ht, rest, ?_⟩
  rw [hlead, gap_empty, List.nil_append]
  exact List.append_cancel_left (hpieces.symm.trans hstarts)

/-- A longer node that starts with the node, and keeps the trivia in front of
it. -/
theorem SitsIn.chained (h : n.SitsIn us) (hkind : n.kind ≠ .empty)
    {bare more : List Piece} (hbare : solid n.pieces = gap n.lead ++ solid bare)
    (hpieces : n'.pieces = .trivia n.lead :: (bare ++ more))
    (hlead : n'.lead = n.lead) (hspaces : ∀ s ∈ n'.spaces, Token.Leads us s) :
    n'.SitsIn us := by
  obtain ⟨t, ht, rest, hstarts⟩ := h.starts.resolve_left hkind
  refine ⟨hspaces, .inr ⟨t, ht, rest ++ solid more, ?_⟩⟩
  calc solid n'.pieces
      = solid n.pieces ++ solid more := by
        rw [hpieces, solid_trivia, solid_append, hbare, List.append_assoc]
    _ = gap n'.lead ++ .word t.word.text :: (rest ++ solid more) := by
        rw [hstarts, hlead, List.append_assoc, List.cons_append]

/-- No name is an empty node. -/
theorem nameKind_ne (n : Name) : (Node.name n).kind ≠ .empty := by
  cases n <;> exact NodeKind.noConfusion

/-- No expression is an empty node. -/
theorem exprKind_ne (e : Expr) : (Node.expr e).kind ≠ .empty := by
  cases e <;> exact NodeKind.noConfusion

end Node

open Token (Leads leads_empty leads_of_mem)

/-- All the nodes sit in the tokens. -/
def Node.AllSitIn (us : List Token) (ns : List Node) : Prop :=
  ∀ n ∈ ns, n.SitsIn us

namespace Node.AllSitIn

variable {us vs : List Token} {ns ns' : List Node} {n : Node}

/-- Nodes that sit in some tokens sit in more of them. -/
theorem mono (h : AllSitIn us ns) (hsub : ∀ t ∈ us, t ∈ vs) : AllSitIn vs ns :=
  fun n hn => (h n hn).mono hsub

theorem nil : AllSitIn us [] :=
  List.forall_mem_nil _

theorem cons (hn : n.SitsIn us) (h : AllSitIn us ns) : AllSitIn us (n :: ns) :=
  List.forall_mem_cons.2 ⟨hn, h⟩

theorem append (h : AllSitIn us ns) (h' : AllSitIn us ns') :
    AllSitIn us (ns ++ ns') :=
  List.forall_mem_append.2 ⟨h, h'⟩

theorem head (h : AllSitIn us (n :: ns)) : n.SitsIn us :=
  h n List.mem_cons_self

theorem tail (h : AllSitIn us (n :: ns)) : AllSitIn us ns :=
  (List.forall_mem_cons.1 h).2

end Node.AllSitIn

open Node (AllSitIn)

-- =================================================================== lists

/-- Whatever is spelled keeps the trivia of its tokens. -/
def Spelling.Places {α : Type} (R : Spelling α) (walk : α → List Node) : Prop :=
  ∀ ⦃us a⦄, R us a → AllSitIn us (walk a)

section

variable {α : Type} {walk : α → List Node} {us vs : List Token}

/-- A padded element, with the nodes of the element. -/
structure RightPadded.SitsIn (us : List Token) (walk : α → List Node)
    (p : RightPadded α) : Prop where
  after : Leads us p.after
  nodes : AllSitIn us (walk p.element)

/-- So does an element with the trivia behind it. -/
theorem RightPadded.SitsIn.mono {p : RightPadded α} (h : p.SitsIn us walk)
    (hsub : ∀ t ∈ us, t ∈ vs) : p.SitsIn vs walk :=
  ⟨h.after.mono hsub, h.nodes.mono hsub⟩

/-- A list between delimiters or after a keyword, with the nodes of its
elements. -/
structure Container.SitsIn (us : List Token) (walk : α → List Node)
    (c : Container α) : Prop where
  before : Leads us c.before
  elements : ∀ p ∈ c.elements, p.SitsIn us walk
  close : Leads us c.close

/-- A block, with the nodes of what is in it. -/
structure Block.SitsIn (us : List Token) (walk : α → List Node)
    (b : Block α) : Prop where
  lead : Leads us b.lead
  statements : ∀ p ∈ b.statements, p.SitsIn us walk
  close : Leads us b.close
  token : ⟨b.lead, .symbol "\x7b"⟩ ∈ us

/-- The trivia behind elements are led by tokens. -/
theorem leads_afters {ps : List (RightPadded α)}
    (h : ∀ p ∈ ps, p.SitsIn us walk) :
    ∀ s ∈ RightPadded.afters ps, Leads us s :=
  List.forall_mem_map.2 fun p hp => (h p hp).after

/-- The nodes below elements in a row sit where each element does. -/
theorem allSitIn_elements {ps : List (RightPadded α)}
    (h : ∀ p ∈ ps, p.SitsIn us walk) :
    AllSitIn us (ps.flatMap fun p => walk p.element) :=
  List.forall_mem_flatMap.2 fun p hp => (h p hp).nodes

/-- The last element may take the closing trivia for its own. -/
theorem RightPadded.sitsIn_closeLast {close : Trivia} (hclose : Leads us close)
    {ps : List (RightPadded α)} (h : ∀ p ∈ ps, p.SitsIn us walk) :
    ∀ p ∈ closeLast close ps, p.SitsIn us walk := by
  induction ps with
  | nil => exact h
  | cons p ps ih =>
      obtain ⟨hp, hps⟩ := List.forall_mem_cons.1 h
      cases ps with
      | nil => exact List.forall_mem_singleton.2 ⟨hclose, hp.nodes⟩
      | cons q qs => exact List.forall_mem_cons.2 ⟨hp, ih hps⟩

namespace Container.SitsIn

variable {c : Container α}

theorem spaces (h : c.SitsIn us walk) : ∀ s ∈ c.spaces, Leads us s :=
  List.forall_mem_cons.2
    ⟨h.before, List.forall_mem_append.2 ⟨leads_afters h.elements,
      List.forall_mem_singleton.2 h.close⟩⟩

theorem mono (h : c.SitsIn us walk) (hsub : ∀ t ∈ us, t ∈ vs) :
    c.SitsIn vs walk :=
  ⟨h.before.mono hsub, fun p hp => (h.elements p hp).mono hsub,
    h.close.mono hsub⟩

end Container.SitsIn

namespace Block.SitsIn

variable {b : Block α}

theorem spaces (h : b.SitsIn us walk) : ∀ s ∈ b.spaces, Leads us s :=
  List.forall_mem_cons.2
    ⟨h.lead, List.forall_mem_append.2 ⟨leads_afters h.statements,
      List.forall_mem_singleton.2 h.close⟩⟩

theorem mono (h : b.SitsIn us walk) (hsub : ∀ t ∈ us, t ∈ vs) :
    b.SitsIn vs walk :=
  ⟨h.lead.mono hsub, fun p hp => (h.statements p hp).mono hsub,
    h.close.mono hsub, hsub _ h.token⟩

end Block.SitsIn

variable {R : Spelling α} (hR : R.Places walk)
include hR

/-- The nodes of elements in a row sit in the tokens of the row. -/
theorem places_many {us : List Token} {as : List α} (h : Many R us as) :
    AllSitIn us (as.flatMap walk) := by
  induction h with
  | nil => exact .nil
  | cons ha _ ih =>
      exact ((hR ha).mono (by simp +contextual)).append
        (ih.mono (by simp +contextual))

/-- The nodes of elements between separators sit in the tokens of the row. -/
theorem sitsIn_padded {separator : String} {us : List Token}
    {ps : List (RightPadded α)} (h : Padded R separator us ps) :
    ∀ p ∈ ps, p.SitsIn us walk := by
  induction h with
  | last ha => exact List.forall_mem_singleton.2 ⟨leads_empty, hR ha⟩
  | @cons us vs a after ps ha _ ih =>
      refine List.forall_mem_cons.2
        ⟨⟨leads_of_mem (t := ⟨after, .symbol separator⟩) (by simp),
        (hR ha).mono (by simp +contextual)⟩, fun p hp =>
          (ih p hp).mono (by simp +contextual)⟩

/-- The nodes between delimiters sit in the tokens, delimiters included. -/
theorem sitsIn_delimited {opening closing : String} {us : List Token}
    {c : Container α} (h : Delimited R opening closing us c) :
    c.SitsIn us walk := by
  cases h with
  | @none before close =>
      exact ⟨leads_of_mem (t := ⟨before, .symbol opening⟩) (by simp),
        List.forall_mem_nil _,
        leads_of_mem (t := ⟨close, .symbol closing⟩) (by simp)⟩
  | @some before us ps close hps =>
      refine ⟨leads_of_mem (t := ⟨before, .symbol opening⟩) (by simp),
        RightPadded.sitsIn_closeLast
          (leads_of_mem (t := ⟨close, .symbol closing⟩) (by simp))
          fun p hp => (sitsIn_padded hR hps p hp).mono (by simp +contextual),
          leads_empty⟩

/-- The nodes behind a keyword sit in the tokens, the keyword included. -/
theorem sitsIn_afterKeyword {word : String} {us : List Token}
    {o : Option (Container α)} (h : AfterKeyword R word us o) :
    ∀ c ∈ o, c.SitsIn us walk := by
  cases h with
  | none => exact fun _ h => nomatch h
  | @some before us ps hps =>
      rintro _ ⟨⟩
      exact ⟨leads_of_mem (t := ⟨before, .keyword word⟩) (by simp),
        fun p hp => (sitsIn_padded hR hps p hp).mono (by simp +contextual),
        leads_empty⟩

end

/-- The trivia of what may be absent are led by tokens. -/
theorem leads_optionalSpaces {α : Type} {walk : α → List Node} {us : List Token}
    {o : Option (Container α)} (h : ∀ c ∈ o, c.SitsIn us walk) :
    ∀ s ∈ Container.optionalSpaces o, Leads us s := by
  cases o with
  | none => exact List.forall_mem_nil _
  | some c => exact (h c rfl).spaces

/-- Padded elements whatever comes between them. -/
theorem sitsIn_many {α : Type} {walk : α → List Node}
    {R : Spelling (RightPadded α)} (hR : ∀ ⦃us p⦄, R us p → p.SitsIn us walk)
    {us : List Token} {ps : List (RightPadded α)} (h : Many R us ps) :
    ∀ p ∈ ps, p.SitsIn us walk := by
  induction h with
  | nil => exact List.forall_mem_nil _
  | cons ha _ ih =>
      exact List.forall_mem_cons.2 ⟨(hR ha).mono (by simp +contextual),
        fun p hp => (ih p hp).mono (by simp +contextual)⟩

/-- The nodes of a block sit in its tokens, braces included. -/
theorem sitsIn_braced {α : Type} {walk : α → List Node}
    {R : Spelling (RightPadded α)} (hR : ∀ ⦃us p⦄, R us p → p.SitsIn us walk)
    {us : List Token} {b : Block α} (h : Braced R us b) : b.SitsIn us walk := by
  cases h with
  | @mk lead us ps close hps =>
      exact ⟨leads_of_mem (t := ⟨lead, .symbol "\x7b"⟩) (by simp),
        fun p hp => (sitsIn_many hR hps p hp).mono (by simp +contextual),
        leads_of_mem (t := ⟨close, .symbol "\x7d"⟩) (by simp), by simp⟩

-- =================================================================== names

/-- A single word with the trivia in front of it, or without. -/
theorem Node.sitsIn_ident {us : List Token} {i : Ident} {t : Token}
    (ht : t ∈ us) (hlead : Leads us i.lead) (htext : i.name = t.word.text) :
    (Node.ident i).SitsIn us :=
  ⟨List.forall_mem_singleton.2 hlead,
    .inr (startsIn_of_pieces ht (by rw [← htext]; rfl))⟩

/-- A name is the first node of its own walk. -/
theorem Name.walk_eq (n : Name) : n.walk = .name n :: n.walk.tail := by
  cases n <;> rfl

section

variable {us : List Token} {n : Name}

/-- A name sits where its walk does. -/
theorem Name.sitsIn_self (h : AllSitIn us n.walk) :
    (Node.name n).SitsIn us := by
  rw [n.walk_eq] at h
  exact h.head

theorem Name.leads_lead (h : AllSitIn us n.walk) : Leads us n.lead :=
  (sitsIn_self h).spaces n.lead (by cases n <;> exact List.mem_cons_self)

/-- A name without the trivia in front of it. -/
theorem Name.allSitIn_bare (h : AllSitIn us n.walk) :
    AllSitIn us (n.withLead "").walk := by
  have hbelow : (n.withLead "").walk.tail = n.walk.tail := by cases n <;> rfl
  rw [walk_eq, hbelow]
  refine .cons ((sitsIn_self h).bare ?_ ?_ (n.lead_withLead "")
    n.solid_pieces) ?_
  · cases n <;> simp [Node.spaces, Node.nameSpaces, withLead, or_comm]
  · cases n <;> rfl
  · exact (n.walk_eq ▸ h).tail

/-- One more word behind a name. -/
theorem Name.allSitIn_extend (h : AllSitIn us n.walk) {dot lead : Trivia}
    {word : String} {t : Token} (ht : t ∈ us) (hlead : t.lead = lead)
    (htext : word = t.word.text) (hdot : Leads us dot) :
    AllSitIn us (Parser.extendName n dot ⟨lead, word⟩).walk := by
  subst hlead
  refine .cons ((sitsIn_self h).chained (Node.nameKind_ne n)
    n.solid_pieces rfl rfl ?_)
    ((allSitIn_bare h).append
      (.cons (Node.sitsIn_ident ht (leads_of_mem ht) htext) .nil))
  exact List.forall_mem_cons.2 ⟨leads_lead h, List.forall_mem_singleton.2 hdot⟩

end

/-- The nodes of a name sit in the tokens that spell it. -/
theorem places_name : SpellsName.Places Name.walk := by
  intro us n h
  induction h with
  | simple i =>
      have hmem : ⟨i.lead, .name i.name⟩ ∈ [(⟨i.lead, .name i.name⟩ : Token)] :=
        List.mem_singleton_self _
      exact .cons ⟨List.forall_mem_singleton.2 (leads_of_mem hmem),
        .inr (Node.startsIn_of_pieces hmem rfl)⟩ .nil
  | @dot us n dot i _ ih =>
      exact Name.allSitIn_extend (t := ⟨i.lead, .name i.name⟩)
        (ih.mono (by simp +contextual)) (by simp)
        rfl rfl (leads_of_mem (t := ⟨dot, .symbol "."⟩) (by simp))

/-- The nodes of the name of an import sit in the tokens that spell it. -/
theorem places_importName : SpellsImportName.Places Name.walk := by
  intro us n h
  cases h with
  | named h => exact places_name h
  | @star us n dot lead h =>
      exact Name.allSitIn_extend (t := ⟨lead, .symbol "*"⟩)
        ((places_name h).mono (by simp +contextual))
        (by simp) rfl rfl (leads_of_mem (t := ⟨dot, .symbol "."⟩) (by simp))

-- =================================================================== types

/-- A type is the first node of its own walk. -/
theorem TypeTree.walk_eq (t : TypeTree) : t.walk = t.node :: t.walk.tail := by
  cases t with
  | named n => exact n.walk_eq
  | _ => rfl

section

variable {us : List Token} {t : TypeTree}

/-- A type sits where its walk does. -/
theorem TypeTree.sitsIn_self (h : AllSitIn us t.walk) : t.node.SitsIn us := by
  rw [t.walk_eq] at h
  exact h.head

theorem TypeTree.leads_lead (h : AllSitIn us t.walk) : Leads us t.lead := by
  cases t with
  | named n => exact n.leads_lead h
  | _ => exact (sitsIn_self h).spaces _ List.mem_cons_self

/-- No type is an empty node. -/
theorem TypeTree.nodeKind_ne (t : TypeTree) : t.node.kind ≠ .empty := by
  cases t with
  | named n => exact Node.nameKind_ne n
  | _ => exact NodeKind.noConfusion

/-- A written type as a node has its text. -/
theorem TypeTree.pieces_node (t : TypeTree) : t.node.pieces = t.pieces := by
  cases t <;> rfl

/-- The node of a type has the trivia of the type. -/
theorem TypeTree.lead_node (t : TypeTree) : t.node.lead = t.lead := by
  cases t <;> rfl

/-- A type without the trivia in front of it. -/
theorem TypeTree.allSitIn_bare (h : AllSitIn us t.walk) :
    AllSitIn us (t.withLead "").walk := by
  cases t with
  | named n => exact n.allSitIn_bare h
  | _ =>
      refine .cons (h.head.bare ?_ rfl rfl (solid_pieces _)) h.tail
      simp only [Node.spaces, Node.typeTreeSpaces, List.mem_cons]
      tauto

/-- A longer type that starts with the type. -/
theorem TypeTree.sitsIn_chained (h : AllSitIn us t.walk) {n : Node}
    {more : List Piece} (hpieces : n.pieces =
      .trivia t.lead :: ((t.withLead "").pieces ++ more))
    (hlead : n.lead = t.lead) {spaces : List Trivia}
    (heq : n.spaces = t.lead :: spaces) (hspaces : ∀ s ∈ spaces, Leads us s) :
    n.SitsIn us := by
  refine (sitsIn_self h).chained t.nodeKind_ne ?_ (t.lead_node ▸ hpieces)
    (t.lead_node ▸ hlead) ?_
  · rw [t.pieces_node, t.lead_node, t.solid_pieces]
  · rw [heq]
    exact List.forall_mem_cons.2 ⟨leads_lead h, hspaces⟩

end

section

variable {R : Spelling TypeTree} (hR : R.Places TypeTree.walk)
include hR

theorem places_classTypeWith : (ClassTypeWith R).Places TypeTree.walk := by
  intro us t h
  cases h with
  | named h => exact places_name h
  | @generic us n vs args h hargs =>
      have hn : AllSitIn (us ++ vs) n.walk :=
        (places_name h).mono (by simp +contextual)
      have hc : args.SitsIn (us ++ vs) TypeTree.walk :=
        (sitsIn_delimited hR hargs).mono (by simp +contextual)
      refine .cons ((Name.sitsIn_self hn).chained (Node.nameKind_ne n)
        n.solid_pieces rfl rfl ?_) ?_
      · exact List.forall_mem_cons.2 ⟨Name.leads_lead hn, hc.spaces⟩
      · refine (Name.allSitIn_bare hn).append ?_
        rw [TypeTree.walkAll_eq]
        exact allSitIn_elements hc.elements

/-- The nodes of a type sit in its tokens: what it nests lies in a part of
them. -/
theorem places_typeWith : (TypeWith R).Places TypeTree.walk := by
  intro us t h
  induction h with
  | @primitive t p h =>
      obtain ⟨k, rfl, hk⟩ := Parser.asPrimitive_eq_some h
      have hmem := List.mem_singleton_self t
      exact .cons ⟨List.forall_mem_singleton.2 (leads_of_mem hmem),
        .inr (Node.startsIn_of_pieces hmem (by rw [hk]; rfl))⟩ .nil
  | classType h => exact places_classTypeWith hR h
  | @array us t before inner _ ih =>
      have ht : AllSitIn (us ++ [⟨before, .symbol "["⟩, ⟨inner, .symbol "]"⟩])
          t.walk :=
        ih.mono (by simp +contextual)
      refine .cons (TypeTree.sitsIn_chained ht rfl rfl rfl ?_)
        (TypeTree.allSitIn_bare ht)
      exact List.forall_mem_cons.2
        ⟨leads_of_mem (t := ⟨before, .symbol "["⟩) (by simp),
        List.forall_mem_singleton.2
          (leads_of_mem (t := ⟨inner, .symbol "]"⟩) (by simp))⟩

end

/-- The nodes of a type sit in the tokens that spell it. -/
theorem places_type : SpellsType.Places TypeTree.walk := by
  rintro us t ⟨n, h⟩
  induction n generalizing us t with
  | zero => cases h
  | succ n ih => exact places_typeWith (fun us t h => ih h) h

theorem places_classType : SpellsClassType.Places TypeTree.walk :=
  places_classTypeWith places_type

/-- The nodes of alternatives sit in the tokens that spell them. -/
theorem places_catchType : SpellsCatchType.Places TypeTree.walk := by
  intro us t h
  cases h with
  | single h => exact places_classType h
  | @union us first p ps h =>
      obtain ⟨hfirst, hps⟩ :=
        List.forall_mem_cons.1 (sitsIn_padded places_classType h)
      obtain ⟨t, after⟩ := first
      have hpieces :
          (TypeTree.union t.lead (⟨t.withLead "", after⟩ :: p :: ps)).pieces =
          .trivia t.lead :: ((t.withLead "").pieces ++
            .trivia after :: .word "|" :: separated "|"
              (TypeTree.runs (p :: ps))) := by
        simp [TypeTree.pieces, TypeTree.runs, separated]
      refine .cons (TypeTree.sitsIn_chained hfirst.nodes hpieces rfl rfl ?_) ?_
      · exact List.forall_mem_cons.2 ⟨hfirst.after, leads_afters hps⟩
      · rw [TypeTree.walkAll, TypeTree.walkAll_eq]
        exact (TypeTree.allSitIn_bare hfirst.nodes).append
          (allSitIn_elements hps)

/-- Types after a keyword, or none. -/
theorem sitsIn_classTypes {word : String} {us : List Token}
    {o : Option (Container TypeTree)}
    (h : AfterKeyword SpellsClassType word us o) :
    (∀ s ∈ Container.optionalSpaces o, Leads us s) ∧
    AllSitIn us (TypeTree.walkList o) := by
  have ho := sitsIn_afterKeyword places_classType h
  refine ⟨leads_optionalSpaces ho, ?_⟩
  cases o with
  | none => exact .nil
  | some c =>
      rw [TypeTree.walkList, TypeTree.walkAll_eq]
      exact allSitIn_elements (ho c rfl).elements

-- ============================================================= expressions

/-- An expression is the first node of its own walk. -/
theorem Expr.walk_eq (e : Expr) : e.walk = .expr e :: e.walk.tail := by
  cases e <;> rfl

section

variable {us : List Token} {e : Expr}

/-- An expression sits where its walk does. -/
theorem Expr.sitsIn_self (h : AllSitIn us e.walk) :
    (Node.expr e).SitsIn us := by
  rw [e.walk_eq] at h
  exact h.head

theorem Expr.leads_lead (h : AllSitIn us e.walk) : Leads us e.lead :=
  (sitsIn_self h).spaces e.lead (by cases e <;> exact List.mem_cons_self)

/-- An expression without the trivia in front of it. -/
theorem Expr.allSitIn_bare (h : AllSitIn us e.walk) :
    AllSitIn us (e.withLead "").walk := by
  have hbelow : (e.withLead "").walk.tail = e.walk.tail := by cases e <;> rfl
  rw [walk_eq, hbelow]
  refine .cons ((sitsIn_self h).bare ?_ ?_ (e.lead_withLead "")
    e.solid_pieces) ?_
  · cases e <;> simp only [Node.spaces, Node.exprSpaces, withLead,
      List.mem_cons] <;> tauto
  · cases e <;> rfl
  · exact (e.walk_eq ▸ h).tail

/-- A longer expression that starts with the expression. -/
theorem Expr.sitsIn_chained (h : AllSitIn us e.walk) {n : Node}
    {more : List Piece} (hpieces : n.pieces =
      .trivia e.lead :: ((e.withLead "").pieces ++ more))
    (hlead : n.lead = e.lead) {spaces : List Trivia}
    (heq : n.spaces = e.lead :: spaces) (hspaces : ∀ s ∈ spaces, Leads us s) :
    n.SitsIn us := by
  refine (sitsIn_self h).chained (Node.exprKind_ne e)
    e.solid_pieces hpieces hlead ?_
  rw [heq]
  exact List.forall_mem_cons.2 ⟨leads_lead h, hspaces⟩

/-- One more word behind an expression. -/
theorem Expr.allSitIn_access (h : AllSitIn us e.walk) {dot lead : Trivia}
    {word : String} {t : Token} (ht : t ∈ us) (hlead : t.lead = lead)
    (htext : word = t.word.text) (hdot : Leads us dot) :
    AllSitIn us (Expr.access e.lead (e.withLead "")
      ⟨dot, ⟨lead, word⟩⟩ none).walk := by
  subst hlead
  exact .cons (sitsIn_chained h rfl rfl rfl (List.forall_mem_singleton.2 hdot))
    ((allSitIn_bare h).append
      (.cons (Node.sitsIn_ident ht (leads_of_mem ht) htext) .nil))

end

section

variable {R : Spelling Expr} (hR : R.Places Expr.walk)
include hR

theorem places_postfixWith : (PostfixWith R).Places Expr.walk := by
  intro us e h
  induction h with
  | @literal t e h =>
      obtain rfl := Parser.asLiteral_eq_some h
      have hmem := List.mem_singleton_self t
      exact .cons ⟨List.forall_mem_singleton.2 (leads_of_mem hmem),
        .inr (Node.startsIn_of_pieces hmem rfl)⟩ .nil
  | @this lead =>
      have hmem := List.mem_singleton_self (⟨lead, .keyword "this"⟩ : Token)
      exact .cons ⟨List.forall_mem_singleton.2 (leads_of_mem hmem),
        .inr (Node.startsIn_of_pieces hmem rfl)⟩ .nil
  | name i =>
      have hmem := List.mem_singleton_self (⟨i.lead, .name i.name⟩ : Token)
      exact .cons ⟨List.forall_mem_singleton.2 (leads_of_mem hmem),
        .inr (Node.startsIn_of_pieces hmem rfl)⟩ .nil
  | @parens lead us e after h =>
      have hmem : (⟨lead, .symbol "("⟩ : Token) ∈
        ⟨lead, .symbol "("⟩ :: (us ++ [⟨after, .symbol ")"⟩]) :=
          List.mem_cons_self
      refine .cons ⟨?_, .inr (Node.startsIn_of_pieces hmem rfl)⟩
        ((hR h).mono (by simp +contextual))
      exact List.forall_mem_cons.2 ⟨leads_of_mem hmem,
        List.forall_mem_singleton.2
          (leads_of_mem (t := ⟨after, .symbol ")"⟩) (by simp))⟩
  | @new lead us t vs args ht hargs =>
      have hmem : (⟨lead, .keyword "new"⟩ : Token) ∈
          ⟨lead, .keyword "new"⟩ :: (us ++ vs) :=
        List.mem_cons_self
      have hc : args.SitsIn (⟨lead, .keyword "new"⟩ :: (us ++ vs)) Expr.walk :=
        (sitsIn_delimited hR hargs).mono (by simp +contextual)
      refine .cons ⟨?_, .inr (Node.startsIn_of_pieces hmem rfl)⟩
        (((places_classType ht).mono (by simp +contextual)).append ?_)
      · exact List.forall_mem_cons.2 ⟨leads_of_mem hmem, hc.spaces⟩
      · rw [Expr.walkAll_eq]
        exact allSitIn_elements hc.elements
  | @bareCall i vs args hargs =>
      have hmem : (⟨i.lead, .name i.name⟩ : Token) ∈
          ⟨i.lead, .name i.name⟩ :: vs := List.mem_cons_self
      have hc : args.SitsIn (⟨i.lead, .name i.name⟩ :: vs) Expr.walk :=
        (sitsIn_delimited hR hargs).mono (by simp +contextual)
      have hpieces : solid (Expr.call i.lead none ⟨"", i.name⟩
          args none).pieces = gap i.lead ++
          .word i.name :: solid (enclosed args.before "("
            (Expr.runs args.elements) args.close ")") := by
        simp [Expr.pieces, Expr.selectPieces, Ident.pieces]
      refine .cons ⟨?_, .inr ⟨_, hmem, _, hpieces⟩⟩
        (.cons (Node.sitsIn_ident hmem leads_empty rfl) ?_)
      · exact List.forall_mem_cons.2 ⟨leads_of_mem hmem, hc.spaces⟩
      · rw [Expr.walkAll_eq]
        exact allSitIn_elements hc.elements
  | @classLiteral us e dot lead _ ih =>
      exact Expr.allSitIn_access (t := ⟨lead, .keyword "class"⟩)
        (ih.mono (by simp +contextual))
        (by simp) rfl rfl (leads_of_mem (t := ⟨dot, .symbol "."⟩) (by simp))
  | @access us e dot i _ ih =>
      exact Expr.allSitIn_access (t := ⟨i.lead, .name i.name⟩)
        (ih.mono (by simp +contextual))
        (by simp) rfl rfl (leads_of_mem (t := ⟨dot, .symbol "."⟩) (by simp))
  | @call us e dot vs args i _ hargs ih =>
      have he : AllSitIn (us ++ ⟨dot, .symbol "."⟩ :: ⟨i.lead, .name i.name⟩ ::
          vs) e.walk :=
        ih.mono (by simp +contextual)
      have hc : args.SitsIn (us ++ ⟨dot, .symbol "."⟩ ::
          ⟨i.lead, .name i.name⟩ :: vs) Expr.walk :=
        (sitsIn_delimited hR hargs).mono (by simp +contextual)
      have hname : (⟨i.lead, .name i.name⟩ : Token) ∈
        us ++ ⟨dot, .symbol "."⟩ :: ⟨i.lead, .name i.name⟩ :: vs := by simp
      have hpieces :
          (Expr.call e.lead (some ⟨e.withLead "", dot⟩) i args none).pieces =
          .trivia e.lead :: ((e.withLead "").pieces ++
            ([.trivia dot, .word "."] ++ i.pieces ++
            enclosed args.before "(" (Expr.runs args.elements)
              args.close ")")) := by
        simp [Expr.pieces, Expr.selectPieces]
      refine .cons (Expr.sitsIn_chained he hpieces rfl rfl
        (List.forall_mem_cons.2 ⟨?_, hc.spaces⟩))
        ((Expr.allSitIn_bare he).append
          (.cons (Node.sitsIn_ident hname (leads_of_mem hname) rfl) ?_))
      · exact leads_of_mem (t := ⟨dot, .symbol "."⟩) (by simp)
      · rw [Expr.walkAll_eq]
        exact allSitIn_elements hc.elements

theorem places_operand : (OperandWith R).Places Expr.walk := by
  intro us e h
  induction h with
  | bare h => exact places_postfixWith hR h
  | @unary t op us e hop _ ih =>
      obtain ⟨hlead, htext⟩ := Parser.asUnaryOp_eq_some hop
      have hmem : t ∈ t :: us := List.mem_cons_self
      exact .cons ⟨List.forall_mem_singleton.2 (hlead ▸ leads_of_mem hmem),
        .inr (Node.startsIn_of_pieces hmem (by rw [← htext]; rfl))⟩
          (ih.mono (by simp +contextual))

theorem places_binary {level : Nat} :
    (BinaryWith R level).Places Expr.walk := by
  intro us e h
  induction h with
  | operand h => exact places_operand hR h
  | @binary level t op us left vs right hop _ _ _ ihl ihr =>
      obtain ⟨hlead, -⟩ := Parser.asBinaryOp_eq_some hop
      have hleft : AllSitIn (us ++ t :: vs) left.walk :=
        ihl.mono (by simp +contextual)
      refine .cons (Expr.sitsIn_chained hleft rfl rfl rfl ?_)
        ((Expr.allSitIn_bare hleft).append (ihr.mono (by simp +contextual)))
      exact List.forall_mem_singleton.2 (hlead ▸ leads_of_mem (by simp))

/-- The nodes of an expression sit in its tokens, if those of what it nests
do. -/
theorem places_expressionWith : (ExpressionWith R).Places Expr.walk := by
  intro us e h
  cases h with
  | binary h => exact places_binary hR h
  | @assign us e before vs value h hvalue =>
      have he : AllSitIn (us ++ ⟨before, .symbol "="⟩ :: vs) e.walk :=
        (places_postfixWith hR h).mono (by simp +contextual)
      refine .cons (Expr.sitsIn_chained he rfl rfl rfl ?_)
        ((Expr.allSitIn_bare he).append
          ((hR hvalue).mono (by simp +contextual)))
      exact List.forall_mem_singleton.2
        (leads_of_mem (t := ⟨before, .symbol "="⟩) (by simp))

end

/-- The nodes of an expression sit in the tokens that spell it. -/
theorem places_expr : SpellsExpr.Places Expr.walk := by
  rintro us e ⟨n, h⟩
  induction n generalizing us e with
  | zero => cases h
  | succ n ih => exact places_expressionWith (fun us e h => ih h) h

end JavaRefit
