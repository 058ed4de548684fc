/-
A renamed expression can be written where the expression was.

What can be written for an expression depends on where it stands, since
operators bind an operand only if it has no looser operators around it. So an
expression is put in the place of another in all four places at once
(`Swaps`); one without an operator outside is in each place what it is
without operators around it.

Chain: after `Type`; declarations and the catch rule rename arguments of
annotations with it.
-/
import JavaRefit.Proofs.Rename.Type

namespace JavaRefit

open Spelling Token

-- ================================================================= places

/-- The second expression can be written wherever the first can. -/
structure Expr.Swaps (R : Spelling Expr) (a b : Expr) : Prop where
  bare : (PostfixWith R).Rewrites a b
  operand : (OperandWith R).Rewrites a b
  binary : ∀ level, (BinaryWith R level).Rewrites a b
  expr : (ExpressionWith R).Rewrites a b

/-- The expression has an operator outside. -/
def Expr.isOperation : Expr → Bool
  | .assign .. => true
  | .binary .. => true
  | .unary .. => true
  | _ => false

/-- A literal is read with its trivia and without a type. -/
theorem Parser.exists_of_asLiteral {t : Token} {e : Expr}
    (h : Parser.asLiteral t = some e) :
    ∃ lead text, e = .literal lead text none := by
  rw [Parser.asLiteral] at h
  split at h
  · cases h
    exact ⟨_, _, rfl⟩
  · split at h
    · cases h
      exact ⟨_, _, rfl⟩
    · cases h
  · cases h

/-- A modifier that is one word is read with its trivia. -/
theorem Parser.exists_of_asModifierWord {t : Token} {m : Modifier}
    (h : Parser.asModifierWord t = some m) :
    ∃ lead word, m = .keyword lead word := by
  rw [Parser.asModifierWord] at h
  split at h
  · split at h
    · cases h
      exact ⟨_, _, rfl⟩
    · cases h
  · cases h

variable {R : Spelling Expr}

/-- A postfix expression is no operation. -/
theorem isOperation_of_postfixWith {us : List Token} {e : Expr}
    (h : PostfixWith R us e) : e.isOperation = false := by
  cases h with
  | literal hl =>
      obtain ⟨_, _, rfl⟩ := Parser.exists_of_asLiteral hl
      rfl
  | _ => rfl

namespace Expr.Swaps

variable {a b c : Expr}

/-- An expression may be put in its own place. -/
theorem refl (R : Spelling Expr) (e : Expr) : Swaps R e e :=
  ⟨.refl _ e, .refl _ e, fun _ => .refl _ e, .refl _ e⟩

/-- What may be put in one place after another may be put there at once. -/
theorem trans (hab : Swaps R a b) (hbc : Swaps R b c) : Swaps R a c :=
  ⟨hab.bare.trans hbc.bare, hab.operand.trans hbc.operand,
    fun level => (hab.binary level).trans (hbc.binary level),
    hab.expr.trans hbc.expr⟩

/-- An expression that is assigned nothing and joined with nothing is where it
stands an operand. -/
theorem of_operand (hbinary : ∀ lead l op r type, a ≠ .binary lead l op r type)
    (hassign : ∀ lead t v type, a ≠ .assign lead t v type)
    (hbare : (PostfixWith R).Rewrites a b) (h : (OperandWith R).Rewrites a b) :
    Swaps R a b := by
  have hlevel (level : Nat) : (BinaryWith R level).Rewrites a b := by
    intro us hus
    cases hus with
    | operand hus =>
        obtain ⟨us', hus', href⟩ := h us hus
        exact ⟨us', .operand hus', href⟩
    | binary => exact absurd rfl (hbinary _ _ _ _ _)
  refine ⟨hbare, h, hlevel, fun us hus => ?_⟩
  cases hus with
  | binary hus =>
      obtain ⟨us', hus', href⟩ := hlevel 0 us hus
      exact ⟨us', .binary hus', href⟩
  | assign => exact absurd rfl (hassign _ _ _ _)

/-- An expression without an operator outside. -/
theorem of_bare (ha : a.isOperation = false)
    (h : (PostfixWith R).Rewrites a b) : Swaps R a b := by
  refine of_operand ?_ ?_ h fun us hus => ?_
  · rintro lead l op r type rfl
    cases ha
  · rintro lead t v type rfl
    cases ha
  · cases hus with
    | bare hus =>
        obtain ⟨us', hus', href⟩ := h us hus
        exact ⟨us', .bare hus', href⟩
    | unary => cases ha

/-- No operation is a postfix expression. -/
theorem not_bare (ha : a.isOperation = true) (b : Expr) :
    (PostfixWith R).Rewrites a b := by
  intro us hus
  rw [isOperation_of_postfixWith hus] at ha
  cases ha

-- ============================================================= operations

/-- The operand of a unary operator may be swapped. -/
theorem unary {lead : Trivia} {op : UnaryOp} {e e' : Expr} (h : Swaps R e e') :
    Swaps R (.unary lead op e none) (.unary lead op e' none) := by
  refine of_operand (fun _ _ _ _ _ h => by cases h)
    (fun _ _ _ _ h => by cases h) (not_bare rfl _)
    fun us hus => ?_
  generalize ht : Expr.unary lead op e none = t at hus
  cases hus with
  | bare hus =>
      subst ht
      cases isOperation_of_postfixWith hus
  | @unary t op us e hop hus =>
      cases ht
      obtain ⟨us', hus', href⟩ := h.operand us hus
      exact ⟨_, .unary hop hus', href.cons t⟩

/-- The operands of a binary operator may be swapped, the level being kept. -/
theorem binary_of {lead : Trivia} {op : LeftPadded BinaryOp} {l l' r r' : Expr}
    (hlead : l'.lead = l.lead)
    (hl : Swaps R (l.withLead lead) (l'.withLead lead)) (hr : Swaps R r r') :
    Swaps R (.binary lead l op r none) (.binary lead l' op r' none) := by
  have hoperand : (OperandWith R).Rewrites (.binary lead l op r none)
      (.binary lead l' op r' none) := by
    intro us hus
    cases hus with
    | bare hus => cases isOperation_of_postfixWith hus
  have hlevel (level : Nat) :
      (BinaryWith R level).Rewrites (.binary lead l op r none)
        (.binary lead l' op r' none) := by
    intro us hus
    generalize ht : Expr.binary lead l op r none = t at hus
    cases hus with
    | operand hus =>
        subst ht
        cases hus with
        | bare hus => cases isOperation_of_postfixWith hus
    | @binary _ t op' us left vs right hop hlevel hus hvs =>
        obtain ⟨rfl, rfl, rfl, rfl⟩ :
            lead = left.lead ∧ l = left.withLead "" ∧ op = op' ∧ r = right := by
          simpa [Parser.joinOperands] using ht
        rw [Expr.withLead_withLead, Expr.withLead_lead] at hl
        rw [Expr.lead_withLead] at hlead
        obtain ⟨us', hus', href⟩ := (hl.binary _) us hus
        obtain ⟨vs', hvs', href'⟩ := (hr.binary _) vs hvs
        have hspells := BinaryWith.binary hop hlevel hus' hvs'
        rw [Parser.joinOperands, Expr.lead_withLead, Expr.withLead_withLead,
          Expr.withLead_eq_self _ hlead] at hspells
        exact ⟨_, hspells, href.append (href'.cons _)⟩
  refine ⟨not_bare rfl _, hoperand, hlevel, fun us hus => ?_⟩
  cases hus with
  | binary hus =>
      obtain ⟨us', hus', href⟩ := hlevel 0 us hus
      exact ⟨us', .binary hus', href⟩

/-- The sides of an assignment may be swapped. -/
theorem assign {lead before : Trivia} {t t' v v' : Expr}
    (hlead : t'.lead = t.lead)
    (ht : Swaps R (t.withLead lead) (t'.withLead lead)) (hv : R.Rewrites v v') :
    Swaps R (.assign lead t ⟨before, v⟩ none)
      (.assign lead t' ⟨before, v'⟩ none) := by
  have hoperand : (OperandWith R).Rewrites (.assign lead t ⟨before, v⟩ none)
      (.assign lead t' ⟨before, v'⟩ none) := by
    intro us hus
    cases hus with
    | bare hus => cases isOperation_of_postfixWith hus
  have hlevel (level : Nat) :
      (BinaryWith R level).Rewrites (.assign lead t ⟨before, v⟩ none)
      (.assign lead t' ⟨before, v'⟩ none) := by
    intro us hus
    cases hus with
    | operand hus =>
        obtain ⟨us', hus', href⟩ := hoperand us hus
        exact ⟨us', .operand hus', href⟩
  refine ⟨not_bare rfl _, hoperand, hlevel, fun us hus => ?_⟩
  generalize he : Expr.assign lead t ⟨before, v⟩ none = e at hus
  cases hus with
  | binary hus =>
      subst he
      obtain ⟨us', hus', href⟩ := hlevel 0 us hus
      exact ⟨us', .binary hus', href⟩
  | @assign us e _ vs _ hus hvs =>
      obtain ⟨rfl, rfl, rfl, rfl⟩ : lead = e.lead ∧ t = e.withLead "" ∧
          before = _ ∧ v = _ := by
        simpa using he
      rw [Expr.withLead_withLead, Expr.withLead_lead] at ht
      rw [Expr.lead_withLead] at hlead
      obtain ⟨us', hus', href⟩ := ht.bare us hus
      obtain ⟨vs', hvs', href'⟩ := hv vs hvs
      have hspells := @ExpressionWith.assign R us' _ before vs' _ hus' hvs'
      rw [Expr.lead_withLead, Expr.withLead_withLead,
        Expr.withLead_eq_self _ hlead] at hspells
      exact ⟨_, hspells, href.append (href'.cons _)⟩

end Expr.Swaps

-- ==================================================== without operators

namespace Spelling.Rewrites

/-- The target of a selection may be rewritten. -/
theorem access {lead : Trivia} {e e' : Expr} (name : LeftPadded Ident)
    (hlead : e'.lead = e.lead)
    (h : (PostfixWith R).Rewrites (e.withLead lead) (e'.withLead lead)) :
    (PostfixWith R).Rewrites (.access lead e name none)
      (.access lead e' name none) := by
  intro us hus
  generalize ht : Expr.access lead e name none = t at hus
  cases hus with
  | literal hl =>
      obtain ⟨_, _, rfl⟩ := Parser.exists_of_asLiteral hl
      cases ht
  | @classLiteral us t dot lead' hus =>
      obtain ⟨rfl, rfl, rfl⟩ : lead = t.lead ∧ e = t.withLead "" ∧
          name = ⟨dot, ⟨lead', "class"⟩⟩ := by
        simpa using ht
      rw [Expr.withLead_withLead, Expr.withLead_lead] at h
      rw [Expr.lead_withLead] at hlead
      obtain ⟨us', hus', href⟩ := h us hus
      have hspells := @PostfixWith.classLiteral R us' _ dot lead' hus'
      rw [Expr.lead_withLead, Expr.withLead_withLead,
        Expr.withLead_eq_self _ hlead] at hspells
      exact ⟨_, hspells, href.append (.refl _)⟩
  | @access us t dot i hus =>
      obtain ⟨rfl, rfl, rfl⟩ : lead = t.lead ∧ e = t.withLead "" ∧
          name = ⟨dot, i⟩ := by
        simpa using ht
      rw [Expr.withLead_withLead, Expr.withLead_lead] at h
      rw [Expr.lead_withLead] at hlead
      obtain ⟨us', hus', href⟩ := h us hus
      have hspells := @PostfixWith.access R us' _ dot i hus'
      rw [Expr.lead_withLead, Expr.withLead_withLead,
        Expr.withLead_eq_self _ hlead] at hspells
      exact ⟨_, hspells, href.append (.refl _)⟩
  | _ => cases ht

/-- The arguments of a call may be rewritten. -/
theorem bareCall {lead : Trivia} {name : Ident} {args args' : Container Expr}
    (hargs : (Delimited R "(" ")").Rewrites args args') :
    (PostfixWith R).Rewrites (.call lead none name args none)
      (.call lead none name args' none) := by
  intro us hus
  generalize ht : Expr.call lead none name args none = t at hus
  cases hus with
  | literal hl =>
      obtain ⟨_, _, rfl⟩ := Parser.exists_of_asLiteral hl
      cases ht
  | bareCall i hvs =>
      cases ht
      obtain ⟨vs', hvs', href⟩ := hargs _ hvs
      exact ⟨_, .bareCall i hvs', href.cons _⟩
  | _ => cases ht

/-- The target and the arguments of a call may be rewritten. -/
theorem call {lead after : Trivia} {e e' : Expr} {name : Ident}
    {args args' : Container Expr} (hlead : e'.lead = e.lead)
    (h : (PostfixWith R).Rewrites (e.withLead lead) (e'.withLead lead))
    (hargs : (Delimited R "(" ")").Rewrites args args') :
    (PostfixWith R).Rewrites (.call lead (some ⟨e, after⟩) name args none)
      (.call lead (some ⟨e', after⟩) name args' none) := by
  intro us hus
  generalize ht : Expr.call lead (some ⟨e, after⟩) name args none = t at hus
  cases hus with
  | literal hl =>
      obtain ⟨_, _, rfl⟩ := Parser.exists_of_asLiteral hl
      cases ht
  | @call us t dot vs _ i hus hvs =>
      obtain ⟨rfl, ⟨rfl, rfl⟩, rfl, rfl⟩ :
          lead = t.lead ∧ (e = t.withLead "" ∧ after = dot) ∧ name = i ∧
          args = _ := by
        simpa using ht
      rw [Expr.withLead_withLead, Expr.withLead_lead] at h
      rw [Expr.lead_withLead] at hlead
      obtain ⟨us', hus', href⟩ := h us hus
      obtain ⟨vs', hvs', href'⟩ := hargs _ hvs
      have hspells := @PostfixWith.call R us' _ after vs' _ name hus' hvs'
      rw [Expr.lead_withLead, Expr.withLead_withLead,
        Expr.withLead_eq_self _ hlead] at hspells
      exact ⟨_, hspells, href.append ((href'.cons _).cons _)⟩
  | _ => cases ht

/-- The class and the arguments of an instance creation may be rewritten. -/
theorem new {lead : Trivia} {base base' : TypeTree}
    {args args' : Container Expr} (hbase : SpellsClassType.Rewrites base base')
    (hargs : (Delimited R "(" ")").Rewrites args args') :
    (PostfixWith R).Rewrites (.new lead base args none none)
      (.new lead base' args' none none) := by
  intro us hus
  generalize ht : Expr.new lead base args none none = t at hus
  cases hus with
  | literal hl =>
      obtain ⟨_, _, rfl⟩ := Parser.exists_of_asLiteral hl
      cases ht
  | new hus hvs =>
      cases ht
      obtain ⟨us', hus', href⟩ := hbase _ hus
      obtain ⟨vs', hvs', href'⟩ := hargs _ hvs
      exact ⟨_, .new hus' hvs', (href.append href').cons _⟩
  | _ => cases ht

/-- What stands in parentheses may be rewritten. -/
theorem parens {lead after : Trivia} {e e' : Expr} (h : R.Rewrites e e') :
    (PostfixWith R).Rewrites (.parens lead ⟨e, after⟩ none)
      (.parens lead ⟨e', after⟩ none) := by
  intro us hus
  generalize ht : Expr.parens lead ⟨e, after⟩ none = t at hus
  cases hus with
  | literal hl =>
      obtain ⟨_, _, rfl⟩ := Parser.exists_of_asLiteral hl
      cases ht
  | parens hus =>
      cases ht
      obtain ⟨us', hus', href⟩ := h _ hus
      exact ⟨_, .parens hus', (href.append (.refl _)).cons _⟩
  | _ => cases ht

end Spelling.Rewrites

-- ================================================================= chains

namespace Expr

@[simp] theorem lead_ofName (n : Name) : (ofName n).lead = n.lead := by
  cases n <;> rfl

@[simp] theorem ofName_withLead (n : Name) (lead : Trivia) :
    ofName (n.withLead lead) = (ofName n).withLead lead := by
  cases n <;> rfl

theorem untyped_ofName (n : Name) : (ofName n).untyped = ofName n.untyped := by
  induction n with
  | simple i type => rfl
  | qualified lead outer last type ih =>
      show Expr.access lead (ofName outer).untyped last none = _
      rw [ih]
      rfl

@[simp] theorem dotted?_withLead (e : Expr) (lead : Trivia) :
    (e.withLead lead).dotted? = e.dotted? := by
  cases e <;> rfl

/-- A chain of words is no operation. -/
theorem isOperation_of_dotted? {e : Expr} {s : String}
    (h : e.dotted? = some s) : e.isOperation = false := by
  cases e with
  | ident | access => rfl
  | _ => cases h

end Expr

/-- Tokens that spell a name spell it as an expression too. -/
theorem postfix_ofName {us : List Token} {n : Name} (h : SpellsName us n) :
    PostfixWith R us (Expr.ofName n) := by
  induction h with
  | simple i => exact .name i
  | @dot us n dot i h ih =>
      have hspells := @PostfixWith.access R us _ dot i ih
      rwa [← Expr.ofName_withLead, Expr.lead_ofName] at hspells

/-- Tokens that spell a chain start and end with names or keywords. -/
theorem isFramed_dotted {us : List Token} {e : Expr} {s : String}
    (h : PostfixWith R us e) (hs : e.dotted? = some s) :
    IsFramed e.lead us := by
  induction h generalizing s with
  | literal hl =>
      obtain ⟨_, _, rfl⟩ := Parser.exists_of_asLiteral hl
      cases hs
  | this => exact .singleton rfl
  | name i => exact .singleton rfl
  | classLiteral _ ih =>
      rw [Expr.dotted?, Option.map_eq_some_iff, Expr.dotted?_withLead] at hs
      obtain ⟨outer, houter, -⟩ := hs
      exact (ih houter).concat rfl
  | access i _ ih =>
      rw [Expr.dotted?, Option.map_eq_some_iff, Expr.dotted?_withLead] at hs
      obtain ⟨outer, houter, -⟩ := hs
      exact (ih houter).concat rfl
  | _ => cases hs

/-- A name that can be written can be put in the place of every chain. -/
theorem Name.IsWritable.swaps {m : Name} (h : m.IsWritable) {e : Expr}
    {s : String} (hs : e.dotted? = some s) :
    e.Swaps R (Expr.ofName (m.withLead e.lead)) := by
  refine .of_bare (Expr.isOperation_of_dotted? hs) fun us hus => ?_
  obtain ⟨us', hus', hsep⟩ := h e.lead
  have hframed := isFramed_name hus'
  rw [Name.lead_withLead] at hframed
  exact ⟨us', postfix_ofName hus',
    .of_isFramed (isFramed_dotted hus hs) hframed hsep⟩

-- ================================================================ renaming

namespace Renaming

/-- The expression stays, or a chain becomes one that can be written. -/
def RenamesExpr (e e' : Expr) : Prop :=
  e' = e ∨ e.dotted?.isSome = true ∧ ∃ m : Name,
    m.IsWritable ∧ e' = Expr.ofName (m.withLead e.lead)

/-- A renamed expression may be given other trivia. -/
theorem RenamesExpr.withLead {e e' : Expr} (h : RenamesExpr e e')
    (lead : Trivia) : RenamesExpr (e.withLead lead) (e'.withLead lead) := by
  rcases h with rfl | ⟨hs, m, hm, rfl⟩
  · exact .inl rfl
  · refine .inr ⟨by rwa [Expr.dotted?_withLead], m, hm, ?_⟩
    rw [← Expr.ofName_withLead, Name.withLead_withLead, Expr.lead_withLead]

/-- A renamed expression may be put in the place of the old one. -/
theorem RenamesExpr.swaps {e e' : Expr} (h : RenamesExpr e e') :
    e.Swaps R e' := by
  rcases h with rfl | ⟨hs, m, hm, rfl⟩
  · exact .refl R _
  · obtain ⟨s, hs⟩ := Option.isSome_iff_exists.1 hs
    exact hm.swaps hs

/-- A renamed expression keeps its trivia. -/
theorem RenamesExpr.lead_eq {e e' : Expr} (h : RenamesExpr e e') :
    e'.lead = e.lead := by
  rcases h with rfl | ⟨-, m, -, rfl⟩
  · rfl
  · rw [Expr.lead_ofName, Name.lead_withLead]

variable {r : Renaming} {ω : Type} (hnew : IsQualifiedName r.new.fqn)
include hnew

/-- What is done to one node. -/
theorem renames_expr (e : Expr) :
    RenamesExpr e.untyped (r.expr e : Edited ω Expr).value.untyped := by
  unfold expr
  split
  · exact .inl rfl
  · split
    · rw [Edited.value_replace]
      split
      · next i type _ _ =>
        rw [Expr.untyped_ofName]
        rcases renames_simple hnew i with h | ⟨m, hm, h⟩
        · exact .inl (congrArg Expr.ofName h)
        · exact .inr ⟨rfl, m, hm, congrArg Expr.ofName h⟩
      · next lead target name type _ _ =>
        split
        · next hold =>
          rw [Expr.untyped_ofName, untyped_fullName]
          refine .inr ⟨?_, _, hnew.isWritable, rfl⟩
          rw [Expr.dotted?_untyped, hold]
          rfl
        · exact .inl rfl
      all_goals exact .inl rfl
    · exact .inl rfl

/-- An expression has its own trivia after the renaming. -/
theorem lead_exprAfter (e : Expr) : (r.exprAfter ω e).lead = e.lead := by
  cases e with
  | ident i type => exact (renames_expr hnew (.ident i type)).lead_eq
  | literal lead text type =>
      exact (renames_expr hnew (.literal lead text type)).lead_eq
  | _ => exact (renames_expr hnew _).lead_eq

omit hnew in
/-- The renaming of an expression that is no chain changes no more than its
type. -/
theorem untyped_expr {e : Expr} (h : e.dotted? = none)
    (haccess : ∀ lead t n type, e ≠ .access lead t n type) :
    (r.expr e : Edited ω Expr).value.untyped = e.untyped := by
  unfold expr
  split
  · rfl
  · split
    · rw [Edited.value_replace]
      split
      · cases h
      · exact absurd rfl (haccess _ _ _ _)
      all_goals rfl
    · rfl

omit hnew in
theorem exprAfter_call (lead : Trivia) (select : Option (RightPadded Expr))
    (name : Ident) (args : Container Expr) (method : Option MethodType) :
    r.exprAfter ω (.call lead select name args method) =
      .call lead (select.map (.map (r.exprAfter ω))) name
        (args.map (r.exprAfter ω)) none := by
  have hnode : r.exprAfter ω (.call lead select name args method) =
      (Expr.call lead (Expr.editSelect (r.editor : Editor ω) select).value name
        ⟨args.before, (Expr.editAll (r.editor : Editor ω) args.elements).value,
          args.close⟩
        method).untyped := rfl
  have hselect : (Expr.editSelect (r.editor : Editor ω) select).value.map
      (RightPadded.map Expr.untyped) =
        select.map (RightPadded.map (r.exprAfter ω)) := by
    cases select <;> rfl
  rw [hnode, Expr.untyped_call, hselect, Expr.editAll_value]
  simp only [Container.map, List.map_map]
  rfl

omit hnew in
theorem exprAfter_new (lead : Trivia) (base : TypeTree) (args : Container Expr)
    (constructor : Option MethodType) (type : Option JavaType) :
    r.exprAfter ω (.new lead base args constructor type) =
      .new lead (r.typeAfter ω base) (args.map (r.exprAfter ω)) none none := by
  have hnode : r.exprAfter ω (.new lead base args constructor type) =
      (Expr.new lead (base.edit (r.editor : Editor ω)).value
        ⟨args.before, (Expr.editAll (r.editor : Editor ω) args.elements).value,
          args.close⟩
        constructor type).untyped :=
    untyped_expr (ω := ω) rfl fun _ _ _ _ h => by cases h
  rw [hnode, Expr.untyped_new, Expr.editAll_value]
  simp only [Container.map, List.map_map]
  rfl

omit hnew in
theorem exprAfter_assign (lead before : Trivia) (target value : Expr)
    (type : Option JavaType) :
    r.exprAfter ω (.assign lead target ⟨before, value⟩ type) =
      .assign lead (r.exprAfter ω target) ⟨before, r.exprAfter ω value⟩ none :=
  untyped_expr (ω := ω) (e :=
    .assign lead (target.edit (r.editor : Editor ω)).value
    ⟨before, (value.edit (r.editor : Editor ω)).value⟩ type) rfl
      fun _ _ _ _ h => by cases h

omit hnew in
theorem exprAfter_binary (lead : Trivia) (left : Expr)
    (operator : LeftPadded BinaryOp) (right : Expr) (type : Option JavaType) :
    r.exprAfter ω (.binary lead left operator right type) =
      .binary lead (r.exprAfter ω left) operator (r.exprAfter ω right) none :=
  untyped_expr (ω := ω) (e :=
    .binary lead (left.edit (r.editor : Editor ω)).value operator
    (right.edit (r.editor : Editor ω)).value type) rfl
      fun _ _ _ _ h => by cases h

omit hnew in
theorem exprAfter_unary (lead : Trivia) (operator : UnaryOp) (operand : Expr)
    (type : Option JavaType) :
    r.exprAfter ω (.unary lead operator operand type) =
      .unary lead operator (r.exprAfter ω operand) none :=
  untyped_expr (ω := ω) (e :=
    .unary lead operator (operand.edit (r.editor : Editor ω)).value type)
    rfl fun _ _ _ _ h => by cases h

omit hnew in
theorem exprAfter_parens (lead after : Trivia) (inner : Expr)
    (type : Option JavaType) :
    r.exprAfter ω (.parens lead ⟨inner, after⟩ type) =
      .parens lead ⟨r.exprAfter ω inner, after⟩ none :=
  untyped_expr (ω := ω) (e :=
    .parens lead ⟨(inner.edit (r.editor : Editor ω)).value, after⟩ type)
    rfl fun _ _ _ _ h => by cases h

/-- An expression in its own place. -/
theorem rewrites_exprAt {e : Expr}
    (h : ∀ n lead, Expr.Swaps (SpellsExprAt n) (e.untyped.withLead lead)
      ((r.exprAfter ω e).withLead lead)) (n : Nat) :
    (SpellsExprAt n).Rewrites e.untyped (r.exprAfter ω e) := by
  cases n with
  | zero => intro us hus; cases hus
  | succ n =>
      have hexpr := (h n e.lead).expr
      rwa [Expr.withLead_eq_self _ e.lead_untyped,
        Expr.withLead_eq_self _ (lead_exprAfter hnew e)] at hexpr

/-- Renamed arguments can be written where the arguments were. -/
theorem rewrites_args {args : Container Expr} {n : Nat}
    (h : ∀ p ∈ args.elements, ∀ n lead,
      Expr.Swaps (SpellsExprAt n) (p.element.untyped.withLead lead)
        ((r.exprAfter ω p.element).withLead lead)) :
    (Delimited (SpellsExprAt n) "(" ")").Rewrites (args.map Expr.untyped)
      (args.map (r.exprAfter ω)) :=
  .delimited rfl rfl (forall₂_map fun p hp => rewrites_exprAt hnew (h p hp) n)

/-- After the renaming an expression may be put in its own place: by induction
on the expression. -/
theorem swaps_exprAfter (e : Expr) (n : Nat) (lead : Trivia) :
    Expr.Swaps (SpellsExprAt n) (e.untyped.withLead lead)
      ((r.exprAfter ω e).withLead lead) := by
  have hlead (e : Expr) : (r.exprAfter ω e).lead = e.untyped.lead :=
    (lead_exprAfter hnew e).trans e.lead_untyped.symm
  induction e using Expr.induction_on generalizing n lead with
  | ident i type =>
      exact ((renames_expr hnew (.ident i type)).withLead lead).swaps
  | access lead' target name type ih =>
      have hnode := renames_expr hnew (ω := ω)
        (.access lead' (target.edit (r.editor : Editor ω)).value name type)
      have hchild := Rewrites.access (R := SpellsExprAt n) name (hlead target)
        (ih n lead).bare
      exact (Expr.Swaps.of_bare rfl hchild).trans (hnode.withLead lead).swaps
  | call lead' select name args method ihs iha =>
      rw [Expr.untyped_call, exprAfter_call]
      cases select with
      | none => exact .of_bare rfl (.bareCall (rewrites_args hnew iha))
      | some p =>
          exact .of_bare rfl (.call (hlead p.element) (ihs p rfl n lead).bare
            (rewrites_args hnew iha))
  | new lead' base args constructor type ih =>
      rw [Expr.untyped_new, exprAfter_new]
      refine .of_bare rfl (.new ?_ (rewrites_args hnew ih))
      have hbase := rewrites_spellsClassType hnew (ω := ω) base base.lead
      rwa [TypeTree.withLead_eq_self _ base.lead_untyped,
        TypeTree.withLead_eq_self _ (lead_typeAfter hnew base)] at hbase
  | literal lead' text type =>
      exact ((renames_expr hnew (.literal lead' text type)).withLead lead).swaps
  | assign lead' target value type iht ihv =>
      rw [exprAfter_assign]
      exact .assign (hlead target) (iht n lead) (rewrites_exprAt hnew ihv n)
  | binary lead' left operator right type ihl ihr =>
      rw [exprAfter_binary]
      refine .binary_of (hlead left) (ihl n lead) ?_
      have hright := ihr n right.lead
      rwa [Expr.withLead_eq_self _ right.lead_untyped,
        Expr.withLead_eq_self _ (lead_exprAfter hnew right)] at hright
  | unary lead' operator operand type ih =>
      rw [exprAfter_unary]
      refine .unary ?_
      have hoperand := ih n operand.lead
      rwa [Expr.withLead_eq_self _ operand.lead_untyped,
        Expr.withLead_eq_self _ (lead_exprAfter hnew operand)] at hoperand
  | parens lead' inner type ih =>
      rw [exprAfter_parens]
      exact .of_bare rfl (.parens (rewrites_exprAt hnew ih n))

/-- A renamed expression can be written where the expression was. -/
theorem rewrites_expr (e : Expr) :
    SpellsExpr.Rewrites e.untyped (r.exprAfter ω e) := by
  rintro us ⟨n, hus⟩
  obtain ⟨us', hus', href⟩ :=
    rewrites_exprAt hnew (swaps_exprAfter hnew e) n us hus
  exact ⟨us', ⟨n, hus'⟩, href⟩

/-- A renamed annotation can be written where the annotation was. -/
theorem rewrites_modifier (m : Modifier) :
    SpellsModifier.Rewrites m.untyped
      (m.edit (r.editor : Editor ω)).value.untyped := by
  cases m with
  | keyword lead word => exact .refl _ _
  | annotated lead name args =>
      have hname : SpellsName.Rewrites name.untyped (r.nameAfter ω name) := by
        have h := rewrites_nameAfter (ω := ω) hnew name name.lead
        rwa [Name.withLead_eq_self _ name.lead_untyped,
          Name.withLead_eq_self _ (lead_nameAfter hnew name)] at h
      intro us hus
      cases args with
      | none =>
          rw [Modifier.untyped_annotated] at hus
          cases hus with
          | word h => obtain ⟨_, _, he⟩ :=
                Parser.exists_of_asModifierWord h; cases he
          | marker hn =>
              obtain ⟨us', hus', href⟩ := hname _ hn
              exact ⟨_, .marker hus', href.cons _⟩
      | some c =>
          have hargs : (Delimited SpellsExpr "(" ")").Rewrites
              (c.map Expr.untyped)
              (c.map (r.exprAfter ω)) :=
            .delimited rfl rfl (forall₂_map fun p _ =>
              rewrites_expr hnew p.element)
          have hafter : (Modifier.edit (r.editor : Editor ω)
              (.annotated lead name (some c))).value.untyped =
              .annotated lead (r.nameAfter ω name)
                (some (c.map (r.exprAfter ω))) := by
            show (Modifier.annotated lead
              (name.edit (r.editor : Editor ω)).value
              (some ⟨c.before,
                (Expr.editAll (r.editor : Editor ω) c.elements).value,
                c.close⟩)).untyped = _
            rw [Modifier.untyped_annotated, Expr.editAll_value]
            simp only [Option.map_some, Container.map, List.map_map]
            rfl
          rw [Modifier.untyped_annotated] at hus
          rw [hafter]
          cases hus with
          | word h => obtain ⟨_, _, he⟩ :=
                Parser.exists_of_asModifierWord h; cases he
          | called hn hvs =>
              obtain ⟨us', hus', href⟩ := hname _ hn
              obtain ⟨vs', hvs', href'⟩ := hargs _ hvs
              exact ⟨_, .called hus' hvs', (href.append href').cons _⟩

end Renaming

end JavaRefit
