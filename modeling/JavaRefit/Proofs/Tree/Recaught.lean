/-
Trees that differ in what their catch clauses declare.

The catch rule changes nothing in a statement but the parameters of catch
clauses, wherever these are. `Recaught` says that of two statements, and
how the declarations of their clauses are related. What is said of the
blocks in a statement is said of them as statements, so that the relation
goes into lists only where the tree does.

Chain: after `Untyped`; the frame of the catch rule and the rereading of
what it writes rest on it.
-/
import Mathlib.Data.List.Forall2
import JavaRefit.Proofs.Tree.Untyped

namespace JavaRefit

variable {P Q : Variables → Variables → Prop}

/-- The clauses are the same but for what they declare and for their bodies. -/
structure Catch.Redeclares (P : Variables → Variables → Prop)
    (c c' : Catch Stmt) : Prop where
  lead : c'.lead = c.lead
  parens : c'.parameter.lead = c.parameter.lead
  after : c'.parameter.inner.after = c.parameter.inner.after
  declaration : P c.declaration c'.declaration

/-- The statements are the same but for what catch clauses declare. -/
inductive Stmt.Recaught (P : Variables → Variables → Prop) : Stmt → Stmt → Prop
  | same (s : Stmt) : Recaught P s s
  | block {lead ps qs close} :
      List.Forall₂ (fun p q =>
        Recaught P (RightPadded.element p) (RightPadded.element q)) ps qs →
      qs.map RightPadded.after = ps.map RightPadded.after →
      Recaught P (.block ⟨lead, ps, close⟩) (.block ⟨lead, qs, close⟩)
  | tryCatch {lead b b' cs cs' f f'} : Recaught P (.block b) (.block b') →
      List.Forall₂ (fun c c' =>
        Recaught P (.block (Catch.body c)) (.block (Catch.body c'))) cs cs' →
      List.Forall₂ (Catch.Redeclares P) cs cs' →
      Option.Rel (fun g g' => Recaught P (.block (LeftPadded.element g))
        (.block (LeftPadded.element g'))) f f' →
      f'.map LeftPadded.before = f.map LeftPadded.before →
      Recaught P (.tryCatch ⟨lead, b, cs, f⟩) (.tryCatch ⟨lead, b', cs', f'⟩)
  | ifElse {lead condition p q e e'} :
      Recaught P (RightPadded.element p) (RightPadded.element q) →
      q.after = p.after →
      Option.Rel (fun g g' => Recaught P (RightPadded.element (Else.body g))
        (RightPadded.element (Else.body g'))) e e' →
      (e'.map fun g => (g.lead, g.body.after)) =
        e.map (fun g => (g.lead, g.body.after)) →
      Recaught P (.ifElse lead condition p e) (.ifElse lead condition q e')
  | whileLoop {lead condition p q} :
      Recaught P (RightPadded.element p) (RightPadded.element q) →
      q.after = p.after →
      Recaught P (.whileLoop lead condition p) (.whileLoop lead condition q)

/-- The members are the same but for what catch clauses in them declare. -/
inductive Member.Recaught (P : Variables → Variables → Prop) :
    Member → Member → Prop
  | same (m : Member) : Recaught P m m
  | method {m : Method} {b b' : Block Stmt} : m.body = some b →
      Stmt.Recaught P (.block b) (.block b') →
      Recaught P (.method m) (.method { m with body := some b' })
  | nested {c : JavaClass} {qs : List (RightPadded Member)} :
      List.Forall₂ (fun p q =>
        Recaught P (RightPadded.element p) (RightPadded.element q))
        c.body.statements qs →
      qs.map RightPadded.after = c.body.statements.map RightPadded.after →
      Recaught P (.nested c) (.nested { c with body.statements := qs })

/-- The classes are the same but for what catch clauses in them declare. -/
def ClassDecl.Recaught (P : Variables → Variables → Prop)
    (c c' : JavaClass) : Prop :=
  Member.Recaught P (.nested c) (.nested c')

-- ========================================================== without types

/-- Elements that are related stay so when both are changed. -/
theorem RightPadded.forall₂_map {α : Type} {R S : α → α → Prop} {f : α → α}
    {ps qs : List (RightPadded α)}
    (h : ∀ p ∈ ps, ∀ b, R p.element b → S (f p.element) (f b))
    (hpq : List.Forall₂ (fun p q =>
      R (RightPadded.element p) (RightPadded.element q)) ps qs) :
    List.Forall₂ (fun p q => S (RightPadded.element p) (RightPadded.element q))
      (ps.map (.map f)) (qs.map (.map f)) := by
  rw [List.forall₂_map_left_iff, List.forall₂_map_right_iff]
  exact ((List.forall₂_and_left _ _).2 ⟨h, hpq⟩).imp fun p q ⟨hp, hq⟩ => hp _ hq

/-- What is behind elements is no matter of what is done to them. -/
theorem RightPadded.map_after_map {α : Type} {f : α → α}
    {ps qs : List (RightPadded α)}
    (h : qs.map RightPadded.after = ps.map RightPadded.after) :
    (qs.map (.map f)).map RightPadded.after =
      (ps.map (.map f)).map RightPadded.after := by
  rw [List.map_map, List.map_map]
  exact h

/-- A clause that declares anew does so without types. -/
theorem Catch.Redeclares.untyped
    (hPQ : ∀ ⦃d d'⦄, P d d' → Q d.untyped d'.untyped) {c c' : Catch Stmt}
    (h : c.Redeclares P c') : c.untyped.Redeclares Q c'.untyped :=
  ⟨h.lead, h.parens, h.after, hPQ h.declaration⟩

/-- Statements that are recaught are so without their types. -/
theorem Stmt.Recaught.untyped (hPQ : ∀ ⦃d d'⦄, P d d' → Q d.untyped d'.untyped)
    {s s' : Stmt} (h : Stmt.Recaught P s s') :
    Stmt.Recaught Q s.untyped s'.untyped := by
  -- a block in a statement, by what is known of the statements in the block
  have hblock {b b' : Block Stmt} (h : Stmt.Recaught P (.block b) (.block b'))
      (ih : ∀ p ∈ b.statements, ∀ s', Stmt.Recaught P p.element s' →
        Stmt.Recaught Q p.element.untyped s'.untyped) :
      Stmt.Recaught Q (.block (b.map Stmt.untyped))
        (.block (b'.map Stmt.untyped)) := by
    cases h with
    | same => exact .same _
    | block hpq hafter =>
        exact .block (RightPadded.forall₂_map ih hpq)
          (RightPadded.map_after_map hafter)
  induction s using Stmt.induction_on generalizing s' with
  | block b ih =>
      cases h with
      | same => exact .same _
      | block hpq hafter =>
          rw [Stmt.untyped_block, Stmt.untyped_block]
          exact hblock (.block hpq hafter) fun p hp s' h => ih p hp h
  | tryCatch t ihb ihc ihf =>
      cases h with
      | same => exact .same _
      | @tryCatch lead b b' cs cs' f f' hb hbodies hheads hf hbefore =>
          rw [Stmt.untyped_tryCatch, Stmt.untyped_tryCatch]
          refine .tryCatch (hblock hb fun p hp s' h => ihb p hp h) ?_ ?_ ?_ ?_
          · rw [List.forall₂_map_left_iff, List.forall₂_map_right_iff]
            exact ((List.forall₂_and_left _ _).2 ⟨ihc, hbodies⟩).imp
              fun c c' ⟨ih, hc⟩ =>
              hblock hc fun p hp s' h => ih p hp h
          · rw [List.forall₂_map_left_iff, List.forall₂_map_right_iff]
            exact hheads.imp fun c c' hc => hc.untyped hPQ
          · cases hf with
            | none => exact .none
            | some hg =>
                exact .some (hblock hg fun p hp s' h => ihf _ rfl p hp h)
          · rw [Option.map_map, Option.map_map]
            exact hbefore
  | ifElse lead condition thenPart elsePart iht ihe =>
      cases h with
      | same => exact .same _
      | ifElse hs hsafter he hafter =>
          rw [Stmt.untyped_ifElse, Stmt.untyped_ifElse]
          refine .ifElse (iht hs) hsafter ?_ ?_
          · cases he with
            | none => exact .none
            | some hg => exact .some (ihe _ rfl hg)
          · rw [Option.map_map, Option.map_map]
            exact hafter
  | whileLoop lead condition body ih =>
      cases h with
      | same => exact .same _
      | whileLoop hs hafter => exact .whileLoop (ih hs) hafter
  | _ =>
      cases h with
      | same => exact .same _

/-- Members that are recaught are so without their types. -/
theorem Member.Recaught.untyped
    (hPQ : ∀ ⦃d d'⦄, P d d' → Q d.untyped d'.untyped) {m m' : Member}
    (h : Member.Recaught P m m') : Member.Recaught Q m.untyped m'.untyped := by
  induction m using Member.induction_on generalizing m' with
  | field d =>
      cases h with
      | same => exact .same _
  | method m =>
      cases h with
      | same => exact .same _
      | @method _ b b' hm hb =>
          have hbody := hb.untyped hPQ
          rw [Stmt.untyped_block, Stmt.untyped_block] at hbody
          show Member.Recaught Q (.method m.untyped)
            (.method (Method.untyped { m with body := some b' }))
          rw [m.untyped_eq, Method.untyped_eq]
          refine .method ?_ hbody
          rw [hm]
          rfl
  | nested c ih =>
      cases h with
      | same => exact .same _
      | @nested _ qs hpq hafter =>
          show Member.Recaught Q (.nested c.untyped)
            (.nested (ClassDecl.untyped { c with body.statements := qs }))
          rw [c.untyped_eq, ClassDecl.untyped_eq]
          exact .nested (RightPadded.forall₂_map
            (fun p hp m' h => ih p hp h) hpq)
            (RightPadded.map_after_map hafter)

end JavaRefit
