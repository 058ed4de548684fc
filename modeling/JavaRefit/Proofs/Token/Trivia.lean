/-
What trivia is.

The scanner knows trivia by its states. Said without them, trivia is
blanks and comments one after the other: a comment to the end of its
line, with nothing behind it but that end, or a comment up to the first
`*/` after its start. What the scanner passes over is that, and a text of
nothing else has no tokens.

Chain: after `Separated`; the spaces of a tree are told by it.
-/
import JavaRefit.Proofs.Token.Separated

namespace JavaRefit.Token

/-- Blanks and comments, one after the other. -/
inductive IsTrivia : List Char → Prop
  | nil : IsTrivia []
  | blank {c cs} : isTriviaBlank c = true → IsTrivia cs → IsTrivia (c :: cs)
  | line {body cs} : '\n' ∉ body → (∀ c ∈ cs.head?, c = '\n') → IsTrivia cs →
      IsTrivia ('/' :: '/' :: (body ++ cs))
  | block {body cs} : ¬['*', '/'] <:+: body → IsTrivia cs →
      IsTrivia ('/' :: '*' :: (body ++ '*' :: '/' :: cs))

/-- What is left of some trivia in a state of the scanner: what is left of the
comment, if it is in one, and what comes after that. -/
def IsTriviaRest : TriviaState → List Char → Prop
  | .between, cs => IsTrivia cs
  | .inLine, cs =>
      ∃ body rest, cs = body ++ rest ∧ '\n' ∉ body ∧
        (∀ c ∈ rest.head?, c = '\n') ∧
      IsTrivia rest
  | .inBlock, cs =>
      closesComment cs = true → ∃ body rest, cs = body ++ '*' :: '/' :: rest ∧
      ¬['*', '/'] <:+: body ∧ IsTrivia rest

/-- A comment with one character more in front still has no end in it. -/
theorem not_isInfix_cons {c : Char} {body rest : List Char}
    (hno : ∀ ds, c = '*' → body ++ '*' :: '/' :: rest = '/' :: ds → False)
    (h : ¬['*', '/'] <:+: body) : ¬['*', '/'] <:+: c :: body := by
  rw [List.infix_cons_iff]
  rintro (hstart | hin)
  · obtain ⟨ds, hds⟩ := hstart
    rw [List.cons_append, List.cons_append, List.nil_append,
      List.cons.injEq] at hds
    obtain ⟨hc, hbody⟩ := hds
    exact hno (ds ++ '*' :: '/' :: rest) hc.symm (by rw [← hbody]; rfl)
  · exact h hin

/-- What the scanner passes over up to the end of a text is trivia. -/
theorem isTriviaRest_of_span {state : TriviaState} {cs : List Char}
    (h : (spanTrivia state cs).2 = []) : IsTriviaRest state cs := by
  fun_induction spanTrivia state cs with
  | case1 state =>
      cases state with
      | between => exact .nil
      | inLine => exact ⟨[], [], rfl, List.not_mem_nil, by simp, .nil⟩
      | inBlock => rintro ⟨⟩
  | case2 cs a b hab ih =>
      rw [hab] at ih
      obtain ⟨body, rest, rfl, hbody, hend, hrest⟩ := ih h
      exact .line hbody hend hrest
  | case3 cs hclosed a b hab ih =>
      rw [hab] at ih
      obtain ⟨body, rest, rfl, hbody, hrest⟩ := ih h hclosed
      exact .block hbody hrest
  | case4 => cases h
  | case5 cs a b hab ih =>
      rw [hab] at ih
      exact fun _ => ⟨[], cs, rfl, by simp, ih h⟩
  | case6 c cs hno a b hab ih =>
      rw [hab] at ih
      intro hclosed
      rw [closesComment] at hclosed
      · obtain ⟨body, rest, rfl, hbody, hrest⟩ := ih h hclosed
        exact ⟨c :: body, rest, rfl, not_isInfix_cons hno hbody, hrest⟩
      · exact hno
  | case7 c cs a b hab ih =>
      rw [hab] at ih
      by_cases hc : c = '\n'
      · subst hc
        exact ⟨[], '\n' :: cs, rfl, List.not_mem_nil, by simp,
          .blank rfl (ih h)⟩
      · rw [if_neg hc] at ih
        obtain ⟨body, rest, rfl, hbody, hend, hrest⟩ := ih h
        refine ⟨c :: body, rest, rfl, ?_, hend, hrest⟩
        rw [List.mem_cons, not_or]
        exact ⟨Ne.symm hc, hbody⟩
  | case8 c cs _ _ hblank a b hab ih =>
      rw [hab] at ih
      exact .blank hblank (ih h)
  | case9 => cases h

namespace OnlyTrivia

variable {tail : Trivia}

theorem isTrivia (h : OnlyTrivia tail) : IsTrivia tail.toList :=
  isTriviaRest_of_span (congrArg Prod.snd h)

/-- Trivia has no tokens. -/
theorem scan (h : OnlyTrivia tail) : Token.scan tail = ⟨[], tail, none⟩ := by
  rw [Token.scan, scanChars_of_trivia h, String.ofList_toList]

theorem empty : OnlyTrivia "" := rfl

/-- Trivia that is over may stand in front of other trivia. -/
theorem append {lead : Trivia} (hlead : Clean .between lead.toList)
    (h : OnlyTrivia tail) : OnlyTrivia (lead ++ tail) := by
  rw [OnlyTrivia, String.toList_append, spanTrivia_append_of_clean hlead, h]

end OnlyTrivia

/-- The trivia in front of a token is nothing else. -/
theorem IsWhole.onlyTrivia {t : Token} (h : t.IsWhole) : OnlyTrivia t.lead := by
  have hspan := spanTrivia_append_of_clean h.lead []
  rwa [List.append_nil, spanTrivia, List.append_nil] at hspan

end JavaRefit.Token
