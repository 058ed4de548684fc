/-
The comments of a text and of a tree.

Comments are cut out of trivia by the states of the scanner, so they are
what it passed over. A tree keeps all trivia of its text, so its comments
are those of the text, in order.

Chain: after the reading of files and attribution; the comments that a
run keeps are counted with it.
-/
import JavaRefit.Proofs.Attribution.Untyped
import JavaRefit.Proofs.Reading.Unit

namespace JavaRefit

open Piece

-- ================================================================ trivia

namespace Token

/-- Characters in front of the first of some texts. -/
def beforeFirst (cs : List Char) : List (List Char) → List (List Char)
  | [] => [cs]
  | ds :: rest => (cs ++ ds) :: rest

/-- The comments in some characters. Within a comment, what is left of it comes
first. -/
def commentsIn : TriviaState → List Char → List (List Char)
  | .between, [] => []
  | _, [] => [[]]
  | .between, '/' :: '/' :: cs => beforeFirst ['/', '/'] (commentsIn .inLine cs)
  | .between, '/' :: '*' :: cs =>
      beforeFirst ['/', '*'] (commentsIn .inBlock cs)
  | .between, _ :: cs => commentsIn .between cs
  | .inBlock, '*' :: '/' :: cs => ['*', '/'] :: commentsIn .between cs
  | .inBlock, c :: cs => beforeFirst [c] (commentsIn .inBlock cs)
  | .inLine, c :: cs =>
    if c = '\n' then [] :: commentsIn .between cs
      else beforeFirst [c] (commentsIn .inLine cs)

end Token

/-- The comments in some trivia, in order. -/
def Trivia.comments (lead : Trivia) : List String :=
  (Token.commentsIn .between lead.toList).map String.ofList

@[simp] theorem Trivia.comments_empty : Trivia.comments "" = [] := rfl

@[simp] theorem Trivia.comments_lineEnd : Trivia.comments "\n" = [] := by decide

/-- A line end in front is no comment. -/
theorem Trivia.comments_newline (lead : Trivia) :
    Trivia.comments ("\n" ++ lead) = Trivia.comments lead := by
  rw [comments, comments, String.toList_append]
  rfl

example : Trivia.comments "\n// a /* b\n /* c // d */ \n" =
    ["// a /* b", "/* c // d */"] := by decide

-- ------------------------------------------------------------- appearance

/-- Texts appear in some characters one after the other. -/
def AppearIn : List String → List Char → Prop
  | [], _ => True
  | t :: ts, cs =>
      ∃ before rest, cs = before ++ t.toList ++ rest ∧ AppearIn ts rest

namespace AppearIn

variable {ts us : List String} {cs ds : List Char}

/-- What appears in some characters appears behind others. -/
theorem append_left (ds : List Char) (h : AppearIn ts cs) :
    AppearIn ts (ds ++ cs) := by
  cases ts with
  | nil => trivial
  | cons t ts =>
      obtain ⟨before, rest, rfl, hrest⟩ := h
      exact ⟨ds ++ before, rest, by simp, hrest⟩

/-- What appears in two texts appears in the one behind the other. -/
theorem append (h : AppearIn ts cs) (h' : AppearIn us ds) :
    AppearIn (ts ++ us) (cs ++ ds) := by
  induction ts generalizing cs with
  | nil => exact h'.append_left cs
  | cons t ts ih =>
      obtain ⟨before, rest, rfl, hrest⟩ := h
      exact ⟨before, rest ++ ds, by simp, ih hrest⟩

/-- Some of the texts appear where all do. -/
theorem sublist (h : AppearIn ts cs) (hs : List.Sublist us ts) :
    AppearIn us cs := by
  induction hs generalizing cs with
  | slnil => trivial
  | cons t _ ih =>
      obtain ⟨before, rest, rfl, hrest⟩ := h
      exact (ih hrest).append_left _
  | cons_cons t _ ih =>
      obtain ⟨before, rest, rfl, hrest⟩ := h
      exact ⟨before, rest, rfl, ih hrest⟩

end AppearIn

namespace Token

/-- The first text is what the characters start with, the others appear behind
it. -/
def AppearFirst (ts : List (List Char)) (cs : List Char) : Prop :=
  ∃ d ds rest, ts = d :: ds ∧ cs = d ++ rest ∧
    AppearIn (ds.map String.ofList) rest

variable {ts : List (List Char)} {cs : List Char}

/-- Comments that appear from the first character on appear. -/
theorem AppearFirst.appearIn (h : AppearFirst ts cs) :
    AppearIn (ts.map String.ofList) cs := by
  obtain ⟨d, ds, rest, rfl, rfl, hrest⟩ := h
  exact ⟨[], rest, by simp, hrest⟩

/-- Characters before a text may belong to its first comment. -/
theorem AppearFirst.beforeFirst (ds : List Char) (h : AppearFirst ts cs) :
    AppearFirst (beforeFirst ds ts) (ds ++ cs) := by
  obtain ⟨d, ds', rest, rfl, rfl, hrest⟩ := h
  exact ⟨ds ++ d, ds', rest, rfl, by simp, hrest⟩

/-- The comments found in some characters appear there; what is left of one
comes first. -/
def Appear (state : TriviaState) (ts : List (List Char))
    (cs : List Char) : Prop :=
  match state with
  | .between => AppearIn (ts.map String.ofList) cs
  | _ => AppearFirst ts cs

/-- The comments that are found appear: by induction on the characters, for
every state. -/
theorem appear_commentsIn (state : TriviaState) (cs : List Char) :
    Appear state (commentsIn state cs) cs := by
  fun_induction commentsIn state cs with
  | case1 => trivial
  | case2 state hstate =>
      cases state with
      | between => exact absurd rfl hstate
      | inLine => exact ⟨[], [], [], rfl, rfl, trivial⟩
      | inBlock => exact ⟨[], [], [], rfl, rfl, trivial⟩
  | case3 cs ih => exact (ih.beforeFirst ['/', '/']).appearIn
  | case4 cs ih => exact (ih.beforeFirst ['/', '*']).appearIn
  | case5 c cs _ _ ih => exact ih.append_left [c]
  | case6 cs ih => exact ⟨['*', '/'], _, cs, rfl, rfl, ih⟩
  | case7 c cs _ ih => exact ih.beforeFirst [c]
  | case8 cs ih => exact ⟨[], _, '\n' :: cs, rfl, rfl, ih.append_left ['\n']⟩
  | case9 c cs hc ih => exact ih.beforeFirst [c]

end Token

/-- The comments of some trivia appear in it. -/
theorem Trivia.appearIn_comments (lead : Trivia) :
    AppearIn lead.comments lead.toList :=
  Token.appear_commentsIn .between lead.toList

-- ================================================================ pieces

namespace Piece

/-- The comments of a piece. -/
def comments : Piece → List String
  | trivia lead => Trivia.comments lead
  | word _ => []

/-- The comments of a run of pieces, in order. -/
def commentsAll (ps : List Piece) : List String :=
  ps.flatMap comments

@[simp] theorem commentsAll_nil : commentsAll [] = [] := rfl

@[simp] theorem commentsAll_trivia (lead : Trivia) (ps : List Piece) :
    commentsAll (trivia lead :: ps) =
      Trivia.comments lead ++ commentsAll ps := rfl

@[simp] theorem commentsAll_word (text : String) (ps : List Piece) :
    commentsAll (word text :: ps) = commentsAll ps := rfl

@[simp] theorem commentsAll_append (ps qs : List Piece) :
    commentsAll (ps ++ qs) = commentsAll ps ++ commentsAll qs :=
  List.flatMap_append

/-- The comments of all are those of each. -/
theorem commentsAll_flatMap {α : Type} (l : List α) (f : α → List Piece) :
    commentsAll (l.flatMap f) = l.flatMap fun a => commentsAll (f a) :=
  List.flatMap_assoc

/-- The comments of some pieces appear in their text. -/
theorem appearIn_commentsAll (ps : List Piece) :
    AppearIn (commentsAll ps) (textAll ps).toList := by
  induction ps with
  | nil => trivial
  | cons p ps ih =>
      rw [textAll_cons, String.toList_append]
      cases p with
      | trivia lead => exact lead.appearIn_comments.append ih
      | word text => exact ih.append_left _

/-- The comments of a gap are those of its trivia. -/
theorem commentsAll_gap (lead : Trivia) :
    commentsAll (gap lead) = Trivia.comments lead := by
  by_cases h : lead = ""
  · subst h
    rfl
  · have hgap : gap lead = [trivia lead] := by simp [gap, solid, isSolid, h]
    rw [hgap, commentsAll_trivia, commentsAll_nil, List.append_nil]

/-- Empty trivia has no comments. -/
theorem commentsAll_solid (ps : List Piece) :
    commentsAll (solid ps) = commentsAll ps := by
  induction ps with
  | nil => rfl
  | cons p ps ih =>
      cases p with
      | word text => rw [solid_word, commentsAll_word, commentsAll_word, ih]
      | trivia lead =>
          rw [solid_trivia, commentsAll_append, commentsAll_gap,
            commentsAll_trivia, ih]

end Piece

-- ================================================================= texts

/-- The comments of a text that was cut into tokens, in order. -/
def TokenRun.comments (run : TokenRun) : List String :=
  (run.tokens.flatMap fun t => Trivia.comments t.lead) ++
    Trivia.comments run.tail

/-- The comments of a file, in order. -/
def CompilationUnit.comments (cu : CompilationUnit) : List String :=
  commentsAll cu.pieces

/-- The comments of a file appear in its text. -/
theorem CompilationUnit.appearIn_comments (cu : CompilationUnit) :
    AppearIn cu.comments cu.print.toList :=
  appearIn_commentsAll cu.pieces

/-- The comments of tokens are those of their trivia. -/
theorem Token.commentsAll_flat (ts : List Token) :
    commentsAll (Token.flat ts) = ts.flatMap fun t =>
      Trivia.comments t.lead := by
  induction ts with
  | nil => rfl
  | cons t ts ih =>
      rw [Token.flat_cons, commentsAll_append, commentsAll_gap,
        commentsAll_word, ih, List.flatMap_cons]

/-- The comments of a text are those of its tree. -/
theorem comments_parseUnit {source : String} {cp : ClassPath}
    {path : Option String} {cu : CompilationUnit}
    (h : parseUnit source cp path = .ok cu) :
    (Token.scan source).comments = cu.comments := by
  unfold parseUnit at h
  cases htree : parseTree source path with
  | error e =>
      rw [htree] at h
      cases h
  | ok tree =>
      rw [htree] at h
      cases h
      obtain ⟨⟨rest, hunit⟩, -, -⟩ := unit_of_parseTree htree
      rw [CompilationUnit.comments, CompilationUnit.pieces_typed,
        ← commentsAll_solid, Parser.unit_reads hunit, commentsAll_append,
        Token.commentsAll_flat, commentsAll_gap,
        TokenRun.comments]

end JavaRefit
