/-
The words of a file that was read.

A walk through the file meets the words of its tokens, in their order and
each of them once (`words_walk_of_isReadFrom`): what the grammar says of
the tree that is spelled holds of the tree with its types too, since types
change no word and no place. So every name in a tree is a name in the text
or one of the words that stand for one, and has no point in it.

Which nodes are words is told from their kinds alone, and their texts from
what they print (`wordNodes_walk`).

Chain: after `Yield` and `Tree/Rebuilt`; read where the words of a typed
tree are asked for.
-/
import JavaRefit.Proofs.Attribution.Untyped
import JavaRefit.Proofs.Grammar.Plain
import JavaRefit.Proofs.Grammar.Text
import JavaRefit.Proofs.Grammar.Yield
import JavaRefit.Proofs.Text.Dotted
import JavaRefit.Proofs.Token.Refits
import JavaRefit.Proofs.Tree.ClassName
import JavaRefit.Proofs.Tree.Rebuilt

namespace JavaRefit

open Node (words)

-- ============================================================ without types

namespace Node

/-- The word of a node is no matter of types. -/
theorem word?_untyped {n : Node} (hn : n.IsProper) :
    n.untyped.word? = n.word? := by
  cases hn with
  | name n => cases n <;> rfl
  | @typeTree t h =>
      cases t with
      | named n => exact absurd rfl (h n)
      | _ => rfl
  | expr e => cases e <;> rfl
  | modifier m =>
      cases m with
      | keyword lead word => rfl
      | annotated lead name args => cases args <;> rfl
  | @stmt s hb hd he =>
      cases s with
      | block b => exact absurd rfl (hb b)
      | declaration d => exact absurd rfl (hd d)
      | expr e => exact absurd rfl (he e)
      | returning lead value => cases value <;> rfl
      | _ => rfl
  | _ => rfl

/-- A tree without its types has the words of the tree. -/
theorem words_walk_untyped {n : Node} (hn : n.IsProper) :
    words n.untyped.walk = words n.walk := by
  rw [walk_untyped hn, words, List.filterMap_map, words]
  exact List.filterMap_congr fun m hm =>
    word?_untyped (isProper_of_mem_walk hn hm)

end Node

/-- What is read from a text is read from it without types. -/
theorem parseTree_of_parseUnit {source : String} {cp : ClassPath}
    {path : Option String} {cu : CompilationUnit}
    (h : parseUnit source cp path = .ok cu) :
    parseTree source path = .ok cu.untyped := by
  unfold parseUnit at h
  cases htree : parseTree source path with
  | error e => rw [htree] at h; cases h
  | ok tree =>
      rw [htree] at h
      cases h
      obtain ⟨ts, hspells⟩ := parseTree_eq_ok_iff.1 htree
      rw [CompilationUnit.untyped_typed, keeps_unit hspells.spells]

/-- The file is read from the text, without types or with those that some class
path gives. -/
def CompilationUnit.IsReadFrom (cu : CompilationUnit) (source : String)
    (path : Option String) : Prop :=
  parseTree source path = .ok cu ∨ ∃ cp, parseUnit source cp path = .ok cu

/-- A file that is read from a text is parsed from it without types. -/
theorem CompilationUnit.IsReadFrom.untyped {cu : CompilationUnit}
    {source : String} {path : Option String} (h : cu.IsReadFrom source path) :
    parseTree source path = .ok cu.untyped := by
  rcases h with h | ⟨cp, h⟩
  · obtain ⟨ts, hspells⟩ := parseTree_eq_ok_iff.1 h
    rwa [keeps_unit hspells.spells]
  · exact parseTree_of_parseUnit h

-- ============================================================ files read

/-- The words of a tree that was read are the words of its tokens. -/
theorem words_walk_parseTree {source : String} {path : Option String}
    {cu : CompilationUnit} (h : parseTree source path = .ok cu) :
    words cu.walk = Token.wordsAfter none (Token.scan source).tokens := by
  obtain ⟨⟨rest, hunit⟩, -, -⟩ := unit_of_parseTree h
  obtain ⟨-, hspells⟩ := Parser.unit_sound hunit
  exact words_walk_of_spellsUnit hspells

/-- The words of a file that was read are the words of its tokens, in their
order. -/
theorem words_walk_of_isReadFrom {source : String} {path : Option String}
    {cu : CompilationUnit} (h : cu.IsReadFrom source path) :
    words cu.walk = Token.wordsAfter none (Token.scan source).tokens :=
  calc words cu.walk = words cu.untyped.walk :=
    (Node.words_walk_untyped (.unit cu)).symm
    _ = Token.wordsAfter none (Token.scan source).tokens :=
      words_walk_parseTree h.untyped

-- ============================================================ nodes of a kind

/-- Nodes of the kind are single words. -/
def NodeKind.isWord : NodeKind → Bool
  | identifier | literal | primitive | modifier => true
  | _ => false

/-- The piece is no trivia. -/
def Piece.isWord : Piece → Bool
  | trivia _ => false
  | word _ => true

namespace Node

/-- What a node prints without trivia. -/
def bareText (n : Node) : String :=
  Piece.textAll (n.pieces.filter Piece.isWord)

/-- The text of a node that is one word behind its trivia. -/
theorem bareText_of_pieces {n : Node} {lead : Trivia} {word : String}
    (h : n.pieces = [.trivia lead, .word word]) : n.bareText = word := by
  have hfilter : n.pieces.filter Piece.isWord = [.word word] := by rw [h]; rfl
  rw [bareText, hfilter, Piece.textAll_cons, Piece.textAll_nil,
    String.append_empty]
  rfl

/-- The word of a node is what it prints, where nodes of its kind are words. -/
theorem word?_eq {n : Node} (hn : n.IsProper) :
    n.word? = if n.kind.isWord then some (n.kind, n.bareText) else none := by
  have hword {n : Node} {lead : Trivia} {word : String}
      (hpieces : n.pieces = [.trivia lead, .word word])
      (kind : NodeKind) : some (kind, word) = some (kind, n.bareText) := by
    rw [bareText_of_pieces hpieces]
  cases hn with
  | ident i => exact hword rfl .identifier
  | name n =>
      cases n with
      | simple i type => exact hword rfl .identifier
      | qualified lead outer last type => rfl
  | @typeTree t h =>
      cases t with
      | named n => exact absurd rfl (h n)
      | primitive lead p type => exact hword rfl .primitive
      | _ => rfl
  | expr e =>
      cases e with
      | ident i type => exact hword rfl .identifier
      | literal lead text type => exact hword rfl .literal
      | _ => rfl
  | modifier m =>
      cases m with
      | keyword lead word => exact hword rfl .modifier
      | annotated lead name args => rfl
  | @stmt s hb hd he =>
      cases s with
      | expr e => exact absurd rfl (he e)
      | _ => rfl
  | _ => rfl

/-- The words among some nodes are their nodes of the kinds of words. -/
theorem words_eq {ns : List Node} (h : ∀ n ∈ ns, n.IsProper) :
    words ns = (ns.filter fun n => n.kind.isWord).map fun n =>
      (n.kind, n.bareText) := by
  rw [words, List.filterMap_congr fun n hn => word?_eq (h n hn),
    ← List.filterMap_eq_map, List.filterMap_filter]
  exact List.filterMap_congr fun n _ => by split <;> rfl

end Node

/-- The tokens of a text that is read make up the text, and the nodes that are
names, literals, primitive types and modifiers are met in a walk as the tokens
that are one of these, in their order and each of them once. -/
theorem wordNodes_walk {source : String} {path : Option String}
    {cu : CompilationUnit} (h : cu.IsReadFrom source path) :
    TokenRun.textOf (Token.scan source).tokens ++
      (Token.scan source).tail = source ∧
      ((cu.walk.filter fun n => n.kind.isWord).map fun n =>
        (n.kind, n.bareText)) =
        Token.wordsAfter none (Token.scan source).tokens := by
  obtain ⟨-, hstop, -⟩ := unit_of_parseTree h.untyped
  refine ⟨Token.scan_text hstop, ?_⟩
  rw [← words_walk_of_isReadFrom h]
  exact (Node.words_eq fun n hn => Node.isProper_of_mem_walk (.unit cu) hn).symm

/-- Names that are no names on their own, a `static` that is no modifier and
others that are. -/
def sampleWorded : String :=
  "import static a.B.*;@C static class D\x7bint e=1;void f()\x7bthis.g(F.class,true);\x7d\x7d"

/-- All words of the sample are met. -/
theorem wordNodes_walk_sample :
    ∃ cu : CompilationUnit, cu.IsReadFrom sampleWorded none ∧
      ((cu.walk.filter fun n => n.kind.isWord).map fun n =>
        (n.kind, n.bareText)) =
        [(.identifier, "a"), (.identifier, "B"), (.identifier, "*"),
          (.identifier, "C"),
          (.modifier, "static"), (.identifier, "D"), (.primitive, "int"),
          (.identifier, "e"),
          (.literal, "1"), (.primitive, "void"), (.identifier, "f"),
          (.identifier, "this"),
          (.identifier, "g"), (.identifier, "F"), (.identifier, "class"),
          (.literal, "true")] := by
  have hok : (parseTree sampleWorded none).isOk = true := by decide +kernel
  obtain ⟨cu, hcu⟩ := exists_of_isOk hok
  have hread : cu.IsReadFrom sampleWorded none := .inl hcu
  refine ⟨cu, hread, (wordNodes_walk hread).2.trans ?_⟩
  decide +kernel

-- ================================================================= names

/-- Each word with a kind is that of a token. -/
theorem Token.exists_of_mem_wordsAfter {before : Option Word} {ts : List Token}
    {k : NodeKind} {text : String} (h : (k, text) ∈ wordsAfter before ts) :
    ∃ t ∈ ts, ∃ before', t.word.kindAfter? before' = some k ∧
    t.word.text = text := by
  induction ts generalizing before with
  | nil => cases h
  | cons t ts ih =>
      rw [wordsAfter, List.mem_append, Option.mem_toList,
        Option.map_eq_some_iff] at h
      rcases h with ⟨k', hk, heq⟩ | h
      · obtain ⟨rfl, htext⟩ := Prod.mk.inj heq
        exact ⟨t, List.mem_cons_self, before, hk, htext⟩
      · obtain ⟨u, hu, hword⟩ := ih h
        exact ⟨u, List.mem_cons_of_mem t hu, hword⟩

/-- No name and no keyword has a point in it. -/
theorem Word.IsWhole.not_mem_of_isIdentifier {w : Word} (h : w.IsWhole)
    (hw : w.isIdentifier = true) : '.' ∉ w.text.toList := by
  obtain ⟨c, cs, hc, hstart, hall, -⟩ := h.of_isIdentifier hw
  rw [hc, List.mem_cons, not_or]
  refine ⟨?_, fun hmem => absurd (hall '.' hmem) (by decide)⟩
  rintro rfl
  exact absurd hstart (by decide)

/-- What stands for a name has no point in it. -/
theorem Word.IsWhole.not_mem_of_kindAfter? {w : Word} (h : w.IsWhole)
    {before : Option Word} (hkind : w.kindAfter? before = some .identifier) :
    '.' ∉ w.text.toList := by
  cases w with
  | name s => exact h.not_mem_of_isIdentifier rfl
  | keyword s => exact h.not_mem_of_isIdentifier rfl
  | literal s => cases hkind
  | symbol s =>
      rw [kindAfter?] at hkind
      split at hkind
      next hstar =>
        rw [hstar.1]
        decide
      next => cases hkind

/-- A name of a single word is a node that is one. -/
theorem Node.word?_of_asName? {m : Node} {c : Name} (h : m.asName? = some c)
    (houter : c.outer? = none) : m.word? = some (.identifier, c.last) := by
  cases c with
  | qualified lead outer last type => cases houter
  | simple i type =>
      cases m with
      | name n =>
          obtain rfl := Option.some.inj h
          rfl
      | expr e =>
          cases e with
          | ident i' type' =>
              obtain ⟨rfl, -⟩ := Name.simple.inj (Option.some.inj h)
              rfl
          | access lead target last type' =>
              obtain ⟨outer, -, heq⟩ := Option.map_eq_some_iff.1 h
              cases heq
          | _ => cases h
      | _ => cases h

/-- A name in a file that was read has no point in it. -/
theorem not_mem_of_word? {source : String} {cp : ClassPath}
    {path : Option String} {cu : CompilationUnit}
    (h : parseUnit source cp path = .ok cu) {n : Node} (hn : n ∈ cu.walk)
    {text : String} (hword : n.word? = some (.identifier, text)) :
    '.' ∉ text.toList := by
  have hmem : (.identifier, text) ∈ words cu.walk :=
    List.mem_filterMap.2 ⟨n, hn, hword⟩
  rw [words_walk_of_isReadFrom (.inr ⟨cp, h⟩)] at hmem
  obtain ⟨t, ht, before, hkind, rfl⟩ := Token.exists_of_mem_wordsAfter hmem
  obtain ⟨⟨rest, hunit⟩, -, -⟩ := unit_of_parseTree (parseTree_of_parseUnit h)
  obtain ⟨-, hspells⟩ := Parser.unit_sound hunit
  have hseparated := Token.separated_scanChars (tidy_unit hspells).chain
  exact (hseparated.whole t ht).word.not_mem_of_kindAfter? hkind

end JavaRefit
