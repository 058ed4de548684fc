/-
Chains of names, and what can be put in their place.

Tokens that start and end with names or keywords can be put in the place
of others that do, whatever stands between (`Refits.of_isFramed`). A chain
of names starts and ends with names, so every chain whose words are names
can be written in the place of any other.

Chain: after `Rewrites`; renaming puts chains in the place of chains.
-/
import JavaRefit.Proofs.Grammar.Rewrites
import JavaRefit.Proofs.Text.Dotted
import JavaRefit.Proofs.Tree.Lead

namespace JavaRefit

open Spelling Token

-- ================================================================= frames

namespace Token

/-- The tokens start with a name or keyword after the trivia, and end with
one. -/
structure IsFramed (lead : Trivia) (us : List Token) : Prop where
  first : ∃ w, w.isIdentifier = true ∧ us.head? = some ⟨lead, w⟩
  last : ∃ t, t.word.isIdentifier = true ∧ us.getLast? = some t

variable {lead : Trivia} {us us' : List Token}

/-- One identifier is framed by itself. -/
theorem IsFramed.singleton {w : Word} (h : w.isIdentifier = true) :
    IsFramed lead [⟨lead, w⟩] :=
  ⟨⟨w, h, rfl⟩, ⟨_, h, rfl⟩⟩

/-- A separator and an identifier may follow. -/
theorem IsFramed.concat {t t' : Token} (h : IsFramed lead us)
    (ht : t'.word.isIdentifier = true) : IsFramed lead (us ++ [t, t']) := by
  obtain ⟨w, hw, hfirst⟩ := h.first
  refine ⟨⟨w, hw, ?_⟩, ⟨t', ht, ?_⟩⟩
  · rw [List.head?_append, hfirst]
    rfl
  · rw [List.getLast?_append]
    rfl

end Token

/-- Tokens between names can be put in the place of others between names. -/
theorem Refits.of_isFramed {lead : Trivia} {us us' : List Token}
    (h : IsFramed lead us) (h' : IsFramed lead us')
    (hs : Clean .between lead.toList → Separated us') : Refits us us' := by
  obtain ⟨w, hw, hfirst⟩ := h.first
  obtain ⟨w', hw', hfirst'⟩ := h'.first
  obtain ⟨t, ht, hlast⟩ := h.last
  obtain ⟨t', ht', hlast'⟩ := h'.last
  refine ⟨fun hus =>
    hs (hus.whole _ (List.mem_of_mem_head? hfirst)).lead, ?_, ?_⟩
  · rw [hfirst, hfirst']
    exact .some ⟨rfl, .inr ⟨hw, hw'⟩⟩
  · rw [hlast, hlast']
    exact .some (.inr ⟨ht, ht'⟩)

-- ================================================================= chains

/-- The tokens of a name open with its trivia and end with an identifier. -/
theorem isFramed_name {us : List Token} {n : Name} (h : SpellsName us n) :
    IsFramed n.lead us := by
  induction h with
  | simple i => exact .singleton rfl
  | dot dot i _ ih => exact ih.concat rfl

/-- The trivia in front of a chain belongs to its outermost name. -/
theorem spellsName_qualified {us : List Token} {lead : Trivia} {outer : Name}
    {last : LeftPadded Ident} :
    SpellsName us (.qualified lead outer last none) ↔
      outer.lead = "" ∧ ∃ vs, SpellsName vs (outer.withLead lead) ∧
        us = vs ++ [⟨last.before, .symbol "."⟩,
          ⟨last.element.lead, .name last.element.name⟩] := by
  constructor
  · intro h
    generalize hn : Name.qualified lead outer last none = n at h
    cases h with
    | simple i => cases hn
    | @dot vs n dot i hvs =>
        obtain ⟨rfl, rfl, rfl⟩ : lead = n.lead ∧ outer = n.withLead "" ∧
            last = ⟨dot, i⟩ := by
          simpa [Parser.extendName] using hn
        exact ⟨n.lead_withLead "", vs,
          by rwa [n.withLead_withLead, n.withLead_lead], rfl⟩
  · rintro ⟨hlead, vs, hvs, rfl⟩
    have hdot := SpellsName.dot last.before last.element hvs
    rwa [Parser.extendName, Name.lead_withLead, Name.withLead_withLead,
      Name.withLead_eq_self _ hlead] at hdot

/-- Chains are rewritten by rewriting their start. -/
theorem Spelling.Rewrites.qualified {lead : Trivia} {outer outer' : Name}
    (last : LeftPadded Ident) (hlead : outer'.lead = outer.lead)
    (h : SpellsName.Rewrites (outer.withLead lead) (outer'.withLead lead)) :
    SpellsName.Rewrites (.qualified lead outer last none)
      (.qualified lead outer' last none) := by
  intro us hus
  obtain ⟨hempty, vs, hvs, rfl⟩ := spellsName_qualified.1 hus
  obtain ⟨vs', hvs', href⟩ := h vs hvs
  exact ⟨_, spellsName_qualified.2 ⟨hlead.trans hempty, vs', hvs', rfl⟩,
    href.append (.refl _)⟩

-- =============================================================== writable

/-- The text is a name on its own and is not reserved. -/
def Token.isFreeName (s : String) : Bool :=
  match s.toList with
  | [] => false
  | c :: cs => isNameStart c && cs.all isNamePart && !reserved.contains s

/-- A free word is a whole token. -/
theorem isWhole_of_isFreeName {s : String} (h : isFreeName s = true) :
    (Word.name s).IsWhole := by
  rw [isFreeName] at h
  split at h
  · cases h
  · next c cs hs =>
    simp only [Bool.and_eq_true, Bool.not_eq_true', List.all_eq_true] at h
    obtain ⟨⟨hc, hcs⟩, hfree⟩ := h
    have hword : nameWord s = .name s := by
      rw [nameWord, hfree, if_neg Bool.false_ne_true]
    rw [Word.IsWhole, Word.text, hs, spanWord, if_pos hc,
      List.takeWhile_eq_self_iff.2 hcs, List.dropWhile_eq_nil_iff.2 hcs, ← hs,
      String.ofList_toList, hword]

/-- Every text before a dot or after one is a name that is not reserved, and
there is a dot. -/
def IsQualifiedName (fqn : String) : Prop :=
  2 ≤ (Text.segments fqn).length ∧ ∀ s ∈ Text.segments fqn, isFreeName s = true

instance (fqn : String) : Decidable (IsQualifiedName fqn) :=
  inferInstanceAs (Decidable (_ ∧ _))

/-- Whatever trivia is in front, separated tokens spell the name. -/
def Name.IsWritable (n : Name) : Prop :=
  ∀ lead : Trivia, ∃ us, SpellsName us (n.withLead lead) ∧
    (Clean .between lead.toList → Separated us)

/-- A name that can be written can be put in the place of every name. -/
theorem Name.IsWritable.rewrites {m : Name} (h : m.IsWritable) (n : Name) :
    SpellsName.Rewrites n (m.withLead n.lead) := by
  intro us hus
  obtain ⟨us', hus', hs⟩ := h n.lead
  have hframed := isFramed_name hus'
  rw [Name.lead_withLead] at hframed
  exact ⟨us', hus', .of_isFramed (isFramed_name hus) hframed hs⟩

/-- One token is apart from all others. -/
theorem separated_singleton {t : Token} (h : t.IsWhole) : Separated [t] :=
  ⟨by simpa using h, .singleton t⟩

/-- A free word may be written as a name. -/
theorem Name.isWritable_simple {s lead : String} (h : isFreeName s = true) :
    (Name.simple ⟨lead, s⟩ none).IsWritable := fun lead =>
  ⟨_, .simple ⟨lead, s⟩, fun hlead =>
    separated_singleton ⟨hlead, isWhole_of_isFreeName h⟩⟩

/-- A dot and a name may come after a name. -/
theorem separated_concat_dot {us : List Token} {s : String} (hus : Separated us)
    (hlast : ∃ t, t.word.isIdentifier = true ∧ us.getLast? = some t)
    (h : isFreeName s = true) :
    Separated (us ++ [⟨"", .symbol "."⟩, ⟨"", .name s⟩]) := by
  have hdot : (Word.symbol ".").IsWhole :=
    spanWord_single (c := '.') (by decide) []
  have hname := isWhole_of_isFreeName h
  obtain ⟨t, ht, hlast⟩ := hlast
  refine separated_append.2 ⟨hus, ⟨?_, ?_⟩, fun t' ht' u hu => ?_⟩
  · simpa using ⟨⟨.nil, hdot⟩, ⟨.nil, hname⟩⟩
  · refine .cons_cons ⟨fun c hc => ?_, meets_dot "" rfl⟩ (.singleton _)
    obtain ⟨d, ds, hd, hstart, -⟩ := hname.of_isIdentifier rfl
    obtain rfl : d = c := by simpa [Token.text, hd] using hc
    exact hdot.endsBefore_of_isSymbol rfl hstart
  · obtain rfl : t = t' := Option.some.inj (hlast.symm.trans ht')
    obtain rfl : (⟨"", .symbol "."⟩ : Token) = u := Option.some.inj hu
    refine ⟨fun c hc => ?_,
      meets_of_isClosed (Word.isClosed_of_isIdentifier ht) _⟩
    obtain rfl : '.' = c := by simpa [Token.text, Word.text] using hc
    rw [(hus.whole t (List.mem_of_getLast? hlast)).word.endsBefore_iff ht]
    decide

/-- A chain goes on with a word that is a name. -/
theorem Name.IsWritable.qualified {n : Name} {s : String} (h : n.IsWritable)
    (hlead : n.lead = "") (hs : isFreeName s = true) :
    (Name.qualified "" n ⟨"", ⟨"", s⟩⟩ none).IsWritable := by
  intro lead
  obtain ⟨us, hus, hsep⟩ := h lead
  exact ⟨_, spellsName_qualified.2 ⟨hlead, us, hus, rfl⟩, fun hclean =>
    separated_concat_dot (hsep hclean) (isFramed_name hus).last hs⟩

/-- Free words may be added to a name that may be written. -/
theorem Name.isWritable_foldl {rest : List String}
    (hrest : ∀ s ∈ rest, isFreeName s = true) {n : Name} (h : n.IsWritable)
    (hlead : n.lead = "") :
    (rest.foldl (fun outer word =>
      Name.qualified "" outer ⟨"", ⟨"", word⟩⟩ none) n).IsWritable := by
  induction rest generalizing n with
  | nil => exact h
  | cons s rest ih =>
      obtain ⟨hs, hrest⟩ := List.forall_mem_cons.1 hrest
      exact ih hrest (h.qualified hlead hs) rfl

/-- The chain of a qualified name can be written. -/
theorem IsQualifiedName.isWritable {fqn : String} (h : IsQualifiedName fqn) :
    (Name.ofDotted fqn).IsWritable := by
  obtain ⟨-, hall⟩ := h
  rw [Name.ofDotted]
  cases hsegments : Text.segments fqn with
  | nil =>
      have hmem := Text.simpleName_mem_segments fqn
      rw [hsegments] at hmem
      cases hmem
  | cons first rest =>
      rw [hsegments] at hall
      obtain ⟨hfirst, hrest⟩ := List.forall_mem_cons.1 hall
      exact Name.isWritable_foldl hrest (Name.isWritable_simple hfirst) rfl

/-- So can its last word. -/
theorem IsQualifiedName.isWritable_simpleName {fqn : String}
    (h : IsQualifiedName fqn) (lead : Trivia) :
    (Name.simple ⟨lead, Text.simpleName fqn⟩ none).IsWritable :=
  Name.isWritable_simple (h.2 _ (Text.simpleName_mem_segments fqn))

end JavaRefit
