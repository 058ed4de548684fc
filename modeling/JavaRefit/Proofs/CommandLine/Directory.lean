/-
What writing does to a directory.

A file that is there is changed: the names in the directory stay, and so
does where every path leads. All paths that lead to the file find it
changed from then on, all others what they found before.

On a disk a text is written to a file or not, which depends on the text
and on the faults of the file, and never on what the file held. So writing
the same once more comes to the same, and many texts are written one after
the other just if each of them could be written first (`writeAll_eq_none`).
Where one could not, the first such ends it (`writeAll_eq_some`).

Chain: after `Files`; read by the proofs about whole commands.
-/
import JavaRefit.CommandLine.Files

namespace JavaRefit.CommandLine

namespace Directory

variable {α : Type} {d d' : Directory α} {path other : String} {f : α → α}

-- ============================================================== the names

/-- A file is found at steps iff a name has those steps. -/
theorem isSome_at? (d : Directory α) (steps : List (List Char)) :
    (d.at? steps).isSome =
      (d.map Prod.fst).any fun name => Path.steps name.toList == steps := by
  rw [Bool.eq_iff_iff, at?, Option.isSome_map, List.find?_isSome, List.any_map,
    List.any_eq_true]
  rfl

/-- Steps lead on iff they begin a name. -/
theorem leadsOn_eq (d : Directory α) (steps : List (List Char)) :
    d.leadsOn steps = (steps.isEmpty || (d.map Prod.fst).any fun name =>
      steps.isPrefixOf (Path.steps name.toList)) := by
  rw [leadsOn, List.any_map]
  rfl

/-- Where a path leads depends on the names in the directory only. -/
theorem follow_congr {β : Type} {e : Directory β}
    (h : d.map Prod.fst = e.map Prod.fst) : d.follow = e.follow := by
  have hstep : d.step = e.step := by
    funext place name
    unfold step
    simp only [isSome_at?, leadsOn_eq, h]
  funext path
  rw [follow, follow, hstep]

/-- Changing a file leaves the names. -/
theorem names_change (d : Directory α) (path : String) (f : α → α) :
    (d.change path f).map Prod.fst = d.map Prod.fst := by
  unfold change
  split
  · rw [List.map_map]
    refine List.map_congr_left fun e _ => ?_
    rw [Function.comp_apply]
    split <;> rfl
  · rfl

@[simp] theorem follow_change (d : Directory α) (path : String) (f : α → α) :
    (d.change path f).follow = d.follow :=
  follow_congr (d.names_change path f)

-- ============================================================== the files

/-- What is found at a place. -/
theorem get_of_follow {steps : List (List Char)}
    (h : d.follow path = .ok (.inside steps)) :
    d.get path = match d.at? steps with
      | some file => .ok file
      | none => .error .isDirectory := by
  unfold get
  rw [h]
  rfl

/-- A file is got iff its path can be followed to it. -/
theorem get_eq_ok_iff {file : α} :
    d.get path = .ok file ↔ ∃ steps,
      d.follow path = .ok (.inside steps) ∧ d.at? steps = some file := by
  constructor
  · intro h
    cases hplace : d.follow path with
    | error e =>
        rw [get, hplace] at h
        cases h
    | ok place => cases place with
      | above =>
          rw [get, hplace] at h
          cases h
      | inside steps =>
          rw [get_of_follow hplace] at h
          cases hfile : d.at? steps with
          | none =>
              rw [hfile] at h
              cases h
          | some file' =>
              rw [hfile] at h
              cases h
              exact ⟨steps, rfl, hfile⟩
  · rintro ⟨steps, hplace, hfile⟩
    rw [get_of_follow hplace, hfile]

/-- Paths that lead to the same place find the same there, if the same file
is there. -/
theorem get_congr (hfollow : d.follow path = d'.follow other)
    (hfile : ∀ steps, d.follow path = .ok (.inside steps) →
      d.at? steps = d'.at? steps) : d.get path = d'.get other := by
  cases hplace : d.follow path with
  | error e =>
      rw [get, get, ← hfollow, hplace]
      rfl
  | ok place => cases place with
    | above =>
        rw [get, get, ← hfollow, hplace]
        rfl
    | inside steps =>
        rw [get_of_follow hplace, get_of_follow (hfollow ▸ hplace),
          hfile steps hplace]

/-- Paths that are followed to one place get one file. -/
theorem get_eq_of_follow (h : d.follow path = d.follow other) :
    d.get path = d.get other :=
  get_congr h fun _ _ => rfl

/-- What is found in a directory of which every file is seen in another
way. -/
theorem get_map {β : Type} (g : α → β) (d : Directory α) (path : String) :
    get (d.map fun e => (e.1, g e.2)) path = g <$> d.get path := by
  have hfollow : follow (d.map fun e => (e.1, g e.2)) = d.follow := by
    apply follow_congr
    rw [List.map_map]
    rfl
  have hat (steps : List (List Char)) :
      at? (d.map fun e => (e.1, g e.2)) steps = (d.at? steps).map g := by
    unfold at?
    rw [List.find?_map, Option.map_map, Option.map_map]
    rfl
  unfold get
  rw [hfollow]
  cases d.follow path with
  | error e => rfl
  | ok place => cases place with
    | above => rfl
    | inside steps =>
        dsimp only [bind, Except.bind]
        rw [hat]
        cases d.at? steps <;> rfl

/-- The file at a place, after the entries of the directory were changed. -/
theorem at?_map {change : String × α → String × α}
    (hname : ∀ e, (change e).1 = e.1) (d : Directory α)
    (steps : List (List Char)) :
    at? (d.map change) steps =
      (d.find? fun e => Path.steps e.1.toList == steps).map
        fun e => (change e).2 := by
  rw [at?, List.find?_map, Option.map_map]
  simp only [Function.comp_def, hname]

/-- Changing a file changes it alone. -/
theorem at?_change {there : List (List Char)}
    (h : d.follow path = .ok (.inside there)) (steps : List (List Char)) :
    (d.change path f).at? steps =
      if steps = there then (d.at? steps).map f else d.at? steps := by
  rw [change, h]
  dsimp only
  rw [at?_map (fun e => by split <;> rfl), at?]
  cases hfound : d.find? fun e => Path.steps e.1.toList == steps with
  | none => split <;> rfl
  | some e =>
      have he : Path.steps e.1.toList = steps := by
        simpa using List.find?_some hfound
      rw [Option.map_some, Option.map_some, he]
      split <;> rfl

/-- A path that leads elsewhere finds what it found before. -/
theorem get_change_of_ne (h : d.follow other ≠ d.follow path) :
    (d.change path f).get other = d.get other := by
  refine get_congr (by rw [follow_change]) fun steps hsteps => ?_
  rw [follow_change] at hsteps
  cases hplace : d.follow path with
  | error e => rw [change, hplace]
  | ok place => cases place with
    | above => rw [change, hplace]
    | inside there =>
        rw [at?_change hplace, if_neg]
        intro heq
        exact h (hsteps.trans (heq ▸ hplace.symm))

/-- A path that leads to the file finds it changed. -/
theorem get_change_of_eq {file : α} (hfile : d.get path = .ok file)
    (h : d.follow other = d.follow path) :
    (d.change path f).get other = .ok (f file) := by
  obtain ⟨steps, hplace, hat⟩ := get_eq_ok_iff.1 hfile
  refine get_eq_ok_iff.2 ⟨steps, by rw [follow_change, h, hplace], ?_⟩
  rw [at?_change hplace, if_pos rfl, hat, Option.map_some]

end Directory

-- ================================================================ one file

namespace Stored

variable {s : Stored} {text : String}

/-- What a file holds plays no part in whether it takes a text. -/
theorem write_content (s : Stored) (content : Content) (text : String) :
    ({ s with content := content }.write text).2 = (s.write text).2 := by
  unfold write
  cases s.fault with
  | none => split <;> rfl
  | some fault => cases fault with
    | refused => rfl
    | broken => split <;> rfl

/-- A text that is written is what the file holds. -/
theorem write_of_none (h : (s.write text).2 = none) :
    (s.write text).1 = { s with content := .text text } := by
  unfold write at h ⊢
  cases hfault : s.fault with
  | none =>
      rw [hfault] at h
      dsimp only at h ⊢
      split at h
      next hcode => rw [if_pos hcode]
      next => cases h
  | some fault =>
      rw [hfault] at h
      cases fault with
      | refused => cases h
      | broken =>
          dsimp only at h
          split at h <;> cases h

end Stored

-- =============================================================== the disk

namespace Disk

variable {d : Disk} {path other text : String} {s : Stored}

/-- Writing changes the file a path is followed to. -/
theorem write_of_get (h : d.get path = .ok s) (text : String) :
    d.write path text =
      (d.change path fun s => (s.write text).1, (s.write text).2) := by
  rw [write, h]

/-- Writing leaves the names, so paths are followed as before. -/
theorem follow_write (d : Disk) (path text : String) :
    (d.write path text).1.follow = d.follow := by
  unfold write
  cases d.get path with
  | error e => rfl
  | ok s =>
      dsimp only
      exact d.follow_change path _

/-- Other files stay as they are. -/
theorem get_write_of_ne (h : d.follow other ≠ d.follow path) (text : String) :
    (d.write path text).1.get other = d.get other := by
  unfold write
  cases d.get path with
  | error e => rfl
  | ok s =>
      dsimp only
      exact Directory.get_change_of_ne h

/-- The file written is read by every path that is followed to it. -/
theorem get_write_of_eq (hget : d.get path = .ok s)
    (h : d.follow other = d.follow path) (text : String) :
    (d.write path text).1.get other = .ok (s.write text).1 := by
  rw [write_of_get hget]
  dsimp only
  rw [Directory.get_change_of_eq hget h]

/-- Whether a text can be written does not depend on what was written before
it. -/
theorem error_write_write (hget : d.get path = .ok s) {at' text' : String}
    (h : d.follow path = d.follow at' → (s.write text').2 = none) :
    ((d.write at' text').1.write path text).2 = (d.write path text).2 := by
  rw [write_of_get hget]
  by_cases hplace : d.follow path = d.follow at'
  · have hthere : d.get at' = .ok s := by
      rw [← Directory.get_eq_of_follow hplace, hget]
    have hnow := get_write_of_eq hthere hplace text'
    rw [write_of_get hnow, Stored.write_of_none (h hplace)]
    exact s.write_content _ text
  · have hnow := (get_write_of_ne hplace text').trans hget
    rw [write_of_get hnow]

-- ============================================================ many writes

variable {writes : List (String × String)}

/-- Each of the texts is for a file that is there, and where two paths lead
to one file they are the same. -/
structure Agrees (d : Disk) (writes : List (String × String)) : Prop where
  there : ∀ w ∈ writes, ∃ s, d.get w.1 = .ok s
  same : ∀ w ∈ writes, ∀ v ∈ writes, d.follow w.1 = d.follow v.1 → w.2 = v.2

/-- Each of the texts could be written first. -/
def Takes (d : Disk) (writes : List (String × String)) : Prop :=
  ∀ w ∈ writes, (d.write w.1 w.2).2 = none

/-- After the first of them was written, the others still agree, and each
of them could be written next just if it could be before. -/
theorem Agrees.tail {w : String × String} (h : d.Agrees (w :: writes))
    (hw : (d.write w.1 w.2).2 = none) :
    (d.write w.1 w.2).1.Agrees writes ∧ ∀ v ∈ writes,
      ((d.write w.1 w.2).1.write v.1 v.2).2 = (d.write v.1 v.2).2 := by
  obtain ⟨s, hs⟩ := h.there w List.mem_cons_self
  refine ⟨⟨fun v hv => ?_, fun v hv u hu hplace => ?_⟩, fun v hv => ?_⟩
  · obtain ⟨t, ht⟩ := h.there v (List.mem_cons_of_mem w hv)
    by_cases hplace : d.follow v.1 = d.follow w.1
    · exact ⟨_, get_write_of_eq hs hplace w.2⟩
    · exact ⟨t, (get_write_of_ne hplace w.2).trans ht⟩
  · rw [follow_write] at hplace
    exact h.same v (List.mem_cons_of_mem w hv) u (List.mem_cons_of_mem w hu)
      hplace
  · obtain ⟨t, ht⟩ := h.there v (List.mem_cons_of_mem w hv)
    apply error_write_write ht
    intro hplace
    rw [Directory.get_eq_of_follow hplace, hs] at ht
    cases ht
    rwa [write_of_get hs] at hw

/-- After a write that succeeds the next is made. -/
theorem writeAll_cons_of_none {w : String × String}
    (h : (d.write w.1 w.2).2 = none) :
    d.writeAll (w :: writes) = (d.write w.1 w.2).1.writeAll writes := by
  rw [writeAll]
  rcases hw : d.write w.1 w.2 with ⟨d', none | e⟩
  · rfl
  · rw [hw] at h
    cases h

end Disk

-- ================================================= a folder kept on a disk

namespace Folder

variable {f : Folder} {path text : String}

/-- A file that is there and is written holds what was written. -/
theorem files_write {old : String} (hold : f.files path = .ok old) :
    (f.write path text).files path = .ok text := by
  unfold files at hold ⊢
  unfold write
  rw [Directory.get_change_of_eq hold rfl]

theorem files_disk (f : Folder) : f.disk.files = f.files := by
  funext path
  unfold Disk.files disk
  rw [Directory.get_map Stored.plain]
  unfold files
  cases Directory.get f path <;> rfl

/-- A text is written to a file on the disk as it is in the folder. -/
theorem write_disk {old : String} (hold : f.files path = .ok old)
    (hcode : Text.isEncodable text = true) :
    f.disk.write path text = ((f.write path text).disk, none) := by
  have hget : Directory.get f.disk path = .ok (.plain old) := by
    unfold disk
    unfold files at hold
    rw [Directory.get_map Stored.plain, hold]
    rfl
  have htake (s : String) :
      (Stored.plain s).write text = (.plain text, none) :=
    if_pos hcode
  have hfollow : Directory.follow f.disk = Directory.follow f := by
    apply Directory.follow_congr
    unfold disk
    rw [List.map_map]
    rfl
  rw [Disk.write_of_get hget, htake]
  refine Prod.ext ?_ rfl
  dsimp only [write, Directory.change]
  rw [hfollow]
  split
  · unfold disk
    rw [List.map_map, List.map_map]
    apply List.map_congr_left
    intro e _
    dsimp only [Function.comp_apply]
    split
    · rw [htake]
    · rfl
  · rfl

/-- Many texts are too, if all of them have a code. -/
theorem writeAll_disk {writes : List (String × String)}
    (hthere : ∀ w ∈ writes, ∃ old, f.files w.1 = .ok old)
    (hcode : ∀ w ∈ writes, Text.isEncodable w.2 = true) :
    f.disk.writeAll writes = ((f.writeAll writes).disk, none) := by
  induction writes generalizing f with
  | nil => rfl
  | cons w writes ih =>
      obtain ⟨⟨old, hold⟩, hthere⟩ := List.forall_mem_cons.1 hthere
      obtain ⟨hw, hcode⟩ := List.forall_mem_cons.1 hcode
      have hwrite := write_disk hold hw
      rw [Disk.writeAll_cons_of_none (by rw [hwrite]), hwrite]
      refine ih (fun v hv => ?_) hcode
      obtain ⟨earlier, hv⟩ := hthere v hv
      by_cases hplace : Directory.follow f v.1 = Directory.follow f w.1
      · exact ⟨_, Directory.get_change_of_eq hold hplace⟩
      · exact ⟨earlier, (Directory.get_change_of_ne hplace).trans hv⟩

end Folder

end JavaRefit.CommandLine
