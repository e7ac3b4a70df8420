import DotGraph.Batch
import Mathlib.Tactic.Common

/-!
# Files that are read and written

A path leads to a place, and reading and writing are told by the place alone. A write changes the
content of one place and leaves all directories as they are, so every path leads where it led.
-/

namespace DotGraph

namespace FileTree

lemma find?_put (tree : FileTree) (place : Place) (new : Octets) (p : Place) :
    (tree.put place (.file new)).find? p =
      if p = place then some (.file new) else tree.find? p := by
  by_cases hp : p = place
  · rw [if_pos hp, hp]
    exact Keyed.find?_put_self place _ tree.entries
  · rw [if_neg hp]
    exact Keyed.find?_put_of_ne (Ne.symm hp) _ tree.entries

lemma isDirectory_put {tree : FileTree} {place : Place} (h : tree.find? place ≠ some .directory)
    (new : Octets) (p : Place) :
    (tree.put place (.file new)).isDirectory p = tree.isDirectory p := by
  rw [isDirectory, isDirectory, find?_put]
  by_cases hp : p = place
  · subst hp
    rw [if_pos rfl, beq_eq_false_iff_ne.2 h]
    rfl
  · rw [if_neg hp]

lemma find?_ne_directory {tree : FileTree} {place : Place} (h : tree.isDirectory place = false) :
    tree.find? place ≠ some .directory := by
  intro hfind
  simp [isDirectory, hfind] at h

/-! ### Places that hold a file -/

section Overwritten

variable {tree : FileTree} {place : Place} {old : Octets}
  (h : tree.find? place = some (.file old)) (new : Octets)
include h

lemma step_put (p : Place) (segment : String) :
    (tree.put place (.file new)).step p segment = tree.step p segment := by
  have hsome : ((tree.put place (.file new)).find? p).isSome = (tree.find? p).isSome := by
    rw [find?_put]
    by_cases hp : p = place
    · subst hp
      rw [if_pos rfl, h]
      rfl
    · rw [if_neg hp]
  rw [step, step, isDirectory_put (by simp [h]), hsome]

lemma locate_put (path : String) :
    (tree.put place (.file new)).locate path = tree.locate path := by
  have hstep : (tree.put place (.file new)).step = tree.step := by
    funext p segment
    exact step_put h new p segment
  rw [locate, locate, hstep]

end Overwritten

/-! ### Places where a file may be created -/

section Created

variable {tree : FileTree} {place : Place} (h : tree.isDirectory place = false) (new : Octets)
include h

lemma step_put_of_ok {p q : Place} {segment : String} (hstep : tree.step p segment = .ok q) :
    (tree.put place (.file new)).step p segment = .ok q := by
  unfold step at hstep ⊢
  rw [isDirectory_put (find?_ne_directory h)]
  split
  · rename_i hdir
    rwa [if_pos hdir] at hstep
  · rename_i hdir
    rw [if_neg hdir] at hstep
    split at hstep <;> cases hstep

lemma foldlM_step_put_of_ok {p q : Place} {segments : List String}
    (hwalk : segments.foldlM tree.step p = .ok q) :
    segments.foldlM (tree.put place (.file new)).step p = .ok q := by
  induction segments generalizing p with
  | nil => exact hwalk
  | cons segment segments ih =>
    rw [List.foldlM_cons] at hwalk ⊢
    obtain ⟨r, hr, hwalk⟩ := Parser.bind_eq_ok.1 hwalk
    exact Parser.bind_eq_ok.2 ⟨r, step_put_of_ok h new hr, ih hwalk⟩

lemma locate_put_of_ok {path : String} {p : Place} (hpath : tree.locate path = .ok p) :
    (tree.put place (.file new)).locate path = .ok p := by
  obtain ⟨q, hq, hwalk⟩ := Parser.bind_eq_ok.1 hpath
  exact Parser.bind_eq_ok.2 ⟨q, hq, foldlM_step_put_of_ok h new hwalk⟩

end Created

/-! ### Reading and writing -/

/-- The path leads to the place, as a path to a file does: the place is no directory and the path
does not end in a slash. -/
def LeadsTo (tree : FileTree) (path : String) (place : Place) : Prop :=
  tree.locate path = .ok place ∧ tree.isDirectory place = false ∧
    Path.hasTrailingSlash path = false

lemma read_eq_ok_iff {tree : FileTree} {path : String} {content : Octets} :
    tree.read path = .ok content ↔
      ∃ place, tree.LeadsTo path place ∧ tree.find? place = some (.file content) := by
  unfold read LeadsTo
  constructor
  · intro h
    obtain ⟨place, hplace, h⟩ := Parser.bind_eq_ok.1 h
    split at h
    · cases h
    · rename_i hdir
      split at h
      · rename_i hfind
        split at h
        · cases h
        · rename_i hslash
          cases h
          exact ⟨place, ⟨hplace, by simpa using hdir, by simpa using hslash⟩, hfind⟩
      · cases h
  · rintro ⟨place, ⟨hplace, hdir, hslash⟩, hfind⟩
    simp [hplace, hdir, hslash, hfind, bind, Except.bind]

/-- A path that ends in a slash leads to a directory, where no file can be created. -/
lemma isDirectory_of_locateNew {tree : FileTree} {path : String} {place : Place}
    (hslash : Path.hasTrailingSlash path = true) (h : tree.locateNew path = .ok place) :
    tree.isDirectory place = true := by
  simp only [locateNew, hslash, if_true] at h
  obtain ⟨start, -, h⟩ := Parser.bind_eq_ok.1 h
  rw [List.foldlM_append] at h
  obtain ⟨above, -, h⟩ := Parser.bind_eq_ok.1 h
  obtain ⟨place', hstep, h⟩ := Parser.bind_eq_ok.1 h
  cases h
  unfold step at hstep
  split at hstep
  · rename_i hdir
    rw [if_pos rfl, Except.ok.injEq] at hstep
    rwa [← hstep]
  · split at hstep <;> cases hstep

lemma locateNew_eq_locate {tree : FileTree} {path : String}
    (hslash : Path.hasTrailingSlash path = false) : tree.locateNew path = tree.locate path := by
  rw [locateNew, hslash]
  rfl

lemma write_eq_ok_iff {tree tree' : FileTree} {path : String} {new : Octets} :
    tree.write path new = .ok tree' ↔
      ∃ place, tree.LeadsTo path place ∧ tree' = tree.put place (.file new) := by
  unfold write LeadsTo
  constructor
  · intro h
    obtain ⟨place, hplace, h⟩ := Parser.bind_eq_ok.1 h
    split at h
    · cases h
    · rename_i hdir
      have hslash : Path.hasTrailingSlash path = false := by
        by_contra hslash
        exact hdir (isDirectory_of_locateNew (by simpa using hslash) hplace)
      cases h
      exact ⟨place, ⟨locateNew_eq_locate hslash ▸ hplace, by simpa using hdir, hslash⟩, rfl⟩
  · rintro ⟨place, ⟨hplace, hdir, hslash⟩, rfl⟩
    rw [locateNew_eq_locate hslash]
    simp [hplace, hdir, bind, Except.bind]

lemma LeadsTo.put {tree : FileTree} {path : String} {place : Place}
    (h : tree.LeadsTo path place) (new : Octets) :
    (tree.put place (.file new)).LeadsTo path place := by
  obtain ⟨hplace, hdir, hslash⟩ := h
  refine ⟨locate_put_of_ok hdir new hplace, ?_, hslash⟩
  rwa [isDirectory_put (find?_ne_directory hdir)]

/-- A file that is written is read as what was written. -/
theorem read_write {tree tree' : FileTree} {path : String} {new : Octets}
    (h : tree.write path new = .ok tree') : tree'.read path = .ok new := by
  obtain ⟨place, hplace, rfl⟩ := write_eq_ok_iff.1 h
  exact read_eq_ok_iff.2 ⟨place, hplace.put new, by rw [find?_put, if_pos rfl]⟩

lemma find?_write {tree tree' : FileTree} {path : String} {new : Octets}
    (h : tree.write path new = .ok tree') {place : Place} (hne : tree'.locate path ≠ .ok place) :
    tree'.find? place = tree.find? place := by
  obtain ⟨p, hp, rfl⟩ := write_eq_ok_iff.1 h
  rw [find?_put, if_neg]
  rintro rfl
  exact hne (hp.put new).1

end FileTree

/-! ### Tasks by stages -/

namespace Batch

lemma parseFile_eq_ok_iff {reader : Reader} {tree : FileTree} {path : String} {gs : List Graph} :
    parseFile reader tree path = .ok gs ↔ ∃ octets parsed, tree.read path = .ok octets ∧
      reader.parseContent octets = .ok parsed ∧ parsed.toList = gs := by
  unfold parseFile Failure.within
  cases hread : tree.read path with
  | error fault => simp [Except.mapError, bind, Except.bind]
  | ok octets =>
    cases hparse : reader.parseContent octets with
    | error e => simp [Except.mapError, bind, Except.bind, hparse]
    | ok parsed =>
      simp [Except.mapError, bind, Except.bind, hparse, pure, Except.pure]

lemma canonical_eq_ok_iff {reader : Reader} {printer : Printer} {tree : FileTree} {path : String}
    {content : Octets} : canonical reader printer tree path = .ok content ↔
      ∃ gs, parseFile reader tree path = .ok gs ∧ encodeAll printer gs = .ok content := by
  unfold canonical Failure.within
  cases hparse : parseFile reader tree path with
  | error f => simp [bind, Except.bind]
  | ok gs =>
    cases hencode : encodeAll printer gs with
    | error e => simp [bind, Except.bind, Except.mapError, hencode]
    | ok octets => simp [bind, Except.bind, Except.mapError, hencode]

lemma formatFile_eq_ok_iff {reader : Reader} {printer : Printer} {tree tree' : FileTree}
    {path : String} {content : Octets} :
    formatFile reader printer true tree path = (.ok content, tree') ↔
      canonical reader printer tree path = .ok content ∧ tree.write path content = .ok tree' := by
  unfold formatFile
  cases canonical reader printer tree path with
  | error f => simp
  | ok octets =>
    cases hwrite : tree.write path octets with
    | error fault =>
      simp only [if_true, hwrite, Prod.mk.injEq, reduceCtorEq, false_and, false_iff, not_and,
        Except.ok.injEq]
      rintro rfl
      simp [hwrite]
    | ok t =>
      simp only [if_true, hwrite, Prod.mk.injEq, Except.ok.injEq]
      apply and_congr_right
      rintro rfl
      rw [hwrite, Except.ok.injEq]

/-- What becomes of a file depends on what is read from it alone. -/
lemma canonical_congr {reader : Reader} {printer : Printer} {tree tree' : FileTree}
    {path : String} (h : tree'.read path = tree.read path) :
    canonical reader printer tree' path = canonical reader printer tree path := by
  unfold canonical parseFile
  rw [h]

end Batch

end DotGraph
