import DotGraph.Proofs.AttributeMerge
import DotGraph.Proofs.WrittenFile
import Mathlib.Data.List.Nodup

/-!
# Replaced files

Replacing the content of a file changes what is read from that file and from no other one, so
different files may be replaced in any order. Two paths name the same file when they lead to the
same place.
-/

namespace DotGraph

namespace FileTree

def HoldsFile (tree : FileTree) (place : Place) : Prop :=
  ∃ content, tree.find? place = some (.file content)

/-- The place of the file that a path names, if it names one. -/
def place? (tree : FileTree) (path : String) : Option Place :=
  if tree.isFile path then (tree.locate path).toOption else none

lemma place?_eq_some_iff {tree : FileTree} {path : String} {place : Place} :
    tree.place? path = some place ↔ tree.LeadsTo path place ∧ tree.HoldsFile place := by
  unfold place? isFile
  cases hread : tree.read path with
  | error fault =>
    simp only [Except.isOk, Except.toBool, Bool.false_eq_true, if_false, reduceCtorEq, false_iff]
    rintro ⟨hpath, content, hfind⟩
    rw [read_eq_ok_iff.2 ⟨place, hpath, hfind⟩] at hread
    cases hread
  | ok content =>
    obtain ⟨p, hpath, hfind⟩ := read_eq_ok_iff.1 hread
    simp only [Except.isOk, Except.toBool, if_true, hpath.1, Except.toOption, Option.some.injEq]
    constructor
    · rintro rfl
      exact ⟨hpath, content, hfind⟩
    · rintro ⟨hpath', -⟩
      have hsame := hpath.1.symm.trans hpath'.1
      simpa using hsame

lemma place?_of_read {tree : FileTree} {path : String} {content : Octets}
    (h : tree.read path = .ok content) : ∃ place, tree.place? path = some place := by
  obtain ⟨place, hpath, hfind⟩ := read_eq_ok_iff.1 h
  exact ⟨place, place?_eq_some_iff.2 ⟨hpath, content, hfind⟩⟩

lemma write_of_place? {tree : FileTree} {path : String} {place : Place}
    (h : tree.place? path = some place) (new : Octets) :
    tree.write path new = .ok (tree.put place (.file new)) :=
  write_eq_ok_iff.2 ⟨place, (place?_eq_some_iff.1 h).1, rfl⟩

/-- Of paths that name different files, no other one leads to the file of a path. -/
lemma place?_ne_of_perm {tree : FileTree} {paths others : List String} {path other : String}
    (hfiles : (paths.filterMap tree.place?).Nodup) (hperm : paths.Perm (path :: others))
    (hother : other ∈ others) {place : Place} (hplace : tree.place? other = some place) :
    tree.place? path ≠ some place := by
  intro hpath
  have hplaces := (hperm.filterMap tree.place?).nodup_iff.1 hfiles
  rw [List.filterMap_cons_some hpath] at hplaces
  exact (List.nodup_cons.1 hplaces).1 (List.mem_filterMap.2 ⟨other, hother, hplace⟩)

section Put

variable {tree : FileTree} {place : Place} (h : tree.HoldsFile place) (new : Octets)
include h

lemma holdsFile_put {p : Place} :
    (tree.put place (.file new)).HoldsFile p ↔ tree.HoldsFile p := by
  unfold HoldsFile
  rw [find?_put]
  by_cases hp : p = place
  · subst hp
    exact iff_of_true ⟨new, if_pos rfl⟩ h
  · rw [if_neg hp]

lemma leadsTo_put {path : String} {p : Place} :
    (tree.put place (.file new)).LeadsTo path p ↔ tree.LeadsTo path p := by
  obtain ⟨old, hold⟩ := h
  rw [LeadsTo, LeadsTo, locate_put hold, isDirectory_put (by simp [hold])]

lemma place?_put (path : String) :
    (tree.put place (.file new)).place? path = tree.place? path := by
  apply Option.ext
  intro p
  rw [place?_eq_some_iff, place?_eq_some_iff, leadsTo_put h, holdsFile_put h]

lemma read_put_of_ne {path : String} (hne : tree.place? path ≠ some place) :
    (tree.put place (.file new)).read path = tree.read path := by
  obtain ⟨old, hold⟩ := h
  rw [read, read, locate_put hold]
  cases hpath : tree.locate path with
  | error fault => rfl
  | ok p =>
    simp only [bind, Except.bind]
    rw [isDirectory_put (by simp [hold]), find?_put]
    by_cases hp : p = place
    · subst hp
      rw [if_pos rfl, hold]
      -- the path leads to the place and names no file there, so it is refused before it is read
      by_cases hdir : tree.isDirectory p = true
      · rw [if_pos hdir, if_pos hdir]
      · have hslash : Path.hasTrailingSlash path = true := by
          by_contra hslash
          exact hne (place?_eq_some_iff.2
            ⟨⟨hpath, by simpa using hdir, by simpa using hslash⟩, old, hold⟩)
        simp only [hdir, hslash, if_true]
    · rw [if_neg hp]

lemma put_comm {place' : Place} (hne : place ≠ place') (new' : Octets) :
    (tree.put place (.file new)).put place' (.file new') =
      (tree.put place' (.file new')).put place (.file new) := by
  have hkey : place ∈ Keyed.keys tree.entries := by
    obtain ⟨old, hold⟩ := h
    by_contra hkey
    rw [find?, Keyed.find?_eq_none_iff.2 hkey] at hold
    cases hold
  exact congrArg FileTree.mk (Keyed.put_comm hne hkey _ _).symm

end Put

/-- Replace the contents of files, one after the other. -/
def replaceAll (tree : FileTree) (new : List (Place × Octets)) : FileTree :=
  new.foldl (fun tree e => tree.put e.1 (.file e.2)) tree

lemma replaceAll_append (tree : FileTree) (new new' : List (Place × Octets)) :
    tree.replaceAll (new ++ new') = (tree.replaceAll new).replaceAll new' :=
  List.foldl_append

lemma find?_replaceAll_of_ne {tree : FileTree} {new : List (Place × Octets)} {place : Place}
    (h : ∀ e ∈ new, e.1 ≠ place) : (tree.replaceAll new).find? place = tree.find? place := by
  induction new generalizing tree with
  | nil => rfl
  | cons e new ih =>
    obtain ⟨he, hnew⟩ := List.forall_mem_cons.1 h
    rw [replaceAll, List.foldl_cons]
    exact (ih hnew).trans (by rw [find?_put, if_neg he.symm])

section ReplaceAll

variable {tree : FileTree} {new : List (Place × Octets)}

lemma holdsFile_tail {e : Place × Octets} (h : ∀ e' ∈ e :: new, tree.HoldsFile e'.1) :
    ∀ e' ∈ new, (tree.put e.1 (.file e.2)).HoldsFile e'.1 := fun e' he' =>
  (holdsFile_put (h e List.mem_cons_self) e.2).2 (h e' (List.mem_cons_of_mem e he'))

lemma place?_replaceAll (h : ∀ e ∈ new, tree.HoldsFile e.1) (path : String) :
    (tree.replaceAll new).place? path = tree.place? path := by
  induction new generalizing tree with
  | nil => rfl
  | cons e new ih =>
    rw [replaceAll, List.foldl_cons]
    exact (ih (holdsFile_tail h)).trans (place?_put (h e List.mem_cons_self) e.2 path)

lemma read_replaceAll_of_ne (h : ∀ e ∈ new, tree.HoldsFile e.1) {path : String}
    (hne : ∀ e ∈ new, tree.place? path ≠ some e.1) :
    (tree.replaceAll new).read path = tree.read path := by
  induction new generalizing tree with
  | nil => rfl
  | cons e new ih =>
    obtain ⟨he, hnew⟩ := List.forall_mem_cons.1 hne
    have hfirst := h e List.mem_cons_self
    have hrest : ∀ e' ∈ new, (tree.put e.1 (.file e.2)).place? path ≠ some e'.1 := by
      intro e' he'
      rw [place?_put hfirst]
      exact hnew e' he'
    rw [replaceAll, List.foldl_cons]
    exact (ih (holdsFile_tail h) hrest).trans (read_put_of_ne hfirst e.2 he)

lemma read_replaceAll_of_mem (h : ∀ e ∈ new, tree.HoldsFile e.1) (hd : (new.map Prod.fst).Nodup)
    {path : String} {place : Place} {content : Octets} (hmem : (place, content) ∈ new)
    (hpath : tree.place? path = some place) :
    (tree.replaceAll new).read path = .ok content := by
  induction new generalizing tree with
  | nil => cases hmem
  | cons e new ih =>
    obtain ⟨hother, hd⟩ := List.nodup_cons.1 hd
    have hfirst := h e List.mem_cons_self
    rw [replaceAll, List.foldl_cons]
    rcases List.mem_cons.1 hmem with rfl | hmem
    · have hne : ∀ e' ∈ new, (tree.put place (.file content)).place? path ≠ some e'.1 := by
        intro e' he' hplace
        rw [place?_put hfirst, hpath, Option.some.injEq] at hplace
        exact hother (List.mem_map.2 ⟨e', he', hplace.symm⟩)
      exact (read_replaceAll_of_ne (holdsFile_tail h) hne).trans
        (read_write (write_of_place? hpath content))
    · exact ih (holdsFile_tail h) hd hmem (by rw [place?_put hfirst, hpath])

/-- Different files may be replaced in any order. -/
lemma replaceAll_perm {new' : List (Place × Octets)} (hperm : new.Perm new')
    (h : ∀ e ∈ new, tree.HoldsFile e.1) (hd : (new.map Prod.fst).Nodup) :
    tree.replaceAll new = tree.replaceAll new' := by
  induction hperm generalizing tree with
  | nil => rfl
  | cons e _ ih => exact ih (holdsFile_tail h) (List.nodup_cons.1 hd).2
  | swap e e' new =>
    have hne : e'.1 ≠ e.1 := by
      intro heq
      simp [heq] at hd
    rw [replaceAll, replaceAll, List.foldl_cons, List.foldl_cons, List.foldl_cons, List.foldl_cons,
      put_comm (h e' List.mem_cons_self) e'.2 hne]
  | trans hperm _ ih ih' =>
    rw [ih h hd]
    exact ih' (fun e he => h e (hperm.mem_iff.2 he)) ((hperm.map Prod.fst).nodup_iff.1 hd)

end ReplaceAll

end FileTree

end DotGraph
