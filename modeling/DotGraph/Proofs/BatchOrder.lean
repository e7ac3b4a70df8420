import DotGraph.Proofs.FormatInPlace
import DotGraph.Proofs.ReplacedFiles
import Mathlib.Logic.Relation

/-!
# Batches in any order

The files of a batch are read, formatted and written independently of each other, so that the
steps of one file may stand between those of others. When the paths name different files, no step
changes what is read from another file, and what is written to different files may be written in
any order. Every order of steps ends as working off the files one after the other does.
-/

namespace DotGraph.Batch

open Grammar

/-! ### Steps -/

/-- How far a file of a batch has come. -/
inductive Stage
  | waiting
  /-- The new content is known and not yet written. -/
  | formatted (content : Octets)
  | finished (result : Except Failure Octets)

/-- What can happen to a file next, with the tree before and after. -/
inductive Advances (reader : Reader) (printer : Printer) (inPlace : Bool) (path : String) :
    Stage × FileTree → Stage × FileTree → Prop
  | fail {tree : FileTree} {f : Failure} (h : canonical reader printer tree path = .error f) :
      Advances reader printer inPlace path (.waiting, tree) (.finished (.error f), tree)
  | answer {tree : FileTree} {content : Octets} (hplace : inPlace = false)
      (h : canonical reader printer tree path = .ok content) :
      Advances reader printer inPlace path (.waiting, tree) (.finished (.ok content), tree)
  | format {tree : FileTree} {content : Octets} (hplace : inPlace = true)
      (h : canonical reader printer tree path = .ok content) :
      Advances reader printer inPlace path (.waiting, tree) (.formatted content, tree)
  | write {tree tree' : FileTree} {content : Octets} (h : tree.write path content = .ok tree') :
      Advances reader printer inPlace path (.formatted content, tree)
        (.finished (.ok content), tree')
  | refuse {tree : FileTree} {content : Octets} {fault : FileFault}
      (h : tree.write path content = .error fault) :
      Advances reader printer inPlace path (.formatted content, tree)
        (.finished (.error (.during (.writing path) (.file fault))), tree)

structure Job where
  path : String
  stage : Stage

/-- A batch on the way: its files in the order in which they were given, and the tree so far. -/
structure Progress where
  jobs : List Job
  tree : FileTree

/-- One of the files advances. -/
inductive Step (reader : Reader) (printer : Printer) (inPlace : Bool) : Progress → Progress → Prop
  | intro {before after : List Job} {path : String} {stage stage' : Stage} {tree tree' : FileTree}
      (h : Advances reader printer inPlace path (stage, tree) (stage', tree')) :
      Step reader printer inPlace ⟨before ++ ⟨path, stage⟩ :: after, tree⟩
        ⟨before ++ ⟨path, stage'⟩ :: after, tree'⟩

/-- Any number of steps, of the files in any order. -/
abbrev Steps (reader : Reader) (printer : Printer) (inPlace : Bool) : Progress → Progress → Prop :=
  Relation.ReflTransGen (Step reader printer inPlace)

def Progress.start (paths : List String) (tree : FileTree) : Progress :=
  ⟨paths.map fun path => ⟨path, .waiting⟩, tree⟩

/-- All files are finished, with a report for each. -/
def Progress.finish (reports : List (Report Octets)) (tree : FileTree) : Progress :=
  ⟨reports.map fun report => ⟨report.path, .finished report.result⟩, tree⟩

variable {reader : Reader} {printer : Printer} {inPlace : Bool}

/-! ### One file after the other -/

section Alone

variable (reader printer inPlace)

/-- Formatting a file is its steps with no others in between. -/
lemma steps_formatFile (before after : List Job) (path : String) (tree : FileTree) :
    Steps reader printer inPlace ⟨before ++ ⟨path, .waiting⟩ :: after, tree⟩
      ⟨before ++ ⟨path, .finished (formatFile reader printer inPlace tree path).1⟩ :: after,
        (formatFile reader printer inPlace tree path).2⟩ := by
  unfold formatFile
  cases hcanonical : canonical reader printer tree path with
  | error f => exact .single (.intro (.fail hcanonical))
  | ok content =>
    cases inPlace with
    | false => exact .single (.intro (.answer rfl hcanonical))
    | true =>
      have hformat : Step reader printer true ⟨before ++ ⟨path, .waiting⟩ :: after, tree⟩
          ⟨before ++ ⟨path, .formatted content⟩ :: after, tree⟩ :=
        .intro (.format rfl hcanonical)
      cases hwrite : tree.write path content with
      | error fault =>
        simp only [if_true, hwrite]
        exact .head hformat (.single (.intro (.refuse hwrite)))
      | ok tree' =>
        simp only [if_true, hwrite]
        exact .head hformat (.single (.intro (.write hwrite)))

lemma steps_formatFiles (before : List Job) (paths : List String) (tree : FileTree) :
    Steps reader printer inPlace
      ⟨before ++ (Progress.start paths tree).jobs, tree⟩
      ⟨before ++ (Progress.finish (formatFiles reader printer inPlace paths tree).1 tree).jobs,
        (formatFiles reader printer inPlace paths tree).2⟩ := by
  induction paths generalizing before tree with
  | nil => exact .refl
  | cons path paths ih =>
    have hfirst := steps_formatFile reader printer inPlace before (Progress.start paths tree).jobs
      path tree
    have hrest := ih (before ++ [⟨path, .finished (formatFile reader printer inPlace tree path).1⟩])
      (formatFile reader printer inPlace tree path).2
    rw [List.append_assoc, List.append_assoc] at hrest
    exact hfirst.trans hrest

end Alone

/-! ### What holds after any steps -/

lemma place?_of_canonical {tree : FileTree} {path : String} {content : Octets}
    (h : canonical reader printer tree path = .ok content) :
    ∃ place, tree.place? path = some place := by
  obtain ⟨gs, hgs, -⟩ := canonical_eq_ok_iff.1 h
  obtain ⟨octets, -, hread, -⟩ := parseFile_eq_ok_iff.1 hgs
  exact FileTree.place?_of_read hread

/-- The place that a result is written to, with the new content. -/
def replacement? (inPlace : Bool) (tree : FileTree) (path : String) :
    Except Failure Octets → Option (Place × Octets)
  | .ok content => if inPlace then (tree.place? path).map fun place => (place, content) else none
  | .error _ => none

/-- What a file has come to is what it comes to alone, in the tree that the batch started from. -/
def Job.IsSound (reader : Reader) (printer : Printer) (inPlace : Bool) (tree : FileTree)
    (job : Job) : Prop :=
  match job.stage with
  | .waiting => True
  | .formatted content => inPlace = true ∧ canonical reader printer tree job.path = .ok content
  | .finished result => result = canonical reader printer tree job.path

/-- What has been written for a file. -/
def Job.written? (inPlace : Bool) (tree : FileTree) (job : Job) : Option (Place × Octets) :=
  match job.stage with
  | .finished result => replacement? inPlace tree job.path result
  | _ => none

/-- What any number of steps keep: the files stand where they stood, each has come to what it
comes to alone, and the tree differs from the one at the start by what was written for the
finished files, in the order of the files. -/
structure Progress.IsSound (reader : Reader) (printer : Printer) (inPlace : Bool)
    (paths : List String) (tree : FileTree) (progress : Progress) : Prop where
  paths : progress.jobs.map Job.path = paths
  jobs : ∀ job ∈ progress.jobs, job.IsSound reader printer inPlace tree
  tree : progress.tree = tree.replaceAll (progress.jobs.filterMap (Job.written? inPlace tree))

lemma replacement?_eq_some {tree : FileTree} {path : String} {result : Except Failure Octets}
    {e : Place × Octets} (h : replacement? inPlace tree path result = some e) :
    tree.place? path = some e.1 := by
  unfold replacement? at h
  split at h
  · split at h
    · obtain ⟨place, hplace, rfl⟩ := Option.map_eq_some_iff.1 h
      exact hplace
    · cases h
  · cases h

lemma Job.written?_eq_some {tree : FileTree} {job : Job} {e : Place × Octets}
    (h : job.written? inPlace tree = some e) : tree.place? job.path = some e.1 := by
  unfold Job.written? at h
  split at h
  · exact replacement?_eq_some h
  · cases h

section Written

variable {tree : FileTree} {jobs : List Job}

lemma holdsFile_written :
    ∀ e ∈ jobs.filterMap (Job.written? inPlace tree), tree.HoldsFile e.1 := by
  intro e he
  obtain ⟨job, -, hjob⟩ := List.mem_filterMap.1 he
  exact (FileTree.place?_eq_some_iff.1 (Job.written?_eq_some hjob)).2

lemma sublist_written : ((jobs.filterMap (Job.written? inPlace tree)).map Prod.fst).Sublist
    ((jobs.map Job.path).filterMap tree.place?) := by
  induction jobs with
  | nil => exact .slnil
  | cons job jobs ih =>
    cases hjob : job.written? inPlace tree with
    | none =>
      rw [List.filterMap_cons_none hjob]
      exact ih.trans (.filterMap _ (List.sublist_cons_self _ _))
    | some e =>
      rw [List.filterMap_cons_some hjob, List.map_cons, List.map_cons,
        List.filterMap_cons_some (Job.written?_eq_some hjob)]
      exact ih.cons_cons e.1

end Written

section Sound

variable {paths : List String} {tree now : FileTree} {before after : List Job} {path : String}
  {stage : Stage}

variable (hfiles : (paths.filterMap tree.place?).Nodup)
include hfiles

/-- What was written for other files does not change what becomes of a file. -/
lemma Progress.IsSound.canonical_eq
    (h : IsSound reader printer inPlace paths tree ⟨before ++ ⟨path, .waiting⟩ :: after, now⟩) :
    canonical reader printer now path = canonical reader printer tree path := by
  obtain ⟨rfl, -, htree⟩ := h
  dsimp only at htree hfiles
  rw [htree]
  apply canonical_congr
  apply FileTree.read_replaceAll_of_ne holdsFile_written
  intro e he
  obtain ⟨job, hjob, hwritten⟩ := List.mem_filterMap.1 he
  have hother : job ∈ before ++ after := by
    rcases List.mem_append.1 hjob with hjob | hjob
    · exact List.mem_append_left _ hjob
    · rcases List.mem_cons.1 hjob with rfl | hjob
      · cases hwritten
      · exact List.mem_append_right _ hjob
  exact FileTree.place?_ne_of_perm hfiles (List.perm_middle.map Job.path)
    (List.mem_map_of_mem hother) (Job.written?_eq_some hwritten)

/-- A file for which nothing was written yet comes to what it comes to alone. -/
lemma Progress.IsSound.advance
    (h : IsSound reader printer inPlace paths tree ⟨before ++ ⟨path, stage⟩ :: after, now⟩)
    (hstage : Job.written? inPlace tree ⟨path, stage⟩ = none) (stage' : Stage)
    (hstage' : Job.IsSound reader printer inPlace tree ⟨path, stage'⟩) :
    IsSound reader printer inPlace paths tree ⟨before ++ ⟨path, stage'⟩ :: after,
      now.replaceAll (Job.written? inPlace tree ⟨path, stage'⟩).toList⟩ := by
  obtain ⟨hpaths, hjobs, htree⟩ := h
  have hpaths' : (before ++ ⟨path, stage'⟩ :: after).map Job.path = paths := by
    simpa using hpaths
  refine ⟨hpaths', ?_, ?_⟩
  · intro job hjob
    rcases List.mem_append.1 hjob with hjob | hjob
    · exact hjobs job (List.mem_append_left _ hjob)
    · rcases List.mem_cons.1 hjob with rfl | hjob
      · exact hstage'
      · exact hjobs job (List.mem_append_right _ (List.mem_cons_of_mem _ hjob))
  · have hd : (((before ++ ⟨path, stage'⟩ :: after).filterMap
        (Job.written? inPlace tree)).map Prod.fst).Nodup :=
      sublist_written.nodup (hpaths' ▸ hfiles)
    have hold : ∀ e ∈ (before ++ ⟨path, stage'⟩ :: after).filterMap (Job.written? inPlace tree),
        tree.HoldsFile e.1 := holdsFile_written
    dsimp only at htree
    rw [List.filterMap_append, List.filterMap_cons_none hstage] at htree
    rw [htree, ← FileTree.replaceAll_append]
    cases hnew : Job.written? inPlace tree ⟨path, stage'⟩ with
    | none => simp [hnew]
    | some e =>
      rw [List.filterMap_append, List.filterMap_cons_some hnew] at hd hold ⊢
      -- the new content comes last in time and stands in the middle in the order of the files
      exact (FileTree.replaceAll_perm
        (List.perm_middle.trans (List.perm_append_singleton e _).symm) hold hd).symm

omit hfiles in
/-- A file whose new content is known can be written. -/
lemma Progress.IsSound.write_eq {content : Octets}
    (h : IsSound reader printer inPlace paths tree
      ⟨before ++ ⟨path, .formatted content⟩ :: after, now⟩) :
    inPlace = true ∧ canonical reader printer tree path = .ok content ∧
      ∃ place, tree.place? path = some place ∧
        now.write path content = .ok (now.put place (.file content)) := by
  obtain ⟨hinPlace, hcanonical⟩ := h.jobs ⟨path, .formatted content⟩ (by simp)
  obtain ⟨place, hplace⟩ := place?_of_canonical hcanonical
  have hnow : now.place? path = some place := by
    rw [← hplace]
    exact (congrArg (FileTree.place? · path) h.tree).trans
      (FileTree.place?_replaceAll holdsFile_written path)
  exact ⟨hinPlace, hcanonical, place, hplace, FileTree.write_of_place? hnow content⟩

end Sound

lemma Progress.IsSound.step {paths : List String} {tree : FileTree} {progress progress' : Progress}
    (hfiles : (paths.filterMap tree.place?).Nodup)
    (h : progress.IsSound reader printer inPlace paths tree)
    (hstep : Step reader printer inPlace progress progress') :
    progress'.IsSound reader printer inPlace paths tree := by
  obtain ⟨hadvances⟩ := hstep
  cases hadvances with
  | fail hcanonical =>
    rw [h.canonical_eq hfiles] at hcanonical
    exact h.advance hfiles rfl (.finished (.error _)) hcanonical.symm
  | answer hplace hcanonical =>
    subst hplace
    rw [h.canonical_eq hfiles] at hcanonical
    exact h.advance hfiles rfl (.finished (.ok _)) hcanonical.symm
  | format hplace hcanonical =>
    rw [h.canonical_eq hfiles] at hcanonical
    exact h.advance hfiles rfl (.formatted _) ⟨hplace, hcanonical⟩
  | @write _ _ content hwrite =>
    obtain ⟨hinPlace, hcanonical, place, hplace, hok⟩ := h.write_eq
    rw [hok, Except.ok.injEq] at hwrite
    subst hwrite hinPlace
    have hfinished := h.advance hfiles rfl (.finished (.ok content)) hcanonical.symm
    simp only [Job.written?, replacement?, if_true, hplace] at hfinished
    exact hfinished
  | refuse hwrite =>
    obtain ⟨-, -, place, -, hok⟩ := h.write_eq
    rw [hok] at hwrite
    cases hwrite

/-! ### Whole batches -/

/-- The files of a batch as each of them is when it was formatted alone. -/
def formattedAlone (reader : Reader) (printer : Printer) (tree : FileTree) (paths : List String) :
    List Job :=
  paths.map fun path => ⟨path, .finished (canonical reader printer tree path)⟩

/-- What a batch makes of a tree. -/
structure IsFormatted (reader : Reader) (printer : Printer) (inPlace : Bool) (paths : List String)
    (tree tree' : FileTree) : Prop where
  untouched : inPlace = false → tree' = tree
  written : inPlace = true → ∀ path ∈ paths, ∀ content,
    (formatFile reader printer inPlace tree path).1 = .ok content → tree'.read path = .ok content
  /-- A file that fails does so before anything is written, and is left as it was. -/
  kept : ∀ path ∈ paths, ∀ f, (formatFile reader printer inPlace tree path).1 = .error f →
    canonical reader printer tree path = .error f ∧ tree'.read path = tree.read path
  others : ∀ place, (∀ path ∈ paths, tree.place? path = some place →
    ∃ f, (formatFile reader printer inPlace tree path).1 = .error f) →
      tree'.find? place = tree.find? place

section Whole

variable {paths : List String} {tree tree' : FileTree} {reports : List (Report Octets)}

lemma mem_written_formattedAlone {e : Place × Octets} :
    e ∈ (formattedAlone reader printer tree paths).filterMap (Job.written? inPlace tree) ↔
      ∃ path ∈ paths, inPlace = true ∧ canonical reader printer tree path = .ok e.2 ∧
        tree.place? path = some e.1 := by
  rw [formattedAlone, List.filterMap_map, List.mem_filterMap]
  refine exists_congr fun path => and_congr_right fun _ => ?_
  simp only [Function.comp_def, Job.written?, replacement?]
  obtain ⟨place, content⟩ := e
  cases canonical reader printer tree path with
  | error f => simp
  | ok octets => cases inPlace <;> simp [and_comm]

lemma Progress.isSound_start :
    (start paths tree).IsSound reader printer inPlace paths tree where
  paths := by simp [start, Function.comp_def]
  jobs := by
    intro job hjob
    obtain ⟨path, -, rfl⟩ := List.mem_map.1 hjob
    trivial
  tree := by
    have hnone : (start paths tree).jobs.filterMap (Job.written? inPlace tree) = [] := by
      rw [start, List.filterMap_map]
      exact List.filterMap_eq_nil_iff.2 fun _ _ => rfl
    rw [hnone]
    rfl

lemma Progress.IsSound.eq_of_finish
    (h : (finish reports tree').IsSound reader printer inPlace paths tree) :
    reports = paths.map (fun path => ⟨path, canonical reader printer tree path⟩) ∧
      tree' = tree.replaceAll
        ((formattedAlone reader printer tree paths).filterMap (Job.written? inPlace tree)) := by
  obtain ⟨rfl, hjobs, htree⟩ := h
  have hreports : ∀ report ∈ reports, report.result = canonical reader printer tree report.path :=
    fun report hreport => hjobs ⟨report.path, .finished report.result⟩
      (List.mem_map_of_mem hreport)
  simp only [finish, formattedAlone, List.map_map] at htree ⊢
  constructor
  · refine (List.map_id reports).symm.trans (List.map_congr_left fun report hreport => ?_)
    simp [← hreports report hreport]
  · rw [htree]
    congr 2
    refine List.map_congr_left fun report hreport => ?_
    simp [hreports report hreport]

section Files

variable (hfiles : (paths.filterMap tree.place?).Nodup)
include hfiles

lemma Steps.isSound {progress : Progress}
    (h : Steps reader printer inPlace (.start paths tree) progress) :
    progress.IsSound reader printer inPlace paths tree := by
  induction h with
  | refl => exact Progress.isSound_start
  | tail _ hstep ih => exact ih.step hfiles hstep

lemma formatFiles_eq : formatFiles reader printer inPlace paths tree =
    (paths.map fun path => ⟨path, canonical reader printer tree path⟩,
      tree.replaceAll
        ((formattedAlone reader printer tree paths).filterMap (Job.written? inPlace tree))) := by
  have hsteps := steps_formatFiles reader printer inPlace [] paths tree
  obtain ⟨hreports, htree⟩ := (Steps.isSound hfiles hsteps).eq_of_finish
  exact Prod.ext hreports htree

lemma nodup_written_formattedAlone :
    (((formattedAlone reader printer tree paths).filterMap
      (Job.written? inPlace tree)).map Prod.fst).Nodup := by
  have hpaths : (formattedAlone reader printer tree paths).map Job.path = paths := by
    simp [formattedAlone, Function.comp_def]
  exact sublist_written.nodup (hpaths.symm ▸ hfiles)

end Files

/-- No write of a batch fails, so a report says what became of formatting alone. -/
lemma formatFile_fst (path : String) : (formatFile reader printer inPlace tree path).1 =
    canonical reader printer tree path := by
  have hfiles : ([path].filterMap tree.place?).Nodup := by
    cases hplace : tree.place? path with
    | none => simp [hplace]
    | some place => simp [hplace]
  have hreports : (formatFiles reader printer inPlace [path] tree).1 =
      [path].map fun path => ⟨path, canonical reader printer tree path⟩ :=
    congrArg Prod.fst (formatFiles_eq hfiles)
  simpa [formatFiles] using hreports

lemma isFormatted_formatFiles (hfiles : (paths.filterMap tree.place?).Nodup) :
    IsFormatted reader printer inPlace paths tree
      (formatFiles reader printer inPlace paths tree).2 := by
  rw [formatFiles_eq hfiles]
  refine ⟨?_, ?_, ?_, ?_⟩
  · rintro rfl
    have hnil : (formattedAlone reader printer tree paths).filterMap (Job.written? false tree) =
        [] := by
      apply List.eq_nil_iff_forall_not_mem.2
      intro e he
      obtain ⟨-, -, hinPlace, -⟩ := mem_written_formattedAlone.1 he
      cases hinPlace
    rw [hnil]
    rfl
  · intro hinPlace path hpath content hok
    rw [formatFile_fst] at hok
    obtain ⟨place, hplace⟩ := place?_of_canonical hok
    exact FileTree.read_replaceAll_of_mem holdsFile_written (nodup_written_formattedAlone hfiles)
      (mem_written_formattedAlone.2 ⟨path, hpath, hinPlace, hok, hplace⟩) hplace
  · intro path hpath f herror
    rw [formatFile_fst] at herror
    refine ⟨herror, FileTree.read_replaceAll_of_ne holdsFile_written fun e he => ?_⟩
    obtain ⟨other, hother, -, hok, hplace⟩ := mem_written_formattedAlone.1 he
    have hne : other ≠ path := by
      rintro rfl
      rw [herror] at hok
      cases hok
    exact FileTree.place?_ne_of_perm hfiles (List.perm_cons_erase hpath)
      ((List.mem_erase_of_ne hne).2 hother) hplace
  · intro place hfails
    refine FileTree.find?_replaceAll_of_ne fun e he heq => ?_
    obtain ⟨path, hpath, -, hok, hplace⟩ := mem_written_formattedAlone.1 he
    obtain ⟨f, herror⟩ := hfails path hpath (heq ▸ hplace)
    rw [formatFile_fst, hok] at herror
    cases herror

/-- When the paths name different files, the files of a batch may be worked off in any order, and
the steps of one may stand between those of others. All files can be finished. However that
happens, each report, in the order of the paths, is that of the file formatted alone, and the tree
is the same. -/
theorem steps_finish_iff (hfiles : (paths.filterMap tree.place?).Nodup) :
    (∀ reports tree', Steps reader printer inPlace (.start paths tree) (.finish reports tree') ↔
        formatFiles reader printer inPlace paths tree = (reports, tree')) ∧
      (∀ order, order.Perm paths → formatFiles reader printer inPlace order tree =
        (order.map fun path => ⟨path, (formatFile reader printer inPlace tree path).1⟩,
          (formatFiles reader printer inPlace paths tree).2)) ∧
      IsFormatted reader printer inPlace paths tree
        (formatFiles reader printer inPlace paths tree).2 := by
  refine ⟨fun reports tree' => ⟨fun hsteps => ?_, fun hformat => ?_⟩, fun order hperm => ?_,
    isFormatted_formatFiles hfiles⟩
  · obtain ⟨rfl, rfl⟩ := (Steps.isSound hfiles hsteps).eq_of_finish
    exact formatFiles_eq hfiles
  · have hsteps := steps_formatFiles reader printer inPlace [] paths tree
    rw [hformat] at hsteps
    exact hsteps
  · have horder : (order.filterMap tree.place?).Nodup :=
      (hperm.filterMap tree.place?).nodup_iff.2 hfiles
    have hwritten := (hperm.map fun path =>
      (⟨path, .finished (canonical reader printer tree path)⟩ : Job)).filterMap
        (Job.written? inPlace tree)
    have htree := FileTree.replaceAll_perm hwritten holdsFile_written
      (nodup_written_formattedAlone horder)
    rw [formatFiles_eq horder, formatFiles_eq hfiles]
    simp only [formatFile_fst]
    exact Prod.ext rfl htree

/-- A file that is formatted, a path that names no file, and a file that cannot be written in the
character set that it declares. -/
theorem steps_finish_iff_mixed :
    let good := "graph\x7bcharset=ascii;a\x7d"
    let bad := "graph\x7bcharset=ascii;\"é\"\x7d"
    let content := octetsOf "graph \x7b\ncharset=ascii;\na;\n\x7d\n"
    let tree : FileTree := ⟨[(["a.dot"], .file (Text.Utf8.encode good.toList)), (["d"], .directory),
      (["d", "b.dot"], .file (Text.Utf8.encode bad.toList))]⟩
    let paths := ["d/../a.dot", "./c.dot", "d//b.dot"]
    paths.filterMap tree.place? = [["a.dot"], ["d", "b.dot"]] ∧
      formatFiles {} {} true paths tree =
        ([⟨"d/../a.dot", .ok content⟩,
          ⟨"./c.dot", .error (.during (.parsing "./c.dot") (.error (.file .notFound)))⟩,
          ⟨"d//b.dot", .error (.during (.encoding "d//b.dot") (.error (.unencodable .ascii 'é')))⟩],
          tree.put ["a.dot"] (.file content)) ∧
      (paths.filterMap tree.place?).Nodup ∧
      (∀ reports tree', Steps {} {} true (.start paths tree) (.finish reports tree') ↔
        formatFiles {} {} true paths tree = (reports, tree')) ∧
      (∀ order, order.Perm paths → formatFiles {} {} true order tree =
        (order.map fun path => ⟨path, (formatFile {} {} true tree path).1⟩,
          (formatFiles {} {} true paths tree).2)) ∧
      IsFormatted {} {} true paths tree (formatFiles {} {} true paths tree).2 := by
  intro good bad content tree paths
  have hplaces : paths.filterMap tree.place? = [["a.dot"], ["d", "b.dot"]] := by decide +kernel
  have hfiles : (paths.filterMap tree.place?).Nodup := by decide +kernel
  have hgood : canonical {} {} tree "d/../a.dot" = .ok content := by
    have hparse : parseFile {} tree "d/../a.dot" = .ok [declaring ⟨"ascii"⟩ ⟨"a"⟩] :=
      parseFile_declaring (by rfl) (.name (by decide +kernel)) (.name (by decide +kernel))
        (by decide +kernel)
    exact canonical_eq_ok_iff.2 ⟨_, hparse, by decide +kernel⟩
  have hmissing : canonical {} {} tree "./c.dot" =
      .error (.during (.parsing "./c.dot") (.error (.file .notFound))) := by
    rfl
  have hbad : canonical {} {} tree "d//b.dot" =
      .error (.during (.encoding "d//b.dot") (.error (.unencodable .ascii 'é'))) := by
    have hparse : parseFile {} tree "d//b.dot" = .ok [declaring ⟨"ascii"⟩ ⟨"\"é\""⟩] :=
      parseFile_declaring (by rfl) (.name (by decide +kernel)) (.quoted (.nil _))
        (by decide +kernel)
    have hencode : encodeAll {} [declaring ⟨"ascii"⟩ ⟨"\"é\""⟩] =
        .error (.unencodable .ascii 'é') := by
      decide +kernel
    rw [canonical, hparse]
    simp only [bind, Except.bind, hencode]
    rfl
  have hplace : tree.place? "d/../a.dot" = some ["a.dot"] := by decide +kernel
  have hwritten : (formattedAlone {} {} tree paths).filterMap (Job.written? true tree) =
      [(["a.dot"], content)] := by
    simp [paths, formattedAlone, List.filterMap_cons, hgood, hmissing, hbad, Job.written?,
      replacement?, hplace]
  refine ⟨hplaces, (formatFiles_eq hfiles).trans (Prod.ext ?_ ?_), hfiles, steps_finish_iff hfiles⟩
  · simp [paths, hgood, hmissing, hbad]
  · rw [hwritten]
    rfl

end Whole

end DotGraph.Batch
