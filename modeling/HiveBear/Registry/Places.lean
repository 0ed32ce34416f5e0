/-
# The places of an install

An install joins the model id to the directory of the models, and names of files to that;
neither is looked at. The files of a download lie beside each other, in the directory to which
the path of its file leads up to the last name. A file that is downloaded has the name of a
GGUF file; one that is resumed has a name that a scan finds, which leads only down.
-/

import HiveBear.Registry.Install

namespace HiveBear.Registry

open LabelledRun Paths

/-! ## The files of a download -/

namespace Job

variable (cwd : Location) (job : Job)

/-- Where the stem of a download's file leads. -/
def folderPlace : Location := walk cwd (stem job.destDir job.target.filename.toList)

variable {job}

/-- The files beside the file of a download lie where its stem leads. -/
theorem sibling_place (hdir : job.destDir ≠ []) (cwd : Location) :
    (∃ name, leadsTo cwd job.partialPath = job.folderPlace cwd ++ [name]) ∧
      (∃ name, leadsTo cwd job.metaPath = job.folderPlace cwd ++ [name]) ∧
      ∃ name, leadsTo cwd job.tmpPath = job.folderPlace cwd ++ [name] := by
  have hsibling (suffix : String) (hsuffix : '/' ∉ suffix.toList)
      (hlong : 3 ≤ suffix.toList.length) :
      leadsTo cwd (join job.destDir (job.target.filename ++ suffix).toList) =
        job.folderPlace cwd ++ [lastName job.target.filename.toList ++ suffix.toList] := by
    rw [String.toList_append]
    exact leadsTo_join_append_suffix cwd hdir _ hsuffix hlong
  refine ⟨⟨_, hsibling ".partial" (by decide) (by decide)⟩,
    ⟨_, hsibling ".partial.meta" (by decide) (by decide)⟩, ?_⟩
  have htmp :
      job.tmpPath = join job.destDir (job.target.filename ++ ".partial.meta.tmp").toList := by
    rw [tmpPath, metaPath, join_append _ (by simp)]
    simp only [String.toList_append, List.append_assoc]
    rfl
  rw [htmp]
  exact ⟨_, hsibling ".partial.meta.tmp" (by decide) (by decide)⟩

/-- The files that a phase touches. -/
theorem mem_touched {disk : Disk} {phase : DownloadPhase} {path : Text}
    (h : path ∈ job.touched disk phase) :
    path = job.partialPath ∨ path = job.metaPath ∨ path = job.tmpPath ∨
      path = job.finalPath ∧ phase = .moving := by
  cases phase with
  | planning =>
      rw [touched] at h
      split_ifs at h
      · exact Or.inl (List.mem_singleton.mp h)
      · cases h
  | responding bytesDownloaded retriesLeft metadata response =>
      rw [touched] at h
      generalize (if response.status = 200 then 0 else bytesDownloaded) = offset at h
      split_ifs at h
      · rcases List.mem_pair.mp h with htmp | hmeta
        · exact Or.inr (Or.inr (Or.inl htmp))
        · exact Or.inr (Or.inl hmeta)
      · cases h
  | describing =>
      rcases List.mem_pair.mp h with htmp | hmeta
      · exact Or.inr (Or.inr (Or.inl htmp))
      · exact Or.inr (Or.inl hmeta)
  | moving =>
      rcases List.mem_pair.mp h with hunfinished | hfinal
      · exact Or.inl hunfinished
      · exact Or.inr (Or.inr (Or.inr ⟨hfinal, rfl⟩))
  | discarding | tidying | cleaning => exact Or.inr (Or.inl (List.mem_singleton.mp h))
  | opening | unlinking => exact Or.inl (List.mem_singleton.mp h)
  | _ => cases h

/-- **What one step of a download touches**: directories on the way to its file that were
missing, files beside its file, and the file itself if that is no directory. -/
theorem touched_transferStep (hdir : job.destDir ≠ []) {world world' : World}
    {phase phase' : TransferPhase} {event : InstallEvent}
    (step : TransferStep cwd job (world, phase) event (world', phase')) {place : Location}
    (h : place ∈ event.touched) :
    place ∈ missing world.dirs cwd job.parentDir ∨
      (∃ name, place = job.folderPlace cwd ++ [name]) ∨
        place = leadsTo cwd job.finalPath ∧ place ∉ world.dirs := by
  obtain ⟨hunfinished, hmeta, htmp⟩ := sibling_place hdir cwd
  cases step with
  | mkdir => exact Or.inl h
  | mkdirFails made message => exact Or.inl (List.mem_of_mem_take h)
  | @proceed _ disk phase phase' proceeds free =>
      obtain ⟨path, hpath, rfl⟩ := List.mem_map.mp h
      rcases mem_touched hpath with rfl | rfl | rfl | ⟨rfl, hmoving⟩
      · exact Or.inr (Or.inl hunfinished)
      · exact Or.inr (Or.inl hmeta)
      · exact Or.inr (Or.inl htmp)
      · exact Or.inr (Or.inr ⟨rfl, free hmoving⟩)
  | describeFails =>
      rw [List.mem_singleton.mp h]
      exact Or.inr (Or.inl htmp)
  | chunk | chunkFails =>
      rw [List.mem_singleton.mp h]
      exact Or.inr (Or.inl hunfinished)
  | @answer _ disk phase' asked retries result outcome decided after =>
      have hrestart : place = leadsTo cwd job.partialPath := by
        dsimp only at h
        split_ifs at h
        · exact List.mem_singleton.mp h
        · cases h
      rw [hrestart]
      exact Or.inr (Or.inl hunfinished)
  | goOn | fail | cancelRequest | request | restart | retry | again | cancelStream | streamError
  | streamEnd => cases h

/-- A download creates directories and removes none. -/
theorem dirs_transferStep {world world' : World} {phase phase' : TransferPhase}
    {event : InstallEvent} (step : TransferStep cwd job (world, phase) event (world', phase')) :
    world.dirs ⊆ world'.dirs := by
  have hsettle (disk : Disk) (givenUp : Bool) :
      world.dirs ⊆ (world.settle job disk givenUp).dirs := by
    cases givenUp <;> exact List.Subset.refl _
  cases step with
  | mkdir | mkdirFails => exact List.subset_append_left _ _
  | proceed | goOn | answer => exact hsettle _ _
  | _ => exact List.Subset.refl _

/-- A download records nothing. -/
theorem index_transferStep {world world' : World} {phase phase' : TransferPhase}
    {event : InstallEvent} (step : TransferStep cwd job (world, phase) event (world', phase')) :
    world'.index = world.index := by
  have hsettle (disk : Disk) (givenUp : Bool) :
      (world.settle job disk givenUp).index = world.index := by
    cases givenUp <;> rfl
  cases step with
  | proceed | goOn | answer => exact hsettle _ _
  | _ => rfl

end Job

/-! ## The places of a model -/

namespace ModelRegistry

variable (registry : ModelRegistry) (modelId filename : String)

/-- Where the directory of the models is. -/
def root : Location := leadsTo registry.cwd registry.modelsDir

/-- The directories that the path of a model's directory passes. -/
def modelPasses : List Location := passes registry.cwd (components (registry.modelDir modelId))

/-- The directories that the path of a file passes. -/
def filePasses : List Location :=
  passes registry.cwd (stem (registry.modelDir modelId) filename.toList)

/-- The last of them. -/
def folderPlace : Location :=
  walk registry.cwd (stem (registry.modelDir modelId) filename.toList)

/-- Where the file is to be. -/
def finalPlace : Location :=
  leadsTo registry.cwd (join (registry.modelDir modelId) filename.toList)

/-- The place of the file is a directory on its own way or on that of the models, so that it is
never put there. -/
def Blocked : Prop :=
  registry.finalPlace modelId filename ∈ registry.modelPasses modelId ∨
    registry.finalPlace modelId filename ∈ registry.filePasses modelId filename ∨
    registry.finalPlace modelId filename <+: registry.folderPlace modelId filename ∨
    registry.finalPlace modelId filename <+: registry.root

end ModelRegistry

/-! ## Names -/

/-- A name with a suffix is the name of a file, whatever stands in front. -/
def Suffixed (filename : String) : Prop :=
  ∃ front suffix : Text, filename.toList = front ++ suffix ∧ '/' ∉ suffix ∧ 3 ≤ suffix.length

theorem suffixed_of_isGguf {filename : String} (h : isGguf filename = true) :
    Suffixed filename := by
  obtain ⟨front, hfront⟩ := of_decide_eq_true h
  exact ⟨front, ".gguf".toList, hfront.symm, by decide, by decide⟩

theorem suffixed_tokenizer : Suffixed "tokenizer.json" :=
  ⟨"tokenizer".toList, ".json".toList, by decide, by decide, by decide⟩

namespace ModelRegistry

variable {registry : ModelRegistry} {modelId filename : String}

theorem modelDir_ne (registry : ModelRegistry) (modelId : String) :
    registry.modelDir modelId ≠ [] := by
  rw [modelDir, join]
  split_ifs with habsolute
  · rintro hnil
    rw [hnil] at habsolute
    cases habsolute
  · exact List.append_ne_nil_of_left_ne_nil registry.modelsDir_ne _
  · exact List.append_ne_nil_of_left_ne_nil registry.modelsDir_ne _

/-- A file with a suffix is beside what is downloaded for it. -/
theorem finalPlace_of_suffixed (registry : ModelRegistry) (modelId : String)
    (h : Suffixed filename) :
    ∃ name, registry.finalPlace modelId filename =
      registry.folderPlace modelId filename ++ [name] := by
  obtain ⟨front, suffix, hname, hslash, hlong⟩ := h
  refine ⟨lastName front ++ suffix, ?_⟩
  rw [finalPlace, folderPlace, hname, stem_append_suffix _ _ hslash]
  exact leadsTo_join_append_suffix _ (registry.modelDir_ne modelId) front hslash hlong

/-- The directory that is created for it is where its stem leads. -/
theorem parent_of_suffixed (registry : ModelRegistry) (modelId : String)
    (h : Suffixed filename) :
    parent (components (join (registry.modelDir modelId) filename.toList)) =
      some (stem (registry.modelDir modelId) filename.toList) := by
  obtain ⟨front, suffix, hname, hslash, hlong⟩ := h
  apply parent_join (registry.modelDir_ne modelId)
  rw [hname, lastName_append_suffix _ hslash, component_append_suffix _ hlong]
  rfl

/-- A tokenizer is put into the directory of the model. -/
theorem stem_tokenizer (registry : ModelRegistry) (modelId : String) :
    stem (registry.modelDir modelId) "tokenizer.json".toList =
      components (registry.modelDir modelId) := by
  rw [stem, if_neg (by decide), show folder "tokenizer.json".toList = [] by decide, List.append_nil]

end ModelRegistry

/-- A name that a scan finds leads down to its file. -/
theorem folder_of_scanned {filename : String} (h : Scanned filename) :
    isAbsolute filename.toList = false ∧
      ∀ part ∈ folder filename.toList, ∃ name, part = .normal name := by
  have habsolute : isAbsolute filename.toList = false := by
    by_contra hslash
    obtain ⟨rest, hrest⟩ : ∃ rest, filename.toList = '/' :: rest := by
      rw [isAbsolute, Bool.not_eq_false, decide_eq_true_eq, List.head?_eq_some_iff] at hslash
      exact hslash
    have hfirst : [] ∈ (segments filename.toList).dropLast := by
      rw [hrest, segments_cons, if_pos rfl, List.dropLast_cons_of_ne_nil (segments_ne_nil rest)]
      exact List.mem_cons_self
    exact (h.2 [] hfirst).1 rfl
  refine ⟨habsolute, ?_⟩
  intro part hpart
  rw [folder, habsolute, if_neg Bool.false_ne_true, List.nil_append] at hpart
  obtain ⟨segment, hsegment, hcomponent⟩ := List.mem_filterMap.mp hpart
  obtain ⟨hne, hhidden⟩ := h.2 segment hsegment
  have hdot (rest : Text) : segment ≠ '.' :: rest := by
    rintro rfl
    exact hhidden rfl
  rw [component, if_neg (not_or.mpr ⟨hne, hdot []⟩), if_neg (hdot ['.'])] at hcomponent
  exact ⟨segment, (Option.some.inj hcomponent).symm⟩

namespace ModelRegistry

variable {registry : ModelRegistry} {modelId filename : String}

theorem folderPlace_eq (registry : ModelRegistry) (modelId filename : String) :
    registry.folderPlace modelId filename =
      walk (registry.modelPlace modelId) (folder filename.toList) :=
  walk_stem _ _ _

/-- What the path of an interrupted file passes is on the way of the model's directory, or
there. -/
theorem filePasses_of_scanned (h : Scanned filename) {place : Location}
    (hplace : place ∈ registry.filePasses modelId filename) :
    place ∈ registry.modelPasses modelId ∨ place <+: registry.folderPlace modelId filename := by
  obtain ⟨habsolute, hnames⟩ := folder_of_scanned h
  rw [filePasses, stem, if_neg (by rw [habsolute]; exact Bool.false_ne_true),
    passes_append] at hplace
  refine (List.mem_append.mp hplace).imp_right fun hlater => ?_
  rw [folderPlace_eq]
  exact prefix_of_mem_passes hnames hlater

/-- A file that is resumed is put beside what is on disk for it, or not put anywhere: then its
place is a directory. -/
theorem finalPlace_of_scanned (registry : ModelRegistry) (modelId filename : String) :
    (∃ name, registry.finalPlace modelId filename =
        registry.folderPlace modelId filename ++ [name]) ∨
      registry.finalPlace modelId filename <+: registry.folderPlace modelId filename := by
  have hplace : registry.finalPlace modelId filename =
      walk (registry.folderPlace modelId filename)
        (component (lastName filename.toList)).toList := by
    rw [finalPlace, leadsTo, components_join_eq_stem (registry.modelDir_ne modelId), walk_append]
    rfl
  rw [hplace]
  cases hlast : component (lastName filename.toList) with
  | none => exact Or.inr List.prefix_rfl
  | some part =>
      cases part with
      | rootDir => exact Or.inr (List.nil_prefix)
      | curDir => exact Or.inr List.prefix_rfl
      | parentDir => exact Or.inr (List.dropLast_prefix _)
      | normal name => exact Or.inl ⟨name, rfl⟩

end ModelRegistry

/-! ## Downloads of a model -/

/-- A download into the directory of the model. -/
def Job.Fits (job : Job) (registry : ModelRegistry) (modelId filename : String) : Prop :=
  job.destDir = registry.modelDir modelId ∧ job.target.filename = filename

namespace Job

variable {job : Job} {registry : ModelRegistry} {modelId filename : String}

theorem Fits.destDir_ne (h : job.Fits registry modelId filename) : job.destDir ≠ [] := by
  rw [h.1]
  exact registry.modelDir_ne modelId

theorem Fits.finalPlace (h : job.Fits registry modelId filename) :
    leadsTo registry.cwd job.finalPath = registry.finalPlace modelId filename := by
  rw [finalPath, h.1, h.2]
  rfl

theorem Fits.folderPlace (h : job.Fits registry modelId filename) :
    job.folderPlace registry.cwd = registry.folderPlace modelId filename := by
  rw [Job.folderPlace, h.1, h.2]
  rfl

theorem Fits.parentDir (h : job.Fits registry modelId filename) (hname : Suffixed filename) :
    job.parentDir = stem (registry.modelDir modelId) filename.toList := by
  rw [Job.parentDir, finalPath, h.1, h.2, registry.parent_of_suffixed _ hname]

/-- What the directory of any file passes, the model's directory or the path of the file
does. -/
theorem Fits.mem_passes (h : job.Fits registry modelId filename) {place : Location}
    (hplace : place ∈ passes registry.cwd job.parentDir) :
    place ∈ registry.modelPasses modelId ∨ place ∈ registry.filePasses modelId filename := by
  rw [Job.parentDir, finalPath, h.1, h.2] at hplace
  split at hplace
  · rename_i above habove
    exact Or.inr (passes_parent_subset _ (registry.modelDir_ne modelId) _ habove hplace)
  · exact Or.inl hplace

/-- **What a download touches lies inside**, if the directory of its file does, with what is
created on the way to it. -/
theorem Fits.under (h : job.Fits registry modelId filename)
    (hinside : registry.root <+: registry.folderPlace modelId filename) {world world' : World}
    {phase phase' : TransferPhase} {event : InstallEvent}
    (step : TransferStep registry.cwd job (world, phase) event (world', phase'))
    (hpassed : ∀ place ∈ passes registry.cwd job.parentDir, place ∉ world.dirs →
      Under registry.root place)
    (hfinal : registry.finalPlace modelId filename ∉ world.dirs →
      ∃ name, registry.finalPlace modelId filename =
        registry.folderPlace modelId filename ++ [name])
    {place : Location} (hplace : place ∈ event.touched) : Under registry.root place := by
  rcases Job.touched_transferStep _ h.destDir_ne step hplace with
    hmissing | ⟨name, rfl⟩ | ⟨rfl, hfree⟩
  · obtain ⟨hpass, hnew⟩ := mem_missing_iff.mp hmissing
    exact hpassed place hpass hnew
  · rw [h.folderPlace]
    exact under_concat_iff.mpr hinside
  · rw [h.finalPlace] at hfree ⊢
    obtain ⟨name, hname⟩ := hfinal hfree
    rw [hname]
    exact under_concat_iff.mpr hinside

end Job

end HiveBear.Registry
