import PhpSlim.Proofs.FailureIsolation

/-!
# Folders of the output that mirror the input

A build that gives a report has made a folder in the output for every folder that it covers, but
where a file stood already: the walk is content with whatever it finds at the place of a folder. A
file that is in the way shows only once something has to go into the folder.
-/

namespace PhpSlim.Proofs
open PhpSlim.FileTree PhpSlim.Build

variable {t t₀ t₁ : FileTree} {cfg : Config} {r : Roots} {excluded : List Glob.Pattern}
  {p q : Location}

namespace Walked

variable {jobs : List Job} {start : Report}

lemma elsewhere (h : Walked cfg t t₁ jobs start) (hfree : LinkFree t)
    (hq : ∀ job ∈ jobs, q ≠ job.destination) : (run cfg t).tree.get? q = t₁.get? q := by
  have halone : Alone cfg t₁ jobs _ := alone_runAll (h.independent hfree)
  rw [h.run_eq.1]
  exact halone.elsewhere q hq

lemma folder_iff (h : Walked cfg t t₁ jobs start) (hfree : LinkFree t) :
    (run cfg t).tree.get? q = some .folder ↔ t₁.get? q = some .folder := by
  by_cases hq : ∃ job ∈ jobs, q = job.destination
  · obtain ⟨job, hjob, rfl⟩ := hq
    have hind := h.independent hfree
    rw [h.get?_destination hfree hjob]
    rcases failed_or_equipped cfg hind.free (hind.fits job hjob) with
      ⟨error, hfailed⟩ | ⟨bytes, written, hequipped⟩
    · rw [hfailed]
    · rw [hequipped.get?_run hind.free (hind.fits job hjob)]
      exact iff_of_false (by simp) hequipped.vacant
  · rw [h.elsewhere hfree fun job hjob heq => hq ⟨job, hjob, heq⟩]

end Walked

/-- A build in a tree without links comes to the end of its walk, which began on the tree `t₀`. -/
structure Completed (cfg : Config) (t t₀ : FileTree) (r : Roots) (excluded : List Glob.Pattern) :
    Prop where
  free : LinkFree t
  prepared : Prepared cfg t t₀ r excluded
  made : (Build.makeFolders r t₀ (visitsOf cfg r t₀)).result = .ok ()

lemma exists_completed_of_ended (hfree : LinkFree t) (hend : Ended (run cfg t).result) :
    ∃ t₀ r excluded, Completed cfg t t₀ r excluded := by
  obtain ⟨t₀, r, excluded, hprep, hmade⟩ := exists_prepared_of_ended hend
  exact ⟨t₀, r, excluded, hfree, hprep, hmade⟩

namespace Completed

lemma linkFree (h : Completed cfg t t₀ r excluded) : LinkFree t₀ :=
  h.prepared.linkFree h.free

lemma placed (h : Completed cfg t t₀ r excluded) : Placed t₀ r :=
  h.prepared.placed h.free

lemma opened (h : Completed cfg t t₀ r excluded) : Confined (OnWay cfg) (fun _ => False) t t₀ :=
  h.prepared.confined h.free

lemma walked (h : Completed cfg t t₀ r excluded) :
    Walked cfg t (Build.makeFolders r t₀ (visitsOf cfg r t₀)).tree
      (Job.ofVisits r excluded (visitsOf cfg r t₀))
      { directories := (Build.makeFolders r t₀ (visitsOf cfg r t₀)).made
        failed := failedVisits (visitsOf cfg r t₀) } :=
  .intro h.prepared h.made

lemma confined (h : Completed cfg t t₀ r excluded) :
    Confined (r.output <+: ·) (r.output <+: ·) t₀ (run cfg t).tree := by
  rw [h.prepared.run_eq.1]
  exact confined_execute cfg excluded h.linkFree h.placed

lemma linkFree_run (h : Completed cfg t t₀ r excluded) : LinkFree (run cfg t).tree :=
  h.confined.linkFree h.linkFree

lemma get?_run_of_not_output (h : Completed cfg t t₀ r excluded) (hq : ¬r.output <+: q) :
    (run cfg t).tree.get? q = t₀.get? q := by
  rcases h.confined q with heq | ⟨hout, -⟩ | ⟨hout, -⟩
  · exact heq
  · exact absurd hout hq
  · exact absurd hout hq

lemma covered_folder_iff (h : Completed cfg t t₀ r excluded) (hcov : Covered r p) :
    (run cfg t).tree.get? p = some .folder ↔ t₀.get? p = some .folder := by
  refine ⟨fun hfolder => ?_, h.confined.grows.folder p⟩
  rcases hcov.2 with rfl | hout
  · obtain ⟨e, he⟩ := h.placed.input
    cases e with
    | folder => exact he
    | file bytes =>
      obtain ⟨bytes', hfile⟩ := h.confined.grows.file _ bytes he
      simp [hfolder] at hfile
    | link target => exact absurd he (h.linkFree _ target)
  · rw [← h.get?_run_of_not_output hout, hfolder]

lemma folder_visited_iff (h : Completed cfg t t₀ r excluded) :
    .folder p ∈ visitsOf cfg r t₀ ↔ Covered r p ∧ t₀.get? p = some .folder := by
  obtain ⟨e, hinput⟩ := h.placed.input
  exact folder_mem_visitsOf h.linkFree hinput

lemma proper_of_folder_visited (h : Completed cfg t t₀ r excluded) (p : Location)
    (hp : .folder p ∈ visitsOf cfg r t₀) : Proper (r.destination p) :=
  (proper_of_visited h.linkFree h.placed hp).1

lemma filled (h : Completed cfg t t₀ r excluded) :
    Filled (OnVisitedWay r (visitsOf cfg r t₀)) t₀
      (Build.makeFolders r t₀ (visitsOf cfg r t₀)).tree :=
  filled_buildFolders h.linkFree h.proper_of_folder_visited h.made

/-- At the place of a covered folder a build leaves a folder, or the file that stood there. -/
lemma place_of_folder (h : Completed cfg t t₀ r excluded) (hcov : Covered r p)
    (hfolder : t₀.get? p = some .folder) :
    ((run cfg t).tree.get? (r.destination p) = some .folder ∧
        ∀ bytes, t.get? (r.destination p) ≠ some (.file bytes)) ∨
      ∃ bytes, (run cfg t).tree.get? (r.destination p) = some (.file bytes) ∧
        t.get? (r.destination p) = some (.file bytes) := by
  have hvisited := h.folder_visited_iff.mpr ⟨hcov, hfolder⟩
  obtain ⟨e, he⟩ := h.filled.isSome ⟨p, hvisited, List.prefix_rfl⟩
  cases e with
  | folder =>
    refine .inl ⟨(h.walked.folder_iff h.free).mpr he, fun bytes hfile => ?_⟩
    rw [← h.walked.file_iff h.free, he] at hfile
    cases hfile
  | file bytes =>
    refine .inr ⟨bytes, ?_, (h.walked.file_iff h.free).mp he⟩
    rw [h.walked.elsewhere h.free, he]
    -- A job that brings a file here would bring it from the place of the folder.
    intro job hjob heq
    obtain ⟨p', bytes', hcov', hfile', rfl⟩ := (mem_ofVisits h.linkFree h.placed).mp hjob
    obtain rfl := destination_injective (h.placed.base_le hcov) (h.placed.base_le hcov') heq
    simp [hfolder] at hfile'
  | link target => exact absurd he ((h.walked.independent h.free).free _ target)

lemma exists_at_place_of_folder (h : Completed cfg t t₀ r excluded) (hcov : Covered r p)
    (hfolder : t₀.get? p = some .folder) :
    ∃ e, (run cfg t).tree.get? (r.destination p) = some e := by
  rcases h.place_of_folder hcov hfolder with ⟨hplace, -⟩ | ⟨bytes, hplace, -⟩
  · exact ⟨_, hplace⟩
  · exact ⟨_, hplace⟩

lemma exists_at_destination (h : Completed cfg t t₀ r excluded) {report : Report}
    (hrun : (run cfg t).result = .ok report) (hcov : Covered r p) {e : Entry}
    (he : t₀.get? p = some e) : ∃ e', (run cfg t).tree.get? (r.destination p) = some e' := by
  cases e with
  | folder => exact h.exists_at_place_of_folder hcov he
  | file bytes =>
    have hjob : jobOf r excluded p ∈ Job.ofVisits r excluded (visitsOf cfg r t₀) :=
      (mem_ofVisits h.linkFree h.placed).mpr ⟨p, bytes, hcov, he, rfl⟩
    obtain ⟨-, written, -, -, hdest⟩ := h.walked.succeeded h.free hrun hjob
    exact ⟨_, hdest⟩
  | link target => exact absurd he (h.linkFree p target)

lemma not_exists_below_blocking (h : Completed cfg t t₀ r excluded) {report : Report}
    (hrun : (run cfg t).result = .ok report) (hcov : Covered r p) {bytes : List UInt8}
    (hfile : (run cfg t).tree.get? (r.destination p) = some (.file bytes)) {n : Name}
    {rest : Location} (hbelow : Covered r (p ++ n :: rest)) :
    (run cfg t).tree.get? (p ++ n :: rest) = none := by
  rw [Option.eq_none_iff_forall_ne_some]
  intro e he
  have hne : p ++ n :: rest ≠ r.input := by
    intro heq
    exact not_append_le p (by simp) (heq ▸ hcov.1)
  have hout := hbelow.2.resolve_left hne
  rw [h.get?_run_of_not_output hout] at he
  -- Its place would have to stand below a file.
  obtain ⟨e', he'⟩ := h.exists_at_destination hrun hbelow he
  rw [destination_append (h.placed.base_le hcov)] at he'
  simp [get?_of_append_cons he'] at hfile

end Completed

/-- What a build from `t` to `t'` has done with folders: each that it covers has a folder at the same
path in the output, unless a file stood there. Such a file stays, and then the covered folder holds
nothing that would have to go behind the file. -/
structure MirrorsFolders (t t' : FileTree) (r : Roots) : Prop where
  folder_iff : ∀ p, Covered r p → t'.get? p = some .folder →
    ∃ names, p = r.base ++ names ∧ r.destination p = r.output ++ names ∧
      (t'.get? (r.destination p) = some .folder ↔
        ∀ bytes, t.get? (r.destination p) ≠ some (.file bytes))
  blocked : ∀ p bytes, Covered r p → t'.get? p = some .folder →
    t.get? (r.destination p) = some (.file bytes) →
    t'.get? (r.destination p) = some (.file bytes) ∧
      ∀ n rest, Covered r (p ++ n :: rest) → t'.get? (p ++ n :: rest) = none

/-- A build that gives a report has mirrored the folders of its input, but where files stood. -/
theorem run_mirrors_folders_around_files {report : Report} (hfree : LinkFree t)
    (hrun : (run cfg t).result = .ok report) :
    ∃ r, cfg.findInput t = .ok r.input ∧ cfg.findOutput (run cfg t).tree = .ok r.output ∧
      r.base = (if t.get? r.input = some .folder then r.input else r.input.dropLast) ∧
      MirrorsFolders t (run cfg t).tree r := by
  obtain ⟨t₀, r, excluded, hdone⟩ := exists_completed_of_ended hfree (.inl ⟨report, hrun⟩)
  refine ⟨r, hdone.prepared.findInput_eq hfree, hdone.prepared.findOutput_eq hfree,
    hdone.prepared.base_eq hfree, ?_, ?_⟩
  · intro p hcov hfolder
    have hfolder₀ := (hdone.covered_folder_iff hcov).mp hfolder
    obtain ⟨names, hp, hdest⟩ := hdone.placed.exists_relative hcov
    refine ⟨names, hp, hdest, ?_⟩
    rcases hdone.place_of_folder hcov hfolder₀ with ⟨hmirror, hnot⟩ | ⟨bytes, hkept, hfile⟩
    · exact iff_of_true hmirror hnot
    · exact iff_of_false (by simp [hkept]) fun hnot => hnot bytes hfile
  · intro p bytes hcov hfolder hfile
    have hfolder₀ := (hdone.covered_folder_iff hcov).mp hfolder
    rcases hdone.place_of_folder hcov hfolder₀ with ⟨-, hnot⟩ | ⟨bytes', hkept, hfile'⟩
    · exact absurd hfile (hnot bytes)
    · obtain rfl : bytes = bytes' := by simpa [hfile] using hfile'
      exact ⟨hkept, fun n rest hbelow => hdone.not_exists_below_blocking hrun hcov hkept hbelow⟩

/-- A file in the output where an empty folder of the input belongs. -/
def occupied : FileTree where
  entries :=
    [(["in".toList], .folder),
      (["in".toList, "empty".toList], .folder),
      (["in".toList, "lib".toList], .folder),
      (["in".toList, "lib".toList, "b.txt".toList], .file "two".toUTF8.toList),
      (["out".toList], .folder),
      (["out".toList, "empty".toList], .file "kept".toUTF8.toList)]
  distinct := by decide
  proper := by decide
  rooted := by decide

theorem run_mirrors_folders_around_files_occupied :
    LinkFree occupied ∧
      (run inToOut occupied).result = .ok
        { copied := 1, directories := 1, bytesIn := 3, bytesOut := 3 } ∧
      ∃ r, inToOut.findInput occupied = .ok r.input ∧
        inToOut.findOutput (run inToOut occupied).tree = .ok r.output ∧
        r.base = (if occupied.get? r.input = some .folder then r.input else r.input.dropLast) ∧
        MirrorsFolders occupied (run inToOut occupied).tree r := by
  have hfree : LinkFree occupied := by decide
  have hrun : (run inToOut occupied).result = .ok
      { copied := 1, directories := 1, bytesIn := 3, bytesOut := 3 } := by decide +kernel
  exact ⟨hfree, hrun, run_mirrors_folders_around_files hfree hrun⟩

/-- A build can give a report though a folder of its input has no folder in the output. -/
theorem run_leaves_folder_without_mirror :
    ¬∀ (cfg : Config) (t : FileTree) (report : Report) (i o : Location) (names : List Name),
      LinkFree t → (run cfg t).result = .ok report → cfg.findInput t = .ok i →
      cfg.findOutput (run cfg t).tree = .ok o → names ≠ [] → ¬o <+: i ++ names →
      t.get? (i ++ names) = some .folder → (run cfg t).tree.get? (o ++ names) = some .folder := by
  intro hmirrors
  have hkept : (run inToOut occupied).tree.get? ["out".toList, "empty".toList] =
      some (.file "kept".toUTF8.toList) := by decide +kernel
  have hfolder : (run inToOut occupied).tree.get? ["out".toList, "empty".toList] =
      some .folder :=
    hmirrors inToOut occupied { copied := 1, directories := 1, bytesIn := 3, bytesOut := 3 }
      ["in".toList] ["out".toList] ["empty".toList] (by decide) (by decide +kernel)
      (by decide +kernel) (by decide +kernel) (by decide) (by decide) (by decide)
  rw [hkept] at hfolder
  cases hfolder

end PhpSlim.Proofs
