import PhpSlim.Proofs.FolderMirror

/-!
# What a report says

A report counts the files that a build covers, their bytes before and after, and the folders that
are new in the output. The folders along the output path are made with the output itself and are
not counted, even where the path goes down below the output and up again.
-/

namespace PhpSlim.Proofs
open PhpSlim.FileTree PhpSlim.Build

variable {t t₀ t₁ : FileTree} {cfg : Config} {r : Roots} {excluded : List Glob.Pattern}
  {p q : Location} {jobs : List Job} {start report : Report} {job : Job}

/-- How many bytes the file at a location holds. -/
def sizeAt (t : FileTree) (p : Location) : Nat :=
  match t.get? p with
  | some (.file bytes) => bytes.length
  | _ => 0

lemma sizeAt_file {bytes : List UInt8} (h : t.get? p = some (.file bytes)) :
    sizeAt t p = bytes.length := by
  rw [sizeAt, h]

instance (excluded : List Glob.Pattern) (names : List Name) : Decidable (Optimized excluded names) :=
  inferInstanceAs (Decidable (_ ∧ _))

lemma addAll_of_succeeded {outcome : Job → Progress} {sizeIn sizeOut : Job → Nat}
    (h : ∀ job ∈ jobs, outcome job = .succeeded ⟨sizeIn job, sizeOut job⟩) (start : Report) :
    start.addAll (jobs.map fun job => (job, outcome job)) =
      { start with
        optimized := start.optimized + jobs.countP Job.optimize
        copied := start.copied + jobs.countP fun job => !job.optimize
        bytesIn := start.bytesIn + (jobs.map sizeIn).sum
        bytesOut := start.bytesOut + (jobs.map sizeOut).sum } := by
  induction jobs generalizing start with
  | nil => rfl
  | cons job jobs ih =>
    have hrest := ih (fun j hj => h j (List.mem_cons_of_mem job hj)) (start.add job (outcome job))
    rw [List.map_cons, addAll_cons, hrest, h job List.mem_cons_self, List.countP_cons,
      List.countP_cons]
    cases hopt : job.optimize <;> simp [Report.add, hopt] <;> omega

namespace Walked

lemma progress_eq (h : Walked cfg t t₁ jobs start) (hfree : LinkFree t)
    (hrun : (run cfg t).result = .ok report) (hjob : job ∈ jobs) :
    (job.run cfg t₁).2 =
      .succeeded ⟨sizeAt t job.source, sizeAt (run cfg t).tree job.destination⟩ := by
  have hind := h.independent hfree
  have hfits := hind.fits job hjob
  obtain ⟨bytes, written, hequipped⟩ := h.equipped hfree hrun hjob
  have hsource : t.get? job.source = some (.file bytes) := (h.file_iff hfree).mp hequipped.source
  have hdest := h.get?_destination hfree hjob
  rw [hequipped.get?_run hind.free hfits] at hdest
  rw [hequipped.run_eq hind.free hfits, sizeAt_file hsource, sizeAt_file hdest]

lemma report_eq (h : Walked cfg t t₁ jobs start) (hfree : LinkFree t)
    (hrun : (run cfg t).result = .ok report) :
    report = { start with
      optimized := start.optimized + jobs.countP Job.optimize
      copied := start.copied + jobs.countP fun job => !job.optimize
      bytesIn := start.bytesIn + (jobs.map fun job => sizeAt t job.source).sum
      bytesOut :=
        start.bytesOut + (jobs.map fun job => sizeAt (run cfg t).tree job.destination).sum } := by
  obtain ⟨-, hreport⟩ := verdict_eq_ok (h.run_eq.2.symm.trans hrun)
  rw [← hreport, h.runAll_eq hfree]
  exact addAll_of_succeeded (fun job hjob => h.progress_eq hfree hrun hjob) start

end Walked

lemma card_filter_toFinset {l : List Location} (h : l.Nodup) (P : Location → Prop)
    [DecidablePred P] : (l.toFinset.filter P).card = l.countP P := by
  have hfilter : l.toFinset.filter P = (l.filter P).toFinset := by
    ext p
    simp
  rw [hfilter, List.toFinset_card_of_nodup (h.filter _), List.countP_eq_length_filter]

lemma exists_of_passes (hfree : LinkFree t) {here : Location} {pieces : List Name}
    (hpieces : pieces ≠ []) (hfind : t.find here pieces = .ok p) (hq : Passes here pieces q) :
    ∃ e, t.get? q = some e := by
  have hwalk := find_eq_ok_iff.mp hfind
  obtain ⟨front, ⟨rest, rfl⟩, rfl⟩ := hq
  by_cases hfront : front = []
  · subst hfront
    obtain ⟨n, rest, rfl⟩ := List.exists_cons_of_ne_nil hpieces
    exact ⟨_, (walk_cons_existing hfree hwalk).1⟩
  · obtain ⟨q, hq⟩ : ∃ q, t.lookup true maxLinks here front = .ok (.existing q) :=
      walk_front hfree hwalk
    rw [← walk_existing hfree hq]
    exact walk_isSome hfree hfront hq

lemma Prepared.get?_eq_none_iff (h : Prepared cfg t t₀ r excluded) (hfree : LinkFree t) :
    t₀.get? q = none ↔ t.get? q = none ∧ ¬OnWay cfg q := by
  obtain ⟨-, -, hfind⟩ := findPath_eq_ok (roots_eq_ok h.roots).2.1
  constructor
  · intro hnone
    constructor
    · rw [Option.eq_none_iff_forall_ne_some]
      intro e he
      simp [(h.confined hfree).keeps he] at hnone
    · intro hway
      obtain ⟨e, he⟩ := exists_of_passes (h.linkFree hfree) (List.splitOn_ne_nil _ _) hfind hway
      simp [he] at hnone
  · rintro ⟨hnone, hway⟩
    rcases h.confined hfree q with heq | ⟨hmade, -, -⟩ | ⟨hno, -, -⟩
    · rw [heq, hnone]
    · exact absurd hmade hway
    · exact hno.elim

lemma pairwise_foldersOf (hfree : LinkFree t) :
    (foldersOf (visitsOf cfg r t)).Pairwise fun p p' => ¬p' <+: p := by
  refine (pairwise_visitsOf hfree).filterMap _ ?_
  intro v v' hahead p hp p' hp'
  obtain rfl := folderOf_eq_some_iff.mp hp
  obtain rfl := folderOf_eq_some_iff.mp hp'
  obtain ⟨q, hq, hnot⟩ := hahead
  obtain rfl : p = q := by simpa [placeOf] using hq
  exact hnot p' rfl

/-- The folders of the output that a build makes for the folders that it covers. -/
def newFolders (cfg : Config) (r : Roots) (t : FileTree) : List Location :=
  ((foldersOf (visitsOf cfg r t)).filter fun p => t.get? (r.destination p) = none).map r.destination

namespace Completed

lemma pairwise_destination (h : Completed cfg t t₀ r excluded) :
    (foldersOf (visitsOf cfg r t₀)).Pairwise fun p p' => ¬r.destination p' <+: r.destination p := by
  have hbase {p : Location} (hp : p ∈ foldersOf (visitsOf cfg r t₀)) : r.base <+: p :=
    h.placed.base_le (h.folder_visited_iff.mp (mem_foldersOf.mp hp)).1
  refine (pairwise_foldersOf h.linkFree).imp_of_mem fun hp hp' hnot => ?_
  rwa [destination_le_iff (hbase hp) (hbase hp')]

lemma nodup_newFolders (h : Completed cfg t t₀ r excluded) : (newFolders cfg r t₀).Nodup := by
  refine (h.pairwise_destination.filter _).map _ ?_
  rintro p p' hnot heq
  exact hnot (heq ▸ List.prefix_rfl)

lemma made_eq (h : Completed cfg t t₀ r excluded) :
    (Build.makeFolders r t₀ (visitsOf cfg r t₀)).made = (newFolders cfg r t₀).length := by
  rw [made_buildFolders h.linkFree h.proper_of_folder_visited h.pairwise_destination h.made,
    newFolders, List.length_map, List.countP_eq_length_filter]

lemma exists_visited_of_le (h : Completed cfg t t₀ r excluded)
    (hp : .folder p ∈ visitsOf cfg r t₀) (hout : r.output <+: q) (hne : q ≠ r.output)
    (hq : q <+: r.destination p) : ∃ p', .folder p' ∈ visitsOf cfg r t₀ ∧ r.destination p' = q := by
  obtain ⟨hcov, hfolder⟩ := h.folder_visited_iff.mp hp
  have hbase : r.base = r.input := by
    rw [h.placed.base, if_pos]
    by_contra hinput
    rw [eq_input_of_covered hcov hfolder hinput] at hfolder
    exact hinput hfolder
  obtain ⟨names, rfl⟩ := hout
  obtain ⟨names', rfl, hdest⟩ := h.placed.exists_relative hcov
  rw [hdest, List.prefix_append_right_inj] at hq
  obtain ⟨below, rfl⟩ := hq
  have hle : r.base ++ names <+: r.base ++ (names ++ below) := by simp
  refine ⟨r.base ++ names, h.folder_visited_iff.mpr ⟨⟨?_, .inr ?_⟩, ?_⟩,
    destination_base_append r names⟩
  · rw [hbase]
    exact List.prefix_append _ _
  · intro hout
    rcases hcov.2 with hroot | hnot
    · obtain ⟨rfl, -⟩ : names = [] ∧ below = [] := by simpa [hbase] using hroot
      exact hne (List.append_nil _)
    · exact hnot (hout.trans hle)
  · by_cases heq : r.base ++ names = r.base ++ (names ++ below)
    · rw [heq, hfolder]
    · exact get?_along hfolder hle heq

/-- The new folders are those that stand below the output at the end, but neither stood there before
nor were made with the output itself. -/
lemma mem_newFolders_iff (h : Completed cfg t t₀ r excluded) :
    q ∈ newFolders cfg r t₀ ↔ r.output <+: q ∧ q ≠ r.output ∧
      (run cfg t).tree.get? q = some .folder ∧ t.get? q = none ∧ ¬OnWay cfg q := by
  rw [← h.prepared.get?_eq_none_iff h.free]
  constructor
  · intro hq
    obtain ⟨p, hp, rfl⟩ := List.mem_map.mp hq
    obtain ⟨hp, hnone⟩ := List.mem_filter.mp hp
    have hnone : t₀.get? (r.destination p) = none := by simpa using hnone
    obtain ⟨hcov, hfolder⟩ := h.folder_visited_iff.mp (mem_foldersOf.mp hp)
    refine ⟨h.placed.output_le_destination hcov, ?_, ?_, hnone⟩
    · intro heq
      simp [heq, h.prepared.get?_output h.free] at hnone
    · rcases h.place_of_folder hcov hfolder with ⟨hplace, -⟩ | ⟨bytes, -, hfile⟩
      · exact hplace
      · simp [h.opened.keeps hfile] at hnone
  · rintro ⟨hout, hne, hfolder, hnone⟩
    rw [h.walked.folder_iff h.free] at hfolder
    rcases h.filled q with ⟨heq, -⟩ | ⟨⟨p, hp, hle⟩, -, -⟩
    · simp [heq, hnone] at hfolder
    · obtain ⟨p', hp', rfl⟩ := h.exists_visited_of_le hp hout hne hle
      exact List.mem_map_of_mem (List.mem_filter.mpr ⟨mem_foldersOf.mpr hp', by simp [hnone]⟩)

end Completed

lemma optimize_jobOf_eq (r : Roots) (excluded : List Glob.Pattern) (p : Location) :
    (jobOf r excluded p).optimize = decide (Optimized excluded (r.relative p)) := by
  rw [Bool.eq_iff_iff, optimize_jobOf, decide_eq_true_iff]

lemma Completed.report_eq (h : Completed cfg t t₀ r excluded)
    (hrun : (run cfg t).result = .ok report) :
    report =
      { optimized := (filesOf (visitsOf cfg r t₀)).countP fun p => Optimized excluded (r.relative p)
        copied := (filesOf (visitsOf cfg r t₀)).countP fun p => ¬Optimized excluded (r.relative p)
        directories := (newFolders cfg r t₀).length
        failed := 0
        bytesIn := ((filesOf (visitsOf cfg r t₀)).map (sizeAt t)).sum
        bytesOut := ((filesOf (visitsOf cfg r t₀)).map fun p =>
          sizeAt (run cfg t).tree (r.destination p)).sum } := by
  rw [h.walked.report_eq h.free hrun, ofVisits_eq_map, h.made_eq,
    failedVisits_visitsOf h.linkFree h.placed]
  simp only [List.countP_map, List.map_map, Nat.zero_add, Function.comp_def, optimize_jobOf_eq,
    decide_not]
  rfl

/-- What a report says of a build from `t` to `t'`: its counts are those of the covered files and of
the new folders in the output, without those along the output path. -/
structure Accounts (cfg : Config) (t t' : FileTree) (r : Roots) (excluded : List Glob.Pattern)
    (report : Report) : Prop where
  failed : report.failed = 0
  files : ∃ files : Finset Location,
    (∀ p, p ∈ files ↔ Covered r p ∧ ∃ bytes, t.get? p = some (.file bytes)) ∧
      report.optimized = (files.filter fun p => Optimized excluded (r.relative p)).card ∧
      report.copied = (files.filter fun p => ¬Optimized excluded (r.relative p)).card ∧
      report.bytesIn = ∑ p ∈ files, sizeAt t p ∧
      report.bytesOut = ∑ p ∈ files, sizeAt t' (r.destination p)
  folders : ∃ folders : Finset Location,
    (∀ q, q ∈ folders ↔ r.output <+: q ∧ q ≠ r.output ∧ t'.get? q = some .folder ∧
      t.get? q = none ∧ ¬OnWay cfg q) ∧
      report.directories = folders.card

/-- The report of a build is an exact account of it. -/
theorem report_accounts_for_run (hfree : LinkFree t) (hrun : (run cfg t).result = .ok report) :
    ∃ r excluded, cfg.findInput t = .ok r.input ∧ cfg.findOutput (run cfg t).tree = .ok r.output ∧
      r.base = (if t.get? r.input = some .folder then r.input else r.input.dropLast) ∧
      Exclusion.ofEntries cfg.excludes = .ok excluded ∧
      Accounts cfg t (run cfg t).tree r excluded report := by
  obtain ⟨t₀, r, excluded, hdone⟩ := exists_completed_of_ended hfree (.inl ⟨report, hrun⟩)
  have hreport := hdone.report_eq hrun
  have hnodup : (filesOf (visitsOf cfg r t₀)).Nodup := nodup_filesOf (nodup_visitsOf hdone.linkFree)
  refine ⟨r, excluded, hdone.prepared.findInput_eq hfree, hdone.prepared.findOutput_eq hfree,
    hdone.prepared.base_eq hfree, hdone.prepared.exclusions, ?_,
    ⟨(filesOf (visitsOf cfg r t₀)).toFinset, ?_, ?_, ?_, ?_, ?_⟩,
    ⟨(newFolders cfg r t₀).toFinset, ?_, ?_⟩⟩
  · rw [hreport]
  · intro p
    obtain ⟨e, hinput⟩ := hdone.placed.input
    rw [List.mem_toFinset, mem_filesOf, file_mem_visitsOf hdone.linkFree hinput]
    simp only [hdone.opened.file_iff]
  · rw [hreport, card_filter_toFinset hnodup]
  · rw [hreport, card_filter_toFinset hnodup]
  · rw [hreport, List.sum_toFinset _ hnodup]
  · rw [hreport, List.sum_toFinset _ hnodup]
  · intro q
    rw [List.mem_toFinset, hdone.mem_newFolders_iff]
  · rw [hreport, List.toFinset_card_of_nodup hdone.nodup_newFolders]

theorem report_accounts_for_run_inside_its_input :
    LinkFree site ∧
      (run intoItself site).result = .ok
        { optimized := 1, copied := 1, directories := 2, bytesIn := 24, bytesOut := 17 } ∧
      ∃ r excluded, intoItself.findInput site = .ok r.input ∧
        intoItself.findOutput (run intoItself site).tree = .ok r.output ∧
        r.base = (if site.get? r.input = some .folder then r.input else r.input.dropLast) ∧
        Exclusion.ofEntries intoItself.excludes = .ok excluded ∧
        Accounts intoItself site (run intoItself site).tree r excluded
          { optimized := 1, copied := 1, directories := 2, bytesIn := 24, bytesOut := 17 } := by
  have hfree : LinkFree site := by decide
  have hrun : (run intoItself site).result = .ok
      { optimized := 1, copied := 1, directories := 2, bytesIn := 24, bytesOut := 17 } := by
    decide +kernel
  exact ⟨hfree, hrun, report_accounts_for_run hfree hrun⟩

/-- Brings `site` to a folder by a way that goes down below it and up again. -/
def downAndUp : Config where
  here := []
  input := "site".toList
  output := "out/sub/..".toList

/-- A folder below the output can be new and yet not be counted: `sub` on the way to it. -/
theorem report_leaves_out_folder_on_way :
    ¬∀ (cfg : Config) (t : FileTree) (report : Report) (o : Location), LinkFree t →
      (run cfg t).result = .ok report → cfg.findOutput (run cfg t).tree = .ok o →
      ∃ folders : Finset Location,
        (∀ q, q ∈ folders ↔ o <+: q ∧ q ≠ o ∧ (run cfg t).tree.get? q = some .folder ∧
          t.get? q = none) ∧
          report.directories = folders.card := by
  intro hcounts
  obtain ⟨folders, hmem, hcard⟩ := hcounts downAndUp site
    { optimized := 1, copied := 1, directories := 1, bytesIn := 24, bytesOut := 17 }
    ["out".toList] (by decide) (by decide +kernel) (by decide +kernel)
  have hsub : ["out".toList, "sub".toList] ∈ folders :=
    (hmem _).mpr ⟨by decide, by decide, by decide +kernel, by decide⟩
  have hlib : ["out".toList, "lib".toList] ∈ folders :=
    (hmem _).mpr ⟨by decide, by decide, by decide +kernel, by decide⟩
  have htwo : 1 < folders.card := Finset.one_lt_card.mpr ⟨_, hsub, _, hlib, by decide⟩
  rw [← hcard] at htwo
  exact Nat.lt_irrefl 1 htwo

end PhpSlim.Proofs
