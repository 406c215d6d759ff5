import PhpSlim.Proofs.AbsentFiles

/-!
# Jobs that fail

A build in which jobs fail counts them all and fails itself. A job that fails leaves what stood at
its destination, and all other jobs write what they would write if the files that fail were not
there.
-/

namespace PhpSlim.Proofs
open PhpSlim.FileTree PhpSlim.Build

variable {t t' t₁ t₁' : FileTree} {cfg : Config} {job : Job} {jobs : List Job}
  {ran : List (Job × Progress)} {gone : List Location} {r : Roots} {excluded : List Glob.Pattern}

lemma failedVisits_visitsOf (hfree : LinkFree t) (hr : Placed t r) :
    failedVisits (visitsOf cfg r t) = 0 := by
  obtain ⟨e, hinput⟩ := hr.input
  rw [failedVisits, List.countP_eq_zero]
  intro v hv
  obtain ⟨p, -, -, rfl⟩ := (mem_visitsOf hfree hinput v).mp hv
  unfold visitOf
  split_ifs <;> simp

namespace Walked

variable {start : Report} {x : Job × Progress}

lemma failed_start (h : Walked cfg t t₁ jobs start) (hfree : LinkFree t) : start.failed = 0 := by
  obtain ⟨hprep, -⟩ := h
  exact failedVisits_visitsOf (hprep.linkFree hfree) (hprep.placed hfree)

lemma result_eq (h : Walked cfg t t₁ jobs start) (hfree : LinkFree t) :
    (run cfg t).result =
      if (∀ x ∈ (Job.runAll cfg t₁ jobs).2, notSucceeded x.2 = false) then
        .ok (start.addAll (Job.runAll cfg t₁ jobs).2)
      else .error (.incomplete ((Job.runAll cfg t₁ jobs).2.countP fun x => notSucceeded x.2)) := by
  have hcount : (start.addAll (Job.runAll cfg t₁ jobs).2).failed =
      (Job.runAll cfg t₁ jobs).2.countP fun x => notSucceeded x.2 := by
    rw [failed_addAll, h.failed_start hfree, Nat.zero_add]
  rw [h.run_eq.2, verdict, hcount]
  simp only [List.countP_eq_zero, Bool.not_eq_true]

lemma outcome (h : Walked cfg t t₁ jobs start) (hfree : LinkFree t)
    (hx : x ∈ (Job.runAll cfg t₁ jobs).2) : x.1 ∈ jobs ∧ x.2 = (x.1.run cfg t₁).2 := by
  rw [h.runAll_eq hfree] at hx
  obtain ⟨job, hjob, rfl⟩ := List.mem_map.mp hx
  exact ⟨hjob, rfl⟩

lemma outcome_cases (h : Walked cfg t t₁ jobs start) (hfree : LinkFree t)
    (hx : x ∈ (Job.runAll cfg t₁ jobs).2) :
    (notSucceeded x.2 = true ∧
        (run cfg t).tree.get? x.1.destination = t₁.get? x.1.destination) ∨
      (notSucceeded x.2 = false ∧
        ∃ bytes, (run cfg t).tree.get? x.1.destination = some (.file bytes)) := by
  obtain ⟨hjob, hprogress⟩ := h.outcome hfree hx
  have hind := h.independent hfree
  have hcases : (∃ error, x.1.run cfg t₁ = (t₁, .failed error)) ∨ _ :=
    run_cases hind.free (hind.fits x.1 hjob)
  rw [hprogress, h.get?_destination hfree hjob]
  rcases hcases with ⟨error, hfailed⟩ | ⟨bytes, written, -, -, hdone, hwritten⟩
  · rw [hfailed]
    exact .inl ⟨rfl, rfl⟩
  · rw [hdone]
    exact .inr ⟨rfl, written, hwritten⟩

lemma file_iff (h : Walked cfg t t₁ jobs start) (hfree : LinkFree t) {q : Location}
    {bytes : List UInt8} : t₁.get? q = some (.file bytes) ↔ t.get? q = some (.file bytes) := by
  obtain ⟨hprep, -⟩ := h
  have hfolders : Confined _ (fun _ => False) _ _ :=
    confined_visitedFolders cfg (hprep.linkFree hfree) (hprep.placed hfree)
  rw [hfolders.file_iff, (hprep.confined hfree).file_iff]

end Walked

lemma dropLast_ne {p : Location} (hp : p ≠ []) : p.dropLast ≠ p := by
  intro heq
  have hlength := congrArg List.length heq
  have hpos := List.length_pos_iff.mpr hp
  rw [List.length_dropLast] at hlength
  omega

lemma solo_local (hfree : LinkFree t) (hfree' : LinkFree t') (hfits : Fits t job)
    (hsource : t'.get? job.source = t.get? job.source)
    (hparent : t'.get? job.destination.dropLast = t.get? job.destination.dropLast)
    (hdest : t'.get? job.destination = t.get? job.destination) (k : Nat) :
    (solo cfg t' job k).2 = (solo cfg t job k).2 ∧
      (solo cfg t' job k).1.get? job.destination = (solo cfg t job k).1.get? job.destination := by
  have hfits' : Fits t' job :=
    ⟨hsource ▸ hfits.source, hfits.proper, hfits.inner, hparent ▸ hfits.parent⟩
  have helsewhere {k : Nat} {q : Location} (hq : q ≠ job.destination)
      (heq : t'.get? q = t.get? q) :
      (solo cfg t' job k).1.get? q = (solo cfg t job k).1.get? q := by
    rw [solo_elsewhere hfree hfits k hq, solo_elsewhere hfree' hfits' k hq, heq]
  induction k with
  | zero => exact ⟨rfl, hdest⟩
  | succ k ih =>
    obtain ⟨hprogress, hview⟩ := ih
    have hsource' : (solo cfg t' job k).1.get? job.source =
        (solo cfg t job k).1.get? job.source := by
      by_cases hown : job.source = job.destination
      · -- The job writes over its own source.
        rw [hown, hview]
      · exact helsewhere hown hsource
    have hparent' := helsewhere (k := k) (dropLast_ne hfits.inner) hparent
    rw [solo, solo, hprogress]
    exact step_local (linkFree_solo hfree hfits.proper k) (linkFree_solo hfree' hfits.proper k)
      (hfits.solo hfree k) hsource' hparent' hview _

namespace Lacks

lemma buildFolders (h : Lacks gone t t') (hfree : LinkFree t) (hr : Placed t r) (hr' : Placed t' r)
    (hout : ∀ q ∈ gone, ¬r.output <+: q)
    (hmade : (Build.makeFolders r t (visitsOf cfg r t)).result = .ok ()) :
    (Build.makeFolders r t' (visitsOf cfg r t')).result = .ok () ∧
      ∀ q, q ∉ gone → (Build.makeFolders r t' (visitsOf cfg r t')).tree.get? q =
        (Build.makeFolders r t (visitsOf cfg r t)).tree.get? q := by
  have hfree' := h.linkFree hfree
  have hvisited {p : Location} : .folder p ∈ visitsOf cfg r t' ↔ .folder p ∈ visitsOf cfg r t := by
    obtain ⟨e, hinput⟩ := hr.input
    obtain ⟨e', hinput'⟩ := hr'.input
    rw [folder_mem_visitsOf hfree hinput, folder_mem_visitsOf hfree' hinput', h.folder_iff]
  have hproper : ∀ p, .folder p ∈ visitsOf cfg r t → Proper (r.destination p) :=
    fun p hp => (proper_of_visited hfree hr hp).1
  have hproper' : ∀ p, .folder p ∈ visitsOf cfg r t' → Proper (r.destination p) :=
    fun p hp => hproper p (hvisited.mp hp)
  have hmade' : (Build.makeFolders r t' (visitsOf cfg r t')).result = .ok () := by
    rw [buildFolders_eq_ok_iff hfree hproper] at hmade
    rw [buildFolders_eq_ok_iff hfree' hproper']
    intro p hp
    obtain ⟨hlong, hplace⟩ := hmade p (hvisited.mp hp)
    have hkept : r.destination p ∉ gone := fun hgone =>
      hout _ hgone (proper_of_visited hfree hr (hvisited.mp hp)).2
    refine ⟨hlong, hplace.imp ?_ ?_⟩
    · rw [h.others _ hkept]
      exact id
    · exact fun hclear q hq bytes hfile => hclear q hq bytes (h.eq_of_some hfile)
  have hways (q : Location) :
      OnVisitedWay r (visitsOf cfg r t) q ↔ OnVisitedWay r (visitsOf cfg r t') q := by
    simp only [OnVisitedWay, hvisited]
  have hfilled := filled_buildFolders hfree hproper hmade
  have hfilled' := (filled_buildFolders hfree' hproper' hmade').congr hways
  exact ⟨hmade', fun q hq => hfilled'.get?_eq hfilled (h.others q hq)⟩

/-- Without some of its files a build brings every other file to the output as before. -/
theorem get?_destination (h : Lacks gone t t') (hfree : LinkFree t)
    (hprep : Prepared cfg t t₁ r excluded)
    (hmade : (Build.makeFolders r t₁ (visitsOf cfg r t₁)).result = .ok ())
    (hcovered : ∀ q ∈ gone, Covered r q) (hinput : r.input ∉ gone)
    (hjob : job ∈ Job.ofVisits r excluded (visitsOf cfg r t₁)) (hsource : job.source ∉ gone) :
    (run cfg t').tree.get? job.destination = (run cfg t).tree.get? job.destination := by
  obtain ⟨t₁', hprep', hlacks⟩ := h.prepared hfree hprep hinput
  have hfree' := h.linkFree hfree
  have hfree₁ := hprep.linkFree hfree
  have hr := hprep.placed hfree
  have hr' := hprep'.placed hfree'
  have hout : ∀ q ∈ gone, ¬r.output <+: q := by
    intro q hq
    refine (hcovered q hq).2.resolve_left ?_
    rintro rfl
    exact hinput hq
  obtain ⟨hmade', hsame⟩ := hlacks.buildFolders hfree₁ hr hr' hout hmade
  have hwalk := Walked.intro hprep hmade
  have hwalk' := Walked.intro hprep' hmade'
  obtain ⟨p, bytes, hcov, hfile, rfl⟩ := (mem_ofVisits hfree₁ hr).mp hjob
  have hfile' : t₁'.get? p = some (.file bytes) := by rw [hlacks.others p hsource, hfile]
  have hjob' : jobOf r excluded p ∈ Job.ofVisits r excluded (visitsOf cfg r t₁') :=
    (mem_ofVisits (hlacks.linkFree hfree₁) hr').mpr ⟨p, bytes, hcov, hfile', rfl⟩
  have hinside {q : Location} (hq : r.output <+: q) : q ∉ gone := fun hgone => hout q hgone hq
  have hdest := hsame _ (hinside (List.prefix_append r.output (r.relative p)))
  have hparent := hsame _ (hinside (List.prefix_append r.output (r.relative p.dropLast)))
  have hdropped : r.destination p.dropLast = (r.destination p).dropLast :=
    (hr.dropLast_destination hcov hfile).symm
  have hind := hwalk.independent hfree
  rw [hwalk.get?_destination hfree hjob, hwalk'.get?_destination hfree' hjob']
  exact (solo_local hind.free (hwalk'.independent hfree').free (hind.fits _ hjob)
    (hsame p hsource) (hdropped ▸ hparent) hdest 3).2

end Lacks

/-- A job writes what it writes in a build without the files of other jobs. -/
theorem Walked.get?_destination_without {start : Report} (h : Walked cfg t t₁ jobs start)
    (hfree : LinkFree t) (hjob : job ∈ jobs)
    (hgone : ∀ q ∈ gone, ∃ other ∈ jobs, other ≠ job ∧ other.source = q) :
    (run cfg (withoutFiles t gone)).tree.get? job.destination =
      (run cfg t).tree.get? job.destination := by
  obtain @⟨t₀, r, excluded, hprep, hmade⟩ := h
  have hfree₀ := hprep.linkFree hfree
  have hr := hprep.placed hfree
  have hsources : ∀ q ∈ gone,
      q ≠ job.source ∧ Covered r q ∧ ∃ bytes, t₀.get? q = some (.file bytes) := by
    intro q hq
    obtain ⟨other, hother, hne, rfl⟩ := hgone q hq
    obtain ⟨p, bytes, hcov, hfile, rfl⟩ := (mem_ofVisits hfree₀ hr).mp hother
    obtain ⟨p', -, -, -, rfl⟩ := (mem_ofVisits hfree₀ hr).mp hjob
    refine ⟨?_, hcov, bytes, hfile⟩
    rintro rfl
    exact hne rfl
  have hlacks : Lacks gone t (withoutFiles t gone) := lacks_withoutFiles fun q hq => by
    obtain ⟨-, -, bytes, hfile⟩ := hsources q hq
    exact ⟨bytes, (hprep.confined hfree).file_iff.mp hfile⟩
  refine hlacks.get?_destination hfree hprep hmade (fun q hq => (hsources q hq).2.1) ?_ hjob
    fun hq => (hsources _ hq).1 rfl
  -- A single file that is the input has no other job beside its own.
  intro hinput
  obtain ⟨hne, -, bytes, hfile⟩ := hsources _ hinput
  obtain ⟨p, bytes', hcov, hfile', rfl⟩ := (mem_ofVisits hfree₀ hr).mp hjob
  exact hne (eq_input_of_covered hcov hfile' (by simp [hfile])).symm

/-- The sources of the jobs that have failed. -/
def failedSources (ran : List (Job × Progress)) : List Location :=
  (ran.filter fun x => notSucceeded x.2).map fun x => x.1.source

lemma Walked.other_of_failed {start : Report} (h : Walked cfg t t₁ jobs start) (hfree : LinkFree t)
    {x : Job × Progress} (hx : x ∈ (Job.runAll cfg t₁ jobs).2) (hdone : notSucceeded x.2 = false) :
    ∀ q ∈ failedSources (Job.runAll cfg t₁ jobs).2, ∃ other ∈ jobs, other ≠ x.1 ∧
      other.source = q := by
  intro q hq
  obtain ⟨y, hy, rfl⟩ := List.mem_map.mp hq
  obtain ⟨hy, hfailed⟩ := List.mem_filter.mp hy
  obtain ⟨hjob, hprogress⟩ := h.outcome hfree hy
  refine ⟨y.1, hjob, ?_, rfl⟩
  intro heq
  rw [hprogress, heq, ← (h.outcome hfree hx).2, hdone] at hfailed
  cases hfailed

/-- What a build on `t` makes of jobs some of which may fail; `ran` are its jobs with what they came
to. -/
structure IsolatesFailures (cfg : Config) (t : FileTree) (ran : List (Job × Progress)) : Prop where
  report_iff : (∃ report, (run cfg t).result = .ok report) ↔ ∀ x ∈ ran, notSucceeded x.2 = false
  counted : ¬(∀ x ∈ ran, notSucceeded x.2 = false) →
    (run cfg t).result = .error (.incomplete (ran.countP fun x => notSucceeded x.2))
  succeeded : ∀ x ∈ ran, notSucceeded x.2 = false →
    ∃ bytes, (run cfg t).tree.get? x.1.destination = some (.file bytes) ∧
      (run cfg (withoutFiles t (failedSources ran))).tree.get? x.1.destination =
        some (.file bytes)
  failed : ∀ x ∈ ran, notSucceeded x.2 = true → ∀ bytes,
    (run cfg t).tree.get? x.1.destination = some (.file bytes) ↔
      t.get? x.1.destination = some (.file bytes)

/-- Where the walk of a build completes, all its jobs run, it reports if and only if none of them
fails, and those that fail do not touch what the others do. -/
theorem run_isolates_failures {start : Report} (hfree : LinkFree t)
    (hwalk : Walked cfg t t₁ jobs start) :
    (Job.runAll cfg t₁ jobs).2.map Prod.fst = jobs ∧
      IsolatesFailures cfg t (Job.runAll cfg t₁ jobs).2 := by
  have hresult := hwalk.result_eq hfree
  refine ⟨?_, ?_, ?_, ?_, ?_⟩
  · rw [hwalk.runAll_eq hfree, List.map_map]
    exact List.map_id jobs
  · rw [hresult]
    split_ifs with hnone
    · exact iff_of_true ⟨_, rfl⟩ hnone
    · exact iff_of_false (by simp) hnone
  · intro hsome
    rw [hresult, if_neg hsome]
  · intro x hx hdone
    rcases hwalk.outcome_cases hfree hx with ⟨hfailed, -⟩ | ⟨-, bytes, hbytes⟩
    · rw [hdone] at hfailed
      cases hfailed
    · have hother := hwalk.other_of_failed hfree hx hdone
      have hjob := (hwalk.outcome hfree hx).1
      exact ⟨bytes, hbytes, (hwalk.get?_destination_without hfree hjob hother).trans hbytes⟩
  · intro x hx hfailed bytes
    rcases hwalk.outcome_cases hfree hx with ⟨-, hkept⟩ | ⟨hdone, -⟩
    · rw [hkept, hwalk.file_iff hfree]
    · rw [hfailed] at hdone
      cases hdone

/-- A source that is no UTF-8 text, one that is, and a file where the output has a folder. -/
def mixed : FileTree where
  entries :=
    [(["in".toList], .folder),
      (["in".toList, "bad.php".toList], .file ("<?php ".toUTF8.toList ++ [0xFF])),
      (["in".toList, "good.php".toList], .file "<?php  1;".toUTF8.toList),
      (["in".toList, "notes".toList], .file "two".toUTF8.toList),
      (["out".toList], .folder),
      (["out".toList, "bad.php".toList], .file "old".toUTF8.toList),
      (["out".toList, "notes".toList], .folder)]
  distinct := by decide
  proper := by decide
  rooted := by decide

def inToOut : Config where
  here := []
  input := "in".toList
  output := "out".toList

lemma prepared_mixed :
    Prepared inToOut mixed mixed ⟨["in".toList], ["in".toList], ["out".toList]⟩ [] where
  checked := by decide +kernel
  opened := Prod.ext rfl (by decide +kernel)
  roots := by decide +kernel
  exclusions := rfl

theorem run_isolates_failures_of_two_jobs :
    LinkFree mixed ∧ ∃ t₁ jobs start, Walked inToOut mixed t₁ jobs start ∧
      (run inToOut mixed).result = .error (.incomplete 2) ∧
      (Job.runAll inToOut t₁ jobs).2.map Prod.fst = jobs ∧
      IsolatesFailures inToOut mixed (Job.runAll inToOut t₁ jobs).2 := by
  have hfree : LinkFree mixed := by decide
  have hwalk := Walked.intro prepared_mixed (by decide +kernel)
  exact ⟨hfree, _, _, _, hwalk, by decide +kernel, run_isolates_failures hfree hwalk⟩

end PhpSlim.Proofs
