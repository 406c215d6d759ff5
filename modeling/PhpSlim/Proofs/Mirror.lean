import PhpSlim.Proofs.ExclusionCover
import PhpSlim.Proofs.JobInterleaving

/-!
# The output mirrors the input

A build that gives a report has brought every file it covers to the output folder, at the same path
and with the bytes it has to have there. All other files are as they were.
-/

namespace PhpSlim.Proofs
open PhpSlim.FileTree PhpSlim.Build

variable {t t₁ : FileTree} {cfg : Config}

/-- Whether the file with these names on the way to it is optimized: it is a source, and no
exclusion matches its path, each backslash read as a slash. -/
def Optimized (excluded : List Glob.Pattern) (names : List Name) : Prop :=
  Path.isPhpSource (Path.relative names) = true ∧
    ¬Excludes excluded ((Path.relative names).map fun c => if c = '\\' then '/' else c)

/-- What the bytes of a file become. -/
inductive Becomes (cfg : Config) (optimize : Prop) (bytes : List UInt8) : List UInt8 → Prop
  | optimized {text written} : optimize → cfg.inputCharset.decode bytes = .ok text →
      cfg.outputCharset.encode (Stage.run cfg.stages text) = .ok written →
      Becomes cfg optimize bytes written
  | copied : ¬optimize → cfg.inputCharset = cfg.outputCharset → Becomes cfg optimize bytes bytes
  | recoded {text written} : ¬optimize → cfg.inputCharset ≠ cfg.outputCharset →
      cfg.inputCharset.decode bytes = .ok text → cfg.outputCharset.encode text = .ok written →
      Becomes cfg optimize bytes written

lemma optimize_jobOf (r : Roots) (excluded : List Glob.Pattern) (p : Location) :
    (jobOf r excluded p).optimize = true ↔ Optimized excluded (r.relative p) := by
  simp [jobOf, Optimized, ← covers_iff]

lemma recoded_eq_ok {f : List Char → List Char} {bytes written : List UInt8}
    (h : (do
      let text ← (cfg.inputCharset.decode bytes).mapError JobError.undecodable
      (cfg.outputCharset.encode (f text)).mapError .unencodable) = .ok written) :
    ∃ text, cfg.inputCharset.decode bytes = .ok text ∧
      cfg.outputCharset.encode (f text) = .ok written := by
  cases hdecode : cfg.inputCharset.decode bytes with
  | error e => simp [hdecode, Except.mapError, bind, Except.bind] at h
  | ok text =>
    refine ⟨text, rfl, ?_⟩
    cases hencode : cfg.outputCharset.encode (f text) with
    | error e => simp [hdecode, hencode, Except.mapError, bind, Except.bind] at h
    | ok w => simpa [hdecode, hencode, Except.mapError, bind, Except.bind] using h

lemma becomes_of_convert {job : Job} {bytes written : List UInt8}
    (h : job.convert cfg bytes = .ok written) :
    Becomes cfg (job.optimize = true) bytes written := by
  unfold Job.convert at h
  split_ifs at h with hopt hsame
  · obtain ⟨text, hdecode, hencode⟩ := recoded_eq_ok h
    exact .optimized hopt hdecode hencode
  · obtain rfl : bytes = written := by simpa using h
    exact .copied hopt hsame
  · obtain ⟨text, hdecode, hencode⟩ := recoded_eq_ok (f := id) h
    exact .recoded hopt hsame hdecode hencode

/-- Whether a job has failed or has not come to its end. -/
def notSucceeded : Progress → Bool
  | .waiting => true
  | .loaded _ => true
  | .placed _ => true
  | .failed _ => true
  | .succeeded _ => false

lemma failed_add (r : Report) (job : Job) (p : Progress) :
    (r.add job p).failed = r.failed + if notSucceeded p then 1 else 0 := by
  cases p <;> rfl

lemma addAll_cons (r : Report) (x : Job × Progress) (ran : List (Job × Progress)) :
    r.addAll (x :: ran) = (r.add x.1 x.2).addAll ran :=
  rfl

lemma failed_addAll (r : Report) (ran : List (Job × Progress)) :
    (r.addAll ran).failed = r.failed + ran.countP fun x => notSucceeded x.2 := by
  induction ran generalizing r with
  | nil => rfl
  | cons x ran ih =>
    rw [addAll_cons, ih, failed_add, List.countP_cons]
    omega

lemma verdict_eq_ok {r report : Report} (h : verdict r = .ok report) :
    r.failed = 0 ∧ r = report := by
  unfold verdict at h
  split_ifs at h with hzero
  exact ⟨hzero, Except.ok.inj h⟩

/-- Whether a build went on to its end: it gives a report, or it says how many files could not be
processed. -/
def Ended (result : Except Failure Report) : Prop :=
  (∃ report, result = .ok report) ∨ ∃ count, result = .error (.incomplete count)

/-- Whether a failure comes before the jobs. -/
def Early : Failure → Prop
  | .incomplete _ => False
  | _ => True

lemma Early.not_ended {failure : Failure} (h : Early failure) : ¬Ended (.error failure) := by
  rintro (⟨report, hreport⟩ | ⟨count, hcount⟩)
  · cases hreport
  · cases hcount
    exact h

lemma early_check {e : Failure} (h : cfg.check t = .error e) : Early e := by
  unfold Config.check at h
  split_ifs at h
  · cases h
    trivial
  · cases h
    trivial

lemma openOutput_eq_error {e : Failure} (h : openOutput cfg t = (t₁, .error e)) :
    ∃ f, e = .noFolder cfg.output f := by
  unfold openOutput Config.makeOutput at h
  split_ifs at h
  · simp at h
  · split at h
    · simp at h
    · rename_i f hmade
      exact ⟨f, (Except.error.inj (Prod.mk.inj h).2).symm⟩

lemma roots_eq_error {e : Failure} (h : cfg.roots t = .error e) :
    ∃ path f, e = .unresolved path f := by
  unfold Config.roots at h
  cases hin : cfg.findInput t with
  | error f =>
    simp only [hin, Except.mapError, bind, Except.bind, Except.error.injEq] at h
    exact ⟨cfg.input, f, h.symm⟩
  | ok input =>
    cases hout : cfg.findOutput t with
    | error f =>
      simp only [hin, hout, Except.mapError, bind, Except.bind, Except.error.injEq] at h
      exact ⟨cfg.output, f, h.symm⟩
    | ok output => simp [hin, hout, Except.mapError, bind, Except.bind, pure, Except.pure] at h

lemma buildFolders_eq_error {r : Roots} {visits : List Visit} {e : Failure}
    (h : (Build.makeFolders r t visits).result = .error e) : ∃ path f, e = .noFolder path f := by
  induction visits generalizing t with
  | nil => cases h
  | cons v visits ih =>
    cases v with
    | failed error => exact ih h
    | file p => exact ih h
    | folder p =>
      rw [Build.makeFolders] at h
      dsimp only at h
      split_ifs at h
      · exact ih h
      · split at h
        · exact ⟨_, _, (Except.error.inj h).symm⟩
        · exact ih h

/-- A build that went on to its end has come to the end of its walk. -/
lemma exists_prepared_of_ended (h : Ended (run cfg t).result) :
    ∃ t₁ r excluded, Prepared cfg t t₁ r excluded ∧
      (Build.makeFolders r t₁ (visitsOf cfg r t₁)).result = .ok () := by
  have hcourse := course_run cfg t
  generalize (run cfg t).tree = tree at hcourse
  generalize (run cfg t).result = result at hcourse h
  cases hcourse with
  | rejected hcheck => exact absurd h (early_check hcheck).not_ended
  | unopened _ hfailed =>
    obtain ⟨f, rfl⟩ := openOutput_eq_error hfailed
    exact absurd h (Early.not_ended trivial)
  | lost _ _ hroots =>
    obtain ⟨path, f, rfl⟩ := roots_eq_error hroots
    exact absurd h (Early.not_ended trivial)
  | refused => exact absurd h (Early.not_ended trivial)
  | @executed t₁ r excluded hprep =>
    refine ⟨t₁, r, excluded, hprep, ?_⟩
    unfold execute at h
    dsimp only at h
    split at h
    · rename_i e hmade
      obtain ⟨path, f, rfl⟩ := buildFolders_eq_error hmade
      exact absurd h (Early.not_ended trivial)
    · rename_i hmade
      exact hmade

lemma exists_prepared_of_ok {report : Report} (h : (run cfg t).result = .ok report) :
    ∃ t₁ r excluded, Prepared cfg t t₁ r excluded ∧
      (Build.makeFolders r t₁ (visitsOf cfg r t₁)).result = .ok () :=
  exists_prepared_of_ended (.inl ⟨report, h⟩)

namespace Prepared

variable {r : Roots} {excluded : List Glob.Pattern}

lemma findInput_eq (h : Prepared cfg t t₁ r excluded) (hfree : LinkFree t) :
    cfg.findInput t = .ok r.input := by
  have hchecked := (check_eq_ok_iff.mp h.checked).1
  cases hin : cfg.findInput t with
  | error f => simp [hin, reaches] at hchecked
  | ok input =>
    have hlater := findPath_grows hfree (h.linkFree hfree) (h.confined hfree).grows hin
    have hroots := (roots_eq_ok h.roots).1
    exact hlater.symm.trans hroots

lemma base_eq (h : Prepared cfg t t₁ r excluded) (hfree : LinkFree t) :
    r.base = if t.get? r.input = some .folder then r.input else r.input.dropLast := by
  obtain ⟨e, he⟩ := findPath_isSome hfree (h.findInput_eq hfree)
  rw [(roots_eq_ok h.roots).2.2, he, (h.confined hfree).keeps he]

lemma findOutput_eq (h : Prepared cfg t t₁ r excluded) (hfree : LinkFree t) :
    cfg.findOutput (run cfg t).tree = .ok r.output := by
  rw [h.run_eq.1]
  exact h.findOutput_execute hfree

end Prepared

namespace Walked

variable {jobs : List Job} {start : Report} {job : Job}

lemma get?_destination (h : Walked cfg t t₁ jobs start) (hfree : LinkFree t) (hjob : job ∈ jobs) :
    (run cfg t).tree.get? job.destination = (job.run cfg t₁).1.get? job.destination := by
  have halone : Alone cfg t₁ jobs _ := alone_runAll (h.independent hfree)
  rw [h.run_eq.1]
  exact halone.get?_destination (finished_runAll cfg t₁ jobs) hjob

lemma runAll_eq (h : Walked cfg t t₁ jobs start) (hfree : LinkFree t) :
    (Job.runAll cfg t₁ jobs).2 = jobs.map fun job => (job, (job.run cfg t₁).2) := by
  have halone : Alone cfg t₁ jobs _ := alone_runAll (h.independent hfree)
  exact halone.jobs_eq (finished_runAll cfg t₁ jobs)

lemma equipped (h : Walked cfg t t₁ jobs start) {report : Report} (hfree : LinkFree t)
    (hrun : (run cfg t).result = .ok report) (hjob : job ∈ jobs) :
    ∃ bytes written, Equipped cfg t₁ job bytes written := by
  have hind := h.independent hfree
  refine (failed_or_equipped cfg hind.free (hind.fits job hjob)).resolve_left ?_
  rintro ⟨error, hfailed⟩
  have hzero := (verdict_eq_ok (h.run_eq.2.symm.trans hrun)).1
  rw [failed_addAll] at hzero
  have hnone := List.countP_eq_zero.mp (Nat.eq_zero_of_add_eq_zero_left hzero)
  have hmem : (job, (job.run cfg t₁).2) ∈ (Job.runAll cfg t₁ jobs).2 := by
    rw [h.runAll_eq hfree]
    exact List.mem_map_of_mem hjob
  exact absurd rfl (hfailed ▸ hnone _ hmem)

lemma succeeded (h : Walked cfg t t₁ jobs start) {report : Report} (hfree : LinkFree t)
    (hrun : (run cfg t).result = .ok report) (hjob : job ∈ jobs) :
    ∃ bytes written, t₁.get? job.source = some (.file bytes) ∧ job.convert cfg bytes = .ok written ∧
      (run cfg t).tree.get? job.destination = some (.file written) := by
  have hind := h.independent hfree
  obtain ⟨bytes, written, hequipped⟩ := h.equipped hfree hrun hjob
  exact ⟨bytes, written, hequipped.source, hequipped.converted,
    (h.get?_destination hfree hjob).trans (hequipped.get?_run hind.free (hind.fits job hjob))⟩

end Walked

/-- What a build from `t` to `t'` has done with files: each that it covers has a file at the same
path in the output with what it becomes, and each that is not the destination of another stays as it
was. -/
structure MirrorsFiles (cfg : Config) (t t' : FileTree) (r : Roots) (excluded : List Glob.Pattern) :
    Prop where
  covered : ∀ p bytes, Covered r p → t.get? p = some (.file bytes) →
    ∃ names written, p = r.base ++ names ∧ r.destination p = r.output ++ names ∧
      t'.get? (r.destination p) = some (.file written) ∧
      Becomes cfg (Optimized excluded names) bytes written
  others : ∀ q bytes, t.get? q = some (.file bytes) →
    (∀ p bytes', Covered r p → t.get? p = some (.file bytes') → q ≠ r.destination p) →
    t'.get? q = some (.file bytes)

/-- A build that gives a report has mirrored the files of its input. -/
theorem run_mirrors_files {report : Report} (hfree : LinkFree t)
    (hrun : (run cfg t).result = .ok report) :
    ∃ r excluded, cfg.findInput t = .ok r.input ∧ cfg.findOutput (run cfg t).tree = .ok r.output ∧
      r.base = (if t.get? r.input = some .folder then r.input else r.input.dropLast) ∧
      Exclusion.ofEntries cfg.excludes = .ok excluded ∧
      MirrorsFiles cfg t (run cfg t).tree r excluded := by
  obtain ⟨t₁, r, excluded, hprep, hmade⟩ := exists_prepared_of_ok hrun
  have hfree₁ := hprep.linkFree hfree
  have hr := hprep.placed hfree
  have hwalk := Walked.intro hprep hmade
  have hopened := hprep.confined hfree
  have hfolders : Confined (r.output <+: ·) (fun _ => False) t₁
      (Build.makeFolders r t₁ (visitsOf cfg r t₁)).tree := confined_visitedFolders cfg hfree₁ hr
  refine ⟨r, excluded, hprep.findInput_eq hfree, hprep.findOutput_eq hfree, hprep.base_eq hfree,
    hprep.exclusions, ?_, ?_⟩
  · intro p bytes hcov hfile
    have hfile₁ := hopened.keeps hfile
    have hjob : jobOf r excluded p ∈ Job.ofVisits r excluded (visitsOf cfg r t₁) :=
      (mem_ofVisits hfree₁ hr).mpr ⟨p, bytes, hcov, hfile₁, rfl⟩
    obtain ⟨bytes', written, hsource, hconvert, hdest⟩ := hwalk.succeeded hfree hrun hjob
    obtain rfl : bytes = bytes' := by
      have hsame := (hfolders.keeps hfile₁).symm.trans hsource
      simpa using hsame
    obtain ⟨names, hp, hnames⟩ := hr.exists_relative hcov
    have hrel : r.relative p = names := by rw [Roots.relative, hp, List.drop_left]
    refine ⟨names, written, hp, hnames, hdest, ?_⟩
    have hbecomes := becomes_of_convert hconvert
    rw [optimize_jobOf, hrel] at hbecomes
    exact hbecomes
  · intro q bytes hfile hother
    have halone : Alone cfg _ _ _ := alone_runAll (hwalk.independent hfree)
    have helsewhere := halone.elsewhere q ?_
    · rw [hwalk.run_eq.1]
      exact helsewhere.trans (hfolders.keeps (hopened.keeps hfile))
    · intro job hjob
      obtain ⟨p, bytes', hcov, hfile₁, rfl⟩ := (mem_ofVisits hfree₁ hr).mp hjob
      exact hother p bytes' hcov (hopened.file_iff.mp hfile₁)

theorem run_mirrors_files_inside_its_input :
    LinkFree site ∧
      (run intoItself site).result = .ok
        { optimized := 1, copied := 1, directories := 2, bytesIn := 24, bytesOut := 17 } ∧
      ∃ r excluded, intoItself.findInput site = .ok r.input ∧
        intoItself.findOutput (run intoItself site).tree = .ok r.output ∧
        r.base = (if site.get? r.input = some .folder then r.input else r.input.dropLast) ∧
        Exclusion.ofEntries intoItself.excludes = .ok excluded ∧
        MirrorsFiles intoItself site (run intoItself site).tree r excluded := by
  have hfree : LinkFree site := by decide
  have hrun : (run intoItself site).result = .ok
      { optimized := 1, copied := 1, directories := 2, bytesIn := 24, bytesOut := 17 } := by
    decide +kernel
  exact ⟨hfree, hrun, run_mirrors_files hfree hrun⟩

end PhpSlim.Proofs
