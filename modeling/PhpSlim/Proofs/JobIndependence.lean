import PhpSlim.Proofs.OutputFolders

/-!
# Jobs that do not meet

A job reads its source, looks at what stands around its destination and writes only there. The jobs
of a build whose walk completes keep out of each other's way: no destination is the destination of
another job, the source of another or the folder around one.
-/

namespace PhpSlim.Proofs
open PhpSlim.FileTree PhpSlim.Build

variable {t t' t₁ : FileTree} {cfg : Config} {job : Job}

/-- The source of a job is a file, and something stands where the folder around its destination
belongs. -/
structure Fits (t : FileTree) (job : Job) : Prop where
  source : ∃ bytes, t.get? job.source = some (.file bytes)
  proper : Proper job.destination
  inner : job.destination ≠ []
  parent : ∃ e, t.get? job.destination.dropLast = some e

lemma ne_nil_of_file {p : Location} {bytes : List UInt8} (h : t.get? p = some (.file bytes)) :
    p ≠ [] := by
  rintro rfl
  simp [get?_nil] at h

lemma write_destination (hfree : LinkFree t) (hfits : Fits t job) (bytes : List UInt8) :
    t.write job.destination bytes =
      if Path.isLong (Path.absolute job.destination) then .error .tooLong
      else if t.get? job.destination.dropLast = some .folder then
        if t.get? job.destination = some .folder then .error .isFolder
        else .ok (t.put job.destination (.file bytes))
      else .error .notFolder := by
  obtain ⟨e, he⟩ := hfits.parent
  have hlast := List.dropLast_append_getLast hfits.inner
  have hn : Path.isProper (job.destination.getLast hfits.inner) = true :=
    hfits.proper _ (List.getLast_mem hfits.inner)
  rw [he]
  cases e with
  | folder =>
    have hwrite := write_in_folder hfree he hn bytes
    rw [hlast] at hwrite
    rw [hwrite, if_pos rfl]
  | file old =>
    have hwrite := write_in_file hfree he hn bytes
    rw [hlast] at hwrite
    rw [hwrite, if_neg (show ¬some (Entry.file old) = some .folder by simp)]
  | link target => exact absurd he (hfree _ target)

lemma step_elsewhere (hfree : LinkFree t) (hfits : Fits t job) (p : Progress) {q : Location}
    (hq : q ≠ job.destination) : (job.step cfg t p).1.get? q = t.get? q := by
  rcases confined_step cfg hfree hfits.proper p q with heq | ⟨hway, hnone, -⟩ | ⟨hdest, -⟩
  · exact heq
  · -- Everything on the way to the destination is there already.
    obtain ⟨e, he⟩ := hfits.parent
    obtain ⟨rest, hrest⟩ := hway
    rw [← hrest] at he
    obtain ⟨e', he'⟩ := isSome_of_append he
    simp [hnone] at he'
  · exact absurd hdest hq

lemma Fits.step (hfits : Fits t job) (hfree : LinkFree t) (p : Progress) :
    Fits (job.step cfg t p).1 job := by
  have hgrows := (confined_step cfg hfree hfits.proper p).grows
  obtain ⟨bytes, hsource⟩ := hfits.source
  obtain ⟨e, he⟩ := hfits.parent
  exact ⟨hgrows.file _ bytes hsource, hfits.proper, hfits.inner, hgrows.isSome hfree he⟩

lemma step_local (hfree : LinkFree t) (hfree' : LinkFree t') (hfits : Fits t job)
    (hsource : t'.get? job.source = t.get? job.source)
    (hparent : t'.get? job.destination.dropLast = t.get? job.destination.dropLast)
    (hdest : t'.get? job.destination = t.get? job.destination) (p : Progress) :
    (job.step cfg t' p).2 = (job.step cfg t p).2 ∧
      (job.step cfg t' p).1.get? job.destination = (job.step cfg t p).1.get? job.destination := by
  obtain ⟨bytes, hbytes⟩ := hfits.source
  obtain ⟨e, he⟩ := hfits.parent
  have hfits' : Fits t' job :=
    ⟨⟨bytes, hsource.trans hbytes⟩, hfits.proper, hfits.inner, ⟨e, hparent.trans he⟩⟩
  cases p with
  | waiting =>
    rw [Job.step, Job.step, read_file hfree hbytes, read_file hfree' (hsource.trans hbytes)]
    split_ifs
    · exact ⟨rfl, hdest⟩
    · exact ⟨rfl, hdest⟩
  | loaded bytes =>
    rw [Job.step, Job.step, makeFolders_existing hfree he,
      makeFolders_existing hfree' (hparent.trans he)]
    split_ifs
    · exact ⟨rfl, hdest⟩
    · exact ⟨rfl, hdest⟩
    · exact ⟨rfl, hdest⟩
  | placed bytes =>
    rw [Job.step, Job.step]
    cases job.convert cfg bytes with
    | error f => exact ⟨rfl, hdest⟩
    | ok written =>
      dsimp only
      rw [write_destination hfree hfits, write_destination hfree' hfits', hparent, hdest]
      split_ifs with hlong hfolder hblocked
      · exact ⟨rfl, hdest⟩
      · exact ⟨rfl, hdest⟩
      · have hroom : t.HasRoom job.destination := ⟨hfits.inner, hfits.proper, hfolder, hblocked⟩
        have hroom' : t'.HasRoom job.destination :=
          ⟨hfits.inner, hfits.proper, hparent.trans hfolder, by rwa [hdest]⟩
        refine ⟨rfl, ?_⟩
        rw [get?_put t _ hroom, get?_put t' _ hroom', if_pos rfl, if_pos rfl]
      · exact ⟨rfl, hdest⟩
  | failed error => exact ⟨rfl, hdest⟩
  | succeeded done => exact ⟨rfl, hdest⟩

def isDone : Progress → Bool
  | .waiting => false
  | .loaded _ => false
  | .placed _ => false
  | .failed _ => true
  | .succeeded _ => true

lemma step_of_isDone (cfg : Config) (job : Job) (t : FileTree) {p : Progress}
    (h : isDone p = true) : job.step cfg t p = (t, p) := by
  cases p with
  | failed error => rfl
  | succeeded done => rfl
  | waiting => cases h
  | loaded bytes => cases h
  | placed bytes => cases h

/-- How far a job comes with `k` steps that it takes by itself. -/
def solo (cfg : Config) (t : FileTree) (job : Job) : Nat → FileTree × Progress
  | 0 => (t, .waiting)
  | k + 1 => job.step cfg (solo cfg t job k).1 (solo cfg t job k).2

lemma solo_three (cfg : Config) (t : FileTree) (job : Job) : solo cfg t job 3 = job.run cfg t :=
  rfl

lemma isDone_run (cfg : Config) (job : Job) (t : FileTree) : isDone (job.run cfg t).2 = true := by
  rw [Job.run, Job.step]
  cases t.read job.source with
  | error f => rfl
  | ok bytes =>
    dsimp only
    rw [Job.step]
    rcases t.makeFolders job.destination.dropLast with ⟨t₁, f | ⟨⟩⟩
    · rfl
    · dsimp only
      rw [Job.step]
      cases job.convert cfg bytes with
      | error f => rfl
      | ok written =>
        dsimp only
        cases t₁.write job.destination written with
        | error f => rfl
        | ok t₂ => rfl

lemma solo_add_of_isDone {k : Nat} (h : isDone (solo cfg t job k).2 = true) (m : Nat) :
    solo cfg t job (k + m) = solo cfg t job k := by
  induction m with
  | zero => rfl
  | succ m ih => rw [← Nat.add_assoc, solo, ih, step_of_isDone cfg job _ h]

lemma solo_eq_run {k : Nat} (h : isDone (solo cfg t job k).2 = true) :
    solo cfg t job k = job.run cfg t := by
  have hend : isDone (solo cfg t job 3).2 = true := isDone_run cfg job t
  rw [← solo_three]
  rcases Nat.le_total k 3 with hk | hk
  · obtain ⟨m, hm⟩ := Nat.exists_eq_add_of_le hk
    rw [hm, solo_add_of_isDone h]
  · obtain ⟨m, rfl⟩ := Nat.exists_eq_add_of_le hk
    exact solo_add_of_isDone hend m

lemma linkFree_solo (hfree : LinkFree t) (hp : Proper job.destination) (k : Nat) :
    LinkFree (solo cfg t job k).1 := by
  induction k with
  | zero => exact hfree
  | succ k ih => exact (confined_step cfg ih hp _).linkFree ih

lemma Fits.solo (hfits : Fits t job) (hfree : LinkFree t) (k : Nat) :
    Fits (solo cfg t job k).1 job := by
  induction k with
  | zero => exact hfits
  | succ k ih => exact ih.step (linkFree_solo hfree hfits.proper k) _

lemma solo_elsewhere (hfree : LinkFree t) (hfits : Fits t job) (k : Nat) {q : Location}
    (hq : q ≠ job.destination) : (solo cfg t job k).1.get? q = t.get? q := by
  induction k with
  | zero => rfl
  | succ k ih =>
    rw [solo, step_elsewhere (linkFree_solo hfree hfits.proper k) (hfits.solo hfree k) _ hq, ih]

/-- All that a job needs to succeed: its source is read as `bytes` and becomes `written`, and there is
room for a file at its destination. -/
structure Equipped (cfg : Config) (t : FileTree) (job : Job) (bytes written : List UInt8) : Prop where
  source : t.get? job.source = some (.file bytes)
  readable : Path.isLong (Path.absolute job.source) = false
  parent : t.get? job.destination.dropLast = some .folder
  reachable : Path.isLong (Path.absolute job.destination.dropLast) = false
  converted : job.convert cfg bytes = .ok written
  vacant : t.get? job.destination ≠ some .folder
  writable : Path.isLong (Path.absolute job.destination) = false

namespace Equipped

variable {bytes written : List UInt8}

lemma run_eq (h : Equipped cfg t job bytes written) (hfree : LinkFree t) (hfits : Fits t job) :
    job.run cfg t = (t.put job.destination (.file written),
      .succeeded ⟨bytes.length, written.length⟩) := by
  rw [Job.run, Job.step, read_file hfree h.source, if_neg (by simp [h.readable])]
  dsimp only
  rw [Job.step, makeFolders_existing hfree h.parent, if_neg (by simp [h.reachable]), if_pos rfl]
  dsimp only
  rw [Job.step, h.converted]
  dsimp only
  rw [write_destination hfree hfits, if_neg (by simp [h.writable]), if_pos h.parent,
    if_neg h.vacant]

lemma get?_run (h : Equipped cfg t job bytes written) (hfree : LinkFree t) (hfits : Fits t job) :
    (job.run cfg t).1.get? job.destination = some (.file written) := by
  have hroom : t.HasRoom job.destination := ⟨hfits.inner, hfits.proper, h.parent, h.vacant⟩
  rw [h.run_eq hfree hfits, get?_put t _ hroom, if_pos rfl]

end Equipped

lemma failed_or_equipped (cfg : Config) (hfree : LinkFree t) (hfits : Fits t job) :
    (∃ error, job.run cfg t = (t, .failed error)) ∨
      ∃ bytes written, Equipped cfg t job bytes written := by
  obtain ⟨bytes, hbytes⟩ := hfits.source
  obtain ⟨e, he⟩ := hfits.parent
  rw [Job.run, Job.step, read_file hfree hbytes]
  split_ifs with hreadable
  · exact .inl ⟨_, rfl⟩
  · dsimp only
    rw [Job.step, makeFolders_existing hfree he]
    split_ifs with hreachable hfolder
    · exact .inl ⟨_, rfl⟩
    · dsimp only
      rw [Job.step]
      cases hconvert : job.convert cfg bytes with
      | error f => exact .inl ⟨_, rfl⟩
      | ok written =>
        dsimp only
        rw [write_destination hfree hfits, he, hfolder, if_pos rfl]
        split_ifs with hwritable hblocked
        · exact .inl ⟨_, rfl⟩
        · exact .inl ⟨_, rfl⟩
        · exact .inr ⟨bytes, written, hbytes, by simpa using hreadable, hfolder ▸ he,
            by simpa using hreachable, hconvert, hblocked, by simpa using hwritable⟩
    · exact .inl ⟨_, rfl⟩

/-- What a job by itself comes to: it fails and changes nothing, or its destination holds what its
source becomes. -/
lemma run_cases (hfree : LinkFree t) (hfits : Fits t job) :
    (∃ error, job.run cfg t = (t, .failed error)) ∨
      ∃ bytes written, t.get? job.source = some (.file bytes) ∧
        job.convert cfg bytes = .ok written ∧
        (job.run cfg t).2 = .succeeded ⟨bytes.length, written.length⟩ ∧
        (job.run cfg t).1.get? job.destination = some (.file written) := by
  refine (failed_or_equipped cfg hfree hfits).imp_right ?_
  rintro ⟨bytes, written, hequipped⟩
  exact ⟨bytes, written, hequipped.source, hequipped.converted, by rw [hequipped.run_eq hfree hfits],
    hequipped.get?_run hfree hfits⟩

/-! ### The jobs of a build -/

/-- Jobs none of which touches what another depends on. -/
structure Independent (t : FileTree) (jobs : List Job) : Prop where
  free : LinkFree t
  fits : ∀ job ∈ jobs, Fits t job
  distinct : (jobs.map Job.destination).Nodup
  source : ∀ job ∈ jobs, ∀ other ∈ jobs, job.destination = other.source → job = other
  parent : ∀ job ∈ jobs, ∀ other ∈ jobs, job.destination ≠ other.destination.dropLast

lemma Independent.perm {jobs order : List Job} (h : Independent t jobs) (hperm : order.Perm jobs) :
    Independent t order where
  free := h.free
  fits job hjob := h.fits job (hperm.mem_iff.mp hjob)
  distinct := (hperm.map Job.destination).nodup_iff.mpr h.distinct
  source job hjob other hother :=
    h.source job (hperm.mem_iff.mp hjob) other (hperm.mem_iff.mp hother)
  parent job hjob other hother :=
    h.parent job (hperm.mem_iff.mp hjob) other (hperm.mem_iff.mp hother)

/-- The walk of a build completes: `t₁` is then the tree, `jobs` are left to run, and `start` counts
what was done so far. -/
inductive Walked (cfg : Config) (t : FileTree) : FileTree → List Job → Report → Prop
  | intro {t₁ r excluded} (prepared : Prepared cfg t t₁ r excluded)
      (completed : (Build.makeFolders r t₁ (visitsOf cfg r t₁)).result = .ok ()) :
      Walked cfg t (Build.makeFolders r t₁ (visitsOf cfg r t₁)).tree
        (Job.ofVisits r excluded (visitsOf cfg r t₁))
        { directories := (Build.makeFolders r t₁ (visitsOf cfg r t₁)).made
          failed := failedVisits (visitsOf cfg r t₁) }

/-- A build fails if a file could not be processed. -/
def verdict (report : Report) : Except Failure Report :=
  if report.failed = 0 then .ok report else .error (.incomplete report.failed)

namespace Placed

variable {r : Roots} {p : Location} {bytes : List UInt8}

lemma get?_base (hr : Placed t r) : t.get? r.base = some .folder := by
  obtain ⟨e, he⟩ := hr.input
  rw [hr.base]
  split_ifs with hfolder
  · exact hfolder
  · refine get?_dropLast he ?_
    intro hnil
    rw [hnil, get?_nil] at hfolder
    exact hfolder rfl

lemma base_le (hr : Placed t r) (hcov : Covered r p) : r.base <+: p := by
  obtain ⟨rel, hrel, -⟩ := hr.exists_relative hcov
  exact ⟨rel, hrel.symm⟩

lemma base_le_dropLast (hr : Placed t r) (hcov : Covered r p)
    (hfile : t.get? p = some (.file bytes)) : r.base <+: p.dropLast := by
  obtain ⟨rel, rfl⟩ := hr.base_le hcov
  have hrel : rel ≠ [] := by
    rintro rfl
    rw [List.append_nil, hr.get?_base] at hfile
    cases hfile
  rw [List.dropLast_append_of_ne_nil hrel]
  exact List.prefix_append _ _

lemma dropLast_destination (hr : Placed t r) (hcov : Covered r p)
    (hfile : t.get? p = some (.file bytes)) :
    (r.destination p).dropLast = r.destination p.dropLast := by
  obtain ⟨rel, hrel⟩ := hr.base_le_dropLast hcov hfile
  have hp := ne_nil_of_file hfile
  have hsplit : p = r.base ++ (rel ++ [p.getLast hp]) := by
    rw [← List.append_assoc, hrel, List.dropLast_append_getLast hp]
  rw [← hrel, destination_base_append]
  nth_rewrite 1 [hsplit]
  rw [destination_base_append, ← List.append_assoc, List.dropLast_concat]

end Placed

lemma destination_injective {r : Roots} {p q : Location} (hp : r.base <+: p) (hq : r.base <+: q)
    (h : r.destination p = r.destination q) : p = q := by
  obtain ⟨rel, rfl⟩ := hp
  obtain ⟨rel', rfl⟩ := hq
  rw [destination_base_append, destination_base_append, List.append_cancel_left_eq] at h
  rw [h]

lemma destination_le_iff {r : Roots} {p q : Location} (hp : r.base <+: p) (hq : r.base <+: q) :
    r.destination q <+: r.destination p ↔ q <+: p := by
  obtain ⟨rel, rfl⟩ := hp
  obtain ⟨rel', rfl⟩ := hq
  rw [destination_base_append, destination_base_append, List.prefix_append_right_inj,
    List.prefix_append_right_inj]

lemma eq_input_of_covered {r : Roots} {p : Location} {e : Entry} (hcov : Covered r p)
    (he : t.get? p = some e) (hinput : t.get? r.input ≠ some .folder) : p = r.input := by
  by_contra hne
  exact hinput (get?_along he hcov.1 (Ne.symm hne))

lemma covered_dropLast {r : Roots} {p : Location} {bytes : List UInt8} (hr : Placed t r)
    (hcov : Covered r p) (hfile : t.get? p = some (.file bytes)) :
    (Covered r p.dropLast ∧ t.get? p.dropLast = some .folder) ∨
      r.destination p.dropLast = r.output := by
  by_cases hinput : t.get? r.input = some .folder
  · left
    have hbase : r.base = r.input := by rw [hr.base, if_pos hinput]
    have hne : p ≠ r.input := by
      rintro rfl
      simp [hinput] at hfile
    refine ⟨⟨hbase ▸ hr.base_le_dropLast hcov hfile, .inr ?_⟩, ?_⟩
    · intro hout
      exact hcov.2.resolve_left hne (hout.trans (List.dropLast_prefix p))
    · exact get?_dropLast hfile (ne_nil_of_file hfile)
  · right
    obtain rfl := eq_input_of_covered hcov hfile hinput
    rw [Roots.destination, Roots.relative, hr.base, if_neg hinput, List.drop_length,
      List.append_nil]

lemma exists_around_destination {r : Roots} {p : Location} {bytes : List UInt8} (hfree : LinkFree t)
    (hr : Placed t r) (hmade : (Build.makeFolders r t (visitsOf cfg r t)).result = .ok ())
    (hcov : Covered r p) (hfile : t.get? p = some (.file bytes)) :
    ∃ e, (Build.makeFolders r t (visitsOf cfg r t)).tree.get? (r.destination p).dropLast =
      some e := by
  rw [hr.dropLast_destination hcov hfile]
  rcases covered_dropLast hr hcov hfile with ⟨hcov', hfolder⟩ | hout
  · obtain ⟨e, hinput⟩ := hr.input
    have hvisited : .folder p.dropLast ∈ visitsOf cfg r t :=
      (folder_mem_visitsOf hfree hinput).mpr ⟨hcov', hfolder⟩
    have hfilled := filled_buildFolders hfree (fun q hq => (proper_of_visited hfree hr hq).1) hmade
    exact hfilled.isSome ⟨p.dropLast, hvisited, List.prefix_rfl⟩
  · obtain ⟨e, ho⟩ := hr.output
    rw [hout]
    exact ⟨e, (confined_visitedFolders cfg hfree hr).keeps ho⟩

theorem independent_jobs {r : Roots} (excluded : List Glob.Pattern) (hfree : LinkFree t)
    (hr : Placed t r) (hmade : (Build.makeFolders r t (visitsOf cfg r t)).result = .ok ()) :
    Independent (Build.makeFolders r t (visitsOf cfg r t)).tree
      (Job.ofVisits r excluded (visitsOf cfg r t)) where
  free := by
    have hconfined : Confined (r.output <+: ·) (fun _ => False) t
        (Build.makeFolders r t (visitsOf cfg r t)).tree := confined_visitedFolders cfg hfree hr
    exact hconfined.linkFree hfree
  fits := by
    intro job hjob
    obtain ⟨p, bytes, hcov, hfile, rfl⟩ := (mem_ofVisits hfree hr).mp hjob
    have hparent := exists_around_destination hfree hr hmade hcov hfile
    refine ⟨⟨bytes, (confined_visitedFolders cfg hfree hr).keeps hfile⟩,
      hr.proper_destination hcov hfile, ?_, hparent⟩
    have hle := (hr.base_le_dropLast hcov hfile).length_le
    have hpos := List.length_pos_iff.mpr (ne_nil_of_file hfile)
    rw [List.length_dropLast] at hle
    intro hnil
    have hrel := List.drop_eq_nil_iff.mp (List.append_eq_nil_iff.mp hnil).2
    omega
  distinct := by
    rw [ofVisits_eq_map, List.map_map]
    refine List.Nodup.map_on ?_ (nodup_filesOf (nodup_visitsOf hfree))
    obtain ⟨e, hinput⟩ := hr.input
    intro p hp q hq heq
    have hp' := (file_mem_visitsOf hfree hinput).mp (mem_filesOf.mp hp)
    have hq' := (file_mem_visitsOf hfree hinput).mp (mem_filesOf.mp hq)
    exact destination_injective (hr.base_le hp'.1) (hr.base_le hq'.1) heq
  source := by
    intro job hjob other hother heq
    obtain ⟨p, bytes, hcov, hfile, rfl⟩ := (mem_ofVisits hfree hr).mp hjob
    obtain ⟨p', bytes', hcov', hfile', rfl⟩ := (mem_ofVisits hfree hr).mp hother
    have hout : r.output <+: p' := by
      rw [show p' = r.destination p from heq.symm]
      exact hr.output_le_destination hcov
    obtain rfl : p' = r.input := hcov'.2.resolve_right (not_not_intro hout)
    rw [eq_input_of_covered hcov hfile (by simp [hfile'])]
  parent := by
    intro job hjob other hother heq
    obtain ⟨p, bytes, hcov, hfile, rfl⟩ := (mem_ofVisits hfree hr).mp hjob
    obtain ⟨p', bytes', hcov', hfile', rfl⟩ := (mem_ofVisits hfree hr).mp hother
    have hsame : r.destination p = r.destination p'.dropLast :=
      heq.trans (hr.dropLast_destination hcov' hfile')
    obtain rfl := destination_injective (hr.base_le hcov) (hr.base_le_dropLast hcov' hfile') hsame
    have hfolder := get?_dropLast hfile' (ne_nil_of_file hfile')
    simp [hfolder] at hfile

lemma execute_of_completed {r : Roots} (excluded : List Glob.Pattern)
    (h : (Build.makeFolders r t (visitsOf cfg r t)).result = .ok ()) :
    (execute cfg r excluded t).tree =
        (Job.runAll cfg (Build.makeFolders r t (visitsOf cfg r t)).tree
          (Job.ofVisits r excluded (visitsOf cfg r t))).1 ∧
      (execute cfg r excluded t).result =
        verdict (Report.addAll
          { directories := (Build.makeFolders r t (visitsOf cfg r t)).made
            failed := failedVisits (visitsOf cfg r t) }
          (Job.runAll cfg (Build.makeFolders r t (visitsOf cfg r t)).tree
            (Job.ofVisits r excluded (visitsOf cfg r t))).2) := by
  unfold visitsOf at h ⊢
  unfold execute
  dsimp only
  rw [h]
  exact ⟨rfl, rfl⟩

lemma Prepared.run_eq {r : Roots} {excluded : List Glob.Pattern}
    (h : Prepared cfg t t₁ r excluded) :
    (run cfg t).tree = (execute cfg r excluded t₁).tree ∧
      (run cfg t).result = (execute cfg r excluded t₁).result := by
  have hopened := h.opened
  have hproceed : proceed cfg t₁ = execute cfg r excluded t₁ := by
    rw [proceed, h.roots]
    dsimp only
    rw [h.exclusions]
  unfold openOutput at hopened
  rw [run, h.checked]
  dsimp only
  split_ifs at hopened ⊢
  · obtain rfl : t = t₁ := (Prod.mk.inj hopened).1
    rw [hproceed]
    exact ⟨rfl, rfl⟩
  · rw [hopened]
    dsimp only
    rw [hproceed]
    exact ⟨rfl, rfl⟩

namespace Walked

variable {jobs : List Job} {start : Report}

lemma independent (h : Walked cfg t t₁ jobs start) (hfree : LinkFree t) : Independent t₁ jobs := by
  obtain ⟨hprep, hmade⟩ := h
  exact independent_jobs _ (hprep.linkFree hfree) (hprep.placed hfree) hmade

lemma run_eq (h : Walked cfg t t₁ jobs start) :
    (run cfg t).tree = (Job.runAll cfg t₁ jobs).1 ∧
      (run cfg t).result = verdict (start.addAll (Job.runAll cfg t₁ jobs).2) := by
  obtain ⟨hprep, hmade⟩ := h
  obtain ⟨htree, hresult⟩ := hprep.run_eq
  obtain ⟨htree', hresult'⟩ := execute_of_completed _ hmade
  exact ⟨htree.trans htree', hresult.trans hresult'⟩

end Walked

end PhpSlim.Proofs
