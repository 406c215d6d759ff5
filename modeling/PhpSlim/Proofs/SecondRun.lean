import PhpSlim.Proofs.FolderMirror

/-!
# Building twice

A second build walks the tree that the first one left, its output included where that lies in the
input. It meets what the first one met, finds all folders made, and each job does again what it did
before: the tree stays as it is.
-/

namespace PhpSlim.Proofs
open PhpSlim.FileTree PhpSlim.Build

variable {t t₀ t₁ : FileTree} {cfg : Config} {r : Roots} {excluded : List Glob.Pattern}
  {p q : Location}

/-- The input is no file that stands right in the output folder, where it would be the destination
of its own job. -/
def NotInPlace (t : FileTree) (r : Roots) : Prop :=
  ∀ bytes, t.get? r.input = some (.file bytes) → r.input.dropLast ≠ r.output

namespace Completed

lemma ne_destination (h : Completed cfg t t₀ r excluded) (hapart : NotInPlace t₀ r)
    {bytes : List UInt8} (hfile : t₀.get? r.input = some (.file bytes)) :
    r.input ≠ r.destination r.input := by
  intro heq
  have hbase : r.base = r.input.dropLast := by rw [h.placed.base, if_neg (by simp [hfile])]
  have hne := ne_nil_of_file hfile
  have hlast : r.destination r.input = r.output ++ [r.input.getLast hne] := by
    nth_rewrite 1 [← List.dropLast_append_getLast hne]
    rw [← hbase, destination_base_append]
  refine hapart bytes hfile ?_
  nth_rewrite 1 [heq]
  rw [hlast, List.dropLast_concat]

lemma covered_get?_eq (h : Completed cfg t t₀ r excluded) (hapart : NotInPlace t₀ r)
    (hcov : Covered r p) : (run cfg t).tree.get? p = t₀.get? p := by
  rcases hcov.2 with rfl | hout
  · obtain ⟨e, he⟩ := h.placed.input
    cases e with
    | folder => rw [he, h.confined.grows.folder _ he]
    | file bytes =>
      rw [h.walked.elsewhere h.free, he]
      · exact (confined_visitedFolders cfg h.linkFree h.placed).keeps he
      · -- The job of the input is the only one.
        intro job hjob heq
        obtain ⟨p, bytes', hcov', hfile, rfl⟩ := (mem_ofVisits h.linkFree h.placed).mp hjob
        obtain rfl := eq_input_of_covered hcov' hfile (by simp [he])
        exact h.ne_destination hapart he heq
    | link target => exact absurd he (h.linkFree _ target)
  · exact h.get?_run_of_not_output hout

end Completed

lemma perm_visitsOf {t t' : FileTree} (hfree : LinkFree t) (hfree' : LinkFree t') {e : Entry}
    (hinput : t.get? r.input = some e) (hsame : ∀ p, Covered r p → t'.get? p = t.get? p) :
    (visitsOf cfg r t').Perm (visitsOf cfg r t) := by
  -- No walk visits a place twice, so it is enough to compare what is visited.
  rw [List.perm_ext_iff_of_nodup (nodup_visitsOf hfree') (nodup_visitsOf hfree)]
  intro v
  have hinput' : t'.get? r.input = some e := by
    rw [hsame r.input ⟨List.prefix_rfl, .inl rfl⟩, hinput]
  rw [mem_visitsOf hfree hinput, mem_visitsOf hfree' hinput']
  refine exists_congr fun p => and_congr_right fun hcov => ?_
  rw [visitOf, visitOf, hsame p hcov]

lemma perm_ofVisits {visits visits' : List Visit} (h : visits'.Perm visits) :
    (Job.ofVisits r excluded visits').Perm (Job.ofVisits r excluded visits) := by
  rw [ofVisits_eq_map, ofVisits_eq_map]
  exact (h.filterMap _).map _

lemma buildFolders_of_reached {visits : List Visit}
    (h : ∀ p, .folder p ∈ visits → reaches (t.locate (r.destination p)) = true) :
    (Build.makeFolders r t visits).tree = t ∧ (Build.makeFolders r t visits).made = 0 ∧
      (Build.makeFolders r t visits).result = .ok () := by
  induction visits with
  | nil => exact ⟨rfl, rfl, rfl⟩
  | cons v visits ih =>
    have hrest := ih fun p hp => h p (List.mem_cons_of_mem v hp)
    cases v with
    | failed error => exact hrest
    | file p => exact hrest
    | folder p =>
      rw [Build.makeFolders]
      dsimp only
      rwa [if_pos (h p List.mem_cons_self)]

namespace Completed

lemma prepared_again (h : Completed cfg t t₀ r excluded) :
    Prepared cfg (run cfg t).tree (run cfg t).tree r excluded := by
  obtain ⟨hin, -, hbase⟩ := roots_eq_ok h.prepared.roots
  have hin' : cfg.findInput (run cfg t).tree = .ok r.input :=
    findPath_grows h.linkFree h.linkFree_run h.confined.grows hin
  have hout' := h.prepared.findOutput_eq h.free
  have hfolder := h.confined.grows.folder _ (h.prepared.get?_output h.free)
  refine ⟨?_, ?_, ?_, h.prepared.exclusions⟩
  · rw [check_eq_ok_iff, hin', hout']
    exact ⟨rfl, fun _ => by simp [reachesFolder, hfolder]⟩
  · rw [openOutput, hout']
    rfl
  · have hinput : Covered r r.input := ⟨List.prefix_rfl, .inl rfl⟩
    simp only [← h.covered_folder_iff hinput] at hbase
    rw [Config.roots, hin', hout']
    simp only [Except.mapError, bind, Except.bind, pure, Except.pure, ← hbase]

lemma reaches_again (h : Completed cfg t t₀ r excluded) (hp : .folder p ∈ visitsOf cfg r t₀) :
    reaches ((run cfg t).tree.locate (r.destination p)) = true := by
  obtain ⟨hcov, hfolder⟩ := h.folder_visited_iff.mp hp
  have hplace := (buildFolders_eq_ok_iff h.linkFree h.proper_of_folder_visited).mp h.made p hp
  rw [reaches_locate_iff h.linkFree_run (h.proper_of_folder_visited p hp)]
  exact ⟨hplace.1, h.exists_at_place_of_folder hcov hfolder⟩

lemma source_again (h : Completed cfg t t₀ r excluded) (hapart : NotInPlace t₀ r) {job : Job}
    (hjob : job ∈ Job.ofVisits r excluded (visitsOf cfg r t₀)) :
    (run cfg t).tree.get? job.source =
      (Build.makeFolders r t₀ (visitsOf cfg r t₀)).tree.get? job.source := by
  obtain ⟨p, bytes, hcov, hfile, rfl⟩ := (mem_ofVisits h.linkFree h.placed).mp hjob
  have hfolders : Confined (r.output <+: ·) (fun _ => False) t₀
      (Build.makeFolders r t₀ (visitsOf cfg r t₀)).tree :=
    confined_visitedFolders cfg h.linkFree h.placed
  calc (run cfg t).tree.get? p = t₀.get? p := h.covered_get?_eq hapart hcov
    _ = some (.file bytes) := hfile
    _ = _ := (hfolders.keeps hfile).symm

lemma walked_again (h : Completed cfg t t₀ r excluded) (hapart : NotInPlace t₀ r) :
    ∃ jobs, jobs.Perm (Job.ofVisits r excluded (visitsOf cfg r t₀)) ∧
      Walked cfg (run cfg t).tree (run cfg t).tree jobs {} := by
  have hprep := h.prepared_again
  obtain ⟨e, hinput⟩ := h.placed.input
  have hperm : (visitsOf cfg r (run cfg t).tree).Perm (visitsOf cfg r t₀) :=
    perm_visitsOf h.linkFree h.linkFree_run hinput fun p => h.covered_get?_eq hapart
  obtain ⟨htree, hzero, hresult⟩ := buildFolders_of_reached fun p hp =>
    h.reaches_again (hperm.mem_iff.mp hp)
  have hwalk := Walked.intro hprep hresult
  rw [htree, hzero, failedVisits_visitsOf h.linkFree_run (hprep.placed h.linkFree_run)] at hwalk
  exact ⟨_, perm_ofVisits hperm, hwalk⟩

end Completed

namespace Walked

variable {jobs : List Job} {start : Report} {job : Job}

/-- On the tree that a build leaves, a job whose source is as it was comes to what it came to, and
leaves its destination as it is. -/
lemma job_again (h : Walked cfg t t₁ jobs start) (hfree : LinkFree t)
    (hfree' : LinkFree (run cfg t).tree) (hjob : job ∈ jobs)
    (hsource : (run cfg t).tree.get? job.source = t₁.get? job.source) :
    (job.run cfg (run cfg t).tree).2 = (job.run cfg t₁).2 ∧
      (job.run cfg (run cfg t).tree).1.get? job.destination =
        (run cfg t).tree.get? job.destination := by
  have hind := h.independent hfree
  have hfits := hind.fits job hjob
  have hparent : (run cfg t).tree.get? job.destination.dropLast =
      t₁.get? job.destination.dropLast :=
    h.elsewhere hfree fun other hother => (hind.parent other hother job hjob).symm
  have hdest := h.get?_destination hfree hjob
  rcases failed_or_equipped cfg hind.free hfits with ⟨error, hfailed⟩ | ⟨bytes, written, hequipped⟩
  · rw [hfailed] at hdest
    obtain ⟨hprogress, hview⟩ := solo_local hind.free hfree' hfits hsource hparent hdest 3
    rw [solo_three, solo_three, hfailed] at hview
    exact ⟨hprogress, hview.trans hdest.symm⟩
  · rw [hequipped.get?_run hind.free hfits] at hdest
    have hfits' : Fits (run cfg t).tree job :=
      ⟨hsource ▸ hfits.source, hfits.proper, hfits.inner, hparent ▸ hfits.parent⟩
    have hequipped' : Equipped cfg (run cfg t).tree job bytes written :=
      { hequipped with
        source := hsource.trans hequipped.source
        parent := hparent.trans hequipped.parent
        vacant := by simp [hdest] }
    rw [hequipped.run_eq hind.free hfits, hequipped'.get?_run hfree' hfits', hdest]
    exact ⟨by rw [hequipped'.run_eq hfree' hfits'], rfl⟩

lemma perm_runAll {t' t₁' : FileTree} {jobs' : List Job} {start' : Report}
    (h : Walked cfg t t₁ jobs start) (hfree : LinkFree t) (h' : Walked cfg t' t₁' jobs' start')
    (hfree' : LinkFree t') (hperm : jobs'.Perm jobs)
    (hsame : ∀ job ∈ jobs', (job.run cfg t₁').2 = (job.run cfg t₁).2) :
    (Job.runAll cfg t₁' jobs').2.Perm (Job.runAll cfg t₁ jobs).2 := by
  rw [h.runAll_eq hfree, h'.runAll_eq hfree',
    List.map_congr_left fun job hjob => by rw [hsame job hjob]]
  exact hperm.map _

end Walked

lemma addAll_directories (report : Report) (n : Nat) (ran : List (Job × Progress)) :
    { report with directories := n }.addAll ran = { report.addAll ran with directories := n } := by
  induction ran generalizing report with
  | nil => rfl
  | cons x ran ih =>
    have hfirst : { report with directories := n }.add x.1 x.2 =
        { report.add x.1 x.2 with directories := n } := by
      cases x.2 <;> rfl
    rw [addAll_cons, addAll_cons, hfirst, ih]

lemma verdict_directories (report : Report) (n : Nat) :
    verdict { report with directories := n } =
      (verdict report).map fun report => { report with directories := n } := by
  unfold verdict
  dsimp only
  split_ifs
  · rfl
  · rfl

/-- A build that went on to its end can be repeated: the second one leaves the tree as it is and ends
as the first one did, but that it makes no folder. -/
theorem run_again_changes_nothing (hfree : LinkFree t)
    (hapart : ∀ i o bytes, cfg.findInput t = .ok i → t.get? i = some (.file bytes) →
      cfg.findOutput (run cfg t).tree = .ok o → i.dropLast ≠ o)
    (hend : Ended (run cfg t).result) :
    (∀ q, (run cfg (run cfg t).tree).tree.get? q = (run cfg t).tree.get? q) ∧
      (run cfg (run cfg t).tree).result =
        (run cfg t).result.map fun report => { report with directories := 0 } := by
  obtain ⟨t₀, r, excluded, hdone⟩ := exists_completed_of_ended hfree hend
  have hfree' := hdone.linkFree_run
  have hapart₀ : NotInPlace t₀ r := fun bytes hfile =>
    hapart _ _ bytes (hdone.prepared.findInput_eq hfree) (hdone.opened.file_iff.mp hfile)
      (hdone.prepared.findOutput_eq hfree)
  have hwalk := hdone.walked
  obtain ⟨jobs, hperm, hwalk'⟩ := hdone.walked_again hapart₀
  have hagain : ∀ job ∈ jobs, _ := fun job hjob =>
    hwalk.job_again hfree hfree' (hperm.mem_iff.mp hjob)
      (hdone.source_again hapart₀ (hperm.mem_iff.mp hjob))
  constructor
  · intro q
    by_cases hq : ∃ job ∈ jobs, q = job.destination
    · obtain ⟨job, hjob, rfl⟩ := hq
      rw [hwalk'.get?_destination hfree' hjob, (hagain job hjob).2]
    · exact hwalk'.elsewhere hfree' fun job hjob heq => hq ⟨job, hjob, heq⟩
  · have hran := hwalk.perm_runAll hfree hwalk' hfree' hperm fun job hjob => (hagain job hjob).1
    rw [hwalk.run_eq.2, hwalk'.run_eq.2, ← verdict_directories, ← addAll_directories,
      addAll_perm hran, failedVisits_visitsOf hdone.linkFree hdone.placed]

/-- The build of a folder into a folder that lies in it, and that is missing at first. -/
theorem run_again_changes_nothing_inside_its_input :
    LinkFree site ∧
      (∀ i o bytes, intoItself.findInput site = .ok i → site.get? i = some (.file bytes) →
        intoItself.findOutput (run intoItself site).tree = .ok o → i.dropLast ≠ o) ∧
      Ended (run intoItself site).result ∧
      (∀ q, (run intoItself (run intoItself site).tree).tree.get? q =
        (run intoItself site).tree.get? q) ∧
      (run intoItself (run intoItself site).tree).result =
        (run intoItself site).result.map fun report => { report with directories := 0 } := by
  have hfree : LinkFree site := by decide
  have hrun : (run intoItself site).result = .ok
      { optimized := 1, copied := 1, directories := 2, bytesIn := 24, bytesOut := 17 } := by
    decide +kernel
  have hin : intoItself.findInput site = .ok ["site".toList] := by decide +kernel
  have hapart : ∀ i o bytes, intoItself.findInput site = .ok i →
      site.get? i = some (.file bytes) →
      intoItself.findOutput (run intoItself site).tree = .ok o → i.dropLast ≠ o := by
    intro i o bytes hi hfile _
    obtain rfl : ["site".toList] = i := by simpa [hin] using hi
    have hfolder : site.get? ["site".toList] = some .folder := by decide
    rw [hfolder] at hfile
    cases hfile
  have hend : Ended (run intoItself site).result := .inl ⟨_, hrun⟩
  exact ⟨hfree, hapart, hend, run_again_changes_nothing hfree hapart hend⟩

end PhpSlim.Proofs
