import PhpSlim.Proofs.JobIndependence

/-!
# Jobs at the same time

Jobs that run at the same time share one tree, and a schedule says whose turn it is to take its next
step. However the steps of a build's jobs are interleaved, they leave the same tree, the same
outcomes and the same counts as the jobs that run one after the other.
-/

namespace PhpSlim.Proofs
open PhpSlim.FileTree PhpSlim.Build

variable {t t₁ : FileTree} {cfg : Config} {order jobs : List Job}

/-- Jobs that run at the same time: the tree they share, and how far each has come. -/
structure Pool where
  tree : FileTree
  jobs : List (Job × Progress)

namespace Pool

def start (t : FileTree) (jobs : List Job) : Pool :=
  ⟨t, jobs.map fun job => (job, .waiting)⟩

/-- Lets the job at position `i` take its next step. -/
def advance (cfg : Config) (s : Pool) (i : Nat) : Pool :=
  match s.jobs[i]? with
  | none => s
  | some (job, p) => ⟨(job.step cfg s.tree p).1, s.jobs.set i (job, (job.step cfg s.tree p).2)⟩

/-- Lets the jobs take their steps in the order of a schedule. -/
def follow (cfg : Config) (s : Pool) (schedule : List Nat) : Pool :=
  schedule.foldl (advance cfg) s

def Finished (s : Pool) : Prop :=
  ∀ x ∈ s.jobs, isDone x.2 = true

instance (s : Pool) : Decidable s.Finished :=
  inferInstanceAs (Decidable (∀ x ∈ s.jobs, isDone x.2 = true))

end Pool

/-- Each job of a pool is where some steps that it takes by itself bring it, and the tree shows
this at its destination. -/
structure Alone (cfg : Config) (t : FileTree) (order : List Job) (s : Pool) : Prop where
  jobs : s.jobs.map Prod.fst = order
  free : LinkFree s.tree
  elsewhere : ∀ q, (∀ job ∈ order, q ≠ job.destination) → s.tree.get? q = t.get? q
  each : ∀ (i : Nat) job p, s.jobs[i]? = some (job, p) → ∃ k, (solo cfg t job k).2 = p ∧
    s.tree.get? job.destination = (solo cfg t job k).1.get? job.destination

lemma alone_start (cfg : Config) (hfree : LinkFree t) (order : List Job) :
    Alone cfg t order (Pool.start t order) where
  jobs := by simp [Pool.start, Function.comp_def]
  free := hfree
  elsewhere _ _ := rfl
  each i job p hi := by
    obtain ⟨job', -, heq⟩ := List.mem_map.mp (List.mem_of_getElem? hi)
    obtain ⟨rfl, rfl⟩ : job' = job ∧ Progress.waiting = p := by simpa using heq
    exact ⟨0, rfl, rfl⟩

namespace Alone

variable {s : Pool} {i : Nat} {job : Job} {p : Progress}

lemma mem_order (h : Alone cfg t order s) (hi : s.jobs[i]? = some (job, p)) : job ∈ order := by
  rw [← h.jobs]
  exact List.mem_map.mpr ⟨(job, p), List.mem_of_getElem? hi, rfl⟩

/-- What a job depends on looks to it as it would if it were alone. -/
lemma view (h : Alone cfg t order s) (hind : Independent t order) (hjob : job ∈ order) {k : Nat}
    (hdest : s.tree.get? job.destination = (solo cfg t job k).1.get? job.destination) :
    s.tree.get? job.source = (solo cfg t job k).1.get? job.source ∧
      s.tree.get? job.destination.dropLast =
        (solo cfg t job k).1.get? job.destination.dropLast := by
  have hfits := hind.fits job hjob
  constructor
  · by_cases hown : job.source = job.destination
    · rw [hown, hdest]
    · rw [solo_elsewhere hind.free hfits k hown]
      apply h.elsewhere
      intro other hother heq
      obtain rfl := hind.source other hother job hjob heq.symm
      exact hown heq
  · have hne : ∀ other ∈ order, job.destination.dropLast ≠ other.destination :=
      fun other hother => (hind.parent other hother job hjob).symm
    rw [solo_elsewhere hind.free hfits k (hne job hjob)]
    exact h.elsewhere _ hne

lemma destination_ne (h : Alone cfg t order s) (hind : Independent t order)
    (hi : s.jobs[i]? = some (job, p)) {j : Nat} {other : Job} {p' : Progress}
    (hj : s.jobs[j]? = some (other, p')) (hne : i ≠ j) : other.destination ≠ job.destination := by
  intro heq
  have hdistinct := hind.distinct
  rw [← h.jobs, List.map_map] at hdistinct
  have hlt : i < (s.jobs.map (Job.destination ∘ Prod.fst)).length := by
    rw [List.length_map]
    exact (List.getElem?_eq_some_iff.mp hi).1
  refine hne ((List.getElem?_inj hlt hdistinct).mp ?_)
  rw [List.getElem?_map, List.getElem?_map, hi, hj]
  simp [heq]

theorem advance (h : Alone cfg t order s) (hind : Independent t order) (i : Nat) :
    Alone cfg t order (s.advance cfg i) := by
  unfold Pool.advance
  split
  · exact h
  · rename_i job p hi
    have hjob := h.mem_order hi
    have hfits := hind.fits job hjob
    obtain ⟨k, hk, hdest⟩ := h.each i job p hi
    obtain ⟨hsource, hparent⟩ := h.view hind hjob hdest
    have hfree : LinkFree (solo cfg t job k).1 := linkFree_solo hind.free hfits.proper k
    have hfitsk : Fits (solo cfg t job k).1 job := hfits.solo hind.free k
    have hlocal : (job.step cfg s.tree p).2 = (job.step cfg (solo cfg t job k).1 p).2 ∧
        (job.step cfg s.tree p).1.get? job.destination =
          (job.step cfg (solo cfg t job k).1 p).1.get? job.destination :=
      step_local hfree h.free hfitsk hsource hparent hdest p
    have hfits' : Fits s.tree job :=
      ⟨hsource ▸ hfitsk.source, hfits.proper, hfits.inner, hparent ▸ hfitsk.parent⟩
    refine ⟨?_, (confined_step cfg h.free hfits.proper p).linkFree h.free, ?_, ?_⟩
    · obtain ⟨hlt, heq⟩ := List.getElem?_eq_some_iff.mp hi
      have hself : (s.jobs.map Prod.fst).set i job = s.jobs.map Prod.fst := by
        conv_rhs => rw [← List.set_getElem_self hlt, List.map_set, heq]
      rw [List.map_set, hself, h.jobs]
    · intro q hq
      dsimp only
      rw [step_elsewhere h.free hfits' p (hq job hjob), h.elsewhere q hq]
    · intro j other p' hj
      dsimp only at hj ⊢
      rw [List.getElem?_set] at hj
      split_ifs at hj with hij
      · obtain ⟨rfl, rfl⟩ : job = other ∧ (job.step cfg s.tree p).2 = p' := by simpa using hj
        refine ⟨k + 1, ?_, ?_⟩
        · rw [solo, hk, hlocal.1]
        · rw [solo, hk, hlocal.2]
      · obtain ⟨k', hk', hdest'⟩ := h.each j other p' hj
        refine ⟨k', hk', ?_⟩
        rw [step_elsewhere h.free hfits' p (h.destination_ne hind hi hj hij), hdest']

theorem follow (h : Alone cfg t order s) (hind : Independent t order) (schedule : List Nat) :
    Alone cfg t order (s.follow cfg schedule) := by
  induction schedule generalizing s with
  | nil => exact h
  | cons i schedule ih => exact ih (h.advance hind i)

lemma outcome (h : Alone cfg t order s) (hend : s.Finished) (hi : s.jobs[i]? = some (job, p)) :
    p = (job.run cfg t).2 ∧
      s.tree.get? job.destination = (job.run cfg t).1.get? job.destination := by
  obtain ⟨k, rfl, hdest⟩ := h.each i job p hi
  have hdone := solo_eq_run (hend _ (List.mem_of_getElem? hi))
  rw [hdone] at hdest ⊢
  exact ⟨rfl, hdest⟩

lemma jobs_eq (h : Alone cfg t order s) (hend : s.Finished) :
    s.jobs = order.map fun job => (job, (job.run cfg t).2) := by
  rw [← h.jobs, List.map_map]
  conv_lhs => rw [← List.map_id s.jobs]
  refine List.map_congr_left ?_
  rintro ⟨job, p⟩ hx
  obtain ⟨i, hi⟩ := List.mem_iff_getElem?.mp hx
  rw [(h.outcome hend hi).1]
  rfl

lemma get?_destination (h : Alone cfg t order s) (hend : s.Finished) (hjob : job ∈ order) :
    s.tree.get? job.destination = (job.run cfg t).1.get? job.destination := by
  rw [← h.jobs] at hjob
  obtain ⟨⟨job, p⟩, hx, rfl⟩ := List.mem_map.mp hjob
  obtain ⟨i, hi⟩ := List.mem_iff_getElem?.mp hx
  exact (h.outcome hend hi).2

lemma tree_eq {s' : Pool} {order' : List Job} (h : Alone cfg t order s) (hend : s.Finished)
    (h' : Alone cfg t order' s') (hend' : s'.Finished) (hperm : order.Perm order') (q : Location) :
    s.tree.get? q = s'.tree.get? q := by
  by_cases hq : ∃ job ∈ order, q = job.destination
  · obtain ⟨job, hjob, rfl⟩ := hq
    rw [h.get?_destination hend hjob, h'.get?_destination hend' (hperm.mem_iff.mp hjob)]
  · have hne : ∀ job ∈ order, q ≠ job.destination := fun job hjob heq => hq ⟨job, hjob, heq⟩
    rw [h.elsewhere q hne, h'.elsewhere q fun job hjob => hne job (hperm.mem_iff.mpr hjob)]

end Alone

/-- The schedule that gives `count` jobs from position `first` on three steps each. -/
def oneByOne (first count : Nat) : List Nat :=
  (List.range' first count).flatMap fun i => [i, i, i]

lemma advance_middle (cfg : Config) (t : FileTree) (before after : List (Job × Progress))
    (job : Job) (p : Progress) :
    Pool.advance cfg ⟨t, before ++ (job, p) :: after⟩ before.length =
      ⟨(job.step cfg t p).1, before ++ (job, (job.step cfg t p).2) :: after⟩ := by
  rw [Pool.advance]
  simp

theorem follow_oneByOne (cfg : Config) (t : FileTree) (before : List (Job × Progress))
    (jobs : List Job) :
    Pool.follow cfg ⟨t, before ++ jobs.map fun job => (job, .waiting)⟩
        (oneByOne before.length jobs.length) =
      ⟨(Job.runAll cfg t jobs).1, before ++ (Job.runAll cfg t jobs).2⟩ := by
  induction jobs generalizing t before with
  | nil => rfl
  | cons job jobs ih =>
    have hnext := ih (job.run cfg t).1 (before ++ [(job, (job.run cfg t).2)])
    rw [List.length_append, List.length_singleton, ← List.append_cons, ← List.append_cons] at hnext
    rw [oneByOne, List.length_cons, List.range'_succ, List.flatMap_cons, List.map_cons]
    simp only [Pool.follow, List.foldl_append, List.foldl_cons, List.foldl_nil, advance_middle]
    exact hnext

lemma finished_runAll (cfg : Config) (t : FileTree) (jobs : List Job) :
    Pool.Finished ⟨(Job.runAll cfg t jobs).1, (Job.runAll cfg t jobs).2⟩ := by
  induction jobs generalizing t with
  | nil => simp [Pool.Finished, Job.runAll]
  | cons job jobs ih =>
    intro x hx
    rcases List.mem_cons.mp hx with rfl | hx
    · exact isDone_run cfg job t
    · exact ih _ x hx

lemma alone_runAll (hind : Independent t jobs) :
    Alone cfg t jobs ⟨(Job.runAll cfg t jobs).1, (Job.runAll cfg t jobs).2⟩ := by
  have hfollow := follow_oneByOne cfg t [] jobs
  have halone := (alone_start cfg hind.free jobs).follow hind (oneByOne 0 jobs.length)
  rw [List.nil_append, List.nil_append] at hfollow
  rw [← hfollow]
  exact halone

lemma add_right_comm (r : Report) (job job' : Job) (p p' : Progress) :
    (r.add job p).add job' p' = (r.add job' p').add job p := by
  unfold Report.add
  split
  · split
    · dsimp only
      rw [Nat.add_right_comm r.optimized, Nat.add_right_comm r.copied, Nat.add_right_comm r.bytesIn,
        Nat.add_right_comm r.bytesOut]
    · rfl
  · split
    · rfl
    · rfl

instance : RightCommutative fun (r : Report) (x : Job × Progress) => r.add x.1 x.2 where
  right_comm r x y := add_right_comm r x.1 y.1 x.2 y.2

lemma addAll_perm {ran ran' : List (Job × Progress)} (h : ran.Perm ran') (r : Report) :
    r.addAll ran = r.addAll ran' :=
  h.foldl_eq r

/-- However the steps of the jobs are interleaved, and in whatever order the jobs stand, they end
with the tree, the outcomes and the counts of the build that runs them one after the other. -/
theorem interleavings_agree {start : Report} {schedule : List Nat} (hfree : LinkFree t)
    (hwalk : Walked cfg t t₁ jobs start) (horder : order.Perm jobs)
    (hend : ((Pool.start t₁ order).follow cfg schedule).Finished) :
    (∀ q, ((Pool.start t₁ order).follow cfg schedule).tree.get? q = (run cfg t).tree.get? q) ∧
      ((Pool.start t₁ order).follow cfg schedule).jobs.Perm (Job.runAll cfg t₁ jobs).2 ∧
      start.addAll ((Pool.start t₁ order).follow cfg schedule).jobs =
        start.addAll (Job.runAll cfg t₁ jobs).2 ∧
      (run cfg t).result =
        verdict (start.addAll ((Pool.start t₁ order).follow cfg schedule).jobs) := by
  have hind := hwalk.independent hfree
  have hind' := hind.perm horder
  have halone := (alone_start cfg hind'.free order).follow hind' schedule
  have hseq : Alone cfg t₁ jobs _ := alone_runAll hind
  have hseqEnd := finished_runAll cfg t₁ jobs
  obtain ⟨htree, hresult⟩ := hwalk.run_eq
  have hran : ((Pool.start t₁ order).follow cfg schedule).jobs.Perm (Job.runAll cfg t₁ jobs).2 := by
    have hjobs : (Job.runAll cfg t₁ jobs).2 = _ := hseq.jobs_eq hseqEnd
    rw [halone.jobs_eq hend, hjobs]
    exact horder.map _
  refine ⟨?_, hran, addAll_perm hran start, ?_⟩
  · intro q
    rw [htree]
    exact halone.tree_eq hend hseq hseqEnd horder q
  · rw [addAll_perm hran start, hresult]

lemma prepared_site : Prepared intoItself site (openOutput intoItself site).1
    ⟨["site".toList], ["site".toList], ["site".toList, "lib".toList, "made".toList, "out".toList]⟩
    [] where
  checked := by decide +kernel
  opened := Prod.ext rfl (by decide +kernel)
  roots := by decide +kernel
  exclusions := rfl

theorem interleavings_agree_turn_by_turn :
    LinkFree site ∧ ∃ t₁ jobs start, Walked intoItself site t₁ jobs start ∧
      jobs.reverse.Perm jobs ∧
      ((Pool.start t₁ jobs.reverse).follow intoItself [0, 1, 1, 0, 1, 0]).Finished ∧
      (∀ q, ((Pool.start t₁ jobs.reverse).follow intoItself [0, 1, 1, 0, 1, 0]).tree.get? q =
        (run intoItself site).tree.get? q) ∧
      ((Pool.start t₁ jobs.reverse).follow intoItself [0, 1, 1, 0, 1, 0]).jobs.Perm
        (Job.runAll intoItself t₁ jobs).2 ∧
      start.addAll ((Pool.start t₁ jobs.reverse).follow intoItself [0, 1, 1, 0, 1, 0]).jobs =
        start.addAll (Job.runAll intoItself t₁ jobs).2 ∧
      (run intoItself site).result = verdict (start.addAll
        ((Pool.start t₁ jobs.reverse).follow intoItself [0, 1, 1, 0, 1, 0]).jobs) := by
  have hfree : LinkFree site := by decide
  have hwalk := Walked.intro prepared_site (by decide +kernel)
  refine ⟨hfree, _, _, _, hwalk, List.reverse_perm _, ?hend,
    interleavings_agree hfree hwalk (List.reverse_perm _) ?hend⟩
  decide +kernel

end PhpSlim.Proofs
