import PhpSlim.Build.Job
import PhpSlim.Proofs.PlainTree

/-!
# What a walk visits

In a tree without links a walk visits its root and everything below that does not lie in the output,
each entry once: a folder as a folder and a file as a file, and a folder before what lies in it.
-/

namespace PhpSlim.Proofs
open PhpSlim.FileTree PhpSlim.Build

variable {t : FileTree}

lemma insertName_cons_cases (n m : Name) (l : List Name) :
    insertName n (m :: l) = n :: m :: l ∨ insertName n (m :: l) = m :: insertName n l := by
  -- How names are ordered plays no part here.
  obtain ⟨c, _, heq⟩ : ∃ (c : Prop) (_ : Decidable c),
      insertName n (m :: l) = if c then n :: m :: l else m :: insertName n l := ⟨_, _, rfl⟩
  rw [heq]
  split_ifs
  · exact .inl rfl
  · exact .inr rfl

lemma perm_insertName (n : Name) (l : List Name) : (insertName n l).Perm (n :: l) := by
  induction l with
  | nil => exact .refl _
  | cons m l ih =>
    rcases insertName_cons_cases n m l with heq | heq
    · rw [heq]
    · rw [heq]
      exact (ih.cons m).trans (.swap n m l)

lemma perm_foldr_insertName (l : List Name) : (l.foldr insertName []).Perm l := by
  induction l with
  | nil => exact .refl _
  | cons n l ih => exact (perm_insertName n _).trans (ih.cons n)

/-- The name of an entry that stands right in a folder. -/
def nameIn (p : Location) (q : Location) : Option Name :=
  if q.dropLast = p then q.getLast? else none

lemma nameIn_eq_some_iff {p q : Location} {n : Name} : nameIn p q = some n ↔ q = p ++ [n] := by
  unfold nameIn
  constructor
  · intro h
    split_ifs at h with hd
    rw [← hd]
    exact (List.dropLast_append_getLast? n h).symm
  · rintro rfl
    simp

lemma perm_names (t : FileTree) (p : Location) :
    (t.names p).Perm ((t.entries.map Prod.fst).filterMap (nameIn p)) := by
  rw [List.filterMap_map]
  exact perm_foldr_insertName _

lemma mem_names {p : Location} {n : Name} : n ∈ t.names p ↔ ∃ e, t.get? (p ++ [n]) = some e := by
  rw [(perm_names t p).mem_iff, List.mem_filterMap]
  simp only [nameIn_eq_some_iff, get?_eq_some_iff t (p := p ++ [n]) (by simp), List.mem_map]
  constructor
  · rintro ⟨q, ⟨x, hx, rfl⟩, hq⟩
    exact ⟨x.2, hq ▸ hx⟩
  · rintro ⟨e, he⟩
    exact ⟨p ++ [n], ⟨(p ++ [n], e), he, rfl⟩, rfl⟩

lemma nodup_names (t : FileTree) (p : Location) : (t.names p).Nodup := by
  rw [(perm_names t p).nodup_iff]
  refine List.Nodup.filterMap ?_ t.distinct
  intro q q' n hq hq'
  rw [Option.mem_def, nameIn_eq_some_iff] at hq hq'
  rw [hq, hq']

/-- The visit of an entry. -/
def visitOf (t : FileTree) (p : Location) : Visit :=
  if t.get? p = some .folder then .folder p else .file p

lemma look_of_linkFree {w : Walk} (hfree : LinkFree w.tree) (around : List Stop) (here : Location)
    {n : Name} {e : Entry} (he : w.tree.get? (here ++ [n]) = some e) :
    w.look around ⟨here, here⟩ n = if e = .folder then .folder (here ++ [n]) else .file := by
  unfold Walk.look
  rw [he]
  cases e with
  | folder => rfl
  | file bytes => rfl
  | link target => exact absurd he (hfree _ target)

lemma below_succ {w : Walk} (hfree : LinkFree w.tree) (depth : Nat) (around : List Stop)
    (here : Location) :
    w.below (depth + 1) around ⟨here, here⟩ = (w.tree.names here).flatMap fun n =>
      if w.isOutput (here ++ [n]) then []
      else visitOf w.tree (here ++ [n]) ::
        if w.tree.get? (here ++ [n]) = some .folder then
          w.below depth (⟨here, here⟩ :: around) ⟨here ++ [n], here ++ [n]⟩
        else [] := by
  rw [Walk.below]
  refine List.flatMap_congr fun n hn => ?_
  obtain ⟨e, he⟩ := mem_names.mp hn
  simp only [look_of_linkFree hfree around here he, visitOf, he, Option.some.injEq]
  by_cases hfolder : e = .folder
  · simp only [if_pos hfolder]
  · simp only [if_neg hfolder]

lemma not_isOutput_of_append {w : Walk} {p rest : Location} (h : ¬w.output <+: p ++ rest) :
    w.isOutput p = false := by
  rw [Walk.isOutput, ← Bool.not_eq_true, List.isPrefixOf_iff_prefix]
  exact fun hp => h (hp.trans (List.prefix_append p rest))

lemma mem_below {w : Walk} (hfree : LinkFree w.tree) (depth : Nat) (around : List Stop)
    (here : Location) (v : Visit) :
    v ∈ w.below depth around ⟨here, here⟩ ↔
      ∃ rel, rel ≠ [] ∧ rel.length ≤ depth ∧ (∃ e, w.tree.get? (here ++ rel) = some e) ∧
        ¬w.output <+: here ++ rel ∧ v = visitOf w.tree (here ++ rel) := by
  induction depth generalizing around here v with
  | zero =>
    refine iff_of_false (by simp [Walk.below]) ?_
    rintro ⟨rel, hne, hlength, -⟩
    exact hne (List.length_eq_zero_iff.mp (Nat.le_zero.mp hlength))
  | succ depth ih =>
    rw [below_succ hfree, List.mem_flatMap]
    constructor
    · rintro ⟨n, hn, hv⟩
      obtain ⟨e, he⟩ := mem_names.mp hn
      split_ifs at hv with hout hfolder
      · cases hv
      · have hnot : ¬w.output <+: here ++ [n] := by
          rwa [Walk.isOutput, List.isPrefixOf_iff_prefix] at hout
        rcases List.mem_cons.mp hv with rfl | hv
        · exact ⟨[n], by simp, by simp, ⟨e, he⟩, hnot, rfl⟩
        · obtain ⟨rel, -, hlength, hex, hrel, rfl⟩ := (ih _ _ _).mp hv
          rw [List.append_assoc, List.singleton_append] at hex hrel ⊢
          exact ⟨n :: rel, by simp, Nat.succ_le_succ hlength, hex, hrel, rfl⟩
      · have hnot : ¬w.output <+: here ++ [n] := by
          rwa [Walk.isOutput, List.isPrefixOf_iff_prefix] at hout
        obtain rfl := List.mem_singleton.mp hv
        exact ⟨[n], by simp, by simp, ⟨e, he⟩, hnot, rfl⟩
    · rintro ⟨rel, hne, hlength, ⟨e, he⟩, hrel, rfl⟩
      obtain ⟨n, rel, rfl⟩ := List.exists_cons_of_ne_nil hne
      have hsplit : here ++ n :: rel = here ++ [n] ++ rel := by simp
      rw [hsplit] at he hrel ⊢
      refine ⟨n, mem_names.mpr (isSome_of_append he), ?_⟩
      rw [if_neg (by simp [not_isOutput_of_append hrel])]
      cases rel with
      | nil => simp
      | cons m rel =>
        rw [if_pos (get?_of_append_cons he)]
        have hrest : (m :: rel).length ≤ depth := by simpa using hlength
        refine List.mem_cons_of_mem _ ?_
        rw [ih]
        exact ⟨m :: rel, by simp, hrest, ⟨e, he⟩, hrel, rfl⟩

/-- Where the entry stands that a visit met. -/
def placeOf : Visit → Option Location
  | .folder p => some p
  | .file p => some p
  | .failed _ => none

lemma placeOf_visitOf (t : FileTree) (p : Location) : placeOf (visitOf t p) = some p := by
  unfold visitOf
  split_ifs <;> rfl

/-- A visit comes before another that is neither at the same place nor at one around it. -/
def Ahead (v v' : Visit) : Prop :=
  ∃ p, placeOf v = some p ∧ ∀ p', placeOf v' = some p' → ¬p' <+: p

lemma Ahead.ne {v v' : Visit} (h : Ahead v v') : v ≠ v' := by
  rintro rfl
  obtain ⟨p, hp, hnot⟩ := h
  exact hnot p hp List.prefix_rfl

lemma ahead_visitOf {p p' : Location} (h : ¬p' <+: p) : Ahead (visitOf t p) (visitOf t p') := by
  refine ⟨p, placeOf_visitOf t p, fun q hq => ?_⟩
  obtain rfl : p' = q := by simpa [placeOf_visitOf] using hq
  exact h

lemma pairwise_below {w : Walk} (hfree : LinkFree w.tree) (depth : Nat) (around : List Stop)
    (here : Location) : (w.below depth around ⟨here, here⟩).Pairwise Ahead := by
  induction depth generalizing around here with
  | zero => exact .nil
  | succ depth ih =>
    -- What comes from the entry `n` lies at `n` or below it.
    have hfront {n : Name} {v : Visit} (hv : v ∈ (if w.isOutput (here ++ [n]) then []
        else visitOf w.tree (here ++ [n]) ::
          if w.tree.get? (here ++ [n]) = some .folder then
            w.below depth (⟨here, here⟩ :: around) ⟨here ++ [n], here ++ [n]⟩
          else [])) : ∃ rel, v = visitOf w.tree (here ++ n :: rel) := by
      split_ifs at hv
      · cases hv
      · rcases List.mem_cons.mp hv with rfl | hv
        · exact ⟨[], rfl⟩
        · obtain ⟨rel, -, -, -, -, rfl⟩ := (mem_below hfree _ _ _ _).mp hv
          exact ⟨rel, by simp⟩
      · obtain rfl := List.mem_singleton.mp hv
        exact ⟨[], rfl⟩
    rw [below_succ hfree, List.pairwise_flatMap]
    refine ⟨?_, (nodup_names _ here).imp ?_⟩
    · intro n _
      split_ifs
      · exact .nil
      · refine List.pairwise_cons.mpr ⟨?_, ih _ _⟩
        intro v hv
        obtain ⟨rel, hne, -, -, -, rfl⟩ := (mem_below hfree _ _ _ _).mp hv
        exact ahead_visitOf (not_append_le _ hne)
      · exact List.pairwise_singleton _ _
    · intro n m hne v hn v' hm
      obtain ⟨rel, rfl⟩ := hfront hn
      obtain ⟨rel', rfl⟩ := hfront hm
      refine ahead_visitOf fun hle => hne ?_
      exact (List.cons_prefix_cons.mp ((List.prefix_append_right_inj here).mp hle)).1.symm

lemma le_foldr_max {l : List Nat} {n : Nat} (h : n ∈ l) : n ≤ l.foldr max 0 := by
  induction l with
  | nil => cases h
  | cons m l ih =>
    rw [List.foldr_cons]
    rcases List.mem_cons.mp h with rfl | h
    · exact Nat.le_max_left _ _
    · exact (ih h).trans (Nat.le_max_right _ _)

lemma length_le_depth {w : Walk} {p : Location} {e : Entry} (h : w.tree.get? p = some e) :
    p.length ≤ w.depth := by
  by_cases hp : p = []
  · simp [hp]
  · have hmem := (w.tree.get?_eq_some_iff hp).mp h
    have hle := le_foldr_max (List.mem_map_of_mem hmem (f := fun x => x.1.length))
    unfold Walk.depth
    calc p.length ≤ (w.tree.entries.map fun x => x.1.length).foldr max 0 := hle
      _ ≤ (w.tree.entries.map fun x => x.1.length).foldr max 0 + 1 := Nat.le_succ _
      _ ≤ _ := Nat.le_mul_of_pos_left _ (Nat.succ_pos _)

/-- What a walk covers: the input itself, and what lies below it and not in the output. -/
def Covered (r : Roots) (p : Location) : Prop :=
  r.input <+: p ∧ (p = r.input ∨ ¬r.output <+: p)

/-- The visits of a build. -/
def visitsOf (cfg : Config) (r : Roots) (t : FileTree) : List Visit :=
  (Walk.mk t cfg.followLinks r.output).visits r.input

theorem mem_visitsOf {cfg : Config} {r : Roots} (hfree : LinkFree t) {e : Entry}
    (hinput : t.get? r.input = some e) (v : Visit) :
    v ∈ visitsOf cfg r t ↔ ∃ p, Covered r p ∧ (∃ e, t.get? p = some e) ∧ v = visitOf t p := by
  unfold visitsOf Walk.visits
  dsimp only
  split_ifs with hfolder
  · rw [List.mem_cons, mem_below hfree]
    constructor
    · rintro (rfl | ⟨rel, -, -, hex, hrel, rfl⟩)
      · exact ⟨r.input, ⟨List.prefix_rfl, .inl rfl⟩, ⟨_, hinput⟩, by rw [visitOf, if_pos hfolder]⟩
      · exact ⟨r.input ++ rel, ⟨List.prefix_append _ _, .inr hrel⟩, hex, rfl⟩
    · rintro ⟨p, ⟨⟨rel, rfl⟩, hout⟩, ⟨e', he'⟩, rfl⟩
      by_cases hrel : rel = []
      · subst hrel
        left
        rw [List.append_nil, visitOf, if_pos hfolder]
      · right
        have hne : ¬r.input ++ rel = r.input := by simpa using hrel
        have hlength := length_le_depth (w := ⟨t, cfg.followLinks, r.output⟩) he'
        rw [List.length_append] at hlength
        exact ⟨rel, hrel, by omega, ⟨e', he'⟩, hout.resolve_left hne, rfl⟩
  · rw [List.mem_singleton]
    constructor
    · rintro rfl
      exact ⟨r.input, ⟨List.prefix_rfl, .inl rfl⟩, ⟨_, hinput⟩, by rw [visitOf, if_neg hfolder]⟩
    · rintro ⟨p, ⟨hp, -⟩, ⟨e', he'⟩, rfl⟩
      obtain rfl : r.input = p := by
        by_contra hne
        exact hfolder (get?_along he' hp hne)
      rw [visitOf, if_neg hfolder]

lemma folder_mem_visitsOf {cfg : Config} {r : Roots} (hfree : LinkFree t) {e : Entry}
    (hinput : t.get? r.input = some e) {p : Location} :
    .folder p ∈ visitsOf cfg r t ↔ Covered r p ∧ t.get? p = some .folder := by
  rw [mem_visitsOf hfree hinput]
  constructor
  · rintro ⟨q, hcov, -, hvisit⟩
    unfold visitOf at hvisit
    split_ifs at hvisit with hq
    obtain rfl : p = q := by simpa using hvisit
    exact ⟨hcov, hq⟩
  · rintro ⟨hcov, hp⟩
    exact ⟨p, hcov, ⟨_, hp⟩, by rw [visitOf, if_pos hp]⟩

lemma file_mem_visitsOf {cfg : Config} {r : Roots} (hfree : LinkFree t) {e : Entry}
    (hinput : t.get? r.input = some e) {p : Location} :
    .file p ∈ visitsOf cfg r t ↔ Covered r p ∧ ∃ bytes, t.get? p = some (.file bytes) := by
  rw [mem_visitsOf hfree hinput]
  constructor
  · rintro ⟨q, hcov, ⟨e', he'⟩, hvisit⟩
    unfold visitOf at hvisit
    split_ifs at hvisit with hq
    obtain rfl : p = q := by simpa using hvisit
    refine ⟨hcov, ?_⟩
    cases e' with
    | folder => exact absurd he' hq
    | file bytes => exact ⟨bytes, he'⟩
    | link target => exact absurd he' (hfree p target)
  · rintro ⟨hcov, bytes, hp⟩
    exact ⟨p, hcov, ⟨_, hp⟩, by rw [visitOf, if_neg (by simp [hp])]⟩

/-- A walk visits a folder before what lies in it. -/
theorem pairwise_visitsOf {cfg : Config} {r : Roots} (hfree : LinkFree t) :
    (visitsOf cfg r t).Pairwise Ahead := by
  unfold visitsOf Walk.visits
  dsimp only
  split_ifs with hfolder
  · refine List.pairwise_cons.mpr ⟨?_, pairwise_below hfree _ _ _⟩
    intro v hv
    obtain ⟨rel, hne, -, -, -, rfl⟩ := (mem_below hfree _ _ _ _).mp hv
    have hroot : visitOf t r.input = .folder r.input := by rw [visitOf, if_pos hfolder]
    rw [← hroot]
    exact ahead_visitOf (not_append_le _ hne)
  · exact List.pairwise_singleton _ _

theorem nodup_visitsOf {cfg : Config} {r : Roots} (hfree : LinkFree t) :
    (visitsOf cfg r t).Nodup :=
  (pairwise_visitsOf hfree).imp Ahead.ne

/-- The files among the visits. -/
def filesOf (visits : List Visit) : List Location :=
  visits.filterMap fun v => match v with
    | .file p => some p
    | _ => none

lemma mem_filesOf {visits : List Visit} {p : Location} :
    p ∈ filesOf visits ↔ .file p ∈ visits := by
  rw [filesOf, List.mem_filterMap]
  constructor
  · rintro ⟨v, hv, heq⟩
    cases v with
    | file q =>
      obtain rfl : q = p := by simpa using heq
      exact hv
    | folder q => cases heq
    | failed e => cases heq
  · intro h
    exact ⟨.file p, h, rfl⟩

lemma nodup_filesOf {visits : List Visit} (h : visits.Nodup) : (filesOf visits).Nodup := by
  refine List.Nodup.filterMap ?_ h
  intro v v' p hv hv'
  cases v with
  | file q =>
    cases v' with
    | file q' =>
      obtain rfl : q = p := by simpa using hv
      obtain rfl : q' = q := by simpa using hv'
      rfl
    | folder q' => cases hv'
    | failed e => cases hv'
  | folder q => cases hv
  | failed e => cases hv

/-- The job of a file. -/
def jobOf (r : Roots) (excluded : List Glob.Pattern) (p : Location) : Job where
  source := p
  destination := r.destination p
  name := Path.withSlashes (Path.relative (r.relative p))
  optimize := Path.isPhpSource (Path.relative (r.relative p)) &&
    !Exclusion.covers excluded (Path.relative (r.relative p))

lemma ofVisits_eq_map (r : Roots) (excluded : List Glob.Pattern) (visits : List Visit) :
    Job.ofVisits r excluded visits = (filesOf visits).map (jobOf r excluded) := by
  induction visits with
  | nil => rfl
  | cons v visits ih =>
    cases v with
    | file p =>
      rw [Job.ofVisits, ih]
      rfl
    | folder p => exact ih
    | failed e => exact ih

end PhpSlim.Proofs
