import PhpSlim.Proofs.LinkedPaths
import PhpSlim.Proofs.Mirror

/-!
# Builds that are rejected

A build whose input does not exist, or whose output exists and is not a folder, leaves its tree as
it was. One whose exclusions cannot be read has made no more than its output folder and the folders
that were missing on the way to it. The tree may hold links.
-/

namespace PhpSlim.Proofs
open PhpSlim.FileTree PhpSlim.Build

variable {t t₁ : FileTree} {cfg : Config} {found : Except Fault Location} {e e' : Entry}
  {failure : Failure}

/-- Whether a lookup has led to an entry. -/
def Resolves (t : FileTree) (found : Except Fault Location) (e : Entry) : Prop :=
  ∃ p, found = .ok p ∧ t.get? p = some e

lemma Resolves.unique (h : Resolves t found e) (h' : Resolves t found e') : e = e' := by
  obtain ⟨p, rfl, he⟩ := h
  obtain ⟨p', hp, he'⟩ := h'
  obtain rfl : p = p' := Except.ok.inj hp
  exact Option.some.inj (he.symm.trans he')

lemma reaches_findPath_iff {here : Location} {path : List Char} :
    reaches (t.findPath here path) = true ↔ ∃ e, Resolves t (t.findPath here path) e := by
  constructor
  · intro hreaches
    cases hfind : t.findPath here path with
    | error f => simp [hfind, reaches] at hreaches
    | ok p =>
      obtain ⟨e, he⟩ := exists_of_findPath hfind
      exact ⟨e, p, rfl, he⟩
  · rintro ⟨e, p, hfind, -⟩
    simp [hfind, reaches]

lemma reachesFolder_iff : t.reachesFolder found = true ↔ Resolves t found .folder := by
  cases found with
  | error f => simp [reachesFolder, Resolves]
  | ok p => simp [reachesFolder, Resolves]

def InputMissing (cfg : Config) (t : FileTree) : Prop :=
  ¬∃ e, Resolves t (cfg.findInput t) e

/-- Whether the output exists and is not a folder. -/
def OutputBlocked (cfg : Config) (t : FileTree) : Prop :=
  ∃ e, Resolves t (cfg.findOutput t) e ∧ e ≠ .folder

lemma inputMissing_iff : InputMissing cfg t ↔ reaches (cfg.findInput t) = false := by
  rw [← Bool.not_eq_true]
  exact not_congr reaches_findPath_iff.symm

lemma outputBlocked_iff : OutputBlocked cfg t ↔
    reaches (cfg.findOutput t) = true ∧ t.reachesFolder (cfg.findOutput t) = false := by
  rw [← Bool.not_eq_true, reachesFolder_iff]
  constructor
  · rintro ⟨e, he, hne⟩
    exact ⟨reaches_findPath_iff.mpr ⟨e, he⟩, fun hfolder => hne (he.unique hfolder)⟩
  · rintro ⟨hreaches, hnot⟩
    obtain ⟨e, he⟩ := reaches_findPath_iff.mp hreaches
    refine ⟨e, he, ?_⟩
    rintro rfl
    exact hnot he

lemma check_eq_error_iff : cfg.check t = .error failure ↔
    (failure = .missingInput cfg.input ∧ InputMissing cfg t) ∨
      (failure = .outputNotFolder cfg.output ∧ ¬InputMissing cfg t ∧ OutputBlocked cfg t) := by
  rw [inputMissing_iff, outputBlocked_iff]
  unfold Config.check
  cases reaches (cfg.findInput t) with
  | false => simp [@eq_comm _ failure]
  | true =>
    cases reaches (cfg.findOutput t) with
    | false => simp
    | true => cases t.reachesFolder (cfg.findOutput t) <;> simp [@eq_comm _ failure]

lemma execute_eq_error {r : Roots} {excluded : List Glob.Pattern}
    (h : (execute cfg r excluded t).result = .error failure) :
    (∃ path f, failure = .noFolder path f) ∨ ∃ count, failure = .incomplete count := by
  unfold execute at h
  dsimp only at h
  split at h
  · rename_i error hmade
    obtain rfl : error = failure := Except.error.inj h
    exact .inl (buildFolders_eq_error hmade)
  · split_ifs at h
    exact .inr ⟨_, (Except.error.inj h).symm⟩

/-- The steps at which a build can fail that leaves `tree`, with the failures they give. -/
inductive FailedAt (cfg : Config) (t tree : FileTree) : Failure → Prop
  | check {failure : Failure} : cfg.check t = .error failure → FailedAt cfg t tree failure
  | folders {path f} : FailedAt cfg t tree (.noFolder path f)
  | roots {path f} : FailedAt cfg t tree (.unresolved path f)
  | exclusions {error} : Exclusion.ofEntries cfg.excludes = .error error →
      tree = (openOutput cfg t).1 → FailedAt cfg t tree (.exclusion error)
  | jobs {count} : FailedAt cfg t tree (.incomplete count)

lemma failedAt_run (h : (run cfg t).result = .error failure) :
    FailedAt cfg t (run cfg t).tree failure := by
  have hcourse := course_run cfg t
  generalize (run cfg t).tree = tree at hcourse ⊢
  generalize (run cfg t).result = result at hcourse h
  cases hcourse with
  | rejected hcheck =>
    cases h
    exact .check hcheck
  | unopened _ hfailed =>
    obtain ⟨f, rfl⟩ := openOutput_eq_error hfailed
    cases h
    exact .folders
  | lost _ _ hroots =>
    obtain ⟨path, f, rfl⟩ := roots_eq_error hroots
    cases h
    exact .roots
  | refused _ hopened hexcluded =>
    cases h
    exact .exclusions hexcluded (by rw [hopened])
  | executed =>
    rcases execute_eq_error h with ⟨path, f, rfl⟩ | ⟨count, rfl⟩
    · exact .folders
    · exact .jobs

/-- Whether a failure is one of the check. -/
def Rejects : Failure → Prop
  | .missingInput _ | .outputNotFolder _ => True
  | _ => False

lemma rejects_of_check (h : cfg.check t = .error failure) : Rejects failure := by
  rcases check_eq_error_iff.mp h with ⟨rfl, -⟩ | ⟨rfl, -⟩ <;> trivial

lemma run_of_check (h : cfg.check t = .error failure) :
    (run cfg t).tree = t ∧ (run cfg t).result = .error failure := by
  unfold run
  rw [h]
  exact ⟨rfl, rfl⟩

lemma check_of_rejects (hrejects : Rejects failure) (h : (run cfg t).result = .error failure) :
    cfg.check t = .error failure := by
  cases failedAt_run h with
  | check hcheck => exact hcheck
  | folders => exact hrejects.elim
  | roots => exact hrejects.elim
  | exclusions => exact hrejects.elim
  | jobs => exact hrejects.elim

lemma opened_of_exclusion {error : Exclusion.Error}
    (h : (run cfg t).result = .error (.exclusion error)) :
    Exclusion.ofEntries cfg.excludes = .error error ∧ (run cfg t).tree = (openOutput cfg t).1 := by
  cases failedAt_run h with
  | check hcheck => exact (rejects_of_check hcheck).elim
  | exclusions hexcluded htree => exact ⟨hexcluded, htree⟩

/-- Whether a folder stands at `q` and the output path or one of its beginnings leads there. -/
def OnOutputPath (cfg : Config) (t : FileTree) (q : Location) : Prop :=
  FolderOnPath t (Path.start cfg.here cfg.output) (Path.pieces cfg.output) q

lemma confined_openOutput_onPath (cfg : Config) (t : FileTree) :
    Confined (OnOutputPath cfg (openOutput cfg t).1) (fun _ => False) t (openOutput cfg t).1 := by
  rw [openOutput_tree]
  split_ifs
  · exact .refl _ _ t
  · exact confined_makeFolderPath_onPath t cfg.here cfg.output

/-- A build is rejected exactly if its input is missing or its output is blocked, and then nothing
has changed. One that fails at its exclusions has made folders along the output path and nothing
else. -/
theorem run_rejected (cfg : Config) (t : FileTree) :
    (∀ path, (run cfg t).result = .error (.missingInput path) ↔
      path = cfg.input ∧ InputMissing cfg t) ∧
    (∀ path, (run cfg t).result = .error (.outputNotFolder path) ↔
      path = cfg.output ∧ ¬InputMissing cfg t ∧ OutputBlocked cfg t) ∧
    (∀ path, (run cfg t).result = .error (.missingInput path) ∨
        (run cfg t).result = .error (.outputNotFolder path) → (run cfg t).tree = t) ∧
    ∀ error, (run cfg t).result = .error (.exclusion error) →
      Exclusion.ofEntries cfg.excludes = .error error ∧
        ∀ q, (run cfg t).tree.get? q = t.get? q ∨
          (t.get? q = none ∧ OnOutputPath cfg (run cfg t).tree q) := by
  have hcheck (failure : Failure) (hrejects : Rejects failure) :
      (run cfg t).result = .error failure ↔ cfg.check t = .error failure :=
    ⟨check_of_rejects hrejects, fun h => (run_of_check h).2⟩
  refine ⟨?_, ?_, ?_, ?_⟩
  · intro path
    rw [hcheck (.missingInput path) trivial, check_eq_error_iff]
    simp
  · intro path
    rw [hcheck (.outputNotFolder path) trivial, check_eq_error_iff]
    simp
  · rintro path (hmissing | hblocked)
    · exact (run_of_check ((hcheck (.missingInput path) trivial).mp hmissing)).1
    · exact (run_of_check ((hcheck (.outputNotFolder path) trivial).mp hblocked)).1
  · intro error hfailed
    obtain ⟨hexclusions, htree⟩ := opened_of_exclusion hfailed
    refine ⟨hexclusions, fun q => ?_⟩
    rw [htree]
    rcases confined_openOutput_onPath cfg t q with heq | ⟨honPath, hnone, -⟩ | ⟨hwritten, -, -⟩
    · exact .inl heq
    · exact .inr ⟨hnone, honPath⟩
    · exact hwritten.elim

def linkedSite : FileTree where
  entries :=
    [(["real".toList], .folder),
      (["real".toList, "a.php".toList], .file "<?php echo 1;".toUTF8.toList),
      (["way".toList], .link "real".toList)]
  distinct := by decide
  proper := by decide
  rooted := by decide

/-- Has an exclusion that cannot be read, and an output folder that is missing behind a link. -/
def openClass : Config where
  here := []
  input := "real".toList
  output := "way/made/out".toList
  excludes := ["[x"]

def missingReal : Config :=
  { openClass with input := "no".toList }

theorem run_rejected_behind_a_link :
    (run missingReal linkedSite).result = .error (.missingInput "no".toList) ∧
      (run missingReal linkedSite).tree = linkedSite ∧
      (run openClass linkedSite).result =
        .error (.exclusion (.invalid "[x".toList "[x".toList .unclosedClass)) ∧
      linkedSite.get? ["real".toList, "made".toList] = none ∧
      (run openClass linkedSite).tree.get? ["real".toList, "made".toList] = some .folder ∧
      OnOutputPath openClass (run openClass linkedSite).tree ["real".toList, "made".toList] := by
  have hmissing : (run missingReal linkedSite).result = .error (.missingInput "no".toList) := by
    decide +kernel
  have hexclusion : (run openClass linkedSite).result =
      .error (.exclusion (.invalid "[x".toList "[x".toList .unclosedClass)) := by decide +kernel
  have hbefore : linkedSite.get? ["real".toList, "made".toList] = none := by decide
  have hafter : (run openClass linkedSite).tree.get? ["real".toList, "made".toList] =
      some .folder := by decide +kernel
  obtain ⟨-, -, hunchanged, -⟩ := run_rejected missingReal linkedSite
  obtain ⟨-, -, -, hframe⟩ := run_rejected openClass linkedSite
  refine ⟨hmissing, hunchanged _ (.inl hmissing), hexclusion, hbefore, hafter, ?_⟩
  rcases (hframe _ hexclusion).2 ["real".toList, "made".toList] with heq | ⟨-, honPath⟩
  · rw [hbefore, hafter] at heq
    cases heq
  · exact honPath

end PhpSlim.Proofs
