import PhpSlim.Proofs.StrippedText
import PhpSlim.Stage

/-!
# The stages that names select

A list of names selects stages as a set: it counts which modules are named, not how often, in which
order or in which spelling. The warnings name what was not recognised up to the first name that
stands for all stages.
-/

namespace PhpSlim.Proofs
open PhpSlim.Text PhpSlim.Stage

lemma trim_trim (s : String) : trim (trim s) = trim s := by
  rw [trim, trim, String.toList_ofList, stripEnds_stripEnds]

lemma isWhiteSpace_of_letter {c : Char} (h : 65 ≤ c.toNat ∧ c.toNat ≤ 122) :
    isWhiteSpace c = false := by
  have hranges : ∀ r ∈ whiteSpaceRanges, r.2 < 65 ∨ 122 < r.1 := by decide
  rw [isWhiteSpace, List.any_eq_false]
  intro r hr
  have hfar := hranges r hr
  simp only [Bool.and_eq_true, decide_eq_true_eq]
  omega

lemma isWhiteSpace_toLower (c : Char) : isWhiteSpace c.toLower = isWhiteSpace c := by
  have hnat := toNat_toLower c
  split_ifs at hnat with hcapital
  · have hsmall : isWhiteSpace c.toLower = false := isWhiteSpace_of_letter (by omega)
    have hlarge : isWhiteSpace c = false := isWhiteSpace_of_letter (by omega)
    rw [hsmall, hlarge]
  · rw [Char.toNat_inj.mp hnat]

/-- Whether two texts are one name, up to the case of ASCII letters and the white space around. -/
def Respelled (s s' : String) : Prop :=
  ∃ front core back front' core' back' : List Char,
    s.toList = front ++ core ++ back ∧ s'.toList = front' ++ core' ++ back' ∧
      (∀ c ∈ front ++ back ++ front' ++ back', isWhiteSpace c = true) ∧
      core'.map Char.toLower = core.map Char.toLower

/-- A name without the white space around it and in small letters. -/
def folded (s : String) : List Char :=
  (trim s).toList.map Char.toLower

/-- Two texts are one name exactly if folding makes them the same. -/
lemma respelled_iff {s s' : String} : Respelled s s' ↔ folded s' = folded s := by
  simp only [folded, trim, String.toList_ofList]
  constructor
  · rintro ⟨front, core, back, front', core', back', hs, hs', hwhite, hcore⟩
    simp only [List.mem_append, or_imp, forall_and] at hwhite
    obtain ⟨⟨⟨hfront, hback⟩, hfront'⟩, hback'⟩ := hwhite
    rw [hs, hs', stripEnds_padded hfront hback, stripEnds_padded hfront' hback',
      ← stripEnds_map isWhiteSpace_toLower, ← stripEnds_map isWhiteSpace_toLower, hcore]
  · intro hcore
    obtain ⟨front, back, hs, hfront, hback, -⟩ := stripsTo_stripEnds isWhiteSpace s.toList
    obtain ⟨front', back', hs', hfront', hback', -⟩ := stripsTo_stripEnds isWhiteSpace s'.toList
    refine ⟨front, _, back, front', _, back', hs, hs', ?_, hcore⟩
    simp only [List.mem_append, or_imp, forall_and]
    exact ⟨⟨⟨hfront, hback⟩, hfront'⟩, hback'⟩

instance (s s' : String) : Decidable (Respelled s s') :=
  decidable_of_iff _ respelled_iff.symm

variable {s : String} {stage stage' : Stage} {chosen : List Stage} {names names' : List String}

/-- Whether a name is that of a stage. -/
def isNamed (stage : Stage) (s : String) : Bool :=
  sameName stage.name (trim s)

/-- Whether a name is that of no stage. -/
def isUnknown (s : String) : Bool :=
  Stage.all.all fun stage => !isNamed stage s

lemma isNamed_iff : isNamed stage s = true ↔ stage.name.toList.map Char.toLower = folded s := by
  rw [isNamed, sameName, beq_iff_eq, folded]

lemma namesAll_iff : namesAll s = true ↔ folded s = "all".toList.map Char.toLower := by
  rw [namesAll, sameName, beq_iff_eq, folded]

lemma isNamed_unique (h : isNamed stage s = true) (h' : isNamed stage' s = true) :
    stage = stage' := by
  have heq := (isNamed_iff.mp h).trans (isNamed_iff.mp h').symm
  cases stage <;> cases stage' <;> first | rfl | exact absurd heq (by decide)

lemma Respelled.isNamed_eq {s' : String} (h : Respelled s s') (stage : Stage) :
    isNamed stage s' = isNamed stage s := by
  rw [Bool.eq_iff_iff, isNamed_iff, isNamed_iff, respelled_iff.mp h]

lemma Respelled.namesAll_eq {s' : String} (h : Respelled s s') : namesAll s' = namesAll s := by
  rw [Bool.eq_iff_iff, namesAll_iff, namesAll_iff, respelled_iff.mp h]

lemma ignoring_message (name : String) :
    "Ignoring " ++ UnknownStage.message ⟨name⟩ =
      "Ignoring unknown optimization module: " ++ name := by
  have hwords : "Ignoring " ++ "unknown optimization module: " =
      "Ignoring unknown optimization module: " := by decide
  exact String.append_assoc.symm.trans (congrArg (· ++ name) hwords)

lemma parse_cases (s : String) :
    (∃ stage, parse (trim s) = .ok stage ∧ ∀ stage', isNamed stage' s = (stage' == stage)) ∨
      (parse (trim s) = .error ⟨trim s⟩ ∧ ∀ stage', isNamed stage' s = false) := by
  have hmem (stage : Stage) : stage ∈ Stage.all := by cases stage <;> decide
  unfold parse
  rw [trim_trim]
  split
  · rename_i stage hfind
    have hnamed : isNamed stage s = true := by
      have hsame := List.find?_some hfind
      rwa [isNamed]
    refine .inl ⟨stage, rfl, fun stage' => ?_⟩
    rw [Bool.eq_iff_iff, beq_iff_eq]
    exact ⟨fun h' => isNamed_unique h' hnamed, fun heq => heq ▸ hnamed⟩
  · rename_i hfind
    refine .inr ⟨rfl, fun stage' => ?_⟩
    have hnone := List.find?_eq_none.mp hfind stage' (hmem stage')
    exact Bool.eq_false_of_not_eq_true hnone

lemma stages_collect (chosen : List Stage) (names : List String) :
    (collect chosen names).stages =
      if names.any namesAll then Stage.all
      else Stage.all.filter fun stage => chosen.contains stage || names.any (isNamed stage) := by
  induction names generalizing chosen with
  | nil => simp only [collect, List.any_nil, Bool.or_false, Bool.false_eq_true, if_false]
  | cons s rest ih =>
    rw [collect, List.any_cons]
    by_cases hall : namesAll s = true
    · rw [if_pos hall, hall, Bool.true_or, if_pos rfl]
    · rw [if_neg hall, Bool.eq_false_of_not_eq_true hall, Bool.false_or]
      rcases parse_cases s with ⟨stage, hparse, hnamed⟩ | ⟨hparse, hnamed⟩
      · rw [hparse]
        dsimp only
        rw [ih]
        have hmoved (stage' : Stage) :
            ((stage :: chosen).contains stage' || rest.any (isNamed stage')) =
              (chosen.contains stage' || (s :: rest).any (isNamed stage')) := by
          rw [List.contains_cons, List.any_cons, hnamed, ← Bool.or_assoc, Bool.or_comm (_ == _)]
        simp only [hmoved]
      · rw [hparse]
        dsimp only
        rw [ih]
        simp only [List.any_cons, hnamed, Bool.false_or]

lemma ignored_collect (chosen : List Stage) (names : List String) :
    (collect chosen names).ignored =
      ((names.takeWhile fun s => !namesAll s).filter isUnknown).map fun s => ⟨trim s⟩ := by
  induction names generalizing chosen with
  | nil => rfl
  | cons s rest ih =>
    rw [collect]
    by_cases hall : namesAll s = true
    · rw [if_pos hall, List.takeWhile_cons_of_neg (by simp [hall])]
      rfl
    · rw [if_neg hall, List.takeWhile_cons_of_pos (by simpa using hall)]
      rcases parse_cases s with ⟨stage, hparse, hnamed⟩ | ⟨hparse, hnamed⟩
      · have hknown : isUnknown s = false := by
          cases stage <;> simp [isUnknown, Stage.all, hnamed]
        rw [hparse, List.filter_cons_of_neg (by simp [hknown])]
        exact ih (stage :: chosen)
      · have hunknown : isUnknown s = true := by simp [isUnknown, hnamed]
        rw [hparse, List.filter_cons_of_pos hunknown, List.map_cons, ← ih chosen]

/-- Whether two lists name the same modules: each name of one stands in the other, in some
spelling. Order and repetition play no part in this. -/
def SameModules (names names' : List String) : Prop :=
  (∀ s ∈ names, ∃ s' ∈ names', Respelled s s') ∧ ∀ s' ∈ names', ∃ s ∈ names, Respelled s s'

instance (names names' : List String) : Decidable (SameModules names names') :=
  inferInstanceAs (Decidable (_ ∧ _))

lemma SameModules.any_eq (h : SameModules names names') {f : String → Bool}
    (hf : ∀ {s s'}, Respelled s s' → f s' = f s) : names'.any f = names.any f := by
  rw [Bool.eq_iff_iff, List.any_eq_true, List.any_eq_true]
  constructor
  · rintro ⟨s', hmem', htrue⟩
    obtain ⟨s, hmem, hsame⟩ := h.2 s' hmem'
    exact ⟨s, hmem, (hf hsame).symm.trans htrue⟩
  · rintro ⟨s, hmem, htrue⟩
    obtain ⟨s', hmem', hsame⟩ := h.1 s hmem
    exact ⟨s', hmem', (hf hsame).trans htrue⟩

lemma SameModules.eq_nil_iff (h : SameModules names names') : names' = [] ↔ names = [] := by
  constructor
  · rintro rfl
    refine List.eq_nil_iff_forall_not_mem.mpr fun s hmem => ?_
    obtain ⟨s', hmem', -⟩ := h.1 s hmem
    exact List.not_mem_nil hmem'
  · rintro rfl
    refine List.eq_nil_iff_forall_not_mem.mpr fun s' hmem' => ?_
    obtain ⟨s, hmem, -⟩ := h.2 s' hmem'
    exact List.not_mem_nil hmem

lemma stages_select (names : List String) :
    (select names).stages =
      if names = [] ∨ names.any namesAll = true then Stage.all
      else Stage.all.filter fun stage => names.any (isNamed stage) := by
  unfold select
  by_cases hnil : names = []
  · simp [hnil]
  · rw [if_neg (by simpa using hnil), stages_collect]
    simp [hnil]

lemma ignored_select (names : List String) :
    (select names).ignored =
      ((names.takeWhile fun s => !namesAll s).filter isUnknown).map fun s => ⟨trim s⟩ := by
  unfold select
  by_cases hnil : names = []
  · simp [hnil]
  · rw [if_neg (by simpa using hnil), ignored_collect]

/-- A list of names selects the stages that it names, in the order in which they run, or all of them
if it is empty or says so. Lists that name the same modules select the same stages. There is one
warning for each name that is not recognised, up to the first that stands for all stages. -/
theorem select_by_named_modules (names : List String) :
    (select names).stages =
        (if names = [] ∨ ∃ s ∈ names, namesAll s = true then [.comments, .spaces]
        else [.comments, .spaces].filter fun stage => names.any (isNamed stage)) ∧
      (∀ names', SameModules names names' → (select names').stages = (select names).stages) ∧
      (select names).warnings =
        ((names.takeWhile fun s => !namesAll s).filter isUnknown).map fun s =>
          Log.warn ("Ignoring unknown optimization module: " ++ trim s) := by
  refine ⟨?_, ?_, ?_⟩
  · rw [stages_select]
    exact if_congr (or_congr_right List.any_eq_true) rfl rfl
  · intro names' hsame
    have hall : names'.any namesAll = names.any namesAll := hsame.any_eq Respelled.namesAll_eq
    have hnamed (stage : Stage) : names'.any (isNamed stage) = names.any (isNamed stage) :=
      hsame.any_eq fun h => h.isNamed_eq stage
    rw [stages_select, stages_select, hall]
    exact if_congr (or_congr_left hsame.eq_nil_iff) rfl
      (List.filter_congr fun stage _ => hnamed stage)
  · rw [Selection.warnings, ignored_select, List.map_map]
    exact List.map_congr_left fun s _ => congrArg Log.warn (ignoring_message (trim s))

theorem select_by_named_modules_in_other_spelling :
    SameModules ["Tabs", " spaces", "COMMENTS\t"] ["comments", "spaces", "tabs", "Spaces "] ∧
      (select ["comments", "spaces", "tabs", "Spaces "]).stages =
        (select ["Tabs", " spaces", "COMMENTS\t"]).stages ∧
      (select ["Tabs", " spaces", "COMMENTS\t"]).stages = [.comments, .spaces] ∧
      (select ["Tabs", " spaces", "COMMENTS\t"]).warnings =
        [Log.warn "Ignoring unknown optimization module: Tabs"] := by
  have hsame :
      SameModules ["Tabs", " spaces", "COMMENTS\t"] ["comments", "spaces", "tabs", "Spaces "] := by
    decide
  obtain ⟨hstages, hagree, hwarnings⟩ :=
    select_by_named_modules ["Tabs", " spaces", "COMMENTS\t"]
  refine ⟨hsame, hagree _ hsame, hstages.trans ?_, hwarnings.trans ?_⟩
  · decide
  · decide

end PhpSlim.Proofs
