import Mathlib
import PhpSlim.Path
import PhpSlim.Text.WhiteSpace

/-!
# PHP sources by their paths

Whether a path names a PHP source hangs on its last component alone: neither the folders in front of
it nor the slashes and dots behind it matter, and the name itself is read by its ending.
-/

namespace PhpSlim.Proofs
open PhpSlim.Path

/-- What may follow a path and lead nowhere: slashes, and slashes with a dot behind them. -/
inductive IdleEnd : List Char → Prop
  | nil : IdleEnd []
  | slash {tail} : IdleEnd tail → IdleEnd ('/' :: tail)
  | dot {tail} : IdleEnd tail → IdleEnd ('/' :: '.' :: tail)

/-- What may stand in front of a name: nothing, or a text that a slash ends. -/
def FolderPart (d : List Char) : Prop :=
  d = [] ∨ ∃ d', d = d' ++ ['/']

/-- `n` is the last component of a path. A dot is a component only where nothing stands in front. -/
inductive LastComponent : List Char → Name → Prop
  | intro {d n tail} : FolderPart d → n ≠ [] → '/' ∉ n → (n = ['.'] → d = []) → IdleEnd tail →
      LastComponent (d ++ n ++ tail) n

/-- Whether a name has the ending `.php`, in any case, with something in front of it. -/
def EndsInPhp (n : Name) : Prop :=
  ∃ stem ending, n = stem ++ ending ∧ stem ≠ [] ∧ ending.map Char.toLower = ['.', 'p', 'h', 'p']

variable {path tail d : List Char} {n ext : Name}

lemma isIdle_iff : isIdle n = true ↔ n = [] ∨ n = ['.'] := by
  simp [isIdle]

lemma components_append_slash (path rest : List Char) :
    components (path ++ '/' :: rest) = components path ++ components rest := by
  simp only [components, pieces, List.splitOn_eq_splitOnP]
  rw [List.splitOnP_append_cons _ _ (by simp), List.filter_append]

lemma components_of_not_mem (h : '/' ∉ n) : components n = if isIdle n then [] else [n] := by
  have hpieces : pieces n = [n] := by
    rw [pieces, List.splitOn_eq_splitOnP]
    refine List.splitOnP_eq_singleton fun c hc => ?_
    rw [beq_eq_false_iff_ne]
    rintro rfl
    exact h hc
  rw [components, hpieces]
  cases hidle : isIdle n <;> simp [hidle]

lemma path_induction {P : List Char → Prop} (name : ∀ n, '/' ∉ n → P n)
    (slash : ∀ n rest, '/' ∉ n → P rest → P (n ++ '/' :: rest)) (path : List Char) : P path := by
  induction hlen : path.length using Nat.strong_induction_on generalizing path with
  | _ len ih =>
    by_cases hmem : '/' ∈ path
    · obtain ⟨n, rest, rfl, hn⟩ := List.eq_append_cons_of_mem hmem
      refine slash n rest hn (ih rest.length ?_ rest rfl)
      simp only [List.length_append, List.length_cons] at hlen
      omega
    · exact name path hmem

lemma components_append_idleEnd (h : IdleEnd tail) (path : List Char) :
    components (path ++ tail) = components path := by
  induction h generalizing path with
  | nil => rw [List.append_nil]
  | slash _ ih =>
    have hrest := ih []
    rw [List.nil_append] at hrest
    rw [components_append_slash, hrest]
    exact List.append_nil _
  | dot _ ih =>
    have hrest := ih ['.']
    rw [List.singleton_append] at hrest
    rw [components_append_slash, hrest]
    exact List.append_nil _

lemma idleEnd_of_components_eq_nil (h : components path = []) : IdleEnd ('/' :: path) := by
  have hidle {m : Name} (hm : '/' ∉ m) (hnil : components m = []) : m = [] ∨ m = ['.'] := by
    rw [components_of_not_mem hm] at hnil
    rw [← isIdle_iff]
    by_contra hnot
    simp [hnot] at hnil
  induction path using path_induction with
  | name m hm =>
    rcases hidle hm h with rfl | rfl
    · exact .slash .nil
    · exact .dot .nil
  | slash m rest hm ih =>
    rw [components_append_slash, List.append_eq_nil_iff] at h
    rcases hidle hm h.1 with rfl | rfl
    · exact .slash (ih h.2)
    · exact .dot (ih h.2)

lemma components_append_folderPart (h : FolderPart d) (rest : List Char) :
    components (d ++ rest) = components d ++ components rest := by
  rcases h with rfl | ⟨d, rfl⟩
  · rfl
  · have hd : components (d ++ ['/']) = components d :=
      components_append_idleEnd (.slash .nil) d
    rw [hd, List.append_assoc, List.singleton_append, components_append_slash]

lemma FolderPart.behind (h : FolderPart d) (n : Name) : FolderPart (n ++ '/' :: d) := by
  rcases h with rfl | ⟨d, rfl⟩
  · exact .inr ⟨n, rfl⟩
  · exact .inr ⟨n ++ '/' :: d, by simp⟩

lemma LastComponent.behind (h : LastComponent path n) (hn : n ≠ ['.']) (m : Name) :
    LastComponent (m ++ '/' :: path) n := by
  cases h with
  | intro hd hne hslash _ htail =>
    have hlast := LastComponent.intro (hd.behind m) hne hslash (fun hdot => absurd hdot hn) htail
    simpa using hlast

/-- But for a dot, the last component is the last piece that leads somewhere. -/
lemma getLast_components_iff :
    (components path).getLast? = some n ↔ LastComponent path n ∧ n ≠ ['.'] := by
  constructor
  · intro h
    induction path using path_induction with
    | name m hm =>
      rw [components_of_not_mem hm] at h
      split_ifs at h with hidle
      · cases h
      · obtain rfl : m = n := by simpa using h
        rw [isIdle_iff, not_or] at hidle
        have hlast := LastComponent.intro (.inl rfl) hidle.1 hm (fun _ => rfl) .nil
        exact ⟨by simpa using hlast, hidle.2⟩
    | slash m rest hm ih =>
      rw [components_append_slash] at h
      by_cases hrest : components rest = []
      · -- Nothing behind the slash leads anywhere, so the name in front of it is the last.
        rw [hrest, List.append_nil, components_of_not_mem hm] at h
        split_ifs at h with hidle
        · cases h
        · obtain rfl : m = n := by simpa using h
          rw [isIdle_iff, not_or] at hidle
          have hlast := LastComponent.intro (.inl rfl) hidle.1 hm (fun _ => rfl)
            (idleEnd_of_components_eq_nil hrest)
          exact ⟨by simpa using hlast, hidle.2⟩
      · rw [List.getLast?_append_of_ne_nil _ hrest] at h
        obtain ⟨hlast, hn⟩ := ih h
        exact ⟨hlast.behind hn m, hn⟩
  · rintro ⟨⟨hd, hne, hslash, -, htail⟩, hn⟩
    have hidle : isIdle n = false := by
      rw [Bool.eq_false_iff, Ne, isIdle_iff, not_or]
      exact ⟨hne, hn⟩
    rw [components_append_idleEnd htail, components_append_folderPart hd,
      components_of_not_mem hslash, hidle]
    exact List.getLast?_concat

lemma fileName_eq_some_iff :
    fileName? path = some n ↔ LastComponent path n ∧ n ≠ ['.'] ∧ n ≠ ['.', '.'] := by
  rw [← and_assoc, ← getLast_components_iff, fileName?]
  cases (components path).getLast? with
  | none => simp
  | some m =>
    by_cases hm : m = ['.', '.']
    · subst hm
      simp only [beq_self_eq_true, if_true, reduceCtorEq, Option.some.injEq, false_iff, not_and,
        not_not]
      exact Eq.symm
    · simp only [beq_iff_eq, hm, if_false, Option.some.injEq]
      exact ⟨fun h => ⟨h, h ▸ hm⟩, And.left⟩

lemma fileName_eq_none_of_dot (h : LastComponent path ['.']) : fileName? path = none := by
  cases h with
  | intro hd _ _ hfront htail =>
    rw [hfront rfl, fileName?, components_append_idleEnd htail]
    rfl

lemma LastComponent.fileName_eq {path' : List Char} (h : LastComponent path n)
    (h' : LastComponent path' n) : fileName? path' = fileName? path := by
  by_cases hn : n = ['.']
  · subst hn
    rw [fileName_eq_none_of_dot h, fileName_eq_none_of_dot h']
  · have hlast := getLast_components_iff.mpr ⟨h, hn⟩
    have hlast' := getLast_components_iff.mpr ⟨h', hn⟩
    rw [fileName?, fileName?, hlast, hlast']

lemma extension_eq_some_iff :
    extension? n = some ext ↔ ∃ stem, n = stem ++ '.' :: ext ∧ stem ≠ [] ∧ '.' ∉ ext := by
  have hbehind {ext : Name} (hext : '.' ∉ ext) : ∀ c ∈ ext.reverse, (c != '.') = true := by
    intro c hc
    rw [bne_iff_ne]
    rintro rfl
    exact hext (List.mem_reverse.mp hc)
  constructor
  · intro h
    have hsplit := List.takeWhile_append_dropWhile (p := (· != '.')) (l := n.reverse)
    unfold extension? at h
    split at h
    · rename_i c stem hdrop
      have hdot : c = '.' := by
        have hhead := List.head?_dropWhile_not (· != '.') n.reverse
        simpa [hdrop] using hhead
      split_ifs at h with hstem
      rw [Option.some.injEq] at h
      refine ⟨stem.reverse, ?_, ?_, ?_⟩
      · rw [hdrop, hdot, ← List.reverse_inj, List.reverse_reverse] at hsplit
        rw [← hsplit, ← h]
        simp
      · simpa using hstem
      · rw [← h, List.mem_reverse]
        intro hmem
        simpa using List.mem_takeWhile_imp hmem
    · cases h
  · rintro ⟨stem, rfl, hstem, hext⟩
    have hreverse : (stem ++ '.' :: ext).reverse = ext.reverse ++ '.' :: stem.reverse := by simp
    rw [extension?, hreverse, List.dropWhile_append_of_pos (hbehind hext),
      List.takeWhile_append_of_pos (hbehind hext)]
    simp [hstem]

lemma toLower_eq_dot_iff {c : Char} : c.toLower = '.' ↔ c = '.' := by
  constructor
  · intro h
    have hnat := congrArg Char.toNat h
    rw [Text.toNat_toLower] at hnat
    split_ifs at hnat with hcapital
    · have hdot : c.toNat + 32 = 46 := hnat
      omega
    · exact Char.toNat_inj.mp hnat
  · rintro rfl
    rfl

lemma extension_php_iff :
    (∃ ext, extension? n = some ext ∧ ext.map Char.toLower = ['p', 'h', 'p']) ↔ EndsInPhp n := by
  constructor
  · rintro ⟨ext, hext, hphp⟩
    obtain ⟨stem, rfl, hstem, -⟩ := extension_eq_some_iff.mp hext
    exact ⟨stem, '.' :: ext, rfl, hstem, by rw [List.map_cons, hphp]; rfl⟩
  · rintro ⟨stem, ending, rfl, hstem, hending⟩
    obtain ⟨c, ext, rfl, hc, hphp⟩ := List.map_eq_cons_iff.mp hending
    obtain rfl := toLower_eq_dot_iff.mp hc
    refine ⟨ext, extension_eq_some_iff.mpr ⟨stem, rfl, hstem, ?_⟩, hphp⟩
    intro hdot
    have hmem : '.' ∈ ext.map Char.toLower := List.mem_map_of_mem hdot
    simp [hphp] at hmem

lemma isPhpSource_iff : isPhpSource path = true ↔ ∃ n, fileName? path = some n ∧ EndsInPhp n := by
  unfold isPhpSource
  cases hname : fileName? path with
  | none => simp
  | some n =>
    simp only [Option.bind_some, Option.some.injEq, exists_eq_left', ← extension_php_iff]
    cases extension? n <;> simp

/-- A path names a PHP source exactly if its last component leads to an entry and ends in `.php`, in
any case, with something in front of it. Slashes and dots at the end of the path do not matter, and
paths with the same last component agree. -/
theorem isPhpSource_by_last_component (path : List Char) :
    (isPhpSource path = true ↔
        ∃ n, LastComponent path n ∧ n ≠ ['.'] ∧ n ≠ ['.', '.'] ∧ EndsInPhp n) ∧
      (∀ tail, IdleEnd tail → isPhpSource (path ++ tail) = isPhpSource path) ∧
      ∀ path' n, LastComponent path n → LastComponent path' n →
        isPhpSource path' = isPhpSource path := by
  refine ⟨?_, ?_, ?_⟩
  · rw [isPhpSource_iff]
    simp only [fileName_eq_some_iff, and_assoc]
  · intro tail htail
    rw [isPhpSource, isPhpSource, fileName?, fileName?, components_append_idleEnd htail]
  · intro path' n h h'
    rw [isPhpSource, isPhpSource, h.fileName_eq h']

theorem isPhpSource_by_last_component_of_hidden_file :
    IdleEnd "/.//".toList ∧ LastComponent "../.a.PHP".toList ".a.PHP".toList ∧
      LastComponent "lib//.a.PHP/.".toList ".a.PHP".toList ∧
      isPhpSource "../.a.PHP".toList = true ∧
      isPhpSource ("../.a.PHP".toList ++ "/.//".toList) = isPhpSource "../.a.PHP".toList ∧
      isPhpSource "lib//.a.PHP/.".toList = isPhpSource "../.a.PHP".toList := by
  have hidle : IdleEnd "/.//".toList := .dot (.slash (.slash .nil))
  have hup : LastComponent "../.a.PHP".toList ".a.PHP".toList :=
    @LastComponent.intro "../".toList ".a.PHP".toList [] (.inr ⟨"..".toList, rfl⟩) (by decide)
      (by decide) (by decide) .nil
  have hlib : LastComponent "lib//.a.PHP/.".toList ".a.PHP".toList :=
    @LastComponent.intro "lib//".toList ".a.PHP".toList "/.".toList (.inr ⟨"lib/".toList, rfl⟩)
      (by decide) (by decide) (by decide) (.dot .nil)
  have hphp : EndsInPhp ".a.PHP".toList :=
    ⟨".a".toList, ".PHP".toList, by decide, by decide, by decide⟩
  obtain ⟨hiff, hend, hsame⟩ := isPhpSource_by_last_component "../.a.PHP".toList
  exact ⟨hidle, hup, hlib, hiff.mpr ⟨_, hup, by decide, by decide, hphp⟩, hend _ hidle,
    hsame _ _ hup hlib⟩

end PhpSlim.Proofs
