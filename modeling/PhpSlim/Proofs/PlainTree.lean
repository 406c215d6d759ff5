import Mathlib
import PhpSlim.FileTree.Change

/-!
# File trees without links

Where a tree holds no links, a path leads where its pieces say. Looking up a location then depends
only on what stands along it, and making folders or writing a file changes what it names and nothing
else.
-/

namespace PhpSlim.Proofs
open PhpSlim.FileTree

def LinkFree (t : FileTree) : Prop :=
  ∀ p target, t.get? p ≠ some (.link target)

/-- Whether all names of a location can be names of entries. -/
def Proper (p : Location) : Prop :=
  ∀ n ∈ p, Path.isProper n = true

variable {t t' : FileTree}

def isLink : Entry → Bool
  | .folder => false
  | .file _ => false
  | .link _ => true

lemma linkFree_iff : LinkFree t ↔ ∀ x ∈ t.entries, isLink x.2 = false := by
  constructor
  · rintro h ⟨p, e⟩ hx
    have hp := (t.get?_eq_some_iff (t.rooted _ hx).1).mpr hx
    cases e with
    | folder => rfl
    | file bytes => rfl
    | link target => exact absurd hp (h p target)
  · intro h p target hlink
    by_cases hp : p = []
    · simp [hp, get?_nil] at hlink
    · exact absurd (h _ ((t.get?_eq_some_iff hp).mp hlink)) (by simp [isLink])

instance (t : FileTree) : Decidable (LinkFree t) :=
  decidable_of_iff _ linkFree_iff.symm

lemma get?_dropLast {p : Location} {e : Entry} (h : t.get? p = some e) (hp : p ≠ []) :
    t.get? p.dropLast = some .folder := by
  have hmem := (t.get?_eq_some_iff hp).mp h
  obtain ⟨-, hroot | hfolder⟩ := t.rooted _ hmem
  · rw [hroot, get?_nil]
  · by_cases hd : p.dropLast = []
    · rw [hd, get?_nil]
    · exact (t.get?_eq_some_iff hd).mpr hfolder

lemma get?_of_append_cons {p rest : Location} {n : Name} {e : Entry}
    (h : t.get? (p ++ n :: rest) = some e) : t.get? p = some .folder := by
  induction rest using List.reverseRecOn generalizing e with
  | nil =>
    have hparent := get?_dropLast h (by simp)
    simpa using hparent
  | append_singleton rest m ih =>
    have hparent := get?_dropLast h (by simp)
    rw [← List.cons_append, ← List.append_assoc, List.dropLast_concat] at hparent
    exact ih hparent

lemma isSome_of_append {p rest : Location} {e : Entry} (h : t.get? (p ++ rest) = some e) :
    ∃ e', t.get? p = some e' := by
  cases rest with
  | nil => exact ⟨e, by simpa using h⟩
  | cons n rest => exact ⟨.folder, get?_of_append_cons h⟩

lemma proper_of_get? {p : Location} {e : Entry} (h : t.get? p = some e) : Proper p := by
  by_cases hp : p = []
  · simp [Proper, hp]
  · exact t.proper _ ((t.get?_eq_some_iff hp).mp h)

/-- A location exists, or there is a last place on the way to it that does. -/
lemma exists_front (t : FileTree) (p : Location) :
    (∃ e, t.get? p = some e) ∨
      ∃ a n rest e, p = a ++ n :: rest ∧ t.get? a = some e ∧ t.get? (a ++ [n]) = none := by
  induction p using List.reverseRecOn with
  | nil => exact .inl ⟨.folder, get?_nil t⟩
  | append_singleton q n ih =>
    rcases ih with ⟨e, he⟩ | ⟨a, m, rest, e, rfl, ha, hm⟩
    · cases hn : t.get? (q ++ [n]) with
      | none => exact .inr ⟨q, n, [], e, rfl, he, hn⟩
      | some e' => exact .inl ⟨e', rfl⟩
    · exact .inr ⟨a, m, rest ++ [n], e, by simp, ha, hm⟩

lemma isProper_iff {n : Name} : Path.isProper n = true ↔
    Path.isIdle n = false ∧ n ≠ ['.', '.'] ∧ n.contains '/' = false ∧
      Path.isLongName n = false := by
  simp [Path.isProper, and_assoc]

lemma not_isEmpty_of_isProper {n : Name} (h : Path.isProper n = true) : n.isEmpty = false := by
  have hidle := (isProper_iff.mp h).1
  cases n with
  | nil => simp [Path.isIdle] at hidle
  | cons c n => rfl

lemma walk_of_not_folder {last : Bool} {jump : Location → List Name → Except Fault Found}
    {here : Location} (hhere : t.get? here ≠ some .folder) {n : Name} (hn : Path.isProper n = true)
    (rest : List Name) : t.walk last jump here (n :: rest) = .error .notFolder := by
  rw [walk, if_pos hhere, not_isEmpty_of_isProper hn]
  rfl

lemma walk_cons {last : Bool} {jump : Location → List Name → Except Fault Found} {here : Location}
    (hhere : t.get? here = some .folder) {n : Name} (hn : Path.isProper n = true) {e : Entry}
    (he : t.get? (here ++ [n]) = some e) (hlink : ∀ target, e ≠ .link target) (rest : List Name) :
    t.walk last jump here (n :: rest) = t.walk last jump (here ++ [n]) rest := by
  obtain ⟨hidle, hup, -, hlong⟩ := isProper_iff.mp hn
  rw [walk, if_neg (not_not.mpr hhere), if_neg (by simp [hidle]), if_neg hup,
    if_neg (by simp [hlong]), he]
  cases e with
  | folder => rfl
  | file bytes => rfl
  | link target => exact absurd rfl (hlink target)

/-- Where a piece of a path leads from a folder, read by itself. -/
def onward (here : Location) (n : Name) : Location :=
  if Path.isIdle n then here else if n = ['.', '.'] then here.dropLast else here ++ [n]

lemma onward_of_isProper {n : Name} (hn : Path.isProper n = true) (here : Location) :
    onward here n = here ++ [n] := by
  obtain ⟨hidle, hup, -⟩ := isProper_iff.mp hn
  rw [onward, if_neg (by simp [hidle]), if_neg hup]

lemma onward_of_none {here : Location} (hhere : t.get? here = some .folder) {n : Name}
    (hnone : t.get? (onward here n) = none) :
    Path.isIdle n = false ∧ n ≠ ['.', '.'] ∧ onward here n = here ++ [n] := by
  by_cases hidle : Path.isIdle n = true
  · rw [onward, if_pos hidle, hhere] at hnone
    cases hnone
  by_cases hup : n = ['.', '.']
  · rw [onward, if_neg hidle, if_pos hup] at hnone
    by_cases hroot : here = []
    · rw [hroot, List.dropLast_nil, get?_nil] at hnone
      cases hnone
    · rw [get?_dropLast hhere hroot] at hnone
      cases hnone
  · exact ⟨by simpa using hidle, hup, by rw [onward, if_neg hidle, if_neg hup]⟩

lemma walk_of_none {last : Bool} {jump : Location → List Name → Except Fault Found}
    {here : Location} (hhere : t.get? here = some .folder) {n : Name}
    (hnone : t.get? (onward here n) = none) (rest : List Name) :
    t.walk last jump here (n :: rest) =
      if Path.isLongName n then .error .tooLong
      else if rest.isEmpty then .ok (.missing here n)
      else if rest.all List.isEmpty then .ok (.slashed (here ++ [n]))
      else .error .notFound := by
  obtain ⟨hidle, hup, honward⟩ := onward_of_none hhere hnone
  rw [honward] at hnone
  rw [walk, if_neg (not_not.mpr hhere), if_neg (by simp [hidle]), if_neg hup, hnone]

lemma walk_missing {last : Bool} {jump : Location → List Name → Except Fault Found}
    {here : Location} (hhere : t.get? here = some .folder) {n : Name} (hn : Path.isProper n = true)
    (hnone : t.get? (here ++ [n]) = none) (rest : List Name) :
    t.walk last jump here (n :: rest) =
      if rest.isEmpty then .ok (.missing here n)
      else if rest.all List.isEmpty then .ok (.slashed (here ++ [n]))
      else .error .notFound := by
  obtain ⟨-, -, -, hlong⟩ := isProper_iff.mp hn
  rw [← onward_of_isProper hn] at hnone
  rw [walk_of_none hhere hnone, if_neg (by simp [hlong])]

lemma walk_append (hfree : LinkFree t) {last : Bool}
    {jump : Location → List Name → Except Fault Found} (here : Location) {names : Location}
    {e : Entry} (h : t.get? (here ++ names) = some e) (rest : List Name) :
    t.walk last jump here (names ++ rest) = t.walk last jump (here ++ names) rest := by
  induction names generalizing here with
  | nil => simp
  | cons n names ih =>
    have hhere := get?_of_append_cons h
    have hn : Path.isProper n = true := proper_of_get? h n (by simp)
    have hnext : t.get? (here ++ [n] ++ names) = some e := by simpa using h
    obtain ⟨e', he'⟩ := isSome_of_append hnext
    have hlink : ∀ target, e' ≠ .link target := by
      rintro target rfl
      exact hfree _ target he'
    rw [List.cons_append, walk_cons hhere hn he' hlink, ih _ hnext, List.append_assoc,
      List.singleton_append]

lemma lookup_append (hfree : LinkFree t) {a : Location} {e : Entry} (ha : t.get? a = some e)
    (last : Bool) (links : Nat) (rest : List Name) :
    ∃ jump, t.lookup last links [] (a ++ rest) = t.walk last jump a rest := by
  cases links with
  | zero => exact ⟨_, walk_append hfree [] ha rest⟩
  | succ links => exact ⟨_, walk_append hfree [] ha rest⟩

lemma lookup_existing (hfree : LinkFree t) {p : Location} {e : Entry} (h : t.get? p = some e)
    (last : Bool) (links : Nat) : t.lookup last links [] p = .ok (.existing p) := by
  obtain ⟨jump, hlookup⟩ := lookup_append hfree h last links []
  rw [List.append_nil] at hlookup
  rw [hlookup, walk]

lemma lookup_missing (hfree : LinkFree t) {a : Location} (ha : t.get? a = some .folder) {n : Name}
    (hn : Path.isProper n = true) (hnone : t.get? (a ++ [n]) = none) (last : Bool) (links : Nat) :
    t.lookup last links [] (a ++ [n]) = .ok (.missing a n) := by
  obtain ⟨jump, hlookup⟩ := lookup_append hfree ha last links [n]
  rw [hlookup, walk_missing ha hn hnone]
  rfl

lemma lookup_absent (hfree : LinkFree t) {a rest : Location} (ha : t.get? a = some .folder)
    {n : Name} (hproper : Proper (a ++ n :: rest)) (hrest : rest ≠ [])
    (hnone : t.get? (a ++ [n]) = none) (last : Bool) (links : Nat) :
    t.lookup last links [] (a ++ n :: rest) = .error .notFound := by
  have hn : Path.isProper n = true := hproper n (by simp)
  obtain ⟨m, rest, rfl⟩ := List.exists_cons_of_ne_nil hrest
  have hm : m.isEmpty = false := not_isEmpty_of_isProper (hproper m (by simp))
  obtain ⟨jump, hlookup⟩ := lookup_append hfree ha last links (n :: m :: rest)
  rw [hlookup, walk_missing ha hn hnone]
  simp [hm]

lemma lookup_blocked (hfree : LinkFree t) {a : Location} {bytes : List UInt8}
    (ha : t.get? a = some (.file bytes)) {n : Name} (hn : Path.isProper n = true) (rest : Location)
    (last : Bool) (links : Nat) : t.lookup last links [] (a ++ n :: rest) = .error .notFolder := by
  have hnot : t.get? a ≠ some .folder := by simp [ha]
  obtain ⟨jump, hlookup⟩ := lookup_append hfree ha last links (n :: rest)
  rw [hlookup, walk_of_not_folder hnot hn]

lemma find_existing (hfree : LinkFree t) {p : Location} {e : Entry} (h : t.get? p = some e) :
    t.find [] p = .ok p := by
  rw [find, lookup_existing hfree h]
  rfl

lemma find_of_none (hfree : LinkFree t) {p : Location} (hp : Proper p) (h : t.get? p = none) :
    ∃ f, t.find [] p = .error f := by
  rcases exists_front t p with ⟨e, he⟩ | ⟨a, n, rest, e, rfl, ha, hn⟩
  · rw [h] at he
    cases he
  · have hproper : Path.isProper n = true := hp n (by simp)
    cases e with
    | folder =>
      by_cases hrest : rest = []
      · subst hrest
        exact ⟨.notFound, by rw [find, lookup_missing hfree ha hproper hn]; rfl⟩
      · exact ⟨.notFound, by rw [find, lookup_absent hfree ha hp hrest hn]; rfl⟩
    | file bytes => exact ⟨.notFolder, by rw [find, lookup_blocked hfree ha hproper]; rfl⟩
    | link target => exact absurd ha (hfree a target)

lemma reaches_locate_iff (hfree : LinkFree t) {p : Location} (hp : Proper p) :
    reaches (t.locate p) = true ↔
      Path.isLong (Path.absolute p) = false ∧ ∃ e, t.get? p = some e := by
  unfold locate
  split_ifs with hlong
  · simp [reaches, hlong]
  · cases he : t.get? p with
    | some e => simp [find_existing hfree he, reaches, hlong]
    | none =>
      obtain ⟨f, hf⟩ := find_of_none hfree hp he
      simp [hf, reaches]

lemma read_file (hfree : LinkFree t) {p : Location} {bytes : List UInt8}
    (h : t.get? p = some (.file bytes)) :
    t.read p = if Path.isLong (Path.absolute p) then .error .tooLong else .ok bytes := by
  unfold FileTree.read locate
  split_ifs
  · rfl
  · rw [find_existing hfree h]
    simp only [bind, Except.bind, h]
    rfl

lemma hasRoom {a : Location} (ha : t.get? a = some .folder) {n : Name} (hn : Path.isProper n = true)
    (hfolder : t.get? (a ++ [n]) ≠ some .folder) : t.HasRoom (a ++ [n]) := by
  refine ⟨by simp, ?_, by rwa [List.dropLast_concat], hfolder⟩
  intro m hm
  rcases List.mem_append.mp hm with hm | hm
  · exact proper_of_get? ha m hm
  · rwa [List.mem_singleton.mp hm]

lemma write_in_folder (hfree : LinkFree t) {a : Location} (ha : t.get? a = some .folder) {n : Name}
    (hn : Path.isProper n = true) (bytes : List UInt8) :
    t.write (a ++ [n]) bytes =
      if Path.isLong (Path.absolute (a ++ [n])) then .error .tooLong
      else if t.get? (a ++ [n]) = some .folder then .error .isFolder
      else .ok (t.put (a ++ [n]) (.file bytes)) := by
  unfold write
  split_ifs with hlong hfolder
  · rfl
  · rw [lookup_existing hfree hfolder]
    simp only [bind, Except.bind, hfolder]
    rfl
  · cases he : t.get? (a ++ [n]) with
    | none =>
      rw [lookup_missing hfree ha hn he]
      rfl
    | some e =>
      rw [he] at hfolder
      rw [lookup_existing hfree he]
      simp only [bind, Except.bind, he, if_neg hfolder]
      rfl

lemma write_in_file (hfree : LinkFree t) {a : Location} {old : List UInt8}
    (ha : t.get? a = some (.file old)) {n : Name} (hn : Path.isProper n = true)
    (bytes : List UInt8) : t.write (a ++ [n]) bytes =
      if Path.isLong (Path.absolute (a ++ [n])) then .error .tooLong else .error .notFolder := by
  unfold write
  split_ifs
  · rfl
  · rw [lookup_blocked hfree ha hn]
    rfl

/-! ### Making folders -/

lemma dropTrailing_of_proper {p : Location} (hp : Proper p) : dropTrailing p = p := by
  cases p using List.reverseRecOn with
  | nil => rfl
  | append_singleton q n =>
    have hn : n.isEmpty = false := not_isEmpty_of_isProper (hp n (by simp))
    rw [dropTrailing, List.reverse_concat, List.dropWhile_cons_of_neg (by simp [hn]),
      List.reverse_cons, List.reverse_reverse]

lemma filter_of_proper {p : Location} (hp : Proper p) : p.filter (fun n => !Path.isIdle n) = p := by
  rw [List.filter_eq_self]
  intro n hn
  rw [(isProper_iff.mp (hp n hn)).1]
  rfl

lemma makeFolder_existing (hfree : LinkFree t) {p : Location} {e : Entry} (h : t.get? p = some e) :
    t.makeFolder [] p = .error .alreadyExists := by
  rw [makeFolder, dropTrailing_of_proper (proper_of_get? h), lookup_existing hfree h]
  rfl

lemma makeFolder_missing (hfree : LinkFree t) {a : Location} (ha : t.get? a = some .folder)
    {n : Name} (hp : Proper (a ++ [n])) (hnone : t.get? (a ++ [n]) = none) :
    t.makeFolder [] (a ++ [n]) = .ok (t.put (a ++ [n]) .folder) := by
  rw [makeFolder, dropTrailing_of_proper hp, lookup_missing hfree ha (hp n (by simp)) hnone]
  rfl

lemma makeFolder_absent (hfree : LinkFree t) {a rest : Location} (ha : t.get? a = some .folder)
    {n : Name} (hp : Proper (a ++ n :: rest)) (hrest : rest ≠ [])
    (hnone : t.get? (a ++ [n]) = none) : t.makeFolder [] (a ++ n :: rest) = .error .notFound := by
  rw [makeFolder, dropTrailing_of_proper hp, lookup_absent hfree ha hp hrest hnone]
  rfl

lemma makeFolder_blocked (hfree : LinkFree t) {a rest : Location} {bytes : List UInt8}
    (ha : t.get? a = some (.file bytes)) {n : Name} (hp : Proper (a ++ n :: rest)) :
    t.makeFolder [] (a ++ n :: rest) = .error .notFolder := by
  rw [makeFolder, dropTrailing_of_proper hp, lookup_blocked hfree ha (hp n (by simp))]
  rfl

lemma enclosing_concat {q : Location} {n : Name} (hp : Proper (q ++ [n])) :
    enclosing (q ++ [n]) = (q ++ [n]) :: if q = [] then [] else enclosing q := by
  have hq : Proper q := fun m hm => hp m (by simp [hm])
  simp only [enclosing, filter_of_proper hp, filter_of_proper hq]
  congr 1
  by_cases hnil : q = []
  · simp [hnil]
  · have hlength : 1 ≤ (List.range q.length).length := by
      rw [List.length_range]
      exact List.length_pos_iff.mpr hnil
    have hrange : (List.range (q ++ [n]).length).drop 1 =
        (List.range q.length).drop 1 ++ [q.length] := by
      rw [List.length_append, List.length_singleton, List.range_succ,
        List.drop_append_of_le_length hlength]
    have htake : ∀ k ∈ (List.range q.length).drop 1, (q ++ [n]).take k = q.take k := by
      intro k hk
      have hlt := List.mem_range.mp (List.mem_of_mem_drop hk)
      exact List.take_append_of_le_length hlt.le
    rw [if_neg hnil, hrange, List.map_append, List.map_congr_left htake, List.reverse_append]
    simp

lemma get?_along {p q : Location} {e : Entry} (h : t.get? p = some e) (hq : q <+: p) (hne : q ≠ p) :
    t.get? q = some .folder := by
  obtain ⟨rest, rfl⟩ := hq
  cases rest with
  | nil => exact absurd (List.append_nil q).symm hne
  | cons n rest => exact get?_of_append_cons h

lemma not_append_le (p : Location) {rest : Location} (hne : rest ≠ []) : ¬p ++ rest <+: p := by
  intro hle
  have hlength := hle.length_le
  rw [List.length_append] at hlength
  exact hne (List.length_eq_zero_iff.mp (by omega))

lemma get?_put_folder (ha : t.get? q = some .folder) {n : Name} (hn : Path.isProper n = true)
    (hnone : t.get? (q ++ [n]) = none) (x : Location) :
    (t.put (q ++ [n]) .folder).get? x = if x <+: q ++ [n] then some .folder else t.get? x := by
  rw [get?_put t .folder (hasRoom ha hn (by simp [hnone]))]
  by_cases hx : x = q ++ [n]
  · rw [if_pos hx, if_pos (hx ▸ List.prefix_rfl)]
  · rw [if_neg hx]
    split_ifs with hfront
    · have hxq : x <+: q := (List.prefix_concat_iff.mp hfront).resolve_left hx
      by_cases hxe : x = q
      · rwa [hxe]
      · exact get?_along ha hxq hxe
    · rfl

/-- Whether no file stands on the way to a location. -/
def Clear (t : FileTree) (p : Location) : Prop :=
  ∀ q, q <+: p → ∀ bytes, t.get? q ≠ some (.file bytes)

lemma folder_of_clear (hfree : LinkFree t) {p q : Location} (hclear : Clear t p) (hq : q <+: p)
    {e : Entry} (he : t.get? q = some e) : t.get? q = some .folder := by
  cases e with
  | folder => exact he
  | file bytes => exact absurd he (hclear q hq bytes)
  | link target => exact absurd he (hfree q target)

lemma makeFolder_of_parent_none (hfree : LinkFree t) {q : Location} {n : Name}
    (hp : Proper (q ++ [n])) (hclear : Clear t (q ++ [n])) (hparent : t.get? q = none) :
    t.makeFolder [] (q ++ [n]) = .error .notFound := by
  rcases exists_front t q with ⟨e, hsome⟩ | ⟨a, m, rest, e, rfl, ha, hm⟩
  · rw [hparent] at hsome
    cases hsome
  · rw [List.append_assoc, List.cons_append] at hp hclear ⊢
    have hroot := folder_of_clear hfree hclear (List.prefix_append a _) ha
    exact makeFolder_absent hfree hroot hp (by simp) hm

lemma makeEnclosing_of_clear (hfree : LinkFree t) {p : Location} (hp : Proper p) (hne : p ≠ [])
    (hclear : Clear t p) :
    ∃ t', t.makeEnclosing [] (enclosing p) = (t', .ok ()) ∧
      ∀ q, t'.get? q = if q <+: p then some .folder else t.get? q := by
  induction p using List.reverseRecOn with
  | nil => exact absurd rfl hne
  | append_singleton q n ih =>
    have hn : Path.isProper n = true := hp n (by simp)
    rw [enclosing_concat hp, makeEnclosing]
    cases he : t.get? (q ++ [n]) with
    | some e =>
      have hthere := folder_of_clear hfree hclear List.prefix_rfl he
      refine ⟨t, ?_, ?_⟩
      · rw [makeFolder_existing hfree he, find_existing hfree he]
        simp [reachesFolder, hthere]
      · intro x
        split_ifs with hx
        · by_cases hxe : x = q ++ [n]
          · rwa [hxe]
          · exact get?_along he hx hxe
        · rfl
    | none =>
      cases hparent : t.get? q with
      | some e =>
        have hq := folder_of_clear hfree hclear (List.prefix_append q [n]) hparent
        refine ⟨t.put (q ++ [n]) .folder, ?_, get?_put_folder hq hn he⟩
        rw [makeFolder_missing hfree hq hp he]
      | none =>
        have hqne : q ≠ [] := by
          rintro rfl
          rw [get?_nil] at hparent
          cases hparent
        obtain ⟨t₁, hmade, hview⟩ := ih (fun m hm => hp m (by simp [hm])) hqne
          fun x hx => hclear x (hx.trans (List.prefix_append q [n]))
        have hfree₁ : LinkFree t₁ := by
          intro x target
          rw [hview]
          split_ifs
          · simp
          · exact hfree x target
        have hq : t₁.get? q = some .folder := by rw [hview, if_pos List.prefix_rfl]
        have hnone : t₁.get? (q ++ [n]) = none := by rw [hview, if_neg (not_append_le q (by simp)), he]
        refine ⟨t₁.put (q ++ [n]) .folder, ?_, ?_⟩
        · -- The folder around it is made first.
          rw [makeFolder_of_parent_none hfree hp hclear hparent, if_neg hqne]
          simp only [hmade, makeFolder_missing hfree₁ hq hp hnone]
        · intro x
          rw [get?_put_folder hq hn hnone, hview]
          by_cases hx : x <+: q
          · have hxn : x <+: q ++ [n] := hx.trans (List.prefix_append q [n])
            rw [if_pos hxn, if_pos hxn]
          · rw [if_neg hx]

lemma makeEnclosing_of_file (hfree : LinkFree t) {p : Location} (hp : Proper p) {q : Location}
    (hq : q <+: p) {bytes : List UInt8} (hfile : t.get? q = some (.file bytes))
    (outer : List (List Name)) : ∃ f, t.makeEnclosing [] (p :: outer) = (t, .error f) := by
  obtain ⟨rest, rfl⟩ := hq
  rw [makeEnclosing]
  cases rest with
  | nil =>
    rw [List.append_nil] at hp ⊢
    refine ⟨.alreadyExists, ?_⟩
    rw [makeFolder_existing hfree hfile, find_existing hfree hfile]
    simp [reachesFolder, hfile]
  | cons n rest =>
    refine ⟨.notFolder, ?_⟩
    rw [makeFolder_blocked hfree hfile hp, find, lookup_blocked hfree hfile (hp n (by simp))]
    rfl

lemma not_all_isEmpty {p : Location} (hp : Proper p) (hne : p ≠ []) :
    ¬p.all List.isEmpty = true := by
  obtain ⟨n, rest, rfl⟩ := List.exists_cons_of_ne_nil hne
  simp [not_isEmpty_of_isProper (hp n List.mem_cons_self)]

/-- Making folders makes all those along the way, or changes nothing because it fails. -/
theorem makeFolders_cases (hfree : LinkFree t) {p : Location} (hp : Proper p) :
    (∃ t', t.makeFolders p = (t', .ok ()) ∧ Path.isLong (Path.absolute p) = false ∧ Clear t p ∧
        ∀ q, t'.get? q = if q <+: p then some .folder else t.get? q) ∨
      ∃ f, t.makeFolders p = (t, .error f) ∧
        ¬(Path.isLong (Path.absolute p) = false ∧ Clear t p) := by
  by_cases hlong : Path.isLong (Path.absolute p) = true
  · exact .inr ⟨.tooLong, by rw [FileTree.makeFolders, if_pos hlong], by simp [hlong]⟩
  · rw [FileTree.makeFolders, if_neg hlong, makeWay]
    rw [Bool.not_eq_true] at hlong
    by_cases hnil : p = []
    · subst hnil
      refine .inl ⟨t, rfl, hlong, ?_, ?_⟩
      · intro q hq bytes
        rw [List.prefix_nil.mp hq, get?_nil]
        simp
      · intro q
        split_ifs with hq
        · rw [List.prefix_nil.mp hq, get?_nil]
        · rfl
    · rw [if_neg (not_all_isEmpty hp hnil)]
      by_cases hclear : Clear t p
      · obtain ⟨t', hmade, hview⟩ := makeEnclosing_of_clear hfree hp hnil hclear
        exact .inl ⟨t', hmade, hlong, hclear, hview⟩
      · have hblocked := hclear
        simp only [Clear, not_forall, not_not] at hblocked
        obtain ⟨q, hq, bytes, hfile⟩ := hblocked
        obtain ⟨f, hfailed⟩ := makeEnclosing_of_file hfree hp hq hfile _
        exact .inr ⟨f, hfailed, fun h => hclear h.2⟩

lemma makeFolders_existing (hfree : LinkFree t) {p : Location} {e : Entry} (h : t.get? p = some e) :
    t.makeFolders p = (t,
      if Path.isLong (Path.absolute p) then .error .tooLong
      else if e = .folder then .ok () else .error .alreadyExists) := by
  have hp := proper_of_get? h
  unfold FileTree.makeFolders makeWay
  by_cases hnil : p = []
  · subst hnil
    obtain rfl : Entry.folder = e := by simpa [get?_nil] using h
    simp only [List.all_nil, ite_true]
    split_ifs <;> rfl
  · rw [if_neg (not_all_isEmpty hp hnil), enclosing, makeEnclosing, makeFolder_existing hfree h,
      find_existing hfree h]
    simp only [reachesFolder, h]
    split_ifs <;> simp_all

/-- Where the pieces of a path lead, read one after the other. -/
def arrive (here : Location) (pieces : List Name) : Location :=
  pieces.foldl onward here

/-- The locations that a path passes, its end included. -/
def Passes (here : Location) (pieces : List Name) (p : Location) : Prop :=
  ∃ front, front <+: pieces ∧ arrive here front = p

lemma arrive_cons (here : Location) (n : Name) (rest : List Name) :
    arrive here (n :: rest) = arrive (onward here n) rest :=
  rfl

lemma onward_of_isIdle {n : Name} (h : Path.isIdle n = true) (here : Location) :
    onward here n = here := by
  rw [onward, if_pos h]

lemma walk_onward (hfree : LinkFree t) {last : Bool}
    {jump : Location → List Name → Except Fault Found} {here : Location}
    (hhere : t.get? here = some .folder) {n : Name} {e : Entry}
    (he : t.get? (onward here n) = some e) (rest : List Name) :
    t.walk last jump here (n :: rest) = t.walk last jump (onward here n) rest := by
  unfold onward at he ⊢
  by_cases hidle : Path.isIdle n = true
  · rw [walk, if_neg (not_not.mpr hhere), if_pos hidle, if_pos hidle]
  · rw [if_neg hidle] at he ⊢
    by_cases hup : n = ['.', '.']
    · rw [walk, if_neg (not_not.mpr hhere), if_neg hidle, if_pos hup, if_pos hup]
    · rw [if_neg hup] at he ⊢
      have hn : Path.isProper n = true := proper_of_get? he n (by simp)
      refine walk_cons hhere hn he ?_ rest
      rintro target rfl
      exact hfree _ target he

lemma walk_cons_cases (t : FileTree) (last : Bool)
    (jump : Location → List Name → Except Fault Found) (here : Location) (n : Name)
    (rest : List Name) :
    (∃ f, t.walk last jump here (n :: rest) = .error f) ∨
      (∃ p, t.walk last jump here (n :: rest) = .ok (.slashed p)) ∨
      (rest = [] ∧ onward here n = here ++ [n] ∧ t.get? (here ++ [n]) = none ∧
        t.walk last jump here (n :: rest) = .ok (.missing here n)) ∨
      (t.get? here = some .folder ∧ ∃ e, t.get? (onward here n) = some e) := by
  by_cases hhere : t.get? here = some .folder
  · cases he : t.get? (onward here n) with
    | some e => exact .inr (.inr (.inr ⟨hhere, e, rfl⟩))
    | none =>
      obtain ⟨-, -, honward⟩ := onward_of_none hhere he
      rw [walk_of_none hhere he]
      rw [honward] at he
      split_ifs with hlong hlast hslashes
      · exact .inl ⟨_, rfl⟩
      · exact .inr (.inr (.inl ⟨List.isEmpty_iff.mp hlast, honward, he, rfl⟩))
      · exact .inr (.inl ⟨_, rfl⟩)
      · exact .inl ⟨_, rfl⟩
  · rw [walk, if_pos hhere]
    split_ifs
    · exact .inr (.inl ⟨here, rfl⟩)
    · exact .inl ⟨_, rfl⟩

lemma walk_cons_existing (hfree : LinkFree t) {last : Bool}
    {jump : Location → List Name → Except Fault Found} {here p : Location} {n : Name}
    {rest : List Name} (h : t.walk last jump here (n :: rest) = .ok (.existing p)) :
    t.get? here = some .folder ∧ (∃ e, t.get? (onward here n) = some e) ∧
      t.walk last jump (onward here n) rest = .ok (.existing p) := by
  rcases walk_cons_cases t last jump here n rest with
    ⟨f, hf⟩ | ⟨q, hq⟩ | ⟨-, -, -, hm⟩ | ⟨hhere, e, he⟩
  · simp [hf] at h
  · simp [hq] at h
  · simp [hm] at h
  · rw [walk_onward hfree hhere he] at h
    exact ⟨hhere, ⟨e, he⟩, h⟩

lemma walk_existing (hfree : LinkFree t) {last : Bool}
    {jump : Location → List Name → Except Fault Found} {here p : Location} {pieces : List Name}
    (h : t.walk last jump here pieces = .ok (.existing p)) : p = arrive here pieces := by
  induction pieces generalizing here with
  | nil =>
    obtain rfl : here = p := by simpa [walk] using h
    rfl
  | cons n rest ih => exact ih (walk_cons_existing hfree h).2.2

lemma walk_ends_missing (hfree : LinkFree t) {last : Bool}
    {jump : Location → List Name → Except Fault Found} {here a : Location} {n : Name}
    {pieces : List Name} (h : t.walk last jump here pieces = .ok (.missing a n)) :
    a ++ [n] = arrive here pieces ∧ t.get? (a ++ [n]) = none := by
  induction pieces generalizing here with
  | nil => simp [walk] at h
  | cons m rest ih =>
    rcases walk_cons_cases t last jump here m rest with
      ⟨f, hf⟩ | ⟨q, hq⟩ | ⟨hrest, honward, hnone, hm⟩ | ⟨hhere, e, he⟩
    · simp [hf] at h
    · simp [hq] at h
    · obtain ⟨rfl, rfl⟩ : here = a ∧ m = n := by simpa [hm] using h
      rw [arrive_cons, hrest, honward]
      exact ⟨rfl, hnone⟩
    · rw [walk_onward hfree hhere he] at h
      exact ih h

/-- What exists stays where it was: folders stay folders and files stay files. -/
structure Grows (t t' : FileTree) : Prop where
  folder : ∀ p, t.get? p = some .folder → t'.get? p = some .folder
  file : ∀ p bytes, t.get? p = some (.file bytes) → ∃ bytes', t'.get? p = some (.file bytes')

lemma Grows.isSome (h : Grows t t') (hfree : LinkFree t) {p : Location} {e : Entry}
    (he : t.get? p = some e) : ∃ e', t'.get? p = some e' := by
  cases e with
  | folder => exact ⟨_, h.folder p he⟩
  | file bytes =>
    obtain ⟨bytes', hb⟩ := h.file p bytes he
    exact ⟨_, hb⟩
  | link target => exact absurd he (hfree p target)

lemma walk_grows (hfree : LinkFree t) (hfree' : LinkFree t') (hgrows : Grows t t') {last : Bool}
    {jump jump' : Location → List Name → Except Fault Found} {here p : Location}
    {pieces : List Name} (h : t.walk last jump here pieces = .ok (.existing p)) :
    t'.walk last jump' here pieces = .ok (.existing p) := by
  induction pieces generalizing here with
  | nil => simpa [walk] using h
  | cons n rest ih =>
    obtain ⟨hhere, ⟨e, he⟩, honward⟩ := walk_cons_existing hfree h
    obtain ⟨e', he'⟩ := hgrows.isSome hfree he
    rw [walk_onward hfree' (hgrows.folder here hhere) he']
    exact ih honward

lemma find_eq_ok_iff {here p : Location} {pieces : List Name} :
    t.find here pieces = .ok p ↔ t.lookup true maxLinks here pieces = .ok (.existing p) := by
  unfold find
  cases h : t.lookup true maxLinks here pieces with
  | error f => simp [bind, Except.bind]
  | ok found =>
    cases found with
    | existing q => simp [bind, Except.bind, pure, Except.pure]
    | missing a n => simp [bind, Except.bind, throw, throwThe, MonadExceptOf.throw]
    | slashed q => simp [bind, Except.bind, throw, throwThe, MonadExceptOf.throw]

lemma findPath_eq_ok {here p : Location} {path : List Char} (h : t.findPath here path = .ok p) :
    refusal? path = none ∧ path.isEmpty = false ∧
      t.find (Path.start here path) (Path.pieces path) = .ok p := by
  unfold findPath at h
  split at h
  · cases h
  · rename_i hrefusal
    split_ifs at h with hempty
    exact ⟨hrefusal, by simpa using hempty, h⟩

/-- A path that leads somewhere leads to the same location when the tree has grown. -/
lemma findPath_grows (hfree : LinkFree t) (hfree' : LinkFree t') (hgrows : Grows t t')
    {here p : Location} {path : List Char} (h : t.findPath here path = .ok p) :
    t'.findPath here path = .ok p := by
  obtain ⟨hrefusal, hempty, hfind⟩ := findPath_eq_ok h
  have hwalk := find_eq_ok_iff.mp hfind
  have hfind' : t'.find (Path.start here path) (Path.pieces path) = .ok p :=
    find_eq_ok_iff.mpr (walk_grows hfree hfree' hgrows hwalk)
  rw [findPath, hrefusal, hempty]
  exact hfind'

lemma walk_isSome (hfree : LinkFree t) {last : Bool}
    {jump : Location → List Name → Except Fault Found} {here p : Location} {pieces : List Name}
    (hpieces : pieces ≠ []) (h : t.walk last jump here pieces = .ok (.existing p)) :
    ∃ e, t.get? p = some e := by
  induction pieces generalizing here with
  | nil => exact absurd rfl hpieces
  | cons n rest ih =>
    obtain ⟨-, ⟨e, he⟩, honward⟩ := walk_cons_existing hfree h
    by_cases hrest : rest = []
    · subst hrest
      obtain rfl : onward here n = p := by simpa [walk] using honward
      exact ⟨e, he⟩
    · exact ih hrest honward

lemma findPath_isSome (hfree : LinkFree t) {here p : Location} {path : List Char}
    (h : t.findPath here path = .ok p) : ∃ e, t.get? p = some e := by
  obtain ⟨-, -, hfind⟩ := findPath_eq_ok h
  exact walk_isSome hfree (List.splitOn_ne_nil _ _) (find_eq_ok_iff.mp hfind)

end PhpSlim.Proofs
