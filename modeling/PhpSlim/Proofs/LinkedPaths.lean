import PhpSlim.Proofs.BuildFrame

/-!
# Paths through links

Where a tree holds links, a path need not lead where its pieces say. What it leads to still stays
the same when entries are added to the tree, and the folders that are made for a path are those to
which the path and its beginnings lead afterwards.
-/

namespace PhpSlim.Proofs
open PhpSlim.FileTree

/-- Whether a piece is neither idle nor leads up, and is short enough for a name. -/
def IsPlain (n : Name) : Prop :=
  Path.isIdle n = false ∧ n ≠ ['.', '.'] ∧ Path.isLongName n = false

/-- How a path that starts with a piece is followed, unless that fails. -/
inductive Stride (t : FileTree) (last : Bool) (jump : Location → List Name → Except Fault Found)
    (here : Location) : Name → List Name → Found → Prop
  | slashed {n rest p} : Stride t last jump here n rest (.slashed p)
  | idle {n rest found} : t.get? here = some .folder → Path.isIdle n = true →
      t.walk last jump here rest = .ok found → Stride t last jump here n rest found
  | up {rest found} : t.get? here = some .folder →
      t.walk last jump here.dropLast rest = .ok found →
      Stride t last jump here ['.', '.'] rest found
  | missing {n} : t.get? here = some .folder → t.get? (here ++ [n]) = none →
      Stride t last jump here n [] (.missing here n)
  | held {n target} : t.get? here = some .folder → t.get? (here ++ [n]) = some (.link target) →
      Stride t last jump here n [] (.existing (here ++ [n]))
  | follow {n rest target found} : t.get? here = some .folder → IsPlain n →
      t.get? (here ++ [n]) = some (.link target) →
      jump (Path.start here target) (Path.pieces target ++ rest) = .ok found →
      Stride t last jump here n rest found
  | onward {n rest e found} : t.get? here = some .folder → t.get? (here ++ [n]) = some e →
      (∀ target, e ≠ .link target) → t.walk last jump (here ++ [n]) rest = .ok found →
      Stride t last jump here n rest found

/-- `pieces'` is `pieces` with more pieces that lead nowhere else. -/
inductive Padded : List Name → List Name → Prop
  | nil : Padded [] []
  | keep {n pieces pieces'} : Padded pieces pieces' → Padded (n :: pieces) (n :: pieces')
  | pad {n pieces pieces'} : Path.isIdle n = true → Padded pieces pieces' →
      Padded pieces (n :: pieces')

/-- Whether a tree is as a lookup says. -/
def Accurate (t : FileTree) : Found → Prop
  | .existing p => ∃ e, t.get? p = some e
  | .missing a n => t.get? (a ++ [n]) = none
  | .slashed _ => True

/-- Whether a lookup leads to a location: to what exists there, or to a name that is missing. -/
def LeadsTo : Found → Location → Prop
  | .existing p, q => p = q
  | .missing a n, q => a ++ [n] = q
  | .slashed _, _ => False

variable {t t' t₁ : FileTree} {here q : Location} {n : Name} {rest pieces pieces' : List Name}
  {found : Found} {last : Bool} {jump jump' : Location → List Name → Except Fault Found}

lemma stride_of_walk (h : t.walk last jump here (n :: rest) = .ok found) :
    Stride t last jump here n rest found := by
  rw [walk] at h
  by_cases hhere : t.get? here = some .folder
  · rw [if_neg (not_not.mpr hhere)] at h
    by_cases hidle : Path.isIdle n = true
    · rw [if_pos hidle] at h
      exact .idle hhere hidle h
    rw [if_neg hidle] at h
    by_cases hup : n = ['.', '.']
    · rw [if_pos hup] at h
      subst hup
      exact .up hhere h
    rw [if_neg hup] at h
    by_cases hlong : Path.isLongName n = true
    · rw [if_pos hlong] at h
      cases h
    rw [if_neg hlong] at h
    have hplain : IsPlain n := ⟨by simpa using hidle, hup, by simpa using hlong⟩
    split at h
    · rename_i hnone
      split_ifs at h with hlast hslashes
      · obtain rfl := List.isEmpty_iff.mp hlast
        cases h
        exact .missing hhere hnone
      · cases h
        exact .slashed
    · rename_i target hlink
      split_ifs at h with hheld
      · obtain rfl := List.isEmpty_iff.mp (Bool.and_eq_true_iff.mp hheld).1
        cases h
        exact .held hhere hlink
      · exact .follow hhere hplain hlink h
    · rename_i e hlink he
      exact .onward hhere he hlink h
  · rw [if_pos hhere] at h
    split_ifs at h
    cases h
    exact .slashed

lemma walk_idle (hhere : t.get? here = some .folder) (hidle : Path.isIdle n = true) :
    t.walk last jump here (n :: rest) = t.walk last jump here rest := by
  rw [walk, if_neg (not_not.mpr hhere), if_pos hidle]

lemma walk_up (hhere : t.get? here = some .folder) :
    t.walk last jump here (['.', '.'] :: rest) = t.walk last jump here.dropLast rest := by
  rw [walk, if_neg (not_not.mpr hhere), if_neg (by decide), if_pos rfl]

lemma walk_follow (hhere : t.get? here = some .folder) (hn : IsPlain n) {target : List Char}
    (hlink : t.get? (here ++ [n]) = some (.link target)) :
    t.walk true jump here (n :: rest) =
      jump (Path.start here target) (Path.pieces target ++ rest) := by
  obtain ⟨hidle, hup, hlong⟩ := hn
  rw [walk, if_neg (not_not.mpr hhere), if_neg (by simp [hidle]), if_neg hup,
    if_neg (by simp [hlong]), hlink]
  simp

lemma accurate_of_walk
    (hjump : ∀ {here pieces found}, pieces ≠ [] → jump here pieces = .ok found → Accurate t found)
    (hhere : pieces = [] → ∃ e, t.get? here = some e)
    (h : t.walk last jump here pieces = .ok found) : Accurate t found := by
  induction pieces generalizing here with
  | nil =>
    cases h
    exact hhere rfl
  | cons n rest ih =>
    cases stride_of_walk h with
    | slashed => trivial
    | idle hfolder _ hnext => exact ih (fun _ => ⟨_, hfolder⟩) hnext
    | up hfolder hnext =>
      refine ih (fun _ => ⟨.folder, ?_⟩) hnext
      by_cases hroot : here = []
      · rw [hroot, List.dropLast_nil, get?_nil]
      · exact get?_dropLast hfolder hroot
    | missing _ hnone => exact hnone
    | held _ hlink => exact ⟨_, hlink⟩
    | follow _ _ _ hnext =>
      exact hjump (List.append_ne_nil_of_left_ne_nil (List.splitOn_ne_nil _ _) _) hnext
    | onward _ he _ hnext => exact ih (fun _ => ⟨_, he⟩) hnext

lemma accurate_of_lookup {links : Nat} (hpieces : pieces ≠ [])
    (h : t.lookup last links here pieces = .ok found) : Accurate t found := by
  induction links generalizing here pieces found with
  | zero => exact accurate_of_walk (fun _ hjump => by cases hjump) (absurd · hpieces) h
  | succ links ih => exact accurate_of_walk ih (absurd · hpieces) h

lemma exists_of_findPath {p : Location} {path : List Char} (h : t.findPath here path = .ok p) :
    ∃ e, t.get? p = some e :=
  accurate_of_lookup (List.splitOn_ne_nil _ _) (find_eq_ok_iff.mp (findPath_eq_ok h).2.2)

lemma Padded.refl (pieces : List Name) : Padded pieces pieces := by
  induction pieces with
  | nil => exact .nil
  | cons n rest ih => exact .keep ih

lemma Padded.append_left (h : Padded pieces pieces') (front : List Name) :
    Padded (front ++ pieces) (front ++ pieces') := by
  induction front with
  | nil => exact h
  | cons n front ih => exact .keep ih

lemma Padded.ne_nil (h : Padded pieces pieces') (hne : pieces ≠ []) : pieces' ≠ [] := by
  cases h with
  | nil => exact hne
  | keep => exact List.cons_ne_nil _ _
  | pad => exact List.cons_ne_nil _ _

lemma padded_filter (pieces : List Name) :
    Padded (pieces.filter fun n => !Path.isIdle n) pieces := by
  induction pieces with
  | nil => exact .nil
  | cons n rest ih =>
    by_cases hidle : Path.isIdle n = true
    · rw [List.filter_cons_of_neg (by simp [hidle])]
      exact .pad hidle ih
    · rw [List.filter_cons_of_pos (by simp [hidle])]
      exact .keep ih

lemma eq_or_folder_of_leadsTo (h : t.walk last jump here pieces = .ok found)
    (hq : LeadsTo found q) : here = q ∨ t.get? here = some .folder := by
  cases pieces with
  | nil =>
    cases h
    exact .inl hq
  | cons n rest =>
    cases stride_of_walk h with
    | slashed => exact hq.elim
    | idle hfolder => exact .inr hfolder
    | up hfolder => exact .inr hfolder
    | missing hfolder => exact .inr hfolder
    | held hfolder => exact .inr hfolder
    | follow hfolder => exact .inr hfolder
    | onward hfolder => exact .inr hfolder

/-- Where a walk led to a place at which a folder stands now, it leads there in the tree that has
only gained entries since, also with more pieces that lead nowhere else. -/
lemma walk_of_leadsTo (hkeeps : ∀ {p e}, t.get? p = some e → t'.get? p = some e)
    (hfolder : t'.get? q = some .folder)
    (hjump : ∀ {here pieces pieces' found}, Padded pieces pieces' →
      jump here pieces = .ok found → LeadsTo found q → jump' here pieces' = .ok (.existing q))
    (hpad : Padded pieces pieces') (h : t.walk last jump here pieces = .ok found)
    (hq : LeadsTo found q) : t'.walk true jump' here pieces' = .ok (.existing q) := by
  induction hpad generalizing here found with
  | nil =>
    cases h
    obtain rfl : here = q := hq
    rfl
  | pad hidle hpad ih =>
    have hhere : t'.get? here = some .folder := by
      rcases eq_or_folder_of_leadsTo h hq with rfl | hhere
      · exact hfolder
      · exact hkeeps hhere
    rw [walk_idle hhere hidle]
    exact ih h hq
  | @keep n rest rest' hpad ih =>
    cases stride_of_walk h with
    | slashed => exact hq.elim
    | idle hhere hidle hnext =>
      rw [walk_idle (hkeeps hhere) hidle]
      exact ih hnext hq
    | up hhere hnext =>
      rw [walk_up (hkeeps hhere)]
      exact ih hnext hq
    | missing hhere hnone =>
      -- The missing name is a folder now.
      obtain rfl : here ++ [n] = q := hq
      have hn : Path.isProper n = true := proper_of_get? hfolder n (by simp)
      rw [walk_cons (hkeeps hhere) hn hfolder (by simp)]
      have hstop : t.walk last jump (here ++ [n]) [] = .ok (.existing (here ++ [n])) := rfl
      exact ih hstop rfl
    | held hhere hlink =>
      obtain rfl : here ++ [n] = q := hq
      simp [hkeeps hlink] at hfolder
    | follow hhere hn hlink hnext =>
      rw [walk_follow (hkeeps hhere) hn (hkeeps hlink)]
      exact hjump (hpad.append_left _) hnext hq
    | onward hhere he hlink hnext =>
      have hn : Path.isProper n = true := proper_of_get? he n (by simp)
      rw [walk_cons (hkeeps hhere) hn (hkeeps he) hlink]
      exact ih hnext hq

lemma lookup_of_leadsTo {links : Nat} (hkeeps : ∀ {p e}, t.get? p = some e → t'.get? p = some e)
    (hfolder : t'.get? q = some .folder) (hpad : Padded pieces pieces')
    (h : t.lookup last links here pieces = .ok found) (hq : LeadsTo found q) :
    t'.lookup true links here pieces' = .ok (.existing q) := by
  induction links generalizing here pieces pieces' found with
  | zero => exact walk_of_leadsTo hkeeps hfolder (fun _ hjump => by cases hjump) hpad h hq
  | succ links ih => exact walk_of_leadsTo hkeeps hfolder ih hpad h hq

/-- Whether a folder stands at `q` and a path leads there, or one of its beginnings does; links on
the way are followed. -/
def FolderOnPath (t : FileTree) (here : Location) (pieces : List Name) (q : Location) : Prop :=
  t.get? q = some .folder ∧ ∃ front, front ≠ [] ∧ front <+: pieces ∧ t.find here front = .ok q

lemma FolderOnPath.keeps (h : FolderOnPath t here pieces q)
    (hkeeps : ∀ {p e}, t.get? p = some e → t'.get? p = some e) :
    FolderOnPath t' here pieces q := by
  obtain ⟨hfolder, front, hne, hfront, hfind⟩ := h
  have hlookup := lookup_of_leadsTo hkeeps (hkeeps hfolder) (.refl front) (find_eq_ok_iff.mp hfind)
    rfl
  exact ⟨hkeeps hfolder, front, hne, hfront, find_eq_ok_iff.mpr hlookup⟩

lemma confined_makeFolder_onPath {way front : List Name} (hfront : front <+: pieces)
    (hpad : Padded (dropTrailing way) front) (h : t.makeFolder here way = .ok t') :
    Confined (FolderOnPath t' here pieces) (fun _ => False) t t' := by
  obtain ⟨a, n, hlookup, rfl⟩ := makeFolder_eq_ok_iff.mp h
  have hpieces : dropTrailing way ≠ [] := by
    intro hnil
    rw [hnil] at hlookup
    cases hlookup
  have hnone : t.get? (a ++ [n]) = none := accurate_of_lookup hpieces hlookup
  by_cases hroom : t.HasRoom (a ++ [n])
  · have hfolder : (t.put (a ++ [n]) .folder).get? (a ++ [n]) = some .folder := by
      rw [get?_put t .folder hroom, if_pos rfl]
    have hkeeps {p : Location} {e : Entry} (hp : t.get? p = some e) :
        (t.put (a ++ [n]) .folder).get? p = some e := by
      rw [get?_put t .folder hroom, if_neg, hp]
      rintro rfl
      simp [hnone] at hp
    have hfind := lookup_of_leadsTo hkeeps hfolder hpad hlookup rfl
    exact confined_put_folder hnone
      ⟨hfolder, front, hpad.ne_nil hpieces, hfront, find_eq_ok_iff.mpr hfind⟩
  · rw [put_of_not_hasRoom t .folder hroom]
    exact .refl _ _ t

lemma exists_front_of_enclosing {way : List Name} (hway : way ∈ enclosing pieces) :
    ∃ front, front <+: pieces ∧ Padded (dropTrailing way) front := by
  have hdrop : dropTrailing way <+: way := List.rdropWhile_prefix _ _
  rw [enclosing, List.mem_cons] at hway
  rcases hway with rfl | hway
  · exact ⟨dropTrailing way, hdrop, .refl _⟩
  · obtain ⟨k, -, rfl⟩ := List.mem_map.mp (List.mem_reverse.mp hway)
    obtain ⟨front, hfront, heq⟩ :=
      List.prefix_filter_iff.mp (hdrop.trans (List.take_prefix _ _))
    exact ⟨front, hfront, heq ▸ padded_filter front⟩

/-- The folders that are made for a path of the user are those to which it leads then, itself or by
one of its beginnings. -/
lemma confined_makeFolderPath_onPath (t : FileTree) (here : Location) (path : List Char) :
    Confined (FolderOnPath (t.makeFolderPath here path).1 (Path.start here path) (Path.pieces path))
      (fun _ => False) t (t.makeFolderPath here path).1 := by
  unfold makeFolderPath
  split
  · exact .refl _ _ t
  · unfold makeWay
    split_ifs
    · exact .refl _ _ t
    · have hsteps := makesOne_makeEnclosing t (Path.start here path) (enclosing (Path.pieces path))
      generalize (t.makeEnclosing _ _).1 = t' at hsteps
      induction hsteps with
      | refl => exact .refl _ _ t
      | tail _ hstep ih =>
        obtain ⟨way, hway, hmade⟩ := hstep
        obtain ⟨front, hfront, hpad⟩ := exists_front_of_enclosing hway
        have hlast := confined_makeFolder_onPath hfront hpad hmade
        exact (ih.mono (fun p hp _ => hp.keeps hlast.keeps) fun _ hp => hp).trans hlast

end PhpSlim.Proofs
