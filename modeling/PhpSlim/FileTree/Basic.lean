import PhpSlim.Path

/-!
# File trees

A file tree says what stands at each location. Every entry stands in a folder and has a proper name,
and no location holds two entries. The view of a tree is `get?`; the one way to change it is `put`.
-/

namespace PhpSlim

inductive Entry where
  | folder
  | file (bytes : List UInt8)
  /-- A symbolic link with the path it names. -/
  | link (target : List Char)
  deriving DecidableEq, Repr

structure FileTree where
  entries : List (Location × Entry)
  distinct : (entries.map Prod.fst).Nodup
  proper : ∀ x ∈ entries, ∀ n ∈ x.1, Path.isProper n = true
  rooted : ∀ x ∈ entries, x.1 ≠ [] ∧ (x.1.dropLast = [] ∨ (x.1.dropLast, Entry.folder) ∈ entries)

namespace FileTree

/-- The tree that holds nothing but its root. -/
def empty : FileTree where
  entries := []
  distinct := .nil
  proper := by simp
  rooted := by simp

/-- What stands at a location; the root is a folder. -/
def get? (t : FileTree) (p : Location) : Option Entry :=
  if p = [] then some .folder else t.entries.lookup p

theorem get?_nil (t : FileTree) : t.get? [] = some .folder := by
  simp [get?]

theorem lookup_eq_some_of_mem {entries : List (Location × Entry)} (h : (entries.map Prod.fst).Nodup)
    {p : Location} {e : Entry} (hm : (p, e) ∈ entries) : entries.lookup p = some e := by
  induction entries with
  | nil => simp at hm
  | cons x rest ih =>
    simp only [List.map_cons, List.nodup_cons] at h
    rcases List.mem_cons.mp hm with rfl | hm
    · simp
    · have hne : p ≠ x.1 := fun he => h.1 (he ▸ List.mem_map_of_mem hm)
      rw [List.lookup_cons, beq_eq_false_iff_ne.mpr hne]
      exact ih h.2 hm

theorem mem_of_lookup_eq_some {entries : List (Location × Entry)} {p : Location} {e : Entry}
    (h : entries.lookup p = some e) : (p, e) ∈ entries := by
  obtain ⟨l, r, rfl, -⟩ := List.lookup_eq_some_iff.mp h
  simp

/-- The view of a tree and its list of entries agree. -/
theorem get?_eq_some_iff (t : FileTree) {p : Location} (hp : p ≠ []) {e : Entry} :
    t.get? p = some e ↔ (p, e) ∈ t.entries := by
  simp only [get?, hp, if_false]
  exact ⟨mem_of_lookup_eq_some, lookup_eq_some_of_mem t.distinct⟩

/-- Whether an entry can be put at a location: its names are proper, it lies in a folder and holds
none itself. -/
def HasRoom (t : FileTree) (p : Location) : Prop :=
  p ≠ [] ∧ (∀ n ∈ p, Path.isProper n = true) ∧
    t.get? p.dropLast = some .folder ∧ t.get? p ≠ some .folder

instance (t : FileTree) (p : Location) : Decidable (t.HasRoom p) :=
  inferInstanceAs (Decidable (_ ∧ _ ∧ _ ∧ _))

/-- The entries without those at `p`, and with `e` there. -/
def replace (entries : List (Location × Entry)) (p : Location) (e : Entry) :
    List (Location × Entry) :=
  (p, e) :: entries.filter fun x => x.1 != p

theorem mem_replace {entries : List (Location × Entry)} {p : Location} {e : Entry}
    {x : Location × Entry} :
    x ∈ replace entries p e ↔ x = (p, e) ∨ (x ∈ entries ∧ x.1 ≠ p) := by
  simp [replace]

theorem nodup_replace {entries : List (Location × Entry)} (h : (entries.map Prod.fst).Nodup)
    (p : Location) (e : Entry) : ((replace entries p e).map Prod.fst).Nodup := by
  simp only [replace, List.map_cons, List.nodup_cons]
  refine ⟨?_, List.Pairwise.sublist (List.Sublist.map _ List.filter_sublist) h⟩
  simp

theorem proper_replace (t : FileTree) {p : Location} (e : Entry) (h : t.HasRoom p) :
    ∀ x ∈ replace t.entries p e, ∀ n ∈ x.1, Path.isProper n = true := by
  intro x hx
  rcases mem_replace.mp hx with rfl | ⟨hx, -⟩
  · exact h.2.1
  · exact t.proper x hx

theorem rooted_replace (t : FileTree) {p : Location} (e : Entry) (h : t.HasRoom p) :
    ∀ x ∈ replace t.entries p e,
      x.1 ≠ [] ∧ (x.1.dropLast = [] ∨ (x.1.dropLast, Entry.folder) ∈ replace t.entries p e) := by
  obtain ⟨hp, -, hparent, hfree⟩ := h
  have hkeep {q : Location} (hq : (q, Entry.folder) ∈ t.entries) (hne : q ≠ []) :
      (q, Entry.folder) ∈ replace t.entries p e := by
    refine mem_replace.mpr (Or.inr ⟨hq, ?_⟩)
    rintro rfl
    exact hfree ((t.get?_eq_some_iff hne).mpr hq)
  intro x hx
  rcases mem_replace.mp hx with rfl | ⟨hx, -⟩
  · refine ⟨hp, ?_⟩
    by_cases hr : p.dropLast = []
    · exact Or.inl hr
    · exact Or.inr (hkeep ((t.get?_eq_some_iff hr).mp hparent) hr)
  · obtain ⟨hne, hr | hr⟩ := t.rooted x hx
    · exact ⟨hne, Or.inl hr⟩
    · by_cases hd : x.1.dropLast = []
      · exact ⟨hne, Or.inl hd⟩
      · exact ⟨hne, Or.inr (hkeep hr hd)⟩

/-- Puts an entry at a location that has room for it; elsewhere nothing changes. -/
def put (t : FileTree) (p : Location) (e : Entry) : FileTree :=
  if h : t.HasRoom p then
    ⟨replace t.entries p e, nodup_replace t.distinct p e, proper_replace t e h,
      rooted_replace t e h⟩
  else t

theorem get?_put (t : FileTree) {p : Location} (e : Entry) (h : t.HasRoom p) (q : Location) :
    (t.put p e).get? q = if q = p then some e else t.get? q := by
  by_cases hq : q = []
  · subst hq
    simp [get?_nil, Ne.symm h.1]
  · apply Option.ext
    intro x
    rw [get?_eq_some_iff _ hq]
    simp only [put, h, dite_true, mem_replace]
    by_cases hqp : q = p
    · simp [hqp, eq_comm]
    · simp [hqp, get?_eq_some_iff _ hq]

theorem put_of_not_hasRoom (t : FileTree) {p : Location} (e : Entry) (h : ¬t.HasRoom p) :
    t.put p e = t := by
  simp [put, h]

/-- Adds a name to a list of names in order. -/
def insertName (n : Name) : List Name → List Name
  | [] => [n]
  | m :: rest => if n ≤ m then n :: m :: rest else m :: insertName n rest

/-- The names of the entries that stand right in a folder, in order. -/
def names (t : FileTree) (p : Location) : List Name :=
  (t.entries.filterMap fun x => if x.1.dropLast = p then x.1.getLast? else none).foldr insertName []

end FileTree

end PhpSlim
