import PhpSlim.Proofs.BuildFrame

/-!
# The folders of the output

Before its jobs run, a build makes a folder of the output for every folder that it visited and that
has nothing at its place yet. The tree at the beginning alone decides whether all of them can be made
and what the tree looks like then; the order in which they are made plays no part. It does for their
number: a folder that is made on the way to another is not counted when its own turn comes.
-/

namespace PhpSlim.Proofs
open PhpSlim.FileTree PhpSlim.Build

variable {t t' : FileTree} {way : Location → Prop}

/-- Whether something stands at a location or no file keeps a folder from being made there. -/
def Placeable (t : FileTree) (d : Location) : Prop :=
  Path.isLong (Path.absolute d) = false ∧ ((∃ e, t.get? d = some e) ∨ Clear t d)

lemma Placeable.along {d q : Location} (h : Placeable t d) (hq : q <+: d) :
    (∃ e, t.get? q = some e) ∨ Clear t q := by
  rcases h.2 with ⟨e, he⟩ | hclear
  · obtain ⟨rest, rfl⟩ := hq
    exact .inl (isSome_of_append he)
  · exact .inr fun x hx => hclear x (hx.trans hq)

lemma Filled.placeable_iff (h : Filled way t t')
    (hway : ∀ q, way q → (∃ e, t.get? q = some e) ∨ Clear t q) {d : Location} :
    Placeable t' d ↔ Placeable t d := by
  have hclear : Clear t' d ↔ Clear t d := by
    simp only [Clear, ne_eq, h.confined.file_iff]
  rw [Placeable, Placeable, hclear]
  refine and_congr_right fun _ => ⟨?_, ?_⟩
  · rintro (⟨e, he⟩ | hd)
    · rcases h d with ⟨heq, -⟩ | ⟨hd, -, -⟩
      · exact .inl ⟨e, heq ▸ he⟩
      · exact hway d hd
    · exact .inr hd
  · rintro (⟨e, he⟩ | hd)
    · exact .inl ⟨e, h.confined.keeps he⟩
    · exact .inr hd

/-- The locations on the way to a folder of the output that belongs to a visited folder. -/
def OnVisitedWay (r : Roots) (visits : List Visit) (q : Location) : Prop :=
  ∃ p, .folder p ∈ visits ∧ q <+: r.destination p

lemma onVisitedWay_cons_folder {r : Roots} {visits : List Visit} {p q : Location} :
    OnVisitedWay r (.folder p :: visits) q ↔ q <+: r.destination p ∨ OnVisitedWay r visits q := by
  simp [OnVisitedWay]

/-- What the visit of a folder adds to making the folders of the output: the way to its own folder
is filled first, or all ends there. -/
lemma buildFolders_folder {r : Roots} {p : Location} (hfree : LinkFree t)
    (hp : Proper (r.destination p)) (visits : List Visit) :
    (Placeable t (r.destination p) ∧ ∃ t', Filled (· <+: r.destination p) t t' ∧
        (Build.makeFolders r t (.folder p :: visits)).result =
          (Build.makeFolders r t' visits).result ∧
        (Build.makeFolders r t (.folder p :: visits)).tree = (Build.makeFolders r t' visits).tree ∧
        (Build.makeFolders r t (.folder p :: visits)).made =
          (Build.makeFolders r t' visits).made +
            if t.get? (r.destination p) = none then 1 else 0) ∨
      (¬Placeable t (r.destination p) ∧
        (Build.makeFolders r t (.folder p :: visits)).result ≠ .ok ()) := by
  rw [Build.makeFolders]
  dsimp only
  by_cases hthere : reaches (t.locate (r.destination p)) = true
  · obtain ⟨hlong, e, he⟩ := (reaches_locate_iff hfree hp).mp hthere
    rw [if_pos hthere, if_neg (show ¬t.get? (r.destination p) = none by simp [he])]
    refine .inl ⟨⟨hlong, .inl ⟨e, he⟩⟩, t, .refl ?_, rfl, rfl, rfl⟩
    rintro q ⟨rest, hrest⟩
    rw [← hrest] at he
    exact isSome_of_append he
  · rw [if_neg hthere]
    rcases makeFolders_cases hfree hp with ⟨t', hmade, hlong, hclear, hview⟩ | ⟨f, hmade, hnot⟩
    · have hnone : t.get? (r.destination p) = none := by
        rw [Option.eq_none_iff_forall_ne_some]
        exact fun e he => hthere ((reaches_locate_iff hfree hp).mpr ⟨hlong, e, he⟩)
      rw [hmade, if_pos hnone]
      exact .inl ⟨⟨hlong, .inr hclear⟩, t', filled_of_clear hfree hclear hview, rfl, rfl, rfl⟩
    · rw [hmade]
      refine .inr ⟨?_, by simp⟩
      rintro ⟨hlong, hex | hclear⟩
      · exact hthere ((reaches_locate_iff hfree hp).mpr ⟨hlong, hex⟩)
      · exact hnot ⟨hlong, hclear⟩

/-- The folders of the output are made exactly if each of them can be placed. -/
theorem buildFolders_eq_ok_iff {r : Roots} {visits : List Visit} (hfree : LinkFree t)
    (hdest : ∀ p, .folder p ∈ visits → Proper (r.destination p)) :
    (Build.makeFolders r t visits).result = .ok () ↔
      ∀ p, .folder p ∈ visits → Placeable t (r.destination p) := by
  induction visits generalizing t with
  | nil => simp [Build.makeFolders]
  | cons v visits ih =>
    have hlater : ∀ p, .folder p ∈ visits → Proper (r.destination p) :=
      fun p hp => hdest p (List.mem_cons_of_mem v hp)
    cases v with
    | failed error => simpa [Build.makeFolders] using ih hfree hlater
    | file p => simpa [Build.makeFolders] using ih hfree hlater
    | folder p =>
      rcases buildFolders_folder hfree (hdest p List.mem_cons_self) visits with
        ⟨hplace, t', hfilled, hresult, -⟩ | ⟨hnot, hresult⟩
      · have hsame {d : Location} : Placeable t' d ↔ Placeable t d :=
          hfilled.placeable_iff fun q hq => hplace.along hq
        rw [hresult, ih (hfilled.linkFree hfree) hlater]
        simp [hsame, hplace]
      · exact iff_of_false hresult fun h => hnot (h p List.mem_cons_self)

/-- Once the folders of the output are made, the ways to them are filled and nothing else has
changed. -/
theorem filled_buildFolders {r : Roots} {visits : List Visit} (hfree : LinkFree t)
    (hdest : ∀ p, .folder p ∈ visits → Proper (r.destination p))
    (hmade : (Build.makeFolders r t visits).result = .ok ()) :
    Filled (OnVisitedWay r visits) t (Build.makeFolders r t visits).tree := by
  induction visits generalizing t with
  | nil => exact .refl (by simp [OnVisitedWay])
  | cons v visits ih =>
    have hlater : ∀ p, .folder p ∈ visits → Proper (r.destination p) :=
      fun p hp => hdest p (List.mem_cons_of_mem v hp)
    cases v with
    | failed error => exact (ih hfree hlater hmade).congr (by simp [OnVisitedWay])
    | file p => exact (ih hfree hlater hmade).congr (by simp [OnVisitedWay])
    | folder p =>
      rcases buildFolders_folder hfree (hdest p List.mem_cons_self) visits with
        ⟨-, t', hfilled, hresult, htree, -⟩ | ⟨-, hresult⟩
      · rw [htree]
        have hrest := ih (hfilled.linkFree hfree) hlater (hresult.symm.trans hmade)
        exact (hfilled.trans hrest).congr fun q => onVisitedWay_cons_folder
      · exact absurd hmade hresult

def folderOf : Visit → Option Location
  | .folder p => some p
  | .file _ => none
  | .failed _ => none

lemma folderOf_eq_some_iff {v : Visit} {p : Location} : folderOf v = some p ↔ v = .folder p := by
  cases v <;> simp [folderOf]

/-- The folders among the visits. -/
def foldersOf (visits : List Visit) : List Location :=
  visits.filterMap folderOf

lemma mem_foldersOf {visits : List Visit} {p : Location} :
    p ∈ foldersOf visits ↔ .folder p ∈ visits := by
  simp [foldersOf, folderOf_eq_some_iff]

/-- Where a folder is visited before what lies in it, a folder of the output is made exactly for the
visited folders that have nothing at their place at first. -/
theorem made_buildFolders {r : Roots} {visits : List Visit} (hfree : LinkFree t)
    (hdest : ∀ p, .folder p ∈ visits → Proper (r.destination p))
    (hfirst : (foldersOf visits).Pairwise fun p p' => ¬r.destination p' <+: r.destination p)
    (hmade : (Build.makeFolders r t visits).result = .ok ()) :
    (Build.makeFolders r t visits).made =
      (foldersOf visits).countP fun p => t.get? (r.destination p) = none := by
  induction visits generalizing t with
  | nil => rfl
  | cons v visits ih =>
    have hlater : ∀ p, .folder p ∈ visits → Proper (r.destination p) :=
      fun p hp => hdest p (List.mem_cons_of_mem v hp)
    cases v with
    | failed error => exact ih hfree hlater hfirst hmade
    | file p => exact ih hfree hlater hfirst hmade
    | folder p =>
      have hfolders : foldersOf (.folder p :: visits) = p :: foldersOf visits := rfl
      rw [hfolders, List.pairwise_cons] at hfirst
      rcases buildFolders_folder hfree (hdest p List.mem_cons_self) visits with
        ⟨-, t', hfilled, hresult, -, hcount⟩ | ⟨-, hresult⟩
      · have hrest := ih (hfilled.linkFree hfree) hlater hfirst.2 (hresult.symm.trans hmade)
        -- The way to the first folder passes none of the later ones.
        have hsame : ∀ p' ∈ foldersOf visits,
            t'.get? (r.destination p') = t.get? (r.destination p') := by
          intro p' hp'
          rcases hfilled (r.destination p') with ⟨heq, -⟩ | ⟨hway, -, -⟩
          · exact heq
          · exact absurd hway (hfirst.1 p' hp')
        rw [hcount, hrest, hfolders, List.countP_cons]
        congr 1
        · exact List.countP_congr fun p' hp' => by rw [hsame p' hp']
        · simp
      · exact absurd hmade hresult

end PhpSlim.Proofs
