import PhpSlim.Proofs.Mirror

/-!
# Trees without some of their files

Two trees that differ only in files that one of them lacks. As long as no way leads over such a
file, paths lead to the same places in both, and what makes folders in one of them makes them in the
other.
-/

namespace PhpSlim.Proofs
open PhpSlim.FileTree PhpSlim.Build

variable {t t' t₁ t₁' : FileTree} {gone : List Location}

/-- `t'` is `t` without the files at the locations `gone`. -/
structure Lacks (gone : List Location) (t t' : FileTree) : Prop where
  files : ∀ q ∈ gone, ∃ bytes, t.get? q = some (.file bytes)
  absent : ∀ q ∈ gone, t'.get? q = none
  others : ∀ q, q ∉ gone → t'.get? q = t.get? q

def isFile : Entry → Bool
  | .folder => false
  | .file _ => true
  | .link _ => false

/-- The tree without the files at the locations `gone`. -/
def withoutFiles (t : FileTree) (gone : List Location) : FileTree where
  entries := t.entries.filter fun x => !(isFile x.2 && gone.contains x.1)
  distinct := t.distinct.sublist (List.filter_sublist.map Prod.fst)
  proper x hx := t.proper x (List.mem_of_mem_filter hx)
  rooted x hx := by
    obtain ⟨hne, hparent⟩ := t.rooted x (List.mem_of_mem_filter hx)
    refine ⟨hne, hparent.imp_right fun hfolder => ?_⟩
    exact List.mem_filter.mpr ⟨hfolder, rfl⟩

lemma get?_withoutFiles {q : Location} {e : Entry} :
    (withoutFiles t gone).get? q = some e ↔
      t.get? q = some e ∧ (isFile e && gone.contains q) = false := by
  by_cases hq : q = []
  · subst hq
    rw [get?_nil, get?_nil]
    constructor
    · rintro ⟨⟩
      exact ⟨rfl, rfl⟩
    · exact And.left
  · rw [get?_eq_some_iff _ hq, get?_eq_some_iff _ hq, withoutFiles, List.mem_filter,
      Bool.not_eq_true']

lemma lacks_withoutFiles (h : ∀ q ∈ gone, ∃ bytes, t.get? q = some (.file bytes)) :
    Lacks gone t (withoutFiles t gone) where
  files := h
  absent q hq := by
    rw [Option.eq_none_iff_forall_ne_some]
    intro e he
    obtain ⟨hthere, hkept⟩ := get?_withoutFiles.mp he
    obtain ⟨bytes, hfile⟩ := h q hq
    rw [hfile] at hthere
    obtain rfl : Entry.file bytes = e := by simpa using hthere
    simp [isFile, hq] at hkept
  others q hq := by
    apply Option.ext
    intro e
    rw [get?_withoutFiles]
    simp [hq]

namespace Lacks

lemma eq_of_some (h : Lacks gone t t') {q : Location} {e : Entry} (he : t'.get? q = some e) :
    t.get? q = some e := by
  by_cases hq : q ∈ gone
  · simp [h.absent q hq] at he
  · rw [← h.others q hq, he]

lemma not_mem_of_folder (h : Lacks gone t t') {q : Location} (hq : t.get? q = some .folder) :
    q ∉ gone := by
  intro hgone
  obtain ⟨bytes, hfile⟩ := h.files q hgone
  simp [hq] at hfile

lemma folder_iff (h : Lacks gone t t') {q : Location} :
    t'.get? q = some .folder ↔ t.get? q = some .folder := by
  refine ⟨h.eq_of_some, fun hfolder => ?_⟩
  rw [h.others q (h.not_mem_of_folder hfolder), hfolder]

lemma none_of_none (h : Lacks gone t t') {q : Location} (hnone : t.get? q = none) :
    t'.get? q = none := by
  by_cases hq : q ∈ gone
  · exact h.absent q hq
  · rw [h.others q hq, hnone]

lemma linkFree (h : Lacks gone t t') (hfree : LinkFree t) : LinkFree t' :=
  fun q target hlink => hfree q target (h.eq_of_some hlink)

lemma grows (h : Lacks gone t t') : Grows t' t where
  folder _ := h.eq_of_some
  file _ bytes hfile := ⟨bytes, h.eq_of_some hfile⟩

lemma put_folder (h : Lacks gone t t') {p : Location} (hnone : t.get? p = none) :
    Lacks gone (t.put p .folder) (t'.put p .folder) := by
  have hroom : t'.HasRoom p ↔ t.HasRoom p := by
    rw [HasRoom, HasRoom, ne_eq (t'.get? p), h.folder_iff, h.folder_iff]
  by_cases hp : t.HasRoom p
  · have hfirst : p ∉ gone := by
      intro hp
      obtain ⟨bytes, hfile⟩ := h.files p hp
      simp [hnone] at hfile
    have hne {q : Location} (hq : q ∈ gone) : q ≠ p := fun heq => hfirst (heq ▸ hq)
    refine ⟨fun q hq => ?_, fun q hq => ?_, fun q hq => ?_⟩
    · rw [get?_put t .folder hp, if_neg (hne hq)]
      exact h.files q hq
    · rw [get?_put t' .folder (hroom.mpr hp), if_neg (hne hq), h.absent q hq]
    · rw [get?_put t .folder hp, get?_put t' .folder (hroom.mpr hp), h.others q hq]
  · rw [put_of_not_hasRoom t .folder hp, put_of_not_hasRoom t' .folder (mt hroom.mp hp)]
    exact h

end Lacks

/-- A way that no file has blocked, and that does not end at one of the locations `gone`. -/
def Unblocked (gone : List Location) : Except Fault Found → Prop
  | .ok (.existing p) => p ∉ gone
  | .ok (.missing _ _) => True
  | .ok (.slashed _) => False
  | .error f => f ≠ .notFolder

namespace Lacks

lemma not_unblocked (h : Lacks gone t t') {last : Bool}
    {jump : Location → List Name → Except Fault Found} {q : Location} (hq : q ∈ gone)
    (rest : List Name) : ¬Unblocked gone (t.walk last jump q rest) := by
  cases rest with
  | nil => exact not_not_intro hq
  | cons n rest =>
    obtain ⟨bytes, hfile⟩ := h.files q hq
    rw [walk, if_pos (by simp [hfile])]
    split_ifs <;> simp [Unblocked]

lemma walk_eq (h : Lacks gone t t') (hfree : LinkFree t) {last : Bool}
    {jump jump' : Location → List Name → Except Fault Found} {here : Location} {pieces : List Name}
    (hway : Unblocked gone (t.walk last jump here pieces)) :
    t'.walk last jump' here pieces = t.walk last jump here pieces := by
  induction pieces generalizing here with
  | nil => rfl
  | cons n rest ih =>
    by_cases hhere : t.get? here = some .folder
    · have hhere' := h.folder_iff.mpr hhere
      cases he : t.get? (onward here n) with
      | none => rw [walk_of_none hhere he, walk_of_none hhere' (h.none_of_none he)]
      | some e =>
        rw [walk_onward hfree hhere he] at hway ⊢
        have hkept : onward here n ∉ gone := fun hn => h.not_unblocked hn rest hway
        rw [walk_onward (h.linkFree hfree) hhere' ((h.others _ hkept).trans he)]
        exact ih hway
    · rw [walk, if_pos hhere] at hway
      split_ifs at hway
      · exact hway.elim
      · exact absurd rfl hway

lemma lookup_eq (h : Lacks gone t t') (hfree : LinkFree t) {last : Bool} {here : Location}
    {pieces : List Name} {found : Except Fault Found}
    (hlookup : t.lookup last maxLinks here pieces = found) (hway : Unblocked gone found) :
    t'.lookup last maxLinks here pieces = found := by
  subst hlookup
  exact h.walk_eq hfree hway

lemma find_eq (h : Lacks gone t t') (hfree : LinkFree t) {here p : Location} {pieces : List Name}
    (hfind : t.find here pieces = .ok p) (hp : p ∉ gone) : t'.find here pieces = .ok p := by
  rw [find_eq_ok_iff] at hfind ⊢
  exact h.lookup_eq hfree hfind hp

lemma findPath_eq (h : Lacks gone t t') (hfree : LinkFree t) {here p : Location} {path : List Char}
    (hfind : t.findPath here path = .ok p) (hp : p ∉ gone) : t'.findPath here path = .ok p := by
  obtain ⟨hrefusal, hempty, hfound⟩ := findPath_eq_ok hfind
  rw [findPath, hrefusal, hempty]
  exact h.find_eq hfree hfound hp

lemma makeFolder (h : Lacks gone t t') (hfree : LinkFree t) {here : Location}
    {pieces : List Name} (hmade : t.makeFolder here pieces = .ok t₁) :
    ∃ t₁', t'.makeFolder here pieces = .ok t₁' ∧ Lacks gone t₁ t₁' := by
  obtain ⟨a, n, hlookup, rfl⟩ := makeFolder_eq_ok_iff.mp hmade
  have hlookup' := h.lookup_eq hfree hlookup trivial
  exact ⟨_, makeFolder_eq_ok_iff.mpr ⟨a, n, hlookup', rfl⟩,
    h.put_folder (walk_ends_missing hfree hlookup).2⟩

lemma makeFolder_notFound (h : Lacks gone t t') (hfree : LinkFree t) {here : Location}
    {pieces : List Name} (hmissing : t.makeFolder here pieces = .error .notFound) :
    t'.makeFolder here pieces = .error .notFound := by
  rw [makeFolder_eq_notFound_iff] at hmissing ⊢
  exact h.lookup_eq hfree hmissing (by simp [Unblocked])

end Lacks

lemma walk_front (hfree : LinkFree t) {last last' : Bool}
    {jump jump' : Location → List Name → Except Fault Found} {here p : Location}
    {front rest : List Name} (h : t.walk last jump here (front ++ rest) = .ok (.existing p)) :
    ∃ q, t.walk last' jump' here front = .ok (.existing q) := by
  induction front generalizing here with
  | nil => exact ⟨here, rfl⟩
  | cons n front ih =>
    rw [List.cons_append] at h
    obtain ⟨hhere, ⟨e, he⟩, honward⟩ := walk_cons_existing hfree h
    rw [walk_onward hfree hhere he]
    exact ih honward

lemma makeFolder_of_find (hfree : LinkFree t) {here p : Location} {pieces : List Name}
    (h : t.find here pieces = .ok p) : t.makeFolder here pieces = .error .alreadyExists := by
  have hwalk := find_eq_ok_iff.mp h
  obtain ⟨rest, hrest⟩ : dropTrailing pieces <+: pieces := List.rdropWhile_prefix _ _
  rw [← hrest] at hwalk
  obtain ⟨q, hq⟩ : ∃ q, t.lookup false maxLinks here (dropTrailing pieces) = .ok (.existing q) :=
    walk_front hfree hwalk
  rw [FileTree.makeFolder, hq]
  rfl

namespace Lacks

lemma reachesFolder (h : Lacks gone t t') (hfree : LinkFree t) {here : Location}
    {pieces : List Name} (hreach : t.reachesFolder (t.find here pieces) = true) :
    t'.makeFolder here pieces = .error .alreadyExists ∧
      t'.reachesFolder (t'.find here pieces) = true := by
  obtain ⟨p, hfind, hfolder⟩ := exists_of_reachesFolder hreach
  have hfind' := h.find_eq hfree hfind (h.not_mem_of_folder hfolder)
  refine ⟨makeFolder_of_find (h.linkFree hfree) hfind', ?_⟩
  simp [hfind', FileTree.reachesFolder, h.folder_iff.mpr hfolder]

lemma makeEnclosing (h : Lacks gone t t') (hfree : LinkFree t) {here : Location}
    {ways : List (List Name)} (hmade : t.makeEnclosing here ways = (t₁, .ok ())) :
    ∃ t₁', t'.makeEnclosing here ways = (t₁', .ok ()) ∧ Lacks gone t₁ t₁' := by
  induction ways generalizing t t' t₁ with
  | nil =>
    obtain rfl : t = t₁ := (Prod.mk.inj hmade).1
    exact ⟨t', rfl, h⟩
  | cons pieces outer ih =>
    -- Where no folder can be made because it is there, it is there in both trees.
    have hreached {t t' : FileTree} (h : Lacks gone t t') (hfree : LinkFree t) {f : Fault}
        (hthere : (t, if t.reachesFolder (t.find here pieces) then Except.ok () else .error f) =
          (t₁, .ok ())) : t'.makeFolder here pieces = .error .alreadyExists ∧
            t'.reachesFolder (t'.find here pieces) = true ∧ Lacks gone t₁ t' := by
      obtain ⟨rfl, hreach⟩ := reached_of_eq hthere
      obtain ⟨hexists, hreach'⟩ := h.reachesFolder hfree hreach
      exact ⟨hexists, hreach', h⟩
    rw [FileTree.makeEnclosing] at hmade ⊢
    split at hmade
    · rename_i t₂ hfirst
      obtain rfl : t₂ = t₁ := (Prod.mk.inj hmade).1
      obtain ⟨t₂', hfirst', hlacks⟩ := h.makeFolder hfree hfirst
      exact ⟨t₂', by rw [hfirst'], hlacks⟩
    · rename_i hmissing
      rw [h.makeFolder_notFound hfree hmissing]
      split at hmade
      · cases (Prod.mk.inj hmade).2
      · rename_i t₂ houter
        have hconfined : Confined (fun _ => True) (fun _ => False) t
            (t.makeEnclosing here outer).1 :=
          confined_makeEnclosing hfree fun way _ p _ => trivial
        rw [houter] at hconfined
        have hfree₂ := hconfined.linkFree hfree
        obtain ⟨t₂', houter', hlacks⟩ := ih h hfree houter
        rw [houter']
        split at hmade
        · rename_i t₃ hagain
          obtain rfl : t₃ = t₁ := (Prod.mk.inj hmade).1
          obtain ⟨t₃', hagain', hlacks'⟩ := hlacks.makeFolder hfree₂ hagain
          exact ⟨t₃', by simp [hagain'], hlacks'⟩
        · obtain ⟨hexists, hreach, hlacks'⟩ := hreached hlacks hfree₂ hmade
          exact ⟨t₂', by simp [hexists, hreach], hlacks'⟩
    · obtain ⟨hexists, hreach, hlacks⟩ := hreached h hfree hmade
      exact ⟨t', by simp [hexists, hreach], hlacks⟩

lemma makeFolderPath (h : Lacks gone t t') (hfree : LinkFree t) {here : Location}
    {path : List Char} (hmade : t.makeFolderPath here path = (t₁, .ok ())) :
    ∃ t₁', t'.makeFolderPath here path = (t₁', .ok ()) ∧ Lacks gone t₁ t₁' := by
  unfold FileTree.makeFolderPath makeWay at hmade ⊢
  cases hrefusal : refusal? path with
  | some f => simp [hrefusal] at hmade
  | none =>
    rw [hrefusal] at hmade
    dsimp only at hmade ⊢
    split_ifs at hmade ⊢
    · obtain rfl : t = t₁ := (Prod.mk.inj hmade).1
      exact ⟨t', rfl, h⟩
    · exact h.makeEnclosing hfree hmade

variable {cfg : Config} {r : Roots} {excluded : List Glob.Pattern}

lemma findInput_eq (h : Lacks gone t t') (hfree : LinkFree t) {p : Location}
    (hin : cfg.findInput t = .ok p) (hp : p ∉ gone) : cfg.findInput t' = .ok p :=
  h.findPath_eq hfree hin hp

lemma findOutput_eq (h : Lacks gone t t') (hfree : LinkFree t) {o : Location}
    (hout : cfg.findOutput t = .ok o) (ho : t.get? o = some .folder) :
    cfg.findOutput t' = .ok o :=
  h.findPath_eq hfree hout (h.not_mem_of_folder ho)

lemma not_reaches_findOutput (h : Lacks gone t t') (hfree : LinkFree t)
    (hreach : ¬reaches (cfg.findOutput t) = true) : ¬reaches (cfg.findOutput t') = true := by
  intro hreach'
  cases hfound : cfg.findOutput t' with
  | error f => simp [hfound, reaches] at hreach'
  | ok o =>
    have hfound' : cfg.findOutput t = .ok o :=
      findPath_grows (h.linkFree hfree) hfree h.grows hfound
    exact hreach (by simp [hfound', reaches])

lemma opened (h : Lacks gone t t') (hfree : LinkFree t) (hinput : r.input ∉ gone)
    (hin : cfg.findInput t = .ok r.input) (hcheck : cfg.check t = .ok ())
    (hopened : openOutput cfg t = (t₁, .ok ())) :
    cfg.check t' = .ok () ∧ ∃ t₁', openOutput cfg t' = (t₁', .ok ()) ∧ Lacks gone t₁ t₁' := by
  rw [check_eq_ok_iff] at hcheck ⊢
  rw [h.findInput_eq hfree hin hinput]
  by_cases hreach : reaches (cfg.findOutput t) = true
  · obtain ⟨o, hout, ho⟩ := exists_of_reachesFolder (hcheck.2 hreach)
    rw [openOutput, if_pos hreach] at hopened
    obtain rfl : t = t₁ := (Prod.mk.inj hopened).1
    have hout' : cfg.findOutput t' = .ok o := h.findOutput_eq hfree hout ho
    rw [openOutput, hout']
    refine ⟨⟨rfl, fun _ => ?_⟩, t', rfl, h⟩
    simp [FileTree.reachesFolder, h.folder_iff.mpr ho]
  · have hreach' := h.not_reaches_findOutput hfree hreach
    rw [openOutput, if_neg hreach, Config.makeOutput] at hopened
    rw [openOutput, if_neg hreach', Config.makeOutput]
    refine ⟨⟨rfl, fun hyes => absurd hyes hreach'⟩, ?_⟩
    rcases hmade : t.makeFolderPath cfg.here cfg.output with ⟨t₂, f | ⟨⟩⟩
    · simp [hmade] at hopened
    · rw [hmade] at hopened
      obtain rfl : t₂ = t₁ := (Prod.mk.inj hopened).1
      obtain ⟨t₂', hmade', hlacks⟩ := h.makeFolderPath hfree hmade
      exact ⟨t₂', by rw [hmade'], hlacks⟩

/-- A build that comes to its walk does so, too, in a tree that lacks files other than its input,
and it has the same roots there. -/
theorem prepared (h : Lacks gone t t') (hfree : LinkFree t) (hprep : Prepared cfg t t₁ r excluded)
    (hinput : r.input ∉ gone) :
    ∃ t₁', Prepared cfg t' t₁' r excluded ∧ Lacks gone t₁ t₁' := by
  obtain ⟨hcheck', t₁', hopened', hlacks⟩ :=
    h.opened hfree hinput (hprep.findInput_eq hfree) hprep.checked hprep.opened
  have hfree₁ := hprep.linkFree hfree
  obtain ⟨hin, hout, hbase⟩ := roots_eq_ok hprep.roots
  have hin' : cfg.findInput t₁' = .ok r.input := hlacks.findInput_eq hfree₁ hin hinput
  have hout' : cfg.findOutput t₁' = .ok r.output :=
    hlacks.findOutput_eq hfree₁ hout (hprep.get?_output hfree)
  rw [← hlacks.others _ hinput] at hbase
  refine ⟨t₁', ⟨hcheck', hopened', ?_, hprep.exclusions⟩, hlacks⟩
  rw [Config.roots, hin', hout']
  simp only [Except.mapError, bind, Except.bind, pure, Except.pure, ← hbase]

end Lacks

end PhpSlim.Proofs
