import PhpSlim.Build.Run
import PhpSlim.Proofs.WalkCover

/-!
# What a build may change

A build makes folders and writes files. In a tree without links all of it happens in the output
folder, but for the folders that were missing on the way to it; this holds however the build ends.
-/

namespace PhpSlim.Proofs
open PhpSlim.FileTree PhpSlim.Build

variable {t t' t₁ : FileTree} {made written way way' : Location → Prop}

/-- `t'` is `t` with new folders where `made` allows them and files where `written` does. -/
def Confined (made written : Location → Prop) (t t' : FileTree) : Prop :=
  ∀ p, t'.get? p = t.get? p ∨
    (made p ∧ t.get? p = none ∧ t'.get? p = some .folder) ∨
    (written p ∧ t.get? p ≠ some .folder ∧ ∃ bytes, t'.get? p = some (.file bytes))

namespace Confined

lemma refl (made written : Location → Prop) (t : FileTree) : Confined made written t t :=
  fun _ => .inl rfl

lemma trans (h : Confined made written t t₁) (h' : Confined made written t₁ t') :
    Confined made written t t' := by
  intro p
  rcases h' p with heq | ⟨hmade, hnone, hfolder⟩ | ⟨hwritten, hfree, hfile⟩
  · rw [heq]
    exact h p
  · rcases h p with heq | ⟨-, -, hthere⟩ | ⟨-, -, bytes, hthere⟩
    · exact .inr (.inl ⟨hmade, heq ▸ hnone, hfolder⟩)
    · simp [hthere] at hnone
    · simp [hthere] at hnone
  · rcases h p with heq | ⟨-, -, hthere⟩ | ⟨-, hfree', -⟩
    · exact .inr (.inr ⟨hwritten, heq ▸ hfree, hfile⟩)
    · exact absurd hthere hfree
    · exact .inr (.inr ⟨hwritten, hfree', hfile⟩)

lemma mono {made' written' : Location → Prop} (h : Confined made written t t')
    (hmade : ∀ p, made p → t.get? p = none → made' p) (hwritten : ∀ p, written p → written' p) :
    Confined made' written' t t' := by
  intro p
  rcases h p with heq | ⟨hm, hnone, hfolder⟩ | ⟨hw, hfree, hfile⟩
  · exact .inl heq
  · exact .inr (.inl ⟨hmade p hm hnone, hnone, hfolder⟩)
  · exact .inr (.inr ⟨hwritten p hw, hfree, hfile⟩)

lemma linkFree (h : Confined made written t t') (hfree : LinkFree t) : LinkFree t' := by
  intro p target
  rcases h p with heq | ⟨-, -, hfolder⟩ | ⟨-, -, bytes, hfile⟩
  · rw [heq]
    exact hfree p target
  · simp [hfolder]
  · simp [hfile]

lemma keeps (h : Confined made (fun _ => False) t t') {p : Location} {e : Entry}
    (hp : t.get? p = some e) : t'.get? p = some e := by
  rcases h p with heq | ⟨-, hnone, -⟩ | ⟨hno, -, -⟩
  · rw [heq, hp]
  · simp [hnone] at hp
  · exact hno.elim

lemma file_iff (h : Confined made (fun _ => False) t t') {p : Location} {bytes : List UInt8} :
    t'.get? p = some (.file bytes) ↔ t.get? p = some (.file bytes) := by
  refine ⟨fun hp => ?_, h.keeps⟩
  rcases h p with heq | ⟨-, -, hfolder⟩ | ⟨hno, -, -⟩
  · rw [← heq, hp]
  · simp [hfolder] at hp
  · exact hno.elim

lemma grows (h : Confined made written t t') : Grows t t' where
  folder p hp := by
    rcases h p with heq | ⟨-, hnone, -⟩ | ⟨-, hnot, -⟩
    · rwa [heq]
    · simp [hnone] at hp
    · exact absurd hp hnot
  file p bytes hp := by
    rcases h p with heq | ⟨-, hnone, -⟩ | ⟨-, -, hfile⟩
    · exact ⟨bytes, heq ▸ hp⟩
    · simp [hnone] at hp
    · exact hfile

end Confined

/-- `t'` is `t` with a folder wherever nothing stood on the way. -/
def Filled (way : Location → Prop) (t t' : FileTree) : Prop :=
  ∀ q, (t'.get? q = t.get? q ∧ (way q → ∃ e, t.get? q = some e)) ∨
    (way q ∧ t.get? q = none ∧ t'.get? q = some .folder)

namespace Filled

lemma refl (h : ∀ q, way q → ∃ e, t.get? q = some e) : Filled way t t :=
  fun q => .inl ⟨rfl, h q⟩

lemma trans (h : Filled way t t₁) (h' : Filled way' t₁ t') :
    Filled (fun q => way q ∨ way' q) t t' := by
  intro q
  rcases h q with ⟨heq, hthere⟩ | ⟨hway, hnone, hfolder⟩
  · rcases h' q with ⟨heq', hthere'⟩ | ⟨hway', hnone, hfolder⟩
    · rw [heq] at heq' hthere'
      exact .inl ⟨heq', fun hway => hway.elim hthere hthere'⟩
    · exact .inr ⟨.inr hway', heq ▸ hnone, hfolder⟩
  · rcases h' q with ⟨heq', -⟩ | ⟨-, hnone', -⟩
    · exact .inr ⟨.inl hway, hnone, heq'.trans hfolder⟩
    · simp [hfolder] at hnone'

lemma congr (h : Filled way t t') (hway : ∀ q, way' q ↔ way q) : Filled way' t t' := by
  intro q
  rw [hway]
  exact h q

lemma isSome (h : Filled way t t') {q : Location} (hq : way q) : ∃ e, t'.get? q = some e := by
  rcases h q with ⟨heq, hthere⟩ | ⟨-, -, hfolder⟩
  · rw [heq]
    exact hthere hq
  · exact ⟨_, hfolder⟩

lemma get?_eq (h : Filled way t t') {s s' : FileTree} (hs : Filled way s s') {q : Location}
    (heq : t.get? q = s.get? q) : t'.get? q = s'.get? q := by
  rcases h q with ⟨hkept, hthere⟩ | ⟨hway, hnone, hfolder⟩
  · rcases hs q with ⟨hkept', -⟩ | ⟨hway, hnone, -⟩
    · rw [hkept, hkept', heq]
    · obtain ⟨e, he⟩ := hthere hway
      simp [← heq, he] at hnone
  · rcases hs q with ⟨-, hthere⟩ | ⟨-, -, hfolder'⟩
    · obtain ⟨e, he⟩ := hthere hway
      simp [← heq, hnone] at he
    · rw [hfolder, hfolder']

lemma confined (h : Filled way t t') : Confined way written t t' := by
  intro q
  rcases h q with ⟨heq, -⟩ | hmade
  · exact .inl heq
  · exact .inr (.inl hmade)

lemma linkFree (h : Filled way t t') (hfree : LinkFree t) : LinkFree t' := by
  have hconfined : Confined way (fun _ => False) t t' := h.confined
  exact hconfined.linkFree hfree

end Filled

lemma confined_put_folder {p : Location} (hnone : t.get? p = none) (hmade : made p) :
    Confined made written t (t.put p .folder) := by
  intro q
  by_cases hroom : t.HasRoom p
  · rw [get?_put t .folder hroom]
    split_ifs with hq
    · subst hq
      exact .inr (.inl ⟨hmade, hnone, rfl⟩)
    · exact .inl rfl
  · rw [put_of_not_hasRoom t .folder hroom]
    exact .inl rfl

lemma confined_put_file {p : Location} {bytes : List UInt8} (hwritten : written p) :
    Confined made written t (t.put p (.file bytes)) := by
  intro q
  by_cases hroom : t.HasRoom p
  · rw [get?_put t (.file bytes) hroom]
    split_ifs with hq
    · subst hq
      exact .inr (.inr ⟨hwritten, hroom.2.2.2, bytes, rfl⟩)
    · exact .inl rfl
  · rw [put_of_not_hasRoom t (.file bytes) hroom]
    exact .inl rfl

lemma arrive_filter (here : Location) (pieces : List Name) :
    arrive here (pieces.filter fun n => !Path.isIdle n) = arrive here pieces := by
  induction pieces generalizing here with
  | nil => rfl
  | cons n rest ih =>
    by_cases hidle : Path.isIdle n = true
    · rw [List.filter_cons_of_neg (by simp [hidle]), arrive_cons, onward_of_isIdle hidle, ih]
    · rw [List.filter_cons_of_pos (by simp [hidle]), arrive_cons, arrive_cons, ih]

lemma passes_of_enclosing {here p : Location} {pieces way : List Name}
    (hway : way ∈ enclosing pieces) (hp : Passes here way p) : Passes here pieces p := by
  rw [enclosing, List.mem_cons] at hway
  rcases hway with rfl | hway
  · exact hp
  · obtain ⟨k, -, rfl⟩ := List.mem_map.mp (List.mem_reverse.mp hway)
    obtain ⟨front, hfront, rfl⟩ := hp
    obtain ⟨front', hfront', rfl⟩ :=
      List.prefix_filter_iff.mp (hfront.trans (List.take_prefix _ _))
    exact ⟨front', hfront', (arrive_filter here front').symm⟩

lemma makeFolder_eq_ok_iff {here : Location} {pieces : List Name} :
    t.makeFolder here pieces = .ok t' ↔
      ∃ a n, t.lookup false maxLinks here (dropTrailing pieces) = .ok (.missing a n) ∧
        t.put (a ++ [n]) .folder = t' := by
  unfold makeFolder
  rcases t.lookup false maxLinks here (dropTrailing pieces) with f | ⟨p⟩ | ⟨a, n⟩ | ⟨p⟩ <;>
    simp [bind, Except.bind, pure, Except.pure, throw, throwThe, MonadExceptOf.throw]

lemma makeFolder_eq_notFound_iff {here : Location} {pieces : List Name} :
    t.makeFolder here pieces = .error .notFound ↔
      t.lookup false maxLinks here (dropTrailing pieces) = .error .notFound := by
  unfold makeFolder
  rcases t.lookup false maxLinks here (dropTrailing pieces) with f | ⟨p⟩ | ⟨a, n⟩ | ⟨p⟩ <;>
    simp [bind, Except.bind, pure, Except.pure, throw, throwThe, MonadExceptOf.throw]

lemma makeFolder_eq_ok (hfree : LinkFree t) {here : Location} {pieces : List Name}
    (h : t.makeFolder here pieces = .ok t') :
    t.get? (arrive here (dropTrailing pieces)) = none ∧
      t' = t.put (arrive here (dropTrailing pieces)) .folder := by
  obtain ⟨a, n, hlookup, rfl⟩ := makeFolder_eq_ok_iff.mp h
  obtain ⟨harrive, hnone⟩ := walk_ends_missing hfree hlookup
  rw [← harrive]
  exact ⟨hnone, rfl⟩

lemma confined_makeFolder (hfree : LinkFree t) {here : Location} {pieces : List Name}
    (h : t.makeFolder here pieces = .ok t') : Confined (Passes here pieces) written t t' := by
  obtain ⟨hnone, rfl⟩ := makeFolder_eq_ok hfree h
  exact confined_put_folder hnone ⟨dropTrailing pieces, List.rdropWhile_prefix _ _, rfl⟩

/-- One folder is made, for one of several paths. -/
def MakesOne (here : Location) (ways : List (List Name)) (t t' : FileTree) : Prop :=
  ∃ way ∈ ways, t.makeFolder here way = .ok t'

/-- Making the folders along a way comes to making one after the other, however it ends. -/
lemma makesOne_makeEnclosing (t : FileTree) (here : Location) (ways : List (List Name)) :
    Relation.ReflTransGen (MakesOne here ways) t (t.makeEnclosing here ways).1 := by
  induction ways generalizing t with
  | nil => exact .refl
  | cons pieces outer ih =>
    have hfirst {t t' : FileTree} (h : t.makeFolder here pieces = .ok t') :
        MakesOne here (pieces :: outer) t t' := ⟨pieces, List.mem_cons_self, h⟩
    have hlater (t t' : FileTree) : MakesOne here outer t t' →
        MakesOne here (pieces :: outer) t t' :=
      fun ⟨way, hway, h⟩ => ⟨way, List.mem_cons_of_mem _ hway, h⟩
    have houter : Relation.ReflTransGen (MakesOne here (pieces :: outer)) t
        (t.makeEnclosing here outer).1 := Relation.ReflTransGen.mono hlater _ _ (ih t)
    rw [makeEnclosing]
    split
    · rename_i t' hmade
      exact .single (hfirst hmade)
    · split
      · rename_i t₁ f hmade
        rwa [hmade] at houter
      · rename_i t₁ hmade
        rw [hmade] at houter
        split
        · rename_i t' hmade'
          exact houter.tail (hfirst hmade')
        · exact houter
    · exact .refl

lemma confined_makeEnclosing (hfree : LinkFree t) {here : Location} {ways : List (List Name)}
    (hways : ∀ way ∈ ways, ∀ p, Passes here way p → made p) :
    Confined made written t (t.makeEnclosing here ways).1 := by
  have hsteps := makesOne_makeEnclosing t here ways
  generalize (t.makeEnclosing here ways).1 = t' at hsteps
  induction hsteps with
  | refl => exact .refl _ _ t
  | tail _ hstep ih =>
    obtain ⟨way, hway, hmade⟩ := hstep
    exact ih.trans ((confined_makeFolder (ih.linkFree hfree) hmade).mono
      (fun p hp _ => hways way hway p hp) fun _ hp => hp)

lemma confined_makeFolderPath (hfree : LinkFree t) (here : Location) (path : List Char) :
    Confined (Passes (Path.start here path) (Path.pieces path)) written t
      (t.makeFolderPath here path).1 := by
  unfold makeFolderPath
  split
  · exact .refl _ _ t
  · unfold makeWay
    split_ifs
    · exact .refl _ _ t
    · exact confined_makeEnclosing hfree fun way hway p hp => passes_of_enclosing hway hp

lemma arrive_dropTrailing (here : Location) (pieces : List Name) :
    arrive here (dropTrailing pieces) = arrive here pieces := by
  induction pieces using List.reverseRecOn with
  | nil => rfl
  | append_singleton pieces n ih =>
    by_cases hn : n.isEmpty = true
    · have hidle : Path.isIdle n = true := by simp [Path.isIdle, List.isEmpty_iff.mp hn]
      have hdrop : dropTrailing (pieces ++ [n]) = dropTrailing pieces :=
        List.rdropWhile_concat_pos _ _ _ hn
      rw [hdrop, ih, arrive, arrive, List.foldl_concat, onward_of_isIdle hidle]
    · have hkeep : dropTrailing (pieces ++ [n]) = pieces ++ [n] :=
        List.rdropWhile_concat_neg _ _ _ hn
      rw [hkeep]

lemma folder_of_makeFolder (hfree : LinkFree t) {here p : Location} {pieces : List Name}
    (h : t.makeFolder here pieces = .ok t') (hfind : t'.find here pieces = .ok p) {e : Entry}
    (he : t'.get? p = some e) : t'.get? p = some .folder := by
  have hconfined : Confined (Passes here pieces) (fun _ => False) t t' := confined_makeFolder hfree h
  have hp := walk_existing (hconfined.linkFree hfree) (find_eq_ok_iff.mp hfind)
  have hnone := (makeFolder_eq_ok hfree h).1
  rw [arrive_dropTrailing, ← hp] at hnone
  rcases hconfined p with heq | ⟨-, -, hfolder⟩ | ⟨hno, -, -⟩
  · simp [heq, hnone] at he
  · exact hfolder
  · exact hno.elim

lemma exists_of_reachesFolder {found : Except Fault Location} (h : t.reachesFolder found = true) :
    ∃ p, found = .ok p ∧ t.get? p = some .folder := by
  cases found with
  | error f => cases h
  | ok p => exact ⟨p, rfl, by simpa [reachesFolder] using h⟩

lemma reached_of_eq {here : Location} {pieces : List Name} {f : Fault}
    (h : (t, if t.reachesFolder (t.find here pieces) then Except.ok () else .error f) =
      (t₁, .ok ())) : t = t₁ ∧ t.reachesFolder (t.find here pieces) = true := by
  obtain ⟨rfl, hok⟩ := Prod.mk.inj h
  split_ifs at hok with hreach
  exact ⟨rfl, hreach⟩

lemma folder_of_makeEnclosing (hfree : LinkFree t) {here p : Location} {pieces : List Name}
    {outer : List (List Name)} (h : t.makeEnclosing here (pieces :: outer) = (t', .ok ()))
    (hfind : t'.find here pieces = .ok p) {e : Entry} (he : t'.get? p = some e) :
    t'.get? p = some .folder := by
  have hreached {t₂ : FileTree} {f : Fault} (hreach : (t₂, if t₂.reachesFolder (t₂.find here pieces)
      then Except.ok () else .error f) = (t', .ok ())) : t'.get? p = some .folder := by
    obtain ⟨rfl, hthere⟩ := reached_of_eq hreach
    obtain ⟨p', hfound, hfolder⟩ := exists_of_reachesFolder hthere
    obtain rfl : p = p' := by simpa [hfind] using hfound
    exact hfolder
  rw [makeEnclosing] at h
  split at h
  · rename_i t₂ hmade
    obtain rfl : t₂ = t' := (Prod.mk.inj h).1
    exact folder_of_makeFolder hfree hmade hfind he
  · split at h
    · cases (Prod.mk.inj h).2
    · rename_i t₂ houter
      split at h
      · rename_i t₃ hmade
        obtain rfl : t₃ = t' := (Prod.mk.inj h).1
        have hconfined : Confined (fun _ => True) (fun _ => False) t
            (t.makeEnclosing here outer).1 :=
          confined_makeEnclosing hfree fun way _ p _ => trivial
        rw [houter] at hconfined
        exact folder_of_makeFolder (hconfined.linkFree hfree) hmade hfind he
      · exact hreached h
  · exact hreached h

lemma filled_of_clear (hfree : LinkFree t) {p : Location} (hclear : Clear t p)
    (hview : ∀ q, t'.get? q = if q <+: p then some .folder else t.get? q) :
    Filled (· <+: p) t t' := by
  intro q
  rw [hview]
  split_ifs with hq
  · cases he : t.get? q with
    | none => exact .inr ⟨hq, rfl, rfl⟩
    | some e =>
      have hfolder := folder_of_clear hfree hclear hq he
      exact .inl ⟨hfolder.symm.trans he, fun _ => ⟨e, rfl⟩⟩
  · exact .inl ⟨rfl, fun h => absurd h hq⟩

lemma confined_makeFolders (hfree : LinkFree t) {p : Location} (hp : Proper p) :
    Confined (· <+: p) written t (t.makeFolders p).1 := by
  rcases makeFolders_cases hfree hp with ⟨t', hmade, -, hclear, hview⟩ | ⟨f, hmade, -⟩
  · rw [hmade]
    exact (filled_of_clear hfree hclear hview).confined
  · rw [hmade]
    exact .refl _ _ t

lemma arrive_of_proper {p : Location} (hp : Proper p) (here : Location) :
    arrive here p = here ++ p := by
  induction p generalizing here with
  | nil => simp [arrive]
  | cons n rest ih =>
    have hrest := ih fun m hm => hp m (List.mem_cons_of_mem n hm)
    rw [arrive_cons, onward_of_isProper (hp n List.mem_cons_self), hrest, List.append_assoc,
      List.singleton_append]

lemma confined_write (hfree : LinkFree t) {p : Location} (hp : Proper p) {bytes : List UInt8}
    (h : t.write p bytes = .ok t') : Confined made (· = p) t t' := by
  unfold write at h
  split_ifs at h
  have harrive : arrive [] p = p := arrive_of_proper hp []
  cases hlookup : t.lookup true maxLinks [] p with
  | error f => simp [hlookup, bind, Except.bind] at h
  | ok found =>
    cases found with
    | existing q =>
      have hq : q = p := (walk_existing hfree hlookup).trans harrive
      by_cases hfolder : t.get? q = some .folder
      · simp [hlookup, hfolder, bind, Except.bind, throw, throwThe, MonadExceptOf.throw] at h
      · obtain rfl : t.put q (.file bytes) = t' := by
          simpa [hlookup, hfolder, bind, Except.bind, pure, Except.pure] using h
        exact confined_put_file hq
    | missing a n =>
      obtain rfl : t.put (a ++ [n]) (.file bytes) = t' := by
        simpa [hlookup, bind, Except.bind, pure, Except.pure] using h
      exact confined_put_file ((walk_ends_missing hfree hlookup).1.trans harrive)
    | slashed q => simp [hlookup, bind, Except.bind, throw, throwThe, MonadExceptOf.throw] at h

/-! ### Where a build reads and writes -/

/-- The roots of a build are there. -/
structure Placed (t : FileTree) (r : Roots) : Prop where
  input : ∃ e, t.get? r.input = some e
  output : ∃ e, t.get? r.output = some e
  base : r.base = if t.get? r.input = some .folder then r.input else r.input.dropLast

lemma roots_eq_ok {cfg : Config} {r : Roots} (h : cfg.roots t = .ok r) :
    cfg.findInput t = .ok r.input ∧ cfg.findOutput t = .ok r.output ∧
      r.base = if t.get? r.input = some .folder then r.input else r.input.dropLast := by
  unfold Config.roots at h
  cases hin : cfg.findInput t with
  | error f => simp [hin, Except.mapError, bind, Except.bind] at h
  | ok input =>
    cases hout : cfg.findOutput t with
    | error f => simp [hin, hout, Except.mapError, bind, Except.bind] at h
    | ok output =>
      simp only [hin, hout, Except.mapError, bind, Except.bind, pure, Except.pure,
        Except.ok.injEq] at h
      subst h
      exact ⟨rfl, rfl, rfl⟩

lemma placed_of_roots {cfg : Config} {r : Roots} (hfree : LinkFree t) (h : cfg.roots t = .ok r) :
    Placed t r := by
  obtain ⟨hin, hout, hbase⟩ := roots_eq_ok h
  exact ⟨findPath_isSome hfree hin, findPath_isSome hfree hout, hbase⟩

lemma destination_base_append (r : Roots) (names : Location) :
    r.destination (r.base ++ names) = r.output ++ names := by
  rw [Roots.destination, Roots.relative, List.drop_left]

lemma destination_append {r : Roots} {p : Location} (hp : r.base <+: p) (rest : Location) :
    r.destination (p ++ rest) = r.destination p ++ rest := by
  obtain ⟨names, rfl⟩ := hp
  rw [List.append_assoc, destination_base_append, destination_base_append, List.append_assoc]

namespace Placed

variable {r : Roots} {p : Location}

lemma exists_relative (hr : Placed t r) (hcov : Covered r p) :
    ∃ rel, p = r.base ++ rel ∧ r.destination p = r.output ++ rel := by
  have hfront : r.base <+: p := by
    rw [hr.base]
    split_ifs
    · exact hcov.1
    · exact (List.dropLast_prefix _).trans hcov.1
  obtain ⟨rel, rfl⟩ := hfront
  exact ⟨rel, rfl, destination_base_append r rel⟩

lemma proper_destination (hr : Placed t r) (hcov : Covered r p) {e : Entry}
    (he : t.get? p = some e) : Proper (r.destination p) := by
  obtain ⟨rel, rfl, hdest⟩ := hr.exists_relative hcov
  obtain ⟨o, ho⟩ := hr.output
  rw [hdest]
  intro n hn
  rcases List.mem_append.mp hn with hn | hn
  · exact proper_of_get? ho n hn
  · exact proper_of_get? he n (List.mem_append_right _ hn)

lemma output_le_destination (hr : Placed t r) (hcov : Covered r p) :
    r.output <+: r.destination p := by
  obtain ⟨rel, -, hdest⟩ := hr.exists_relative hcov
  rw [hdest]
  exact List.prefix_append _ _

end Placed

lemma le_of_missing {o d q : Location} {e : Entry} (ho : t.get? o = some e) (hod : o <+: d)
    (hqd : q <+: d) (hq : t.get? q = none) : o <+: q := by
  rcases List.prefix_or_prefix_of_prefix hod hqd with h | ⟨rest, rfl⟩
  · exact h
  · obtain ⟨e', he'⟩ := isSome_of_append ho
    simp [hq] at he'

lemma confined_buildFolders {r : Roots} {o : Location} {e : Entry} (hfree : LinkFree t)
    (ho : t.get? o = some e) {visits : List Visit}
    (hdest : ∀ p, .folder p ∈ visits → Proper (r.destination p) ∧ o <+: r.destination p) :
    Confined (o <+: ·) written t (Build.makeFolders r t visits).tree := by
  induction visits generalizing t e with
  | nil => exact .refl _ _ t
  | cons v visits ih =>
    have hlater : ∀ p, .folder p ∈ visits → Proper (r.destination p) ∧ o <+: r.destination p :=
      fun p hp => hdest p (List.mem_cons_of_mem v hp)
    cases v with
    | failed error => exact ih hfree ho hlater
    | file p => exact ih hfree ho hlater
    | folder p =>
      obtain ⟨hproper, hin⟩ := hdest p List.mem_cons_self
      have hfirst : Confined (o <+: ·) written t (t.makeFolders (r.destination p)).1 :=
        (confined_makeFolders hfree hproper).mono
          (fun q hq hnone => le_of_missing ho hin hq hnone) fun _ hq => hq
      rw [Build.makeFolders]
      dsimp only
      split_ifs
      · exact ih hfree ho hlater
      · split
        · rename_i t₁ f hmade
          rwa [hmade] at hfirst
        · rename_i t₁ hmade
          rw [hmade] at hfirst
          obtain ⟨e', he'⟩ := hfirst.grows.isSome hfree ho
          exact hfirst.trans (ih (hfirst.linkFree hfree) he' hlater)

lemma confined_step (cfg : Config) {job : Job} (hfree : LinkFree t) (hp : Proper job.destination)
    (p : Progress) :
    Confined (· <+: job.destination.dropLast) (· = job.destination) t (job.step cfg t p).1 := by
  cases p with
  | waiting =>
    rw [Job.step]
    split <;> exact .refl _ _ t
  | loaded bytes =>
    have hparent : Proper job.destination.dropLast := fun n hn => hp n (List.mem_of_mem_dropLast hn)
    have hmade : Confined (· <+: job.destination.dropLast) (· = job.destination) t
        (t.makeFolders job.destination.dropLast).1 := confined_makeFolders hfree hparent
    rw [Job.step]
    split
    · rename_i t₁ f heq
      rwa [heq] at hmade
    · rename_i t₁ heq
      rwa [heq] at hmade
  | placed bytes =>
    rw [Job.step]
    split
    · exact .refl _ _ t
    · split
      · exact .refl _ _ t
      · rename_i t₁ hwritten
        exact confined_write hfree hp hwritten
  | failed error => exact .refl _ _ t
  | succeeded done => exact .refl _ _ t

/-- Whether a job brings its file to a place in the output folder `o`. -/
def Inside (o : Location) (job : Job) : Prop :=
  Proper job.destination ∧ o <+: job.destination

lemma Inside.step {o : Location} {job : Job} (hin : Inside o job) (cfg : Config)
    (hfree : LinkFree t) {e : Entry} (ho : t.get? o = some e) (p : Progress) :
    Confined (o <+: ·) (o <+: ·) t (job.step cfg t p).1 := by
  refine (confined_step cfg hfree hin.1 p).mono ?_ ?_
  · intro q hq hnone
    exact le_of_missing ho hin.2 (hq.trans (List.dropLast_prefix _)) hnone
  · rintro q rfl
    exact hin.2

lemma Inside.run {o : Location} {job : Job} (hin : Inside o job) (cfg : Config)
    (hfree : LinkFree t) {e : Entry} (ho : t.get? o = some e) :
    Confined (o <+: ·) (o <+: ·) t (job.run cfg t).1 := by
  have hread := hin.step cfg hfree ho .waiting
  obtain ⟨e₁, ho₁⟩ := hread.grows.isSome hfree ho
  have hplace := hread.trans (hin.step cfg (hread.linkFree hfree) ho₁ (job.step cfg t .waiting).2)
  obtain ⟨e₂, ho₂⟩ := hplace.grows.isSome hfree ho
  exact hplace.trans (hin.step cfg (hplace.linkFree hfree) ho₂ _)

lemma confined_runAll (cfg : Config) {o : Location} {e : Entry} (hfree : LinkFree t)
    (ho : t.get? o = some e) {jobs : List Job} (hin : ∀ job ∈ jobs, Inside o job) :
    Confined (o <+: ·) (o <+: ·) t (Job.runAll cfg t jobs).1 := by
  induction jobs generalizing t e with
  | nil => exact .refl _ _ t
  | cons job jobs ih =>
    have hfirst := (hin job List.mem_cons_self).run cfg hfree ho
    obtain ⟨e', ho'⟩ := hfirst.grows.isSome hfree ho
    exact hfirst.trans
      (ih (hfirst.linkFree hfree) ho' fun j hj => hin j (List.mem_cons_of_mem job hj))

lemma mem_ofVisits {cfg : Config} {r : Roots} {excluded : List Glob.Pattern} (hfree : LinkFree t)
    (hr : Placed t r) {job : Job} : job ∈ Job.ofVisits r excluded (visitsOf cfg r t) ↔
      ∃ p bytes, Covered r p ∧ t.get? p = some (.file bytes) ∧ job = jobOf r excluded p := by
  obtain ⟨e, hinput⟩ := hr.input
  rw [ofVisits_eq_map, List.mem_map]
  constructor
  · rintro ⟨p, hp, rfl⟩
    obtain ⟨hcov, bytes, hfile⟩ := (file_mem_visitsOf hfree hinput).mp (mem_filesOf.mp hp)
    exact ⟨p, bytes, hcov, hfile, rfl⟩
  · rintro ⟨p, bytes, hcov, hfile, rfl⟩
    exact ⟨p, mem_filesOf.mpr ((file_mem_visitsOf hfree hinput).mpr ⟨hcov, bytes, hfile⟩), rfl⟩

lemma inside_of_mem {cfg : Config} {r : Roots} {excluded : List Glob.Pattern} (hfree : LinkFree t)
    (hr : Placed t r) {job : Job} (hjob : job ∈ Job.ofVisits r excluded (visitsOf cfg r t)) :
    Inside r.output job := by
  obtain ⟨p, bytes, hcov, hfile, rfl⟩ := (mem_ofVisits hfree hr).mp hjob
  exact ⟨hr.proper_destination hcov hfile, hr.output_le_destination hcov⟩

lemma proper_of_visited {cfg : Config} {r : Roots} (hfree : LinkFree t) (hr : Placed t r)
    {p : Location} (hp : .folder p ∈ visitsOf cfg r t) :
    Proper (r.destination p) ∧ r.output <+: r.destination p := by
  obtain ⟨e, hinput⟩ := hr.input
  obtain ⟨hcov, hfolder⟩ := (folder_mem_visitsOf hfree hinput).mp hp
  exact ⟨hr.proper_destination hcov hfolder, hr.output_le_destination hcov⟩

lemma confined_visitedFolders (cfg : Config) {r : Roots} (hfree : LinkFree t) (hr : Placed t r) :
    Confined (r.output <+: ·) written t (Build.makeFolders r t (visitsOf cfg r t)).tree := by
  obtain ⟨o, ho⟩ := hr.output
  exact confined_buildFolders hfree ho fun p hp => proper_of_visited hfree hr hp

theorem confined_execute (cfg : Config) {r : Roots} (excluded : List Glob.Pattern)
    (hfree : LinkFree t) (hr : Placed t r) :
    Confined (r.output <+: ·) (r.output <+: ·) t (execute cfg r excluded t).tree := by
  obtain ⟨o, ho⟩ := hr.output
  have hfolders : Confined (r.output <+: ·) (r.output <+: ·) t
      (Build.makeFolders r t (visitsOf cfg r t)).tree := confined_visitedFolders cfg hfree hr
  obtain ⟨o', ho'⟩ := hfolders.grows.isSome hfree ho
  have hin : ∀ job ∈ Job.ofVisits r excluded (visitsOf cfg r t), Inside r.output job :=
    fun job hjob => inside_of_mem hfree hr hjob
  have hjobs := confined_runAll cfg (hfolders.linkFree hfree) ho' hin
  unfold execute
  dsimp only
  split
  · exact hfolders
  · exact hfolders.trans hjobs

/-! ### How a build goes -/

/-- The tree once the output folder is there, or the failure to make it. -/
def openOutput (cfg : Config) (t : FileTree) : FileTree × Except Failure Unit :=
  if reaches (cfg.findOutput t) then (t, .ok ()) else cfg.makeOutput t

lemma check_eq_ok_iff {cfg : Config} : cfg.check t = .ok () ↔ reaches (cfg.findInput t) = true ∧
    (reaches (cfg.findOutput t) = true → t.reachesFolder (cfg.findOutput t) = true) := by
  unfold Config.check
  split_ifs <;> simp_all

/-- A build comes to its walk, with the tree `t₁`, the roots `r` and the exclusions `excluded`. -/
structure Prepared (cfg : Config) (t t₁ : FileTree) (r : Roots) (excluded : List Glob.Pattern) :
    Prop where
  checked : cfg.check t = .ok ()
  opened : openOutput cfg t = (t₁, .ok ())
  roots : cfg.roots t₁ = .ok r
  exclusions : Exclusion.ofEntries cfg.excludes = .ok excluded

/-- The ways a build can go, with the tree it leaves and its result. -/
inductive Course (cfg : Config) (t : FileTree) : FileTree → Except Failure Report → Prop
  | rejected {e} : cfg.check t = .error e → Course cfg t t (.error e)
  | unopened {t₁ e} : cfg.check t = .ok () → openOutput cfg t = (t₁, .error e) →
      Course cfg t t₁ (.error e)
  | lost {t₁ e} : cfg.check t = .ok () → openOutput cfg t = (t₁, .ok ()) → cfg.roots t₁ = .error e →
      Course cfg t t₁ (.error e)
  | refused {t₁ e} : cfg.check t = .ok () → openOutput cfg t = (t₁, .ok ()) →
      Exclusion.ofEntries cfg.excludes = .error e → Course cfg t t₁ (.error (.exclusion e))
  | executed {t₁ r excluded} : Prepared cfg t t₁ r excluded →
      Course cfg t (execute cfg r excluded t₁).tree (execute cfg r excluded t₁).result

lemma course_proceed {cfg : Config} (hcheck : cfg.check t = .ok ())
    (hopened : openOutput cfg t = (t₁, .ok ())) :
    Course cfg t (proceed cfg t₁).tree (proceed cfg t₁).result := by
  unfold proceed
  split
  · rename_i e hroots
    exact .lost hcheck hopened hroots
  · rename_i r hroots
    split
    · rename_i e hexcluded
      exact .refused hcheck hopened hexcluded
    · rename_i excluded hexcluded
      exact .executed ⟨hcheck, hopened, hroots, hexcluded⟩

theorem course_run (cfg : Config) (t : FileTree) :
    Course cfg t (run cfg t).tree (run cfg t).result := by
  unfold run
  split
  · rename_i e hcheck
    exact .rejected hcheck
  · rename_i hcheck
    split_ifs with hreaches
    · exact course_proceed hcheck (by rw [openOutput, if_pos hreaches])
    · dsimp only
      split
      · rename_i t₁ e hmade
        exact .unopened hcheck (by rw [openOutput, if_neg hreaches, hmade])
      · rename_i t₁ hmade
        exact course_proceed hcheck (by rw [openOutput, if_neg hreaches, hmade])

/-- The locations along the output path as it is given. -/
def OnWay (cfg : Config) (q : Location) : Prop :=
  Passes (Path.start cfg.here cfg.output) (Path.pieces cfg.output) q

lemma openOutput_tree (cfg : Config) (t : FileTree) : (openOutput cfg t).1 =
    if reaches (cfg.findOutput t) then t else (t.makeFolderPath cfg.here cfg.output).1 := by
  unfold openOutput Config.makeOutput
  split_ifs
  · rfl
  · split
    · rename_i t₁ heq
      rw [heq]
    · rename_i t₁ f heq
      rw [heq]

lemma confined_openOutput (cfg : Config) (hfree : LinkFree t) :
    Confined (OnWay cfg) (fun _ => False) t (openOutput cfg t).1 := by
  rw [openOutput_tree]
  split_ifs
  · exact .refl _ _ t
  · exact confined_makeFolderPath hfree cfg.here cfg.output

namespace Prepared

variable {cfg : Config} {r : Roots} {excluded : List Glob.Pattern}

lemma confined (h : Prepared cfg t t₁ r excluded) (hfree : LinkFree t) :
    Confined (OnWay cfg) (fun _ => False) t t₁ := by
  have hopened := confined_openOutput cfg hfree
  rwa [h.opened] at hopened

lemma linkFree (h : Prepared cfg t t₁ r excluded) (hfree : LinkFree t) : LinkFree t₁ :=
  (h.confined hfree).linkFree hfree

lemma placed (h : Prepared cfg t t₁ r excluded) (hfree : LinkFree t) : Placed t₁ r :=
  placed_of_roots (h.linkFree hfree) h.roots

lemma get?_output (h : Prepared cfg t t₁ r excluded) (hfree : LinkFree t) :
    t₁.get? r.output = some .folder := by
  have hout := (roots_eq_ok h.roots).2.1
  have hopened := h.opened
  unfold openOutput at hopened
  split_ifs at hopened with hreaches
  · obtain rfl : t = t₁ := (Prod.mk.inj hopened).1
    have hchecked := (check_eq_ok_iff.mp h.checked).2 hreaches
    rw [hout] at hchecked
    simpa [reachesFolder] using hchecked
  · obtain ⟨e, he⟩ := (h.placed hfree).output
    obtain ⟨hrefusal, -, hfind⟩ := findPath_eq_ok hout
    unfold Config.makeOutput makeFolderPath makeWay at hopened
    rw [hrefusal] at hopened
    dsimp only at hopened
    split_ifs at hopened with hslashes
    · -- A path of slashes alone makes nothing, and it would have been found before.
      obtain rfl : t = t₁ := (Prod.mk.inj hopened).1
      rw [hout] at hreaches
      exact absurd rfl hreaches
    · split at hopened
      · rename_i t₂ hmade
        obtain rfl : t₂ = t₁ := (Prod.mk.inj hopened).1
        exact folder_of_makeEnclosing hfree hmade hfind he
      · cases (Prod.mk.inj hopened).2

lemma findOutput_execute (h : Prepared cfg t t₁ r excluded) (hfree : LinkFree t) :
    cfg.findOutput (execute cfg r excluded t₁).tree = .ok r.output := by
  have hfree₁ := h.linkFree hfree
  have hexecuted := confined_execute cfg excluded hfree₁ (h.placed hfree)
  exact findPath_grows hfree₁ (hexecuted.linkFree hfree₁) hexecuted.grows (roots_eq_ok h.roots).2.1

end Prepared

/-- Outside its output folder a build changes nothing but to make the folders that are missing on
the way to it, however it ends. -/
theorem run_changes_only_the_output (cfg : Config) (hfree : LinkFree t) (q : Location)
    (hq : ∀ o, cfg.findOutput (run cfg t).tree = .ok o →
      (run cfg t).tree.get? o = some .folder → ¬o <+: q) :
    (run cfg t).tree.get? q = t.get? q ∨
      (t.get? q = none ∧ (run cfg t).tree.get? q = some .folder ∧ OnWay cfg q) := by
  have hcourse := course_run cfg t
  have hopened := confined_openOutput cfg hfree
  have houtside {t' : FileTree} (h : Confined (OnWay cfg) (fun _ => False) t t') :
      t'.get? q = t.get? q ∨ (t.get? q = none ∧ t'.get? q = some .folder ∧ OnWay cfg q) := by
    rcases h q with heq | ⟨hpasses, hnone, hfolder⟩ | ⟨hno, -, -⟩
    · exact .inl heq
    · exact .inr ⟨hnone, hfolder, hpasses⟩
    · exact hno.elim
  generalize (run cfg t).tree = tree at *
  generalize (run cfg t).result = result at *
  cases hcourse with
  | rejected hcheck => exact .inl rfl
  | unopened hcheck hfailed =>
    rw [hfailed] at hopened
    exact houtside hopened
  | lost hcheck hmade hroots =>
    rw [hmade] at hopened
    exact houtside hopened
  | refused hcheck hmade hexcluded =>
    rw [hmade] at hopened
    exact houtside hopened
  | @executed t₁ r excluded hprep =>
    have hexecuted := confined_execute cfg excluded (hprep.linkFree hfree) (hprep.placed hfree)
    have hnot := hq r.output (hprep.findOutput_execute hfree)
      (hexecuted.grows.folder _ (hprep.get?_output hfree))
    rcases hexecuted q with heq | ⟨hin, -, -⟩ | ⟨hin, -, -⟩
    · rw [heq]
      exact houtside (hprep.confined hfree)
    · exact absurd hin hnot
    · exact absurd hin hnot

def site : FileTree where
  entries :=
    [(["site".toList], .folder),
      (["site".toList, "a.php".toList], .file "<?php // one\necho  1;".toUTF8.toList),
      (["site".toList, "lib".toList], .folder),
      (["site".toList, "lib".toList, "b.txt".toList], .file "two".toUTF8.toList)]
  distinct := by decide
  proper := by decide
  rooted := by decide

/-- Brings `site` to a folder that lies in it and is missing, like the folder around it. -/
def intoItself : Config where
  here := []
  input := "site".toList
  output := "site/lib/made/out".toList
  inputCharset := .latin1
  outputCharset := .latin1

theorem run_changes_only_the_output_inside_its_input :
    LinkFree site ∧
      (∀ o, intoItself.findOutput (run intoItself site).tree = .ok o →
        (run intoItself site).tree.get? o = some .folder →
        ¬o <+: ["site".toList, "lib".toList, "made".toList]) ∧
      ((run intoItself site).tree.get? ["site".toList, "lib".toList, "made".toList] =
          site.get? ["site".toList, "lib".toList, "made".toList] ∨
        (site.get? ["site".toList, "lib".toList, "made".toList] = none ∧
          (run intoItself site).tree.get? ["site".toList, "lib".toList, "made".toList] =
            some .folder ∧
          OnWay intoItself ["site".toList, "lib".toList, "made".toList])) := by
  have hfree : LinkFree site := by decide
  have hout : intoItself.findOutput (run intoItself site).tree =
      .ok ["site".toList, "lib".toList, "made".toList, "out".toList] := by decide +kernel
  have hq : ∀ o, intoItself.findOutput (run intoItself site).tree = .ok o →
      (run intoItself site).tree.get? o = some .folder →
      ¬o <+: ["site".toList, "lib".toList, "made".toList] := by
    intro o ho _
    rw [hout, Except.ok.injEq] at ho
    subst ho
    decide
  exact ⟨hfree, hq, run_changes_only_the_output intoItself hfree _ hq⟩

end PhpSlim.Proofs
