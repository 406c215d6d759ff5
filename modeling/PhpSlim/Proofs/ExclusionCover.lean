import PhpSlim.Exclusion
import PhpSlim.Proofs.CharsetRoundTrip
import PhpSlim.Proofs.GlobMeaning
import PhpSlim.Proofs.StrippedText

/-!
# What an exclusion covers

Each exclusion is read twice, as a glob of its own and with `/**` behind it. The second reading
covers everything below what either of them covers, also where the first glob ends in stars of its
own; and where an exclusion is a plain path, it covers that path and what lies below it. What is read
is the entry without the white space around it and then without the slashes around that.
-/

namespace PhpSlim.Proofs
open PhpSlim.Glob

variable {s s' : State} {c : Char} {items below : List Item}

lemma run_append (s : State) (front rest : List Char) :
    s.run (front ++ rest) = (do (← s.run front).run rest) := by
  induction front generalizing s with
  | nil => rfl
  | cons c front ih =>
    rw [List.cons_append, State.run, State.run]
    cases s.step c with
    | error e => rfl
    | ok s' => exact ih s'

/-- Folders at the front of a glob have nothing before them. -/
def Fronted (s : State) : Prop :=
  ∀ rest, s.items = .leading :: rest → rest = []

/-- Where the reading stands right behind the folders at the front of a glob, it stands behind a
slash. -/
structure WellRead (s : State) : Prop where
  fronted : Fronted s
  slash : s.mode = .plain → s.items = [.leading] → s.last = some '/'

lemma fronted_cons {i : Item} {rest : List Item} (hitems : s.items = i :: rest)
    (hi : i ≠ .leading) : Fronted s := by
  intro rest' h
  rw [hitems, List.cons.injEq] at h
  exact absurd h.1 hi

lemma fronted_nil (hitems : s.items = []) : Fronted s := by
  intro rest h
  rw [hitems] at h
  cases h

lemma wellRead_cons {i : Item} {rest : List Item} (hitems : s.items = i :: rest)
    (hi : i ≠ .leading) : WellRead s := by
  refine ⟨fronted_cons hitems hi, fun _ h => ?_⟩
  rw [hitems, List.cons.injEq] at h
  exact absurd h.1 hi

lemma wellRead_nil (hitems : s.items = []) : WellRead s := by
  refine ⟨fronted_nil hitems, fun _ h => ?_⟩
  rw [hitems] at h
  cases h

lemma WellRead.within (h : Fronted s) (hmode : s.mode ≠ .plain) : WellRead s :=
  ⟨h, fun hplain => absurd hplain hmode⟩

lemma wellRead_plain (h : Fronted s) (hread : s.plain c = .ok s') :
    WellRead s' ∧ s'.last = some c := by
  unfold State.plain at hread
  split at hread
  · obtain rfl := Except.ok.inj hread
    exact ⟨wellRead_cons rfl (by simp), rfl⟩
  · obtain rfl := Except.ok.inj hread
    exact ⟨.within h (by simp), rfl⟩
  · obtain rfl := Except.ok.inj hread
    exact ⟨.within h (by simp), rfl⟩
  · obtain rfl := Except.ok.inj hread
    exact ⟨wellRead_nil rfl, rfl⟩
  · unfold State.closeGroup at hread
    dsimp only at hread
    split at hread
    · cases hread
    · obtain rfl := Except.ok.inj hread
      exact ⟨wellRead_cons rfl (by simp), rfl⟩
  · obtain rfl := Except.ok.inj hread
    unfold State.comma
    split
    · exact ⟨wellRead_cons rfl (by simp), rfl⟩
    · exact ⟨wellRead_nil rfl, rfl⟩
  · obtain rfl := Except.ok.inj hread
    exact ⟨.within h (by simp), rfl⟩
  · obtain rfl := Except.ok.inj hread
    exact ⟨wellRead_cons rfl (by simp), rfl⟩

lemma Fronted.replaceLast (h : Fronted s) {i : Item} (hi : i ≠ .leading) :
    Fronted (s.replaceLast i) := by
  unfold State.replaceLast
  split
  · exact h
  · exact h
  · exact fronted_cons rfl hi
  · exact fronted_cons rfl hi

lemma Fronted.settle (h : Fronted s) (before next : Option Char) :
    Fronted (s.settle before next).1 := by
  have hlead : Fronted { s with items := [.leading] } := by
    intro rest hrest
    exact (List.cons.inj hrest).2.symm
  have hapart : Fronted ((s.push .star).push .star) := fronted_cons rfl (by simp)
  unfold State.settle
  dsimp only
  split_ifs
  · split
    · exact hlead
    · split_ifs
      · exact hlead
      · exact hapart
  · split
    · exact h.replaceLast (by simp)
    · split_ifs
      · exact h.replaceLast (by simp)
      · exact h.replaceLast (by simp)
      · exact hapart
  · exact hapart

lemma eq_slash_of_settle {before : Option Char} (h : (s.settle before (some c)).2 = true) :
    c = '/' := by
  unfold State.settle at h
  dsimp only at h
  split_ifs at h <;> simp_all

lemma wellRead_readClass (h : Fronted s) {k : ClassState} (hread : s.readClass k c = .ok s') :
    WellRead s' ∧ s'.last = some c := by
  unfold State.readClass at hread
  dsimp only at hread
  split_ifs at hread
  · obtain rfl := Except.ok.inj hread
    exact ⟨wellRead_cons rfl (by simp), rfl⟩
  · obtain rfl := Except.ok.inj hread
    exact ⟨.within h (by simp), rfl⟩
  · cases hadd : k.add c with
    | error e => simp [hadd, bind, Except.bind] at hread
    | ok k' =>
      simp only [hadd, bind, Except.bind, pure, Except.pure, Except.ok.injEq] at hread
      subst hread
      exact ⟨.within h (by simp), rfl⟩

lemma WellRead.step (h : WellRead s) (hread : s.step c = .ok s') :
    WellRead s' ∧ s'.last = some c := by
  unfold State.step at hread
  split at hread
  · exact wellRead_plain h.fronted hread
  · obtain rfl := Except.ok.inj hread
    exact ⟨wellRead_cons rfl (by simp), rfl⟩
  · split_ifs at hread
    · obtain rfl := Except.ok.inj hread
      exact ⟨.within h.fronted (by simp), rfl⟩
    · exact wellRead_plain (fronted_cons rfl (by simp)) hread
  · rename_i before _
    have hfronted := h.fronted.settle before (some c)
    split at hread
    · rename_i s₁ hsettled
      obtain rfl := Except.ok.inj hread
      have hslash : c = '/' := eq_slash_of_settle (by rw [hsettled])
      rw [hsettled] at hfronted
      exact ⟨⟨hfronted, fun _ _ => by rw [hslash]⟩, rfl⟩
    · rename_i s₁ hsettled
      rw [hsettled] at hfronted
      exact wellRead_plain hfronted hread
  · split_ifs at hread
    · obtain rfl := Except.ok.inj hread
      exact ⟨.within h.fronted (by simp), rfl⟩
    · exact wellRead_readClass h.fronted hread
  · exact wellRead_readClass h.fronted hread

lemma WellRead.run (h : WellRead s) {text : List Char} (hread : s.run text = .ok s') :
    WellRead s' := by
  induction text generalizing s with
  | nil =>
    obtain rfl := Except.ok.inj hread
    exact h
  | cons c text ih =>
    rw [State.run] at hread
    cases hstep : s.step c with
    | error e => simp [hstep, bind, Except.bind] at hread
    | ok s₁ =>
      rw [hstep] at hread
      exact ih (h.step hstep).1 hread

/-- How the items of a glob that does not end in a slash are related to those of the same glob with
`/**` behind it. -/
inductive Extended : List Item → List Item → Prop
  | appended {items : List Item} : items ≠ [.leading] → Extended items (items ++ [.trailing])
  | everything : Extended [.leading] [.leading]
  /-- Two stars behind a slash have made the end already. -/
  | trailing {front : List Item} : Extended (front ++ [.trailing]) (front ++ [.trailing])

lemma extended_reverse {i : Item} {rest : List Item} (hi : i ≠ .leading) :
    Extended (i :: rest).reverse (Item.trailing :: i :: rest).reverse := by
  have hbelow : (Item.trailing :: i :: rest).reverse = (i :: rest).reverse ++ [.trailing] :=
    List.reverse_cons
  rw [hbelow]
  refine .appended fun hlead => ?_
  have hhead : i :: rest = [.leading] := List.reverse_eq_iff.mp hlead
  exact hi (List.cons.inj hhead).1

lemma groups_settle (s : State) (before next : Option Char) :
    (s.settle before next).1.groups = s.groups := by
  have hreplaced (i : Item) : (s.replaceLast i).groups = s.groups := by
    unfold State.replaceLast
    split <;> rfl
  unfold State.settle
  dsimp only
  split_ifs
  · split
    · rfl
    · split_ifs <;> rfl
  · split
    · exact hreplaced _
    · split_ifs
      · exact hreplaced _
      · exact hreplaced _
      · rfl
  · rfl

lemma groups_of_finish (h : s.finish = .ok items) : s.groups = [] := by
  have hclosed (s₁ : State) {items : List Item} (h : (if s₁.inGroup then Except.error
      Error.unclosedGroup else .ok s₁.items.reverse) = .ok items) : s₁.groups = [] := by
    split_ifs at h with hgroup
    simpa [State.inGroup] using hgroup
  unfold State.finish at h
  dsimp only at h
  split at h
  · exact hclosed s h
  · cases h
  · exact hclosed (s.push .star) h
  · rw [← hclosed _ h, groups_settle]
  · cases h
  · cases h

lemma settle_apart {mode : Glob.Mode} {reversed : List Item} {last before next : Option Char}
    (hitems : reversed ≠ []) (hbefore : before ≠ some '/') :
    (State.mk mode reversed [] last).settle before next =
      (⟨mode, .star :: .star :: reversed, [], last⟩, false) := by
  simp [State.settle, State.push, State.inGroup, hitems, hbefore]

lemma replaceLast_of_kept {mode : Glob.Mode} {i j : Item} {rest : List Item} {groups : List Group}
    {last : Option Char} (hi : i = .leading ∨ i = .trailing) :
    (State.mk mode (i :: rest) groups last).replaceLast j = ⟨mode, i :: rest, groups, last⟩ := by
  rcases hi with rfl | rfl <;> rfl

lemma replaceLast_of_replaced {mode : Glob.Mode} {i j : Item} {rest : List Item} {groups : List Group}
    {last : Option Char} (hi : ¬(i = .leading ∨ i = .trailing)) :
    (State.mk mode (i :: rest) groups last).replaceLast j = ⟨mode, j :: rest, groups, last⟩ := by
  unfold State.replaceLast
  split <;> simp_all

lemma finish_stars (i : Item) (rest : List Item) :
    (do (← (State.mk .plain (i :: rest) [] (some '/')).run ['*', '*']).finish) =
      .ok ((State.mk (.stars (some '/')) (i :: rest) [] (some '*')).replaceLast
        .trailing).items.reverse := by
  cases i <;> rfl

lemma step_stars (i : Item) (rest : List Item) (last : Option Char) :
    (State.mk (.stars (some '/')) (i :: rest) [] last).step '/' =
      .ok { (State.mk (.stars (some '/')) (i :: rest) [] last).replaceLast .between with
        mode := .plain, last := some '/' } :=
  rfl

lemma finish_below_stars {reversed : List Item} {before last : Option Char}
    (h : WellRead ⟨.stars before, reversed, [], last⟩)
    (hread : (State.mk (.stars before) reversed [] last).finish = .ok items) :
    ∃ below, (do (← (State.mk (.stars before) reversed [] last).run ['/', '*', '*']).finish) =
      .ok below ∧ Extended items below := by
  cases reversed with
  | nil =>
    obtain rfl := Except.ok.inj hread
    exact ⟨_, finish_stars .leading [], .everything⟩
  | cons i rest =>
    by_cases hbefore : before = some '/'
    · -- Both pairs of stars stand behind a slash, so the second makes no item of its own.
      subst hbefore
      have hitems : ((State.mk (.stars (some '/')) (i :: rest) [] last).replaceLast
          .trailing).items.reverse = items := by
        cases i <;> exact Except.ok.inj hread
      rw [State.run, step_stars]
      by_cases hi : i = .leading ∨ i = .trailing
      · rw [replaceLast_of_kept hi] at hitems ⊢
        refine ⟨_, finish_stars i rest, ?_⟩
        rw [replaceLast_of_kept hi, ← hitems]
        rcases hi with rfl | rfl
        · obtain rfl := h.fronted rest rfl
          exact .everything
        · rw [List.reverse_cons]
          exact .trailing
      · rw [replaceLast_of_replaced hi] at hitems ⊢
        refine ⟨_, finish_stars .between rest, ?_⟩
        rw [replaceLast_of_replaced (by simp), ← hitems, List.reverse_cons]
        exact .trailing
    · -- The first pair is two plain stars, and the second stands alone behind them.
      have hsettled (next : Option Char) :
          (State.mk (.stars before) (i :: rest) [] last).settle before next =
            (⟨.stars before, .star :: .star :: i :: rest, [], last⟩, false) :=
        settle_apart (List.cons_ne_nil i rest) hbefore
      have hitems : (Item.star :: .star :: i :: rest).reverse = items := by
        simpa [State.finish, hsettled, State.inGroup] using hread
      have hstep : (State.mk (.stars before) (i :: rest) [] last).step '/' =
          .ok ⟨.plain, .literal '/' :: .star :: .star :: i :: rest, [], some '/'⟩ := by
        rw [State.step]
        dsimp only
        rw [hsettled]
        rfl
      rw [State.run, hstep]
      refine ⟨_, finish_stars (.literal '/') (.star :: .star :: i :: rest), ?_⟩
      rw [replaceLast_of_replaced (by simp), ← hitems]
      exact extended_reverse (by simp)

lemma finish_below (h : WellRead s) (hslash : s.last ≠ some '/')
    (hread : s.finish = .ok items) :
    ∃ below, (do (← s.run ['/', '*', '*']).finish) = .ok below ∧ Extended items below := by
  have hgroups := groups_of_finish hread
  obtain ⟨mode, reversed, groups, last⟩ := s
  obtain rfl : groups = [] := hgroups
  cases mode with
  | escape => cases hread
  | bracket => cases hread
  | inClass k => cases hread
  | plain =>
    obtain rfl : reversed.reverse = items := Except.ok.inj hread
    refine ⟨_, finish_stars (.literal '/') reversed, ?_⟩
    rw [replaceLast_of_replaced (by simp), List.reverse_cons]
    refine .appended fun hlead => hslash (h.slash rfl ?_)
    exact List.reverse_eq_iff.mp hlead
  | star before =>
    obtain rfl : (Item.star :: reversed).reverse = items := Except.ok.inj hread
    refine ⟨_, finish_stars (.literal '/') (.star :: reversed), ?_⟩
    rw [replaceLast_of_replaced (by simp)]
    exact extended_reverse (by simp)
  | stars before => exact finish_below_stars h hread

lemma parse_eq_ok_iff {glob : List Char} :
    parse glob = .ok items ↔ ∃ s, (State.mk .plain [] [] none).run glob = .ok s ∧
      s.finish = .ok items := by
  unfold parse
  cases (State.mk .plain [] [] none).run glob with
  | error e => simp [bind, Except.bind]
  | ok s => simp [bind, Except.bind]

/-- A glob that does not end in a slash can be read with `/**` behind it. -/
theorem parse_below {front : List Char} (hc : c ≠ '/')
    (hread : parse (front ++ [c]) = .ok items) :
    ∃ below, parse (front ++ [c] ++ ['/', '*', '*']) = .ok below ∧ Extended items below := by
  obtain ⟨s, hrun, hfinish⟩ := parse_eq_ok_iff.mp hread
  have hstart : WellRead (State.mk .plain [] [] none) := wellRead_nil rfl
  obtain ⟨s₁, hfront, hlast⟩ : ∃ s₁, (State.mk .plain [] [] none).run front = .ok s₁ ∧
      s₁.step c = .ok s := by
    rw [run_append] at hrun
    cases hfront : (State.mk .plain [] [] none).run front with
    | error e => simp [hfront, bind, Except.bind] at hrun
    | ok s₁ =>
      refine ⟨s₁, rfl, ?_⟩
      rw [hfront] at hrun
      simp only [State.run, bind, Except.bind] at hrun
      cases hstep : s₁.step c with
      | error e => simp [hstep] at hrun
      | ok s₂ => simpa [hstep] using hrun
  obtain ⟨hs, hs'⟩ := (hstart.run hfront).step hlast
  have hslash : s.last ≠ some '/' := by
    rw [hs']
    simpa using hc
  obtain ⟨below, hbelow, hext⟩ := finish_below hs hslash hfinish
  refine ⟨below, ?_, hext⟩
  unfold parse
  rw [run_append, hrun]
  exact hbelow

lemma toPattern_concat (items : List Item) {i : Item} (hi : i ≠ .leading) :
    toPattern (items ++ [i]) = .sequence ((items ++ [i]).map Item.toPattern) := by
  rw [toPattern, if_neg]
  intro hlead
  have hlast := congrArg List.getLast? hlead
  rw [List.getLast?_concat] at hlast
  exact hi (Option.some.inj hlast)

lemma matches_concat_trailing {items : List Item} {bytes : List UInt8} :
    Matches (toPattern (items ++ [.trailing])) bytes ↔
      ∃ u rest, bytes = u ++ 0x2F :: rest ∧ Matches (.sequence (items.map Item.toPattern)) u := by
  rw [toPattern_concat items (by simp), List.map_append, matches_sequence_append]
  constructor
  · rintro ⟨u, v, rfl, hu, hv⟩
    rw [List.map_singleton, matches_sequence_singleton, matches_trailing] at hv
    obtain ⟨rest, rfl⟩ := hv
    exact ⟨u, rest, rfl, hu⟩
  · rintro ⟨u, rest, rfl, hu⟩
    refine ⟨u, 0x2F :: rest, rfl, hu, ?_⟩
    rw [List.map_singleton, matches_sequence_singleton, matches_trailing]
    exact ⟨rest, rfl⟩

lemma matches_trailing_append {items : List Item} {bytes : List UInt8}
    (h : Matches (toPattern (items ++ [.trailing])) bytes) (rest : List UInt8) :
    Matches (toPattern (items ++ [.trailing])) (bytes ++ rest) := by
  obtain ⟨u, rest', rfl, hu⟩ := matches_concat_trailing.mp h
  exact matches_concat_trailing.mpr ⟨u, rest' ++ rest, by simp, hu⟩

/-- The second reading of an exclusion covers what lies below anything that one of the readings
covers. -/
theorem Extended.matches_below (h : Extended items below) {bytes : List UInt8}
    (hmatch : Matches (toPattern items) bytes ∨ Matches (toPattern below) bytes)
    (rest : List UInt8) : Matches (toPattern below) (bytes ++ 0x2F :: rest) := by
  cases h with
  | everything => trivial
  | trailing => exact matches_trailing_append (hmatch.elim id id) _
  | appended hlead =>
    rcases hmatch with hmatch | hmatch
    · rw [toPattern, if_neg hlead] at hmatch
      exact matches_concat_trailing.mpr ⟨bytes, rest, rfl, hmatch⟩
    · exact matches_trailing_append hmatch _

/-- Whether `pattern` is what remains of an entry without the white space around it and then without
the slashes around that. -/
def Trimmed (entry : String) (pattern : List Char) : Prop :=
  ∃ inner, StripsTo Text.isWhiteSpace entry.toList inner ∧ StripsTo (· == '/') inner pattern

lemma trimmed_iff {entry : String} {pattern : List Char} :
    Trimmed entry pattern ↔ Exclusion.clean entry = pattern := by
  simp only [Trimmed, stripsTo_iff, exists_eq_left', Exclusion.clean]

instance (entry : String) (pattern : List Char) : Decidable (Trimmed entry pattern) :=
  decidable_of_iff _ trimmed_iff.symm

/-- The exclusion and the items of its two readings. -/
structure Reads (pattern : List Char) (items below : List Item) : Prop where
  own : parse pattern = .ok items
  below : parse (pattern ++ ['/', '*', '*']) = .ok below

lemma Reads.extended {entry : String} {pattern : List Char} (h : Reads pattern items below)
    (htrim : Trimmed entry pattern) (hne : pattern ≠ []) : Extended items below := by
  obtain ⟨inner, -, front, back, -, -, -, -, hback⟩ := htrim
  have hsplit := List.dropLast_append_getLast hne
  have hlast : pattern.getLast hne ≠ '/' := by
    have hnot := hback (pattern.getLast hne) (List.getLast?_eq_some_getLast hne)
    simpa using hnot
  obtain ⟨below', hbelow', hext⟩ := parse_below hlast (hsplit ▸ h.own)
  rw [hsplit, h.below] at hbelow'
  obtain rfl := Except.ok.inj hbelow'
  exact hext

lemma mapM_eq_ok {α β ε : Type} {f : α → Except ε β} {l : List α} {results : List β}
    (h : l.mapM f = .ok results) :
    (∀ x ∈ l, ∃ y, f x = .ok y) ∧ ∀ y, y ∈ results ↔ ∃ x ∈ l, f x = .ok y := by
  induction l generalizing results with
  | nil =>
    obtain rfl : [] = results := Except.ok.inj h
    simp
  | cons x l ih =>
    rw [List.mapM_cons] at h
    cases hx : f x with
    | error e => simp [hx, bind, Except.bind] at h
    | ok z =>
      cases hl : l.mapM f with
      | error e => simp [hx, hl, bind, Except.bind] at h
      | ok rest =>
        obtain rfl : z :: rest = results := by
          simpa [hx, hl, bind, Except.bind, pure, Except.pure] using h
        obtain ⟨hall, hmem⟩ := ih hl
        refine ⟨List.forall_mem_cons.mpr ⟨⟨z, hx⟩, hall⟩, fun y => ?_⟩
        simp [hmem, hx, eq_comm]

lemma read_eq_ok {entry : String} {globs : List (List Item)}
    (h : Exclusion.read entry = .ok globs) :
    ∃ p, Trimmed entry p ∧ ((p = [] ∧ globs = []) ∨
      (p ≠ [] ∧ ∃ items below, Reads p items below ∧ globs = [items, below])) := by
  refine ⟨_, trimmed_iff.mpr rfl, ?_⟩
  unfold Exclusion.read at h
  split_ifs at h with hempty
  · exact .inl ⟨List.isEmpty_iff.mp hempty, (Except.ok.inj h).symm⟩
  · rw [List.isEmpty_iff] at hempty
    refine .inr ⟨hempty, ?_⟩
    simp only [Exclusion.globs, List.mapM_cons, List.mapM_nil] at h
    cases hown : parse (Exclusion.clean entry) with
    | error e => simp [hown, Except.mapError, bind, Except.bind] at h
    | ok items =>
      cases hbelow : parse (Exclusion.clean entry ++ ['/', '*', '*']) with
      | error e => simp [hown, hbelow, Except.mapError, bind, Except.bind] at h
      | ok below =>
        refine ⟨items, below, ⟨hown, hbelow⟩, ?_⟩
        simpa [hown, hbelow, Except.mapError, bind, Except.bind, pure, Except.pure, eq_comm] using h

variable {entries : List String} {patterns : List Pattern}

lemma ofEntries_eq_ok (h : Exclusion.ofEntries entries = .ok patterns) :
    ∃ lists, entries.mapM Exclusion.read = .ok lists ∧ lists.flatten.map toPattern = patterns := by
  unfold Exclusion.ofEntries at h
  cases hread : entries.mapM Exclusion.read with
  | error e => simp [hread, bind, Except.bind] at h
  | ok lists =>
    refine ⟨lists, rfl, ?_⟩
    simp only [hread, bind, Except.bind] at h
    split at h
    · cases h
    · exact Except.ok.inj h

lemma Trimmed.unique {entry : String} {p p' : List Char} (h : Trimmed entry p)
    (h' : Trimmed entry p') : p = p' :=
  (trimmed_iff.mp h).symm.trans (trimmed_iff.mp h')

lemma exists_reads (h : Exclusion.ofEntries entries = .ok patterns) {entry : String}
    (hentry : entry ∈ entries) {p : List Char} (htrim : Trimmed entry p) (hne : p ≠ []) :
    ∃ items below, Reads p items below ∧ Exclusion.read entry = .ok [items, below] := by
  obtain ⟨lists, hlists, -⟩ := ofEntries_eq_ok h
  obtain ⟨globs, hglobs⟩ := (mapM_eq_ok hlists).1 entry hentry
  obtain ⟨p', htrim', hread⟩ := read_eq_ok hglobs
  obtain rfl := htrim.unique htrim'
  rcases hread with ⟨hempty, -⟩ | ⟨-, items, below, hreads, rfl⟩
  · exact absurd hempty hne
  · exact ⟨items, below, hreads, hglobs⟩

/-- The patterns of exclusions are those of their two readings; an empty exclusion has none. -/
lemma mem_ofEntries (h : Exclusion.ofEntries entries = .ok patterns) (pattern : Pattern) :
    pattern ∈ patterns ↔ ∃ entry ∈ entries, ∃ p, Trimmed entry p ∧ p ≠ [] ∧
      ∃ items below, Reads p items below ∧
        (pattern = toPattern items ∨ pattern = toPattern below) := by
  obtain ⟨lists, hlists, rfl⟩ := ofEntries_eq_ok h
  simp only [List.mem_map, List.mem_flatten, (mapM_eq_ok hlists).2]
  constructor
  · rintro ⟨glob, ⟨globs, ⟨entry, hentry, hglobs⟩, hglob⟩, rfl⟩
    obtain ⟨p, htrim, ⟨-, rfl⟩ | ⟨hne, items, below, hreads, rfl⟩⟩ := read_eq_ok hglobs
    · cases hglob
    · refine ⟨entry, hentry, p, htrim, hne, items, below, hreads, ?_⟩
      simp only [List.mem_cons, List.not_mem_nil, or_false] at hglob
      exact hglob.imp (congrArg toPattern) (congrArg toPattern)
  · rintro ⟨entry, hentry, p, htrim, hne, items, below, hreads, hpattern⟩
    obtain ⟨items', below', hreads', hglobs⟩ := exists_reads h hentry htrim hne
    obtain rfl := Except.ok.inj (hreads.own.symm.trans hreads'.own)
    obtain rfl := Except.ok.inj (hreads.below.symm.trans hreads'.below)
    rcases hpattern with rfl | rfl
    · exact ⟨items, ⟨_, ⟨entry, hentry, hglobs⟩, by simp⟩, rfl⟩
    · exact ⟨below, ⟨_, ⟨entry, hentry, hglobs⟩, by simp⟩, rfl⟩

/-! ### Exclusions that are plain paths -/

/-- Whether a pattern has no character with a meaning of its own outside a class or a choice. -/
def Plain (pattern : List Char) : Prop :=
  ∀ c ∈ pattern, c ∉ ['*', '?', '[', '{', '}', '\\']

instance (pattern : List Char) : Decidable (Plain pattern) :=
  List.decidableBAll _ pattern

lemma step_of_plain {reversed : List Item} {last : Option Char}
    (hc : c ∉ ['*', '?', '[', '{', '}', '\\']) :
    (State.mk .plain reversed [] last).step c = .ok ⟨.plain, .literal c :: reversed, [], some c⟩ := by
  rw [State.step]
  dsimp only
  unfold State.plain
  dsimp only
  split <;> first | rfl | simp at hc

lemma run_of_plain {pattern : List Char} (h : Plain pattern) (reversed : List Item)
    (last : Option Char) :
    ∃ last', (State.mk .plain reversed [] last).run pattern =
      .ok ⟨.plain, (pattern.map Item.literal).reverse ++ reversed, [], last'⟩ := by
  induction pattern generalizing reversed last with
  | nil => exact ⟨last, rfl⟩
  | cons c pattern ih =>
    obtain ⟨last', hrest⟩ := ih (fun x hx => h x (List.mem_cons_of_mem c hx))
      (.literal c :: reversed) (some c)
    refine ⟨last', ?_⟩
    rw [State.run, step_of_plain (h c List.mem_cons_self)]
    simpa [bind, Except.bind] using hrest

lemma parse_of_plain {pattern : List Char} (h : Plain pattern) :
    parse pattern = .ok (pattern.map Item.literal) := by
  obtain ⟨last, hrun⟩ := run_of_plain h [] none
  refine parse_eq_ok_iff.mpr ⟨_, hrun, ?_⟩
  simp [State.finish, State.inGroup]

lemma encode_append (p r : List Char) :
    Charset.Utf8.encode (p ++ r) = Charset.Utf8.encode p ++ Charset.Utf8.encode r :=
  List.flatMap_append

lemma encode_slash_cons (r : List Char) :
    Charset.Utf8.encode ('/' :: r) = 0x2F :: Charset.Utf8.encode r :=
  rfl

lemma eq_append_of_encode {p r : List Char} {rest : List UInt8}
    (h : Charset.Utf8.encode r = Charset.Utf8.encode p ++ rest) :
    ∃ r', r = p ++ r' ∧ Charset.Utf8.encode r' = rest := by
  induction p generalizing r with
  | nil => exact ⟨r, rfl, h⟩
  | cons c p ih =>
    have hp : Charset.Utf8.encode (c :: p) = String.utf8EncodeChar c ++ Charset.Utf8.encode p := rfl
    rw [hp, List.append_assoc] at h
    cases r with
    | nil => exact absurd (List.append_eq_nil_iff.mp h.symm).1 String.utf8EncodeChar_ne_nil
    | cons d r =>
      have hr : Charset.Utf8.encode (d :: r) = String.utf8EncodeChar d ++ Charset.Utf8.encode r := rfl
      rw [hr] at h
      have hnext := congrArg Charset.Utf8.next? h
      rw [next_encodeChar_append, next_encodeChar_append, Option.some.injEq] at hnext
      subst hnext
      obtain ⟨r', rfl, hrest⟩ := ih (List.append_cancel_left h)
      exact ⟨r', rfl, hrest⟩

lemma encode_injective {p r : List Char} (h : Charset.Utf8.encode r = Charset.Utf8.encode p) :
    r = p := by
  have hr := decodeFrom_encode r 0
  rw [h, decodeFrom_encode] at hr
  exact (Except.ok.inj hr).symm

lemma matches_literals {pattern : List Char} {bytes : List UInt8} :
    Matches (.sequence ((pattern.map Item.literal).map Item.toPattern)) bytes ↔
      bytes = Charset.Utf8.encode pattern := by
  induction pattern generalizing bytes with
  | nil => rfl
  | cons c pattern ih =>
    constructor
    · rintro ⟨u, v, rfl, hu, hv⟩
      rw [matches_literal.mp hu, ih.mp hv]
      rfl
    · rintro rfl
      exact ⟨_, _, rfl, matches_literal.mpr rfl, ih.mpr rfl⟩

lemma toPattern_literals (pattern : List Char) :
    toPattern (pattern.map Item.literal) =
      .sequence ((pattern.map Item.literal).map Item.toPattern) := by
  rw [toPattern, if_neg]
  intro hlead
  have hmem : Item.leading ∈ pattern.map Item.literal := by simp [hlead]
  simp at hmem

lemma Extended.of_literals {pattern : List Char} (h : Extended (pattern.map Item.literal) below) :
    below = pattern.map Item.literal ++ [.trailing] := by
  generalize hitems : pattern.map Item.literal = items at h
  cases h with
  | appended hlead => rfl
  | everything =>
    have hmem : Item.leading ∈ pattern.map Item.literal := by simp [hitems]
    simp at hmem
  | trailing =>
    have hmem : Item.trailing ∈ pattern.map Item.literal := by simp [hitems]
    simp at hmem

lemma matches_below_literals {pattern r : List Char} :
    Matches (toPattern (pattern.map Item.literal ++ [.trailing])) (Charset.Utf8.encode r) ↔
      pattern ++ ['/'] <+: r := by
  rw [matches_concat_trailing]
  simp only [matches_literals]
  constructor
  · rintro ⟨u, rest, hr, rfl⟩
    have hslash : Charset.Utf8.encode r = Charset.Utf8.encode (pattern ++ ['/']) ++ rest := by
      rw [hr, encode_append, List.append_assoc]
      rfl
    obtain ⟨r', rfl, -⟩ := eq_append_of_encode hslash
    exact List.prefix_append _ _
  · rintro ⟨r', rfl⟩
    refine ⟨_, Charset.Utf8.encode r', ?_, rfl⟩
    rw [encode_append, encode_append, List.append_assoc]
    rfl

/-- Whether a path, in the form in which paths are matched, is excluded. -/
def Excludes (patterns : List Pattern) (r : List Char) : Prop :=
  ∃ pattern ∈ patterns, pattern.matchesAll (Charset.Utf8.encode r) = true

instance (patterns : List Pattern) (r : List Char) : Decidable (Excludes patterns r) :=
  inferInstanceAs (Decidable (∃ pattern ∈ patterns, _))

lemma covers_iff {path : List Char} : Exclusion.covers patterns path = true ↔
    Excludes patterns (path.map fun c => if c = '\\' then '/' else c) := by
  simp [Exclusion.covers, Excludes, Path.withSlashes]

lemma excludes_below {d : List Char}
    (hread : Exclusion.ofEntries entries = .ok patterns) (h : Excludes patterns d) (x : List Char) :
    Excludes patterns (d ++ '/' :: x) := by
  obtain ⟨pattern, hmem, hmatch⟩ := h
  obtain ⟨entry, hentry, p, htrim, hne, items, below, hreads, hpattern⟩ :=
    (mem_ofEntries hread pattern).mp hmem
  rw [matchesAll_iff] at hmatch
  have hsome : Matches (toPattern items) (Charset.Utf8.encode d) ∨
      Matches (toPattern below) (Charset.Utf8.encode d) := by
    rcases hpattern with rfl | rfl
    · exact .inl hmatch
    · exact .inr hmatch
  refine ⟨toPattern below, ?_, ?_⟩
  · exact (mem_ofEntries hread _).mpr
      ⟨entry, hentry, p, htrim, hne, items, below, hreads, .inr rfl⟩
  · rw [matchesAll_iff, encode_append, encode_slash_cons]
    exact (hreads.extended htrim hne).matches_below hsome _

lemma excludes_iff_of_plain (hread : Exclusion.ofEntries entries = .ok patterns)
    (hplain : ∀ entry ∈ entries, ∀ p, Trimmed entry p → Plain p) (r : List Char) :
    Excludes patterns r ↔
      ∃ entry ∈ entries, ∃ p, Trimmed entry p ∧ p ≠ [] ∧ (r = p ∨ p ++ ['/'] <+: r) := by
  have hreading {entry : String} {p : List Char} {items below : List Item}
      (hentry : entry ∈ entries) (htrim : Trimmed entry p) (hne : p ≠ [])
      (hreads : Reads p items below) :
      (Matches (toPattern items) (Charset.Utf8.encode r) ↔ r = p) ∧
        (Matches (toPattern below) (Charset.Utf8.encode r) ↔ p ++ ['/'] <+: r) := by
    have hown := hreads.own
    rw [parse_of_plain (hplain entry hentry p htrim)] at hown
    obtain rfl := Except.ok.inj hown
    rw [(hreads.extended htrim hne).of_literals, matches_below_literals, toPattern_literals,
      matches_literals]
    exact ⟨⟨fun heq => encode_injective heq, fun heq => by rw [heq]⟩, Iff.rfl⟩
  constructor
  · rintro ⟨pattern, hmem, hmatch⟩
    obtain ⟨entry, hentry, p, htrim, hne, items, below, hreads, hpattern⟩ :=
      (mem_ofEntries hread pattern).mp hmem
    obtain ⟨hown, hbelow⟩ := hreading hentry htrim hne hreads
    rw [matchesAll_iff] at hmatch
    refine ⟨entry, hentry, p, htrim, hne, ?_⟩
    rcases hpattern with rfl | rfl
    · exact .inl (hown.mp hmatch)
    · exact .inr (hbelow.mp hmatch)
  · rintro ⟨entry, hentry, p, htrim, hne, hr⟩
    obtain ⟨items, below, hreads, -⟩ := exists_reads hread hentry htrim hne
    obtain ⟨hown, hbelow⟩ := hreading hentry htrim hne hreads
    have hmem (pattern : Pattern) (h : pattern = toPattern items ∨ pattern = toPattern below) :
        pattern ∈ patterns :=
      (mem_ofEntries hread pattern).mpr ⟨entry, hentry, p, htrim, hne, items, below, hreads, h⟩
    rcases hr with hr | hr
    · exact ⟨_, hmem _ (.inl rfl), (matchesAll_iff _ _).mpr (hown.mpr hr)⟩
    · exact ⟨_, hmem _ (.inr rfl), (matchesAll_iff _ _).mpr (hbelow.mpr hr)⟩

/-- An exclusion covers what lies below anything it covers, whatever globs it uses; and exclusions
that are plain paths cover these paths and what lies below them. Paths are matched with each
backslash read as a slash. -/
theorem exclusions_cover_what_lies_below (h : Exclusion.ofEntries entries = .ok patterns) :
    (∀ path, Exclusion.covers patterns path = true ↔
        Excludes patterns (path.map fun c => if c = '\\' then '/' else c)) ∧
      (∀ d x, Excludes patterns d → Excludes patterns (d ++ '/' :: x)) ∧
      ((∀ entry ∈ entries, ∀ p, Trimmed entry p → Plain p) → ∀ r,
        Excludes patterns r ↔
          ∃ entry ∈ entries, ∃ p, Trimmed entry p ∧ p ≠ [] ∧ (r = p ∨ p ++ ['/'] <+: r)) := by
  refine ⟨fun path => covers_iff, ?_, ?_⟩
  · intro d x hd
    exact excludes_below h hd x
  · intro hplain r
    exact excludes_iff_of_plain h hplain r

theorem exclusions_cover_what_lies_below_stars_and_folders :
    (∃ patterns, Exclusion.ofEntries [" /src/** ", "{a,[!x]*/**}", "\\**"] = .ok patterns ∧
      Excludes patterns "lib/x".toList ∧ Excludes patterns ("lib/x".toList ++ '/' :: "y".toList)) ∧
    ∃ patterns, Exclusion.ofEntries ["/vendor/", "\t //docs/api/ ", "/"] = .ok patterns ∧
      (∀ entry ∈ ["/vendor/", "\t //docs/api/ ", "/"], ∀ p, Trimmed entry p → Plain p) ∧
      Trimmed "\t //docs/api/ " "docs/api".toList ∧
      Excludes patterns "docs/api".toList ∧ Excludes patterns "docs/api/v1/a.php".toList ∧
      Exclusion.covers patterns "docs\\api\\a.php".toList = true ∧
      ¬Excludes patterns "docs/apis".toList := by
  have hwithin : (match Exclusion.ofEntries [" /src/** ", "{a,[!x]*/**}", "\\**"] with
      | .ok patterns => decide (Excludes patterns "lib/x".toList)
      | .error _ => false) = true := by decide +kernel
  refine ⟨?_, ?_⟩
  · split at hwithin
    · rename_i patterns hpatterns
      have hfront := of_decide_eq_true hwithin
      exact ⟨patterns, hpatterns, hfront,
        (exclusions_cover_what_lies_below hpatterns).2.1 _ _ hfront⟩
    · cases hwithin
  · obtain ⟨patterns, hpatterns⟩ : ∃ patterns,
        Exclusion.ofEntries ["/vendor/", "\t //docs/api/ ", "/"] = .ok patterns := ⟨_, rfl⟩
    have hplain :
        ∀ entry ∈ ["/vendor/", "\t //docs/api/ ", "/"], ∀ p, Trimmed entry p → Plain p := by
      simp only [trimmed_iff, forall_eq']
      decide
    have htrim : Trimmed "\t //docs/api/ " "docs/api".toList := by decide
    obtain ⟨hcovers, -, hexact⟩ := exclusions_cover_what_lies_below hpatterns
    have hiff := hexact hplain
    have hbelow {r : List Char} (hr : r = "docs/api".toList ∨ "docs/api".toList ++ ['/'] <+: r) :
        Excludes patterns r :=
      (hiff r).mpr ⟨_, by decide, _, htrim, by decide, hr⟩
    refine ⟨patterns, hpatterns, hplain, htrim, hbelow (.inl rfl), hbelow (.inr (by decide)),
      (hcovers _).mpr (hbelow (.inr (by decide))), ?_⟩
    rw [hiff]
    simp only [trimmed_iff, exists_eq_left']
    decide

end PhpSlim.Proofs
