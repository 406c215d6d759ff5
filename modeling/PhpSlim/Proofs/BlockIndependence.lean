import PhpSlim.Proofs.ProtectedText

/-!
# Blocks of PHP are independent

A text that ends outside PHP with `>` can be cut off: reading, compacting and removing comments do
not carry anything over this end, and do not look over it. Hence a run of stages on a text in two
such parts is the two runs one after the other.
-/

namespace PhpSlim.Proofs
open PhpSlim.Text PhpSlim.Blanks PhpSlim.Comments

/-- The reading behind a whole text. -/
def readThrough (s : Scan) : List Char → Scan
  | [] => s
  | c :: rest => readThrough (s.step c rest) rest

lemma getLast_label (s : Scan) (front : List Char) (c : Char) :
    (s.label (front ++ [c])).getLast? = some (c, (readThrough s (front ++ [c])).region) := by
  induction front generalizing s with
  | nil => rfl
  | cons d front ih =>
    rw [List.cons_append, Scan.label, List.getLast?_cons, ih]
    rfl

/-- A text that ends outside PHP with `>`. -/
def Shut (text : List Char) : Prop :=
  (label text).getLast? = some ('>', .outside)

lemma Shut.eq_append {text : List Char} (h : Shut text) :
    ∃ front, text = front ++ ['>'] ∧ (readThrough {} (front ++ ['>'])).region = .outside := by
  have hlast : text.getLast? = some '>' := by
    have hmap := congrArg (Option.map Prod.fst) h
    rwa [← List.getLast?_map, label, label_map_fst] at hmap
  obtain ⟨front, rfl⟩ := List.getLast?_eq_some_iff.mp hlast
  have hregion : some ('>', (readThrough {} (front ++ ['>'])).region) = some ('>', Region.outside) :=
    (getLast_label {} front '>').symm.trans h
  refine ⟨front, rfl, ?_⟩
  simpa using hregion

lemma shut_of_finalRegion {text : List Char} (hlast : text.getLast? = some '>')
    (hend : finalRegion text = .outside) : Shut text := by
  obtain ⟨front, rfl⟩ := List.getLast?_eq_some_iff.mp hlast
  have h : (label (front ++ ['>'])).getLast? = _ := getLast_label {} front '>'
  unfold finalRegion at hend
  rw [h] at hend
  rw [Shut, h, show (readThrough {} (front ++ ['>'])).region = .outside from hend]

/-- Two readings that read every text alike: outside PHP only a remembered `<` counts, and whether a
backslash is open counts only in strings. -/
def Alike (s s' : Scan) : Prop :=
  s'.region = s.region ∧
    (s'.prev = s.prev ∨ (s.region = .outside ∧ s.prev ≠ some '<' ∧ s'.prev ≠ some '<')) ∧
    (s.region = .singleQuoted ∨ s.region = .doubleQuoted → s'.escaped = s.escaped)

lemma Alike.step {s s' : Scan} (h : Alike s s') (c : Char) (after : List Char) :
    Alike (s.step c after) (s'.step c after) := by
  obtain ⟨region, prev, escaped, spent⟩ := s
  obtain ⟨region', prev', escaped', spent'⟩ := s'
  obtain ⟨rfl, hp, he⟩ := h
  dsimp only at hp he
  cases region' with
  | outside =>
    have hlt : (prev' == some '<') = (prev == some '<') := by
      rcases hp with rfl | ⟨-, hp, hp'⟩
      · rfl
      · rw [beq_eq_false_iff_ne.mpr hp, beq_eq_false_iff_ne.mpr hp']
    simp only [Scan.step, Scan.classify, hlt]
    split_ifs <;> simp [Alike, Scan.advance]
  | code =>
    obtain rfl : prev' = prev := by simpa using hp
    simp only [Scan.step, Scan.classify, Scan.readCode]
    split_ifs <;> simp [Alike, Scan.advance]
  | lineComment =>
    obtain rfl : prev' = prev := by simpa using hp
    simp only [Scan.step, Scan.classify]
    split_ifs <;> simp [Alike, Scan.advance]
  | blockComment =>
    obtain rfl : prev' = prev := by simpa using hp
    simp only [Scan.step, Scan.classify]
    split_ifs <;> simp [Alike, Scan.advance]
  | singleQuoted =>
    obtain rfl : prev' = prev := by simpa using hp
    obtain rfl : escaped' = escaped := he (.inl rfl)
    exact ⟨rfl, .inl rfl, fun _ => rfl⟩
  | doubleQuoted =>
    obtain rfl : prev' = prev := by simpa using hp
    obtain rfl : escaped' = escaped := he (.inr rfl)
    exact ⟨rfl, .inl rfl, fun _ => rfl⟩

lemma Alike.label_eq {s s' : Scan} (h : Alike s s') (text : List Char) :
    s'.label text = s.label text := by
  induction text generalizing s s' with
  | nil => rfl
  | cons c rest ih =>
    have hstep := h.step c rest
    rw [Scan.label, Scan.label, ih hstep, hstep.1]

lemma prefix_append_iff {w front : List Char} (hw : '>' ∉ w) (rest : List Char) :
    w <+: front ++ '>' :: rest ↔ w <+: front ++ ['>'] := by
  constructor
  · intro h
    have hfront : front ++ ['>'] <+: front ++ '>' :: rest := by simp
    rcases List.prefix_or_prefix_of_prefix h hfront with h | h
    · exact h
    · exact absurd (h.subset (by simp)) hw
  · intro h
    exact h.trans (by simp)

lemma step_append (s : Scan) (c : Char) (front rest : List Char) :
    s.step c (front ++ '>' :: rest) = s.step c (front ++ ['>']) := by
  refine step_congr rfl rfl (.inl rfl) ?_ ?_
  · intro _ _
    cases front <;> simp
  · intro _ _
    exact prefix_append_iff (by decide) rest

lemma label_append {s : Scan} {front : List Char}
    (h : (readThrough s (front ++ ['>'])).region = .outside) (rest : List Char) :
    s.label (front ++ '>' :: rest) = s.label (front ++ ['>']) ++ label rest := by
  induction front generalizing s with
  | nil =>
    have hstep : s.step '>' rest = s.step '>' [] := step_congr rfl rfl (.inl rfl) (by simp) (by simp)
    have hr : (s.step '>' []).region = .outside := h
    have hp : (s.step '>' []).prev = some '>' := by
      have ht := turn_step s '>' []
      generalize s.step '>' [] = s₁ at ht hr
      cases ht <;> simp_all
    have halike : Alike {} (s.step '>' []) := by
      refine ⟨hr, .inr ⟨rfl, by simp, by simp [hp]⟩, ?_⟩
      rintro (h | h) <;> cases h
    rw [List.nil_append, List.nil_append, Scan.label, hstep, halike.label_eq]
    rfl
  | cons c front ih =>
    have hrest : (readThrough (s.step c (front ++ ['>'])) (front ++ ['>'])).region = .outside := h
    rw [List.cons_append, List.cons_append, Scan.label, Scan.label, step_append, ih hrest]
    rfl

lemma Shut.label_append {text : List Char} (h : Shut text) (rest : List Char) :
    label (text ++ rest) = label text ++ label rest := by
  obtain ⟨front, rfl, hr⟩ := h.eq_append
  rw [List.append_assoc]
  exact Proofs.label_append hr rest

lemma step_outside (p : Place) (c : Char) :
    p.step c .outside = (p.gap c ++ [c], .copied) := by
  cases p <;> rfl

lemma squeeze_append (p : Place) (l l' : List (Char × Region)) (c : Char) :
    squeeze p (l ++ (c, .outside) :: l') = squeeze p (l ++ [(c, .outside)]) ++ squeeze .copied l' := by
  induction l generalizing p with
  | nil => simp [squeeze, step_outside, Place.finish]
  | cons x l ih =>
    rw [List.cons_append, List.cons_append, squeeze, squeeze, ih, List.append_assoc]

lemma getLast_squeezeLabelled (p : Place) (l : List (Char × Region)) (c : Char) :
    (squeezeLabelled p (l ++ [(c, .outside)])).getLast? = some (c, .outside) := by
  induction l generalizing p with
  | nil => simp [squeezeLabelled, step_outside, Place.finish]
  | cons x l ih =>
    rw [List.cons_append, squeezeLabelled, List.getLast?_append, ih]
    rfl

lemma Shut.compact_append {text : List Char} (h : Shut text) (rest : List Char) :
    compact (text ++ rest) = compact text ++ compact rest := by
  obtain ⟨l, hl⟩ := List.getLast?_eq_some_iff.mp h
  rw [compact, h.label_append, hl, List.append_assoc, List.singleton_append, squeeze_append, ← hl]
  rfl

lemma Shut.compact {text : List Char} (h : Shut text) : Shut (compact text) := by
  obtain ⟨l, hl⟩ := List.getLast?_eq_some_iff.mp h
  rw [Shut, label_compact, hl]
  exact getLast_squeezeLabelled _ l '>'

lemma erase_outside {st : State} (h : st.region = .outside) (text : List Char) :
    erase st (label text) = strip text := by
  cases text with
  | nil => rfl
  | cons c rest =>
    have hw (st' : State) (h' : st'.region = .outside) (r : Region) (next : Option Char) :
        written st' c r next = some c := written_copy (.inl (by rw [h']; rfl))
    have hst (r : Region) (next : Option Char) : st.step c r next = State.step {} c r next := by
      simp only [State.step, hw st h, hw {} rfl, h]
      rfl
    simp only [strip, label, erase_label_cons, hw st h, hw {} rfl, hst]

lemma region_of_leaves {s : Scan} {c : Char} {rest : List Char}
    (h : (s.step c rest).region = .outside) : s.region = .outside ∨ s.region = .code := by
  have ht := turn_step s c rest
  generalize s.step c rest = s₁ at ht h
  cases ht with
  | openQuote _ q hq => rcases hq with ⟨rfl, -⟩ | ⟨rfl, -⟩ <;> cases h
  | _ => simp_all

lemma written_outside {st : State} {s : Scan} {c : Char} {rest : List Char} (hst : st.region = s.region)
    (h : (s.step c rest).region = .outside) (next : Option Char) :
    written st c .outside next = some c := by
  apply written_copy
  rcases region_of_leaves h with hs | hs
  · exact .inl (by rw [hst, hs]; rfl)
  · exact .inr ⟨hst.trans hs, rfl⟩

lemma erase_append {st : State} {s : Scan} {front : List Char} (hst : st.region = s.region)
    (h : (readThrough s (front ++ ['>'])).region = .outside) (rest : List Char) :
    erase st (s.label (front ++ ['>']) ++ label rest) =
      erase st (s.label (front ++ ['>'])) ++ strip rest := by
  induction front generalizing st s with
  | nil =>
    have hr : (s.step '>' []).region = .outside := h
    simp only [List.nil_append, Scan.label, hr, List.singleton_append, erase, written_outside hst hr,
      List.append_nil]
    exact congrArg (_ ++ ·) (erase_outside rfl rest)
  | cons c front ih =>
    have hrest : (readThrough (s.step c (front ++ ['>'])) (front ++ ['>'])).region = .outside := h
    have hhead : ((s.step c (front ++ ['>'])).label (front ++ ['>']) ++ label rest).head? =
        ((s.step c (front ++ ['>'])).label (front ++ ['>'])).head? := by
      cases front <;> rfl
    simp only [List.cons_append, Scan.label, erase, hhead, List.append_assoc]
    exact congrArg (_ ++ ·) (ih rfl hrest)

lemma getLast_eraseLabelled {st : State} {s : Scan} {front : List Char} (hst : st.region = s.region)
    (h : (readThrough s (front ++ ['>'])).region = .outside) :
    (eraseLabelled st (s.label (front ++ ['>']))).getLast? = some ('>', .outside) := by
  induction front generalizing st s with
  | nil =>
    have hr : (s.step '>' []).region = .outside := h
    simp only [List.nil_append, eraseLabelled_label_cons, hr, written_outside hst hr]
    rfl
  | cons c front ih =>
    have hrest : (readThrough (s.step c (front ++ ['>'])) (front ++ ['>'])).region = .outside := h
    rw [List.cons_append, eraseLabelled_label_cons, List.getLast?_append, ih rfl hrest]
    rfl

lemma Shut.strip_append {text : List Char} (h : Shut text) (rest : List Char) :
    strip (text ++ rest) = strip text ++ strip rest := by
  have hl := h.label_append rest
  obtain ⟨front, rfl, hr⟩ := h.eq_append
  rw [strip, hl]
  exact erase_append rfl hr rest

lemma Shut.strip {text : List Char} (h : Shut text) : Shut (strip text) := by
  obtain ⟨front, rfl, hr⟩ := h.eq_append
  rw [Shut, label_strip]
  exact getLast_eraseLabelled rfl hr

lemma Shut.apply {text : List Char} (h : Shut text) (stage : Stage) : Shut (stage.apply text) := by
  cases stage with
  | comments => exact h.strip
  | spaces => exact h.compact

lemma Shut.apply_append {text : List Char} (h : Shut text) (stage : Stage) (rest : List Char) :
    stage.apply (text ++ rest) = stage.apply text ++ stage.apply rest := by
  cases stage with
  | comments => exact h.strip_append rest
  | spaces => exact h.compact_append rest

lemma Shut.run_append {text : List Char} (h : Shut text) (stages : List Stage) (rest : List Char) :
    Stage.run stages (text ++ rest) = Stage.run stages text ++ Stage.run stages rest := by
  induction stages generalizing text rest with
  | nil => rfl
  | cons stage stages ih =>
    rw [run_cons, run_cons, run_cons, h.apply_append]
    exact ih (h.apply stage) (stage.apply rest)

/-- Blocks of PHP are processed independently: behind a text that ends outside PHP with `>`, any
other text comes out of a run of stages as it does on its own, and so does the text before it. -/
theorem run_of_blocks (stages : List Stage) (text rest : List Char)
    (hlast : text.getLast? = some '>') (hend : finalRegion text = .outside) :
    Stage.run stages (text ++ rest) = Stage.run stages text ++ Stage.run stages rest :=
  (shut_of_finalRegion hlast hend).run_append stages rest

theorem run_of_blocks_around_markup :
    let text := "<?php echo 'a' . 1 /* b */ ?>\n<b>".toList
    let rest := "php\n[<?php  $c  = 2 ; // d".toList
    text.getLast? = some '>' ∧ finalRegion text = .outside ∧
      Stage.run [.spaces, .comments] (text ++ rest) =
        Stage.run [.spaces, .comments] text ++ Stage.run [.spaces, .comments] rest :=
  ⟨by decide, by decide, run_of_blocks [.spaces, .comments] _ _ (by decide) (by decide)⟩

end PhpSlim.Proofs
