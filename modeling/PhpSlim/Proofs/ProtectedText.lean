import PhpSlim.Stage
import PhpSlim.Proofs.BlankRescan
import PhpSlim.Proofs.CommentRescan

/-!
# Lines and protected text under runs of stages

The frame of a labelled text keeps its protected characters and the ends of its lines. Every stage
leaves the frame of a text as it is, however the stages are ordered or repeated, and once comments
are removed no later stage brings one back.
-/

namespace PhpSlim.Proofs
open PhpSlim.Text

/-- The part of a labelled text on line `k`; a line break belongs to the line that it ends. -/
def line : Nat → List (Char × Region) → List (Char × Region)
  | _, [] => []
  | 0, x :: rest => if x.1 = '\n' then [x] else x :: line 0 rest
  | k + 1, x :: rest => if x.1 = '\n' then line k rest else line (k + 1) rest

/-- What a character contributes to the frame; where a line ends in code or a comment, only that it
ends there counts. -/
def frameOf (x : Char × Region) : Option (Char × Region) :=
  if isProtected x.2 then some x else if x.1 = '\n' then some (x.1, .code) else none

def frame (l : List (Char × Region)) : List (Char × Region) :=
  l.filterMap frameOf

@[simp] lemma frame_nil : frame [] = [] := rfl

lemma frame_cons (x : Char × Region) (l : List (Char × Region)) :
    frame (x :: l) = (frameOf x).toList ++ frame l := by
  unfold frame
  cases h : frameOf x <;> simp [h]

lemma frame_append (l l' : List (Char × Region)) : frame (l ++ l') = frame l ++ frame l' :=
  List.filterMap_append

lemma frameOf_eq_none {x : Char × Region} (hp : isProtected x.2 = false) (hn : x.1 ≠ '\n') :
    frameOf x = none := by
  simp [frameOf, hp, hn]

lemma frameOf_of_settled {r : Region} (h : settled r = .code) (c : Char) :
    frameOf (c, r) = if c = '\n' then some (c, .code) else none := by
  simp [frameOf, isProtected_of_settled h]

lemma line_filter_frame (k : Nat) (l : List (Char × Region)) :
    (line k l).filter (isProtected ·.2) = (line k (frame l)).filter (isProtected ·.2) := by
  induction l generalizing k with
  | nil => rfl
  | cons x l ih =>
    rw [frame_cons]
    by_cases hp : isProtected x.2 = true
    · have hf : frameOf x = some x := by simp [frameOf, hp]
      rw [hf]
      cases k <;> by_cases hn : x.1 = '\n' <;> simp [line, hn, hp, ih]
    · by_cases hn : x.1 = '\n'
      · have hf : frameOf x = some ('\n', .code) := by simp [frameOf, hp, hn]
        rw [hf]
        have hc : isProtected .code = false := rfl
        cases k <;> simp [line, hn, hp, ih, hc]
      · rw [frameOf_eq_none (by simpa using hp) hn]
        cases k <;> simp [line, hn, hp, ih]

lemma count_frame (l : List (Char × Region)) :
    (l.map Prod.fst).count '\n' = ((frame l).map Prod.fst).count '\n' := by
  induction l with
  | nil => rfl
  | cons x l ih =>
    rw [frame_cons, List.map_append, List.count_append, List.map_cons, List.count_cons, ih]
    by_cases hn : x.1 = '\n'
    · by_cases hp : isProtected x.2 = true <;> simp [frameOf, hn, hp, Nat.add_comm]
    · by_cases hp : isProtected x.2 = true <;> simp [frameOf, hn, hp]

lemma label_map_fst (s : Scan) (text : List Char) : (s.label text).map Prod.fst = text := by
  induction text generalizing s with
  | nil => rfl
  | cons c rest ih => rw [Scan.label, List.map_cons, ih]

lemma frame_filter (l : List (Char × Region)) : frame (l.filter (!isCodeBlank ·)) = frame l := by
  unfold frame
  rw [List.filterMap_filter]
  congr 1
  funext x
  by_cases hb : isCodeBlank x = true
  · have hx : isBlank x.1 = true ∧ x.2 = .code := by simpa [isCodeBlank] using hb
    have hn : x.1 ≠ '\n' := by
      intro hn
      simp [hn, isBlank] at hx
    rw [frameOf_eq_none (by simp [hx.2, isProtected]) hn]
    simp
  · simp [hb]

lemma frame_compact (text : List Char) : frame (label (Blanks.compact text)) = frame (label text) := by
  have h : HoldsBlanks .copied := trivial
  rw [← frame_filter, label_compact, filter_squeezeLabelled h, frame_filter]

lemma frame_edit {st : Comments.State} {s s₁ : Scan} {c : Char} {next w : Option Char}
    (h : Edit st s s₁ c next w) :
    frame (w.toList.map (·, settled s₁.region)) = (frameOf (c, s₁.region)).toList := by
  cases h with
  | copy hs h₁ hprev hj ho => simp [settled_of_not_isComment h₁, frame_cons]
  | slash hs h₁ hprev hc ho =>
    rw [frameOf_of_settled (by rw [h₁]; rfl), if_neg (by simp [hc])]
    rfl
  | enter hs h₁ hc =>
    have hn : c ≠ '\n' := by
      rintro rfl
      simp [Comments.opens] at hc
    rw [frameOf_of_settled (settled_of_isComment h₁), if_neg hn]
    rfl
  | lineBreak hs hc h₁ =>
    have hcode := settled_of_lineBreak hs h₁
    have hset : settled (settled s₁.region) = .code := by
      rw [hcode]
      rfl
    rw [Option.toList_some, List.map_singleton, frame_cons, frame_nil, List.append_nil,
      frameOf_of_settled hset, frameOf_of_settled hcode]
  | body hs h₁ hc =>
    have hn : c ≠ '\n' := by
      rintro rfl
      simp [Comments.breaksLine] at hc
    rw [frameOf_of_settled (settled_of_isComment (h₁ ▸ hs)), if_neg hn]
    rfl
  | close hs h₁ hc =>
    have hcode : settled s₁.region = .code := by
      rw [h₁]
      rfl
    have hn : c ≠ '\n' := by
      rintro rfl
      simp at hc
    rw [hcode, frameOf_of_settled hcode, if_neg hn]
    split_ifs <;> rfl

lemma frame_eraseLabelled {st : Comments.State} {s : Scan} {rest : List Char}
    (h : Tracks st s rest.head?) : frame (eraseLabelled st (s.label rest)) = frame (s.label rest) := by
  induction rest generalizing st s with
  | nil => rfl
  | cons c rest ih =>
    obtain ⟨st₁, w, hnext, hedit, -, -, hlabelled⟩ := erase_step h rest
    rw [hlabelled, Scan.label, frame_append, frame_edit hedit, ih hnext, frame_cons]

lemma frame_apply (stage : Stage) (text : List Char) :
    frame (label (stage.apply text)) = frame (label text) := by
  cases stage with
  | comments =>
    have h : Tracks {} {} text.head? := ⟨rfl, rfl⟩
    exact (congrArg frame (label_strip text)).trans (frame_eraseLabelled h)
  | spaces => exact frame_compact text

lemma CommentFree.compact {text : List Char} (h : CommentFree text) :
    CommentFree (Blanks.compact text) := by
  intro x hx
  by_cases hb : isCodeBlank x = true
  · have hcode : isBlank x.1 = true ∧ x.2 = .code := by simpa [isCodeBlank] using hb
    rw [hcode.2]
    rfl
  · have hp : HoldsBlanks .copied := trivial
    have hmem : x ∈ (label (Blanks.compact text)).filter (!isCodeBlank ·) := by
      simpa [List.mem_filter, hb] using hx
    rw [label_compact, filter_squeezeLabelled hp] at hmem
    exact h x (List.mem_filter.mp hmem).1

lemma CommentFree.apply {text : List Char} (h : CommentFree text) (stage : Stage) :
    CommentFree (stage.apply text) := by
  cases stage with
  | comments => exact commentFree_strip text
  | spaces => exact h.compact

lemma run_cons (stage : Stage) (stages : List Stage) (text : List Char) :
    Stage.run (stage :: stages) text = Stage.run stages (stage.apply text) := rfl

/-- What every stage does to a text, a run of stages does too. -/
theorem run_induction {R : List Char → List Char → Prop} (refl : ∀ text, R text text)
    (trans : ∀ {a b c}, R a b → R b c → R a c) (apply : ∀ (stage : Stage) text, R text (stage.apply text))
    (stages : List Stage) (text : List Char) : R text (Stage.run stages text) := by
  induction stages generalizing text with
  | nil => exact refl text
  | cons stage stages ih =>
    rw [run_cons]
    exact trans (apply stage text) (ih (stage.apply text))

lemma frame_run (stages : List Stage) (text : List Char) :
    frame (label (Stage.run stages text)) = frame (label text) := by
  apply run_induction (R := fun a b => frame (label b) = frame (label a))
  · exact fun _ => rfl
  · exact fun h h' => h'.trans h
  · exact frame_apply

lemma commentFree_run {stages : List Stage} {text : List Char}
    (h : CommentFree text ∨ Stage.comments ∈ stages) : CommentFree (Stage.run stages text) := by
  induction stages generalizing text with
  | nil => simpa [Stage.run] using h
  | cons stage stages ih =>
    rw [run_cons]
    rcases h with h | h
    · exact ih (.inl (h.apply stage))
    · rcases List.mem_cons.mp h with rfl | h
      · exact ih (.inl (commentFree_strip text))
      · exact ih (.inr h)

/-- Whatever stages run, in whatever order and however often: the text keeps its number of lines, and
every line keeps its text outside PHP and in strings, read as before. Once comments are removed, no
later stage brings one back. -/
theorem run_keeps_lines_and_protected_text (stages : List Stage) (text : List Char) :
    (Stage.run stages text).count '\n' = text.count '\n' ∧
      (∀ k, (line k (label (Stage.run stages text))).filter (isProtected ·.2) =
        (line k (label text)).filter (isProtected ·.2)) ∧
      (Stage.comments ∈ stages →
        ∀ x ∈ label (Stage.run stages text), x.2 ≠ .lineComment ∧ x.2 ≠ .blockComment) := by
  have hframe := frame_run stages text
  refine ⟨?_, ?_, ?_⟩
  · have hcount (t : List Char) : t.count '\n' = ((frame (label t)).map Prod.fst).count '\n' := by
      rw [← count_frame, label, label_map_fst]
    rw [hcount, hframe, ← hcount]
  · intro k
    rw [line_filter_frame, hframe, ← line_filter_frame]
  · intro h x hx
    have hx := commentFree_run (.inr h) x hx
    simpa [isComment] using hx

theorem run_keeps_lines_and_protected_text_around_comments :
    Stage.comments ∈ [Stage.spaces, .comments, .spaces] ∧
      ∀ x ∈ label (Stage.run [.spaces, .comments, .spaces] "a<?php /* b\n*/ 'c' . 1;//".toList),
        x.2 ≠ .lineComment ∧ x.2 ≠ .blockComment :=
  ⟨by decide, (run_keeps_lines_and_protected_text [.spaces, .comments, .spaces]
    "a<?php /* b\n*/ 'c' . 1;//".toList).2.2 (by decide)⟩

end PhpSlim.Proofs
