import PhpSlim.Proofs.CharsetReencoding

/-!
# Where reading and writing fail

The offset of a decoding error is the length of the longest part at the front that can be read, and
an encoding error names the first character that the charset cannot write. There are no other errors,
and none without cause.
-/

namespace PhpSlim.Proofs
open PhpSlim.Charset

/-- The first `k` bytes can be read and no longer part can; in UTF-16 only whole units count. -/
structure LongestReadable (cs : Charset) (bytes : List UInt8) (k : Nat) : Prop where
  lt : k < bytes.length
  readable : ∃ text, cs.decode (bytes.take k) = .ok text
  longest : ∀ n, k < n → n ≤ bytes.length → (cs = .utf16 → n % 2 = 0) →
    ∀ text, cs.decode (bytes.take n) ≠ .ok text

lemma eq_error_of_bind_eq_error {ε α : Type} {x : Except ε (List α)} {a : α} {e : ε}
    (h : (do let rest ← x; return a :: rest) = .error e) : x = .error e := by
  cases x with
  | error e' => exact h
  | ok rest => cases h

lemma decodeFrom_encode_append (good : List Char) (offset : Nat) (rest : List UInt8) :
    Utf8.decodeFrom offset (Utf8.encode good ++ rest) = (do
      let text ← Utf8.decodeFrom (offset + (Utf8.encode good).length) rest
      return good ++ text) := by
  induction good generalizing offset with
  | nil =>
    rw [Utf8.encode, List.flatMap_nil, List.nil_append, List.length_nil, Nat.add_zero]
    cases Utf8.decodeFrom offset rest <;> rfl
  | cons c good ih =>
    have hcons : Utf8.encode (c :: good) = String.utf8EncodeChar c ++ Utf8.encode good := rfl
    rw [hcons, List.append_assoc, decodeFrom_encodeChar_append, ih, List.length_append,
      String.length_utf8EncodeChar, Nat.add_assoc]
    cases Utf8.decodeFrom (offset + (c.utf8Size + (Utf8.encode good).length)) rest <;> rfl

lemma split_of_decodeFrom_error {offset : Nat} {bytes : List UInt8} {e : Charset.Error}
    (h : Utf8.decodeFrom offset bytes = .error e) :
    ∃ good bad, bytes = Utf8.encode good ++ bad ∧ bad ≠ [] ∧ Utf8.next? bad = none ∧
      e = .invalidUtf8 (offset + (Utf8.encode good).length) := by
  induction offset, bytes using Utf8.decodeFrom.induct with
  | case1 offset => simp [Utf8.decodeFrom] at h
  | case2 offset b rest hnext =>
    rw [Utf8.decodeFrom, hnext] at h
    exact ⟨[], b :: rest, rfl, by simp, hnext, (Except.error.inj h).symm⟩
  | case3 offset b rest c hnext ih =>
    rw [Utf8.decodeFrom, hnext] at h
    obtain ⟨good, bad, hrest, hne, hbad, rfl⟩ := ih (eq_error_of_bind_eq_error h)
    have hcons : Utf8.encode (c :: good) = String.utf8EncodeChar c ++ Utf8.encode good := rfl
    refine ⟨c :: good, bad, ?_, hne, hbad, ?_⟩
    · rw [cons_eq_of_next hnext, hrest, hcons, List.append_assoc]
    · rw [hcons, List.length_append, String.length_utf8EncodeChar, Nat.add_assoc]

lemma next_take {bytes : List UInt8} (h : Utf8.next? bytes = none) (n : Nat) :
    Utf8.next? (bytes.take n) = none := by
  cases hc : Utf8.next? (bytes.take n) with
  | none => rfl
  | some c =>
    have htake := eq_encodeChar_append_of_next hc
    have hbytes : bytes = String.utf8EncodeChar c ++
        ((bytes.take n).drop c.utf8Size ++ bytes.drop n) := by
      rw [← List.append_assoc, ← htake, List.take_append_drop]
    rw [hbytes, next_encodeChar_append] at h
    cases h

lemma decodeFrom_of_next_eq_none {bytes : List UInt8} (hne : bytes ≠ [])
    (h : Utf8.next? bytes = none) (offset : Nat) :
    Utf8.decodeFrom offset bytes = .error (.invalidUtf8 offset) := by
  obtain ⟨b, rest, rfl⟩ := List.exists_cons_of_ne_nil hne
  rw [Utf8.decodeFrom, h]

lemma longestReadable_utf8 {good : List Char} {bad : List UInt8} (hne : bad ≠ [])
    (h : Utf8.next? bad = none) :
    LongestReadable .utf8 (Utf8.encode good ++ bad) (Utf8.encode good).length where
  lt := by
    have hpos := List.length_pos_iff.mpr hne
    rw [List.length_append]
    omega
  readable := ⟨good, by rw [List.take_left]; exact decodeFrom_encode good 0⟩
  longest := by
    intro n hn _ _ text htext
    obtain ⟨m, rfl⟩ := Nat.exists_eq_add_of_lt hn
    rw [Nat.add_assoc, List.take_length_add_append] at htext
    have hbad : bad.take (m + 1) ≠ [] := by simpa using hne
    have hfails := decodeFrom_encode_append good 0 (bad.take (m + 1))
    rw [decodeFrom_of_next_eq_none hbad (next_take h _)] at hfails
    cases hfails.symm.trans htext

/-- Whether units begin with a surrogate that stands without its other half. -/
def Unpaired : List Nat → Prop
  | [] => False
  | u :: rest =>
    Utf16.isLow u = true ∨
      (Utf16.isHigh u = true ∧ ∀ v, rest.head? = some v → Utf16.isLow v = false)

lemma not_isHigh_of_isLow {u : Nat} (h : Utf16.isLow u = true) : Utf16.isHigh u = false := by
  simp only [Utf16.isLow, Utf16.isHigh, Bool.and_eq_true, decide_eq_true_eq, Bool.and_eq_false_iff,
    decide_eq_false_iff_not] at h ⊢
  omega

lemma decodeUnits_of_unpaired {us : List Nat} (h : Unpaired us) (offset : Nat) :
    Utf16.decodeUnits offset us = .error (.unpairedSurrogate offset) := by
  rcases us with _ | ⟨u, _ | ⟨v, rest⟩⟩
  · exact h.elim
  · rcases h with hlow | ⟨hhigh, -⟩
    · simp [Utf16.decodeUnits, hlow]
    · simp [Utf16.decodeUnits, hhigh]
  · rcases h with hlow | ⟨hhigh, hnext⟩
    · simp [Utf16.decodeUnits, hlow, not_isHigh_of_isLow hlow]
    · simp [Utf16.decodeUnits, hhigh, hnext v rfl]

lemma Unpaired.take {us : List Nat} (h : Unpaired us) (n : Nat) : Unpaired (us.take (n + 1)) := by
  cases us with
  | nil => exact h
  | cons u rest =>
    refine h.imp_right fun ⟨hhigh, hnext⟩ => ⟨hhigh, fun v hv => hnext v ?_⟩
    cases n with
    | zero => simp at hv
    | succ n => rwa [List.head?_take, if_neg (Nat.succ_ne_zero n)] at hv

lemma decodeUnits_flatMap_split_append (good : List Char) (offset : Nat) (rest : List Nat) :
    Utf16.decodeUnits offset (good.flatMap Utf16.split ++ rest) = (do
      let text ← Utf16.decodeUnits (offset + 2 * (good.flatMap Utf16.split).length) rest
      return good ++ text) := by
  induction good generalizing offset with
  | nil =>
    rw [List.flatMap_nil, List.nil_append, List.length_nil, Nat.mul_zero, Nat.add_zero]
    cases Utf16.decodeUnits offset rest <;> rfl
  | cons c good ih =>
    rw [List.flatMap_cons, List.append_assoc, decodeUnits_split_append, ih, List.length_append,
      Nat.mul_add, Nat.add_assoc]
    cases Utf16.decodeUnits (offset + (2 * (Utf16.split c).length +
      2 * (good.flatMap Utf16.split).length)) rest <;> rfl

/-- The error points behind a text that was read, at units that begin with an unpaired surrogate. -/
def StuckBehind (offset : Nat) (us : List Nat) (e : Charset.Error) : Prop :=
  ∃ (good : List Char) (bad : List Nat), us = good.flatMap Utf16.split ++ bad ∧ Unpaired bad ∧
    e = .unpairedSurrogate (offset + 2 * (good.flatMap Utf16.split).length)

lemma stuckBehind_of_unpaired {offset : Nat} {us : List Nat} {e : Charset.Error} (hus : Unpaired us)
    (h : Utf16.decodeUnits offset us = .error e) : StuckBehind offset us e := by
  rw [decodeUnits_of_unpaired hus] at h
  exact ⟨[], us, rfl, hus, (Except.error.inj h).symm⟩

lemma StuckBehind.cons {offset : Nat} {c : Char} {rest : List Nat} {e : Charset.Error}
    (h : StuckBehind (offset + 2 * (Utf16.split c).length) rest e) :
    StuckBehind offset (Utf16.split c ++ rest) e := by
  obtain ⟨good, bad, rfl, hbad, rfl⟩ := h
  refine ⟨c :: good, bad, ?_, hbad, ?_⟩
  · rw [List.flatMap_cons, List.append_assoc]
  · rw [List.flatMap_cons, List.length_append, Nat.mul_add, Nat.add_assoc]

lemma stuckBehind_of_decodeUnits {offset : Nat} {us : List Nat} {e : Charset.Error}
    (hus : ∀ u ∈ us, u < 0x10000) (h : Utf16.decodeUnits offset us = .error e) :
    StuckBehind offset us e := by
  induction offset, us using Utf16.decodeUnits.induct with
  | case1 offset => simp [Utf16.decodeUnits] at h
  | case2 offset u hu =>
    refine stuckBehind_of_unpaired ?_ h
    rcases Bool.or_eq_true_iff.mp hu with hhigh | hlow
    · exact .inr ⟨hhigh, by simp⟩
    · exact .inl hlow
  | case3 offset u hu =>
    rw [Utf16.decodeUnits, if_neg hu] at h
    cases h
  | case4 offset u v rest hhigh hlow ih =>
    rw [decodeUnits_pair hhigh hlow] at h
    have hrest : ∀ x ∈ rest, x < 0x10000 := fun x hx => hus x (by simp [hx])
    have hsplit := split_join hhigh hlow
    have hstuck := ih hrest (eq_error_of_bind_eq_error h)
    have hcons : StuckBehind offset (Utf16.split (Utf16.join u v) ++ rest) e :=
      .cons (by rwa [hsplit])
    rwa [hsplit] at hcons
  | case5 offset u v rest hhigh hlow =>
    refine stuckBehind_of_unpaired (.inr ⟨hhigh, ?_⟩) h
    intro w hw
    obtain rfl : v = w := by simpa using hw
    simpa using hlow
  | case6 offset u v rest hhigh hlow => exact stuckBehind_of_unpaired (.inl hlow) h
  | case7 offset u v rest hhigh hlow ih =>
    rw [Bool.not_eq_true] at hhigh hlow
    rw [decodeUnits_cons hhigh hlow] at h
    have hrest : ∀ x ∈ v :: rest, x < 0x10000 := fun x hx => hus x (List.mem_cons_of_mem u hx)
    have hsplit := split_ofNat (hus u List.mem_cons_self) hhigh hlow
    have hstuck := ih hrest (eq_error_of_bind_eq_error h)
    have hcons : StuckBehind offset (Utf16.split (Char.ofNat u) ++ v :: rest) e :=
      .cons (by rwa [hsplit])
    rwa [hsplit] at hcons

lemma units_take (order : Utf16.ByteOrder) (bytes : List UInt8) (n : Nat) :
    Utf16.units order (bytes.take (2 * n)) = (Utf16.units order bytes).take n := by
  induction n generalizing bytes with
  | zero => rfl
  | succ n ih =>
    rcases bytes with _ | ⟨a, _ | ⟨b, rest⟩⟩
    · rfl
    · rfl
    · have htwice : 2 * (n + 1) = 2 * n + 1 + 1 := by omega
      rw [htwice, List.take_succ_cons, List.take_succ_cons, Utf16.units, Utf16.units, ih,
        List.take_succ_cons]

lemma splitMark_take {bytes body : List UInt8} {order : Utf16.ByteOrder} {offset : Nat}
    (h : Utf16.splitMark bytes = (order, offset, body)) (n : Nat) :
    Utf16.splitMark (bytes.take (offset + n)) = (order, offset, body.take n) := by
  rcases splitMark_cases bytes with ⟨rest, rfl, hsplit⟩ | ⟨rest, rfl, hsplit⟩ | ⟨hlittle, hbig, hsplit⟩
  · obtain ⟨rfl, rfl, rfl⟩ : Utf16.ByteOrder.little = order ∧ 2 = offset ∧ rest = body := by
      simpa [hsplit] using h
    rw [Nat.add_comm]
    rfl
  · obtain ⟨rfl, rfl, rfl⟩ : Utf16.ByteOrder.big = order ∧ 2 = offset ∧ rest = body := by
      simpa [hsplit] using h
    rw [Nat.add_comm]
    rfl
  · obtain ⟨rfl, rfl, rfl⟩ : Utf16.ByteOrder.big = order ∧ 0 = offset ∧ bytes = body := by
      simpa [hsplit] using h
    rw [Nat.zero_add]
    have htake := List.take_prefix n bytes
    rcases splitMark_cases (bytes.take n) with ⟨rest, hrest, -⟩ | ⟨rest, hrest, -⟩ | ⟨-, -, heq⟩
    · exact absurd ((hrest ▸ List.prefix_append _ rest).trans htake) hlittle
    · exact absurd ((hrest ▸ List.prefix_append _ rest).trans htake) hbig
    · exact heq

lemma decode_take_utf16 {bytes body : List UInt8} {order : Utf16.ByteOrder} {offset : Nat}
    (hmark : Utf16.splitMark bytes = (order, offset, body)) {n : Nat}
    (hn : offset + 2 * n ≤ bytes.length) :
    decode .utf16 (bytes.take (offset + 2 * n)) =
      Utf16.decodeUnits offset ((Utf16.units order body).take n) := by
  obtain ⟨-, heven⟩ := length_of_splitMark hmark
  have hlength : (bytes.take (offset + 2 * n)).length = offset + 2 * n := by
    rw [List.length_take, Nat.min_eq_left hn]
  have hodd : ((offset + 2 * n) % 2 == 1) = false := by
    rw [beq_eq_false_iff_ne]
    omega
  rw [decode, Utf16.decode, hlength, hodd, splitMark_take hmark]
  dsimp only
  rw [if_neg Bool.false_ne_true, units_take]

lemma longestReadable_utf16 {bytes body : List UInt8} {order : Utf16.ByteOrder} {offset : Nat}
    (hmark : Utf16.splitMark bytes = (order, offset, body)) (heven : bytes.length % 2 = 0)
    {good : List Char} {bad : List Nat}
    (hunits : Utf16.units order body = good.flatMap Utf16.split ++ bad) (hbad : Unpaired bad) :
    LongestReadable .utf16 bytes (offset + 2 * (good.flatMap Utf16.split).length) := by
  obtain ⟨hbytes, hoffset⟩ := length_of_splitMark hmark
  have hlength := congrArg List.length hunits
  rw [length_units, List.length_append] at hlength
  have hpos : 0 < bad.length := by
    cases bad with
    | nil => exact hbad.elim
    | cons u rest => exact Nat.succ_pos _
  refine ⟨by omega, ⟨good, ?_⟩, ?_⟩
  · rw [decode_take_utf16 hmark (by omega), hunits, List.take_left, decodeUnits_flatMap_split]
  · intro n hn hle hwhole text htext
    have hwhole := hwhole rfl
    obtain ⟨m, rfl⟩ : ∃ m, n = offset + 2 * ((good.flatMap Utf16.split).length + (m + 1)) :=
      ⟨(n - offset) / 2 - (good.flatMap Utf16.split).length - 1, by omega⟩
    rw [decode_take_utf16 hmark hle, hunits, List.take_length_add_append,
      decodeUnits_flatMap_split_append, decodeUnits_of_unpaired (hbad.take m)] at htext
    cases htext

lemma split_of_decodeAscii_error {offset : Nat} {bytes : List UInt8} {e : Charset.Error}
    (h : SingleByte.decodeAscii offset bytes = .error e) :
    ∃ good b rest, bytes = good ++ b :: rest ∧ (∀ x ∈ good, x.toNat ≤ 0x7F) ∧ 0x7F < b.toNat ∧
      e = .notAscii (offset + good.length) b := by
  induction bytes generalizing offset with
  | nil => cases h
  | cons b bytes ih =>
    rw [SingleByte.decodeAscii] at h
    split_ifs at h with hb
    · obtain ⟨good, d, rest, rfl, hgood, hd, rfl⟩ := ih (eq_error_of_bind_eq_error h)
      refine ⟨b :: good, d, rest, rfl, ?_, hd, ?_⟩
      · exact List.forall_mem_cons.mpr ⟨by omega, hgood⟩
      · rw [List.length_cons, Nat.add_right_comm, Nat.add_assoc]
    · exact ⟨[], b, bytes, rfl, by simp, by omega, (Except.error.inj h).symm⟩

lemma longestReadable_ascii {good rest : List UInt8} {b : UInt8}
    (hgood : ∀ x ∈ good, x.toNat ≤ 0x7F) (hb : 0x7F < b.toNat) :
    LongestReadable .ascii (good ++ b :: rest) good.length where
  lt := by simp
  readable := ⟨_, by rw [List.take_left]; exact decodeAscii_eq_map hgood 0⟩
  longest := by
    intro n hn _ _ text htext
    obtain ⟨m, rfl⟩ := Nat.exists_eq_add_of_lt hn
    rw [Nat.add_assoc, List.take_length_add_append, List.take_succ_cons] at htext
    have hle := (eq_map_char_of_decodeAscii htext).2 b (by simp)
    omega

lemma encode_of_le {cs : Charset} {max : Nat} {text : List Char} (h : ∀ c ∈ text, c.toNat ≤ max)
    (offset : Nat) : ∃ bytes, SingleByte.encode cs max offset text = .ok bytes := by
  induction text generalizing offset with
  | nil => exact ⟨[], rfl⟩
  | cons c text ih =>
    obtain ⟨hc, hrest⟩ := List.forall_mem_cons.mp h
    obtain ⟨bytes, hbytes⟩ := ih hrest (offset + c.utf8Size)
    refine ⟨UInt8.ofNat c.toNat :: bytes, ?_⟩
    rw [SingleByte.encode, if_pos hc, hbytes]
    rfl

lemma encode_of_lt {cs : Charset} {max : Nat} {before after : List Char} {c : Char}
    (h : ∀ d ∈ before, d.toNat ≤ max) (hc : max < c.toNat) (offset : Nat) :
    SingleByte.encode cs max offset (before ++ c :: after) =
      .error (.unencodable c (offset + (Utf8.encode before).length) cs) := by
  induction before generalizing offset with
  | nil =>
    rw [List.nil_append, SingleByte.encode, if_neg (by omega)]
    rfl
  | cons d before ih =>
    obtain ⟨hd, hrest⟩ := List.forall_mem_cons.mp h
    have hcons : Utf8.encode (d :: before) = String.utf8EncodeChar d ++ Utf8.encode before := rfl
    rw [List.cons_append, SingleByte.encode, if_pos hd, ih hrest, hcons, List.length_append,
      String.length_utf8EncodeChar, Nat.add_assoc]
    rfl

/-- What an error of reading says of the bytes. -/
def Located (cs : Charset) (bytes : List UInt8) : Charset.Error → Prop
  | .invalidUtf8 k => cs = .utf8 ∧ LongestReadable cs bytes k
  | .oddUtf16Length n => cs = .utf16 ∧ n = bytes.length ∧ n % 2 = 1
  | .unpairedSurrogate k => cs = .utf16 ∧ LongestReadable cs bytes k
  | .notAscii k b => cs = .ascii ∧ LongestReadable cs bytes k ∧ bytes[k]? = some b
  | .unencodable _ _ _ => False

lemma decode_utf16_of_odd {bytes : List UInt8} (h : bytes.length % 2 = 1) :
    decode .utf16 bytes = .error (.oddUtf16Length bytes.length) := by
  rw [decode, Utf16.decode, h]
  rfl

lemma located_utf16 {bytes : List UInt8} {e : Charset.Error} (h : decode .utf16 bytes = .error e) :
    Located .utf16 bytes e := by
  rcases Nat.mod_two_eq_zero_or_one bytes.length with heven | hodd
  · rcases hmark : Utf16.splitMark bytes with ⟨order, offset, body⟩
    rw [decode, Utf16.decode, heven, hmark] at h
    obtain ⟨good, bad, hunits, hbad, rfl⟩ := stuckBehind_of_decodeUnits (units_lt order body) h
    exact ⟨rfl, longestReadable_utf16 hmark heven hunits hbad⟩
  · rw [decode_utf16_of_odd hodd] at h
    obtain rfl := Except.error.inj h
    exact ⟨rfl, rfl, hodd⟩

lemma located_of_decode {cs : Charset} {bytes : List UInt8} {e : Charset.Error}
    (h : cs.decode bytes = .error e) : Located cs bytes e := by
  cases cs with
  | utf8 =>
    obtain ⟨good, bad, rfl, hne, hbad, rfl⟩ := split_of_decodeFrom_error h
    rw [Nat.zero_add]
    exact ⟨rfl, longestReadable_utf8 hne hbad⟩
  | utf16 => exact located_utf16 h
  | ascii =>
    obtain ⟨good, b, rest, rfl, hgood, hb, rfl⟩ := split_of_decodeAscii_error h
    rw [Nat.zero_add]
    exact ⟨rfl, longestReadable_ascii hgood hb, by simp⟩
  | latin1 => cases h

/-- Whether a charset can write a character. -/
def Writable (cs : Charset) (c : Char) : Prop :=
  match cs with
  | .utf8 => True
  | .utf16 => True
  | .ascii => c.toNat ≤ 0x7F
  | .latin1 => c.toNat ≤ 0xFF

/-- What an error of writing says of the text: it names the first character that the charset cannot
write and counts the bytes that the text before it, which can be written, takes in UTF-8. -/
inductive NamesFirst (cs : Charset) : List Char → Charset.Error → Prop
  | intro {before after : List Char} {c : Char} (writable : ∀ d ∈ before, Writable cs d)
      (beyond : ¬Writable cs c) (written : ∃ bytes, cs.encode before = .ok bytes) :
      NamesFirst cs (before ++ c :: after) (.unencodable c (Utf8.encode before).length cs)

lemma encode_cases_singleByte {cs : Charset} {max : Nat}
    (hencode : ∀ text, cs.encode text = SingleByte.encode cs max 0 text)
    (hwritable : ∀ c, Writable cs c ↔ c.toNat ≤ max) (text : List Char) :
    ((∀ c ∈ text, Writable cs c) ∧ ∃ bytes, cs.encode text = .ok bytes) ∨
      (∃ c ∈ text, ¬Writable cs c) ∧ ∃ e, cs.encode text = .error e ∧ NamesFirst cs text e := by
  simp only [hencode]
  cases hfind : text.find? fun c => decide (max < c.toNat) with
  | none =>
    have hle : ∀ c ∈ text, c.toNat ≤ max := by simpa using hfind
    exact .inl ⟨fun c hc => (hwritable c).mpr (hle c hc), encode_of_le hle 0⟩
  | some c =>
    obtain ⟨hc, before, after, rfl, hbefore⟩ := List.find?_eq_some_iff_append.mp hfind
    have hc : max < c.toNat := by simpa using hc
    have hle : ∀ d ∈ before, d.toNat ≤ max := by simpa using hbefore
    have hbeyond : ¬Writable cs c := by
      rw [hwritable]
      omega
    refine .inr ⟨⟨c, by simp, hbeyond⟩, _, encode_of_lt hle hc 0, ?_⟩
    rw [Nat.zero_add]
    refine .intro (fun d hd => (hwritable d).mpr (hle d hd)) hbeyond ?_
    rw [hencode]
    exact encode_of_le hle 0

/-- Writing a text succeeds, or it fails at a character that the charset cannot write. -/
lemma encode_cases (cs : Charset) (text : List Char) :
    ((∀ c ∈ text, Writable cs c) ∧ ∃ bytes, cs.encode text = .ok bytes) ∨
      (∃ c ∈ text, ¬Writable cs c) ∧ ∃ e, cs.encode text = .error e ∧ NamesFirst cs text e := by
  cases cs with
  | utf8 => exact .inl ⟨fun _ _ => trivial, _, rfl⟩
  | utf16 => exact .inl ⟨fun _ _ => trivial, _, rfl⟩
  | ascii => exact encode_cases_singleByte (fun _ => rfl) (fun _ => .rfl) text
  | latin1 => exact encode_cases_singleByte (fun _ => rfl) (fun _ => .rfl) text

/-- Reading fails only where it must and says where: behind the longest part that can be read. Writing
fails exactly if a character exceeds the charset, and names the first. -/
theorem charset_errors_point_at_first_fault (cs : Charset) :
    (∀ bytes e, cs.decode bytes = .error e → Located cs bytes e) ∧
      (∀ bytes, decode .utf16 bytes = .error (.oddUtf16Length bytes.length) ↔
        bytes.length % 2 = 1) ∧
      (∀ bytes, ∃ text, decode .latin1 bytes = .ok text) ∧
      (∀ text, (∃ e, cs.encode text = .error e) ↔ ∃ c ∈ text, ¬Writable cs c) ∧
      (∀ text e, cs.encode text = .error e → NamesFirst cs text e) ∧
      ∀ text, (∃ bytes, encode .utf8 text = .ok bytes) ∧ ∃ bytes, encode .utf16 text = .ok bytes := by
  refine ⟨fun _ _ => located_of_decode, ?_, fun _ => ⟨_, rfl⟩, ?_, ?_, fun _ => ⟨⟨_, rfl⟩, _, rfl⟩⟩
  · intro bytes
    refine ⟨fun h => ?_, decode_utf16_of_odd⟩
    have hlocated : Located .utf16 bytes (.oddUtf16Length bytes.length) := located_of_decode h
    exact hlocated.2.2
  · intro text
    rcases encode_cases cs text with ⟨hall, bytes, hok⟩ | ⟨hsome, e, herror, -⟩
    · refine iff_of_false ?_ ?_
      · rintro ⟨e, herror⟩
        cases hok.symm.trans herror
      · rintro ⟨c, hc, hbeyond⟩
        exact hbeyond (hall c hc)
    · exact iff_of_true ⟨e, herror⟩ hsome
  · intro text e h
    rcases encode_cases cs text with ⟨-, bytes, hok⟩ | ⟨-, e', herror, hfirst⟩
    · cases hok.symm.trans h
    · obtain rfl := Except.error.inj (herror.symm.trans h)
      exact hfirst

/-- A low surrogate before a high one, with the low bytes first. -/
theorem charset_errors_point_at_first_fault_behind_mark :
    decode .utf16 [0xFF, 0xFE, 0x61, 0, 0, 0xDC, 0, 0xD8] = .error (.unpairedSurrogate 4) ∧
      LongestReadable .utf16 [0xFF, 0xFE, 0x61, 0, 0, 0xDC, 0, 0xD8] 4 := by
  have hdecode : decode .utf16 [0xFF, 0xFE, 0x61, 0, 0, 0xDC, 0, 0xD8] =
      .error (.unpairedSurrogate 4) := by decide
  exact ⟨hdecode, ((charset_errors_point_at_first_fault .utf16).1 _ _ hdecode).2⟩

end PhpSlim.Proofs
