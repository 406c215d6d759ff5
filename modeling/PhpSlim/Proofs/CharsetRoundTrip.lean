import Mathlib
import PhpSlim.Charset.Codec

/-!
# What was written in a charset is read back

For every charset, decoding the bytes of a text gives the text again. In UTF-16 the mark that is
written first decides the byte order, so a text may itself begin with a mark; a character beyond
U+FFFF comes back from its two surrogates.
-/

namespace PhpSlim.Proofs
open PhpSlim.Charset

lemma toNat_ofNat_of_lt {n : Nat} (h : n < 256) : (UInt8.ofNat n).toNat = n := by
  rw [UInt8.toNat_ofNat']
  exact Nat.mod_eq_of_lt h

lemma char_ofNat_toNat {c : Char} (h : c.toNat < 256) :
    SingleByte.char (UInt8.ofNat c.toNat) = c := by
  rw [SingleByte.char, toNat_ofNat_of_lt h, Char.ofNat_toNat]

lemma map_char_of_encode {cs : Charset} {max offset : Nat} (hmax : max < 256) {text : List Char}
    {bytes : List UInt8} (h : SingleByte.encode cs max offset text = .ok bytes) :
    bytes.map SingleByte.char = text ∧ ∀ b ∈ bytes, b.toNat ≤ max := by
  induction text generalizing offset bytes with
  | nil =>
    obtain rfl : [] = bytes := by simpa [SingleByte.encode] using h
    simp
  | cons c text ih =>
    rw [SingleByte.encode] at h
    split_ifs at h with hc
    cases hrest : SingleByte.encode cs max (offset + c.utf8Size) text with
    | error e =>
      rw [hrest] at h
      cases h
    | ok rest =>
      rw [hrest] at h
      obtain rfl : UInt8.ofNat c.toNat :: rest = bytes := by simpa using h
      obtain ⟨hmap, hle⟩ := ih hrest
      have hlt : c.toNat < 256 := by omega
      refine ⟨by rw [List.map_cons, hmap, char_ofNat_toNat hlt], ?_⟩
      intro b hb
      rcases List.mem_cons.mp hb with rfl | hb
      · rwa [toNat_ofNat_of_lt hlt]
      · exact hle b hb

lemma decodeAscii_eq_map {bytes : List UInt8} (h : ∀ b ∈ bytes, b.toNat ≤ 0x7F) (offset : Nat) :
    SingleByte.decodeAscii offset bytes = .ok (bytes.map SingleByte.char) := by
  induction bytes generalizing offset with
  | nil => rfl
  | cons b bytes ih =>
    have hb : b.toNat < 0x80 := Nat.lt_succ_of_le (h b List.mem_cons_self)
    rw [SingleByte.decodeAscii, if_pos hb, ih (fun x hx => h x (List.mem_cons_of_mem b hx))]
    rfl

lemma next_encodeChar_append (c : Char) (rest : List UInt8) :
    Utf8.next? (String.utf8EncodeChar c ++ rest) = some c := by
  have hle : (String.utf8EncodeChar c).length ≤ 4 := by
    rw [String.length_utf8EncodeChar]
    exact c.utf8Size_le_four
  rw [Utf8.next?, List.take_append, List.take_of_length_le hle, List.toByteArray_append]
  exact ByteArray.utf8DecodeChar?_utf8EncodeChar_append

lemma decodeFrom_encodeChar_append (c : Char) (offset : Nat) (rest : List UInt8) :
    Utf8.decodeFrom offset (String.utf8EncodeChar c ++ rest) = (do
      let text ← Utf8.decodeFrom (offset + c.utf8Size) rest
      return c :: text) := by
  have hnext := next_encodeChar_append c rest
  have hlength := String.length_utf8EncodeChar c
  cases hc : String.utf8EncodeChar c with
  | nil => exact absurd hc String.utf8EncodeChar_ne_nil
  | cons b tail =>
    rw [hc] at hnext hlength
    have hdrop : (tail ++ rest).drop (c.utf8Size - 1) = rest := by
      rw [← hlength]
      simp
    rw [List.cons_append] at hnext ⊢
    rw [Utf8.decodeFrom, hnext]
    dsimp only
    rw [hdrop]

lemma decodeFrom_encode (text : List Char) (offset : Nat) :
    Utf8.decodeFrom offset (Utf8.encode text) = .ok text := by
  induction text generalizing offset with
  | nil => rw [Utf8.encode, List.flatMap_nil, Utf8.decodeFrom]
  | cons c text ih =>
    have hcons : Utf8.encode (c :: text) = String.utf8EncodeChar c ++ Utf8.encode text := rfl
    rw [hcons, decodeFrom_encodeChar_append, ih]
    rfl

lemma units_bytes {us : List Nat} (h : ∀ u ∈ us, u < 0x10000) :
    Utf16.units .big (Utf16.bytes us) = us := by
  induction us with
  | nil => rfl
  | cons u us ih =>
    have hu := h u List.mem_cons_self
    have hunit : Utf16.unit .big (UInt8.ofNat (u / 256)) (UInt8.ofNat (u % 256)) = u := by
      have hhigh : u / 256 < 256 := by omega
      have hlow : u % 256 < 256 := by omega
      rw [Utf16.unit, toNat_ofNat_of_lt hhigh, toNat_ofNat_of_lt hlow]
      omega
    have hrest := ih (fun v hv => h v (List.mem_cons_of_mem u hv))
    rw [Utf16.bytes, List.flatMap_cons, List.cons_append, List.cons_append, List.nil_append,
      Utf16.units, hunit]
    exact congrArg (u :: ·) hrest

lemma even_length_bytes (us : List Nat) : (Utf16.bytes us).length % 2 = 0 := by
  induction us with
  | nil => rfl
  | cons u us ih =>
    have hcons : (Utf16.bytes (u :: us)).length = (Utf16.bytes us).length + 2 := rfl
    omega

lemma toNat_scalar (c : Char) : c.toNat < 0xD800 ∨ 0xDFFF < c.toNat ∧ c.toNat < 0x110000 := by
  have h := c.valid
  simpa [UInt32.isValidChar, Nat.isValidChar] using h

lemma decodeUnits_cons {u : Nat} (h : Utf16.isHigh u = false) (h' : Utf16.isLow u = false)
    (offset : Nat) (rest : List Nat) :
    Utf16.decodeUnits offset (u :: rest) = (do
      let text ← Utf16.decodeUnits (offset + 2) rest
      return Char.ofNat u :: text) := by
  cases rest with
  | nil => simp [Utf16.decodeUnits, h, h']
  | cons v rest => simp [Utf16.decodeUnits, h, h']

lemma decodeUnits_pair {u v : Nat} (h : Utf16.isHigh u = true) (h' : Utf16.isLow v = true)
    (offset : Nat) (rest : List Nat) :
    Utf16.decodeUnits offset (u :: v :: rest) = (do
      let text ← Utf16.decodeUnits (offset + 4) rest
      return Utf16.join u v :: text) := by
  rw [Utf16.decodeUnits, if_pos h, if_pos h']

lemma split_lt (c : Char) : ∀ u ∈ Utf16.split c, u < 0x10000 := by
  have hc := toNat_scalar c
  intro u hu
  unfold Utf16.split at hu
  split_ifs at hu with hlt
  · obtain rfl := List.mem_singleton.mp hu
    exact hlt
  · simp only [List.mem_cons, List.not_mem_nil, or_false] at hu
    omega

lemma decodeUnits_split_append (c : Char) (offset : Nat) (rest : List Nat) :
    Utf16.decodeUnits offset (Utf16.split c ++ rest) = (do
      let text ← Utf16.decodeUnits (offset + 2 * (Utf16.split c).length) rest
      return c :: text) := by
  have hc := toNat_scalar c
  unfold Utf16.split
  split_ifs with hlt
  · have hhigh : Utf16.isHigh c.toNat = false := by
      simp only [Utf16.isHigh, Bool.and_eq_false_iff, decide_eq_false_iff_not]
      omega
    have hlow : Utf16.isLow c.toNat = false := by
      simp only [Utf16.isLow, Bool.and_eq_false_iff, decide_eq_false_iff_not]
      omega
    rw [List.singleton_append, decodeUnits_cons hhigh hlow, Char.ofNat_toNat]
    rfl
  · have hhigh : Utf16.isHigh (0xD800 + (c.toNat - 0x10000) / 0x400) = true := by
      simp only [Utf16.isHigh, Bool.and_eq_true, decide_eq_true_eq]
      omega
    have hlow : Utf16.isLow (0xDC00 + (c.toNat - 0x10000) % 0x400) = true := by
      simp only [Utf16.isLow, Bool.and_eq_true, decide_eq_true_eq]
      omega
    have hjoin : Utf16.join (0xD800 + (c.toNat - 0x10000) / 0x400)
        (0xDC00 + (c.toNat - 0x10000) % 0x400) = c := by
      have hsum : 0x10000 + (0xD800 + (c.toNat - 0x10000) / 0x400 - 0xD800) * 0x400 +
          (0xDC00 + (c.toNat - 0x10000) % 0x400 - 0xDC00) = c.toNat := by
        omega
      rw [Utf16.join, hsum, Char.ofNat_toNat]
    rw [List.cons_append, List.singleton_append, decodeUnits_pair hhigh hlow, hjoin]
    rfl

lemma decodeUnits_flatMap_split (text : List Char) (offset : Nat) :
    Utf16.decodeUnits offset (text.flatMap Utf16.split) = .ok text := by
  induction text generalizing offset with
  | nil => rfl
  | cons c text ih =>
    rw [List.flatMap_cons, decodeUnits_split_append, ih]
    rfl

lemma decode_encode_utf16 (text : List Char) : Utf16.decode (Utf16.encode text) = .ok text := by
  have hunits : ∀ u ∈ text.flatMap Utf16.split, u < 0x10000 := by
    intro u hu
    obtain ⟨c, -, hc⟩ := List.mem_flatMap.mp hu
    exact split_lt c u hc
  have heven : (Utf16.encode text).length % 2 = 0 := by
    have h := even_length_bytes (text.flatMap Utf16.split)
    rw [Utf16.encode, List.length_append, Utf16.bigMark, List.length_cons, List.length_singleton]
    omega
  -- The mark that was written decides the order, whatever stands behind it.
  have hmark : Utf16.splitMark (Utf16.encode text) =
      (.big, 2, Utf16.bytes (text.flatMap Utf16.split)) := rfl
  rw [Utf16.decode, heven, hmark]
  dsimp only
  rw [units_bytes hunits, decodeUnits_flatMap_split]
  rfl

/-- Decoding undoes encoding, in every charset and for every text that the charset can write. -/
theorem decode_of_encode (cs : Charset) (text : List Char) (bytes : List UInt8)
    (h : cs.encode text = .ok bytes) : cs.decode bytes = .ok text := by
  cases cs with
  | utf8 =>
    obtain rfl : Utf8.encode text = bytes := by simpa [encode] using h
    exact decodeFrom_encode text 0
  | utf16 =>
    obtain rfl : Utf16.encode text = bytes := by simpa [encode] using h
    exact decode_encode_utf16 text
  | ascii =>
    obtain ⟨hmap, hle⟩ := map_char_of_encode (by decide) h
    rw [← hmap]
    exact decodeAscii_eq_map hle 0
  | latin1 =>
    obtain ⟨hmap, -⟩ := map_char_of_encode (by decide) h
    rw [← hmap]
    rfl

theorem decode_of_encode_mark_and_surrogates :
    encode .utf16 [Char.ofNat 0xFEFF, Char.ofNat 0xFFFE, Char.ofNat 0x10FFFF] =
        .ok [0xFE, 0xFF, 0xFE, 0xFF, 0xFF, 0xFE, 0xDB, 0xFF, 0xDF, 0xFF] ∧
      decode .utf16 [0xFE, 0xFF, 0xFE, 0xFF, 0xFF, 0xFE, 0xDB, 0xFF, 0xDF, 0xFF] =
        .ok [Char.ofNat 0xFEFF, Char.ofNat 0xFFFE, Char.ofNat 0x10FFFF] :=
  ⟨by decide, decode_of_encode .utf16 _ _ (by decide)⟩

end PhpSlim.Proofs
