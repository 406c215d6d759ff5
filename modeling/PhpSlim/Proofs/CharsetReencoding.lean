import PhpSlim.Proofs.CharsetRoundTrip

/-!
# What was read in a charset is written back

Bytes that can be read are the written form of the text they hold. In UTF-16 this is so for the
units: their bytes may have stood in the other order and without a mark.
-/

namespace PhpSlim.Proofs
open PhpSlim.Charset

lemma eq_cons_of_bind_eq_ok {ε α : Type} {x : Except ε (List α)} {a : α} {l : List α}
    (h : (do let rest ← x; return a :: rest) = .ok l) : ∃ rest, x = .ok rest ∧ l = a :: rest := by
  cases x with
  | error e => cases h
  | ok rest => exact ⟨rest, rfl, (Except.ok.inj h).symm⟩

lemma toNat_char (b : UInt8) : (SingleByte.char b).toNat = b.toNat := by
  have hb := b.toNat_lt
  have hvalid : b.toNat.isValidChar := .inl (by omega)
  rw [SingleByte.char, Char.toNat_ofNat, if_pos hvalid]

lemma encode_map_char {cs : Charset} {max : Nat} {bytes : List UInt8}
    (h : ∀ b ∈ bytes, b.toNat ≤ max) (offset : Nat) :
    SingleByte.encode cs max offset (bytes.map SingleByte.char) = .ok bytes := by
  induction bytes generalizing offset with
  | nil => rfl
  | cons b bytes ih =>
    have hb : (SingleByte.char b).toNat ≤ max := by
      rw [toNat_char]
      exact h b List.mem_cons_self
    rw [List.map_cons, SingleByte.encode, if_pos hb, ih fun x hx => h x (List.mem_cons_of_mem b hx),
      toNat_char, UInt8.ofNat_toNat]
    rfl

lemma eq_map_char_of_decodeAscii {offset : Nat} {bytes : List UInt8} {text : List Char}
    (h : SingleByte.decodeAscii offset bytes = .ok text) :
    text = bytes.map SingleByte.char ∧ ∀ b ∈ bytes, b.toNat ≤ 0x7F := by
  induction bytes generalizing offset text with
  | nil =>
    obtain rfl : [] = text := by simpa [SingleByte.decodeAscii] using h
    simp
  | cons b bytes ih =>
    rw [SingleByte.decodeAscii] at h
    split_ifs at h with hb
    obtain ⟨rest, hrest, rfl⟩ := eq_cons_of_bind_eq_ok h
    obtain ⟨hmap, hle⟩ := ih hrest
    refine ⟨by rw [List.map_cons, hmap], ?_⟩
    intro x hx
    rcases List.mem_cons.mp hx with rfl | hx
    · omega
    · exact hle x hx

lemma eq_encodeChar_append_of_next {bytes : List UInt8} {c : Char} (h : Utf8.next? bytes = some c) :
    bytes = String.utf8EncodeChar c ++ bytes.drop c.utf8Size := by
  obtain ⟨rest, hrest⟩ := ByteArray.exists_of_utf8DecodeChar?_eq_some h
  have htake : bytes.take 4 = String.utf8EncodeChar c ++ rest.data.toList := by
    have hdata := congrArg (fun b : ByteArray => b.data.toList) hrest
    simpa using hdata
  have hbytes : bytes = String.utf8EncodeChar c ++ (rest.data.toList ++ bytes.drop 4) := by
    rw [← List.append_assoc, ← htake, List.take_append_drop]
  have hdrop : bytes.drop c.utf8Size = rest.data.toList ++ bytes.drop 4 := by
    conv_lhs => rw [hbytes]
    rw [← String.length_utf8EncodeChar, List.drop_left]
  rw [hdrop]
  exact hbytes

lemma cons_eq_of_next {b : UInt8} {rest : List UInt8} {c : Char}
    (h : Utf8.next? (b :: rest) = some c) :
    b :: rest = String.utf8EncodeChar c ++ rest.drop (c.utf8Size - 1) := by
  have hsize := c.utf8Size_pos
  have hdrop : (b :: rest).drop c.utf8Size = rest.drop (c.utf8Size - 1) := by
    obtain ⟨n, hn⟩ : ∃ n, c.utf8Size = n + 1 := ⟨c.utf8Size - 1, by omega⟩
    rw [hn, List.drop_succ_cons, Nat.add_sub_cancel]
  have hbytes := eq_encodeChar_append_of_next h
  rwa [hdrop] at hbytes

lemma encode_of_decodeFrom {offset : Nat} {bytes : List UInt8} {text : List Char}
    (h : Utf8.decodeFrom offset bytes = .ok text) : Utf8.encode text = bytes := by
  induction offset, bytes using Utf8.decodeFrom.induct generalizing text with
  | case1 offset =>
    obtain rfl : [] = text := by simpa [Utf8.decodeFrom] using h
    rfl
  | case2 offset b rest hnext =>
    rw [Utf8.decodeFrom, hnext] at h
    cases h
  | case3 offset b rest c hnext ih =>
    rw [Utf8.decodeFrom, hnext] at h
    dsimp only at h
    obtain ⟨tail, htail, rfl⟩ := eq_cons_of_bind_eq_ok h
    have hencode : Utf8.encode (c :: tail) = String.utf8EncodeChar c ++ Utf8.encode tail := rfl
    rw [hencode, ih htail]
    exact (cons_eq_of_next hnext).symm

lemma unit_lt (order : Utf16.ByteOrder) (a b : UInt8) : Utf16.unit order a b < 0x10000 := by
  have ha := a.toNat_lt
  have hb := b.toNat_lt
  cases order <;> simp only [Utf16.unit] <;> omega

lemma units_lt (order : Utf16.ByteOrder) (bytes : List UInt8) :
    ∀ u ∈ Utf16.units order bytes, u < 0x10000 := by
  induction bytes using Utf16.units.induct with
  | case1 a b rest ih =>
    intro u hu
    rw [Utf16.units, List.mem_cons] at hu
    rcases hu with rfl | hu
    · exact unit_lt order a b
    · exact ih u hu
  | case2 bytes hbytes =>
    intro u hu
    rw [Utf16.units.eq_2 _ _ hbytes] at hu
    cases hu

lemma length_units (order : Utf16.ByteOrder) (bytes : List UInt8) :
    (Utf16.units order bytes).length = bytes.length / 2 := by
  induction bytes using Utf16.units.induct with
  | case1 a b rest ih =>
    rw [Utf16.units, List.length_cons, ih, List.length_cons, List.length_cons]
    omega
  | case2 bytes hbytes =>
    rw [Utf16.units.eq_2 _ _ hbytes]
    rcases bytes with _ | ⟨a, _ | ⟨b, rest⟩⟩
    · rfl
    · simp
    · exact absurd rfl (hbytes a b rest)

lemma length_bytes (us : List Nat) : (Utf16.bytes us).length = 2 * us.length := by
  induction us with
  | nil => rfl
  | cons u us ih =>
    have hcons : (Utf16.bytes (u :: us)).length = (Utf16.bytes us).length + 2 := rfl
    rw [hcons, ih, List.length_cons]
    omega

lemma split_ofNat {u : Nat} (hlt : u < 0x10000) (hhigh : Utf16.isHigh u = false)
    (hlow : Utf16.isLow u = false) : Utf16.split (Char.ofNat u) = [u] := by
  have hvalid : u.isValidChar := by
    simp only [Utf16.isHigh, Utf16.isLow, Bool.and_eq_false_iff, decide_eq_false_iff_not]
      at hhigh hlow
    unfold Nat.isValidChar
    omega
  rw [Utf16.split, Char.toNat_ofNat, if_pos hvalid, if_pos hlt]

lemma split_join {u v : Nat} (hhigh : Utf16.isHigh u = true) (hlow : Utf16.isLow v = true) :
    Utf16.split (Utf16.join u v) = [u, v] := by
  simp only [Utf16.isHigh, Utf16.isLow, Bool.and_eq_true, decide_eq_true_eq] at hhigh hlow
  have hvalid : (0x10000 + (u - 0xD800) * 0x400 + (v - 0xDC00)).isValidChar := by
    unfold Nat.isValidChar
    omega
  have hbeyond : ¬0x10000 + (u - 0xD800) * 0x400 + (v - 0xDC00) < 0x10000 := by omega
  rw [Utf16.split, Utf16.join, Char.toNat_ofNat, if_pos hvalid, if_neg hbeyond]
  have hfirst : 0xD800 + (0x10000 + (u - 0xD800) * 0x400 + (v - 0xDC00) - 0x10000) / 0x400 = u := by
    omega
  have hsecond :
      0xDC00 + (0x10000 + (u - 0xD800) * 0x400 + (v - 0xDC00) - 0x10000) % 0x400 = v := by
    omega
  rw [hfirst, hsecond]

lemma flatMap_split_of_decodeUnits {offset : Nat} {us : List Nat} {text : List Char}
    (hus : ∀ u ∈ us, u < 0x10000) (h : Utf16.decodeUnits offset us = .ok text) :
    text.flatMap Utf16.split = us := by
  induction offset, us using Utf16.decodeUnits.induct generalizing text with
  | case1 offset =>
    obtain rfl : [] = text := by simpa [Utf16.decodeUnits] using h
    rfl
  | case2 offset u hu =>
    rw [Utf16.decodeUnits, if_pos hu] at h
    cases h
  | case3 offset u hu =>
    rw [Utf16.decodeUnits, if_neg hu] at h
    obtain rfl : [Char.ofNat u] = text := by simpa using h
    obtain ⟨hhigh, hlow⟩ := Bool.or_eq_false_iff.mp (Bool.eq_false_of_not_eq_true hu)
    rw [List.flatMap_singleton, split_ofNat (hus u List.mem_cons_self) hhigh hlow]
  | case4 offset u v rest hhigh hlow ih =>
    rw [decodeUnits_pair hhigh hlow] at h
    obtain ⟨tail, htail, rfl⟩ := eq_cons_of_bind_eq_ok h
    have hrest : ∀ x ∈ rest, x < 0x10000 := fun x hx => hus x (by simp [hx])
    rw [List.flatMap_cons, split_join hhigh hlow, ih hrest htail]
    rfl
  | case5 offset u v rest hhigh hlow =>
    rw [Utf16.decodeUnits, if_pos hhigh, if_neg hlow] at h
    cases h
  | case6 offset u v rest hhigh hlow =>
    rw [Utf16.decodeUnits, if_neg hhigh, if_pos hlow] at h
    cases h
  | case7 offset u v rest hhigh hlow ih =>
    rw [Bool.not_eq_true] at hhigh hlow
    rw [decodeUnits_cons hhigh hlow] at h
    obtain ⟨tail, htail, rfl⟩ := eq_cons_of_bind_eq_ok h
    have hrest : ∀ x ∈ v :: rest, x < 0x10000 := fun x hx => hus x (List.mem_cons_of_mem u hx)
    rw [List.flatMap_cons, split_ofNat (hus u List.mem_cons_self) hhigh hlow, ih hrest htail]
    rfl

lemma splitMark_cases (bytes : List UInt8) :
    (∃ rest, bytes = Utf16.littleMark ++ rest ∧ Utf16.splitMark bytes = (.little, 2, rest)) ∨
      (∃ rest, bytes = Utf16.bigMark ++ rest ∧ Utf16.splitMark bytes = (.big, 2, rest)) ∨
      (¬Utf16.littleMark <+: bytes ∧ ¬Utf16.bigMark <+: bytes ∧
        Utf16.splitMark bytes = (.big, 0, bytes)) := by
  by_cases hlittle : Utf16.littleMark <+: bytes
  · obtain ⟨rest, rfl⟩ := hlittle
    exact .inl ⟨rest, rfl, rfl⟩
  · by_cases hbig : Utf16.bigMark <+: bytes
    · obtain ⟨rest, rfl⟩ := hbig
      exact .inr (.inl ⟨rest, rfl, rfl⟩)
    · refine .inr (.inr ⟨hlittle, hbig, ?_⟩)
      unfold Utf16.splitMark
      split
      · exact absurd (List.prefix_append Utf16.littleMark _) hlittle
      · exact absurd (List.prefix_append Utf16.bigMark _) hbig
      · rfl

lemma length_of_splitMark {bytes body : List UInt8} {order : Utf16.ByteOrder} {offset : Nat}
    (h : Utf16.splitMark bytes = (order, offset, body)) :
    bytes.length = offset + body.length ∧ offset % 2 = 0 := by
  rcases splitMark_cases bytes with ⟨rest, rfl, hsplit⟩ | ⟨rest, rfl, hsplit⟩ | ⟨-, -, hsplit⟩
  · obtain ⟨-, rfl, rfl⟩ : Utf16.ByteOrder.little = order ∧ 2 = offset ∧ rest = body := by
      simpa [hsplit] using h
    exact ⟨Nat.add_comm _ 2, rfl⟩
  · obtain ⟨-, rfl, rfl⟩ : Utf16.ByteOrder.big = order ∧ 2 = offset ∧ rest = body := by
      simpa [hsplit] using h
    exact ⟨Nat.add_comm _ 2, rfl⟩
  · obtain ⟨-, rfl, rfl⟩ : Utf16.ByteOrder.big = order ∧ 0 = offset ∧ bytes = body := by
      simpa [hsplit] using h
    exact ⟨(Nat.zero_add _).symm, rfl⟩

lemma even_splitMark {bytes : List UInt8} (h : bytes.length % 2 = 0) :
    (Utf16.splitMark bytes).2.2.length % 2 = 0 := by
  rcases hmark : Utf16.splitMark bytes with ⟨order, offset, body⟩
  have hlength := length_of_splitMark hmark
  dsimp only
  omega

lemma units_of_decode {bytes : List UInt8} {text : List Char} (h : Utf16.decode bytes = .ok text) :
    (Utf16.splitMark bytes).2.2.length % 2 = 0 ∧
      text.flatMap Utf16.split =
        Utf16.units (Utf16.splitMark bytes).1 (Utf16.splitMark bytes).2.2 := by
  unfold Utf16.decode at h
  split_ifs at h with hodd
  exact ⟨even_splitMark (by simpa using hodd), flatMap_split_of_decodeUnits (units_lt _ _) h⟩

/-- Bytes with the two of every unit swapped; a last single byte stays. -/
def swapPairs : List UInt8 → List UInt8
  | a :: b :: rest => b :: a :: swapPairs rest
  | rest => rest

/-- Bytes in the order `order` with the high byte of every unit first. -/
def highFirst (order : Utf16.ByteOrder) (bytes : List UInt8) : List UInt8 :=
  match order with
  | .big => bytes
  | .little => swapPairs bytes

lemma bytes_of_unit (a b : UInt8) :
    UInt8.ofNat ((a.toNat * 256 + b.toNat) / 256) = a ∧
      UInt8.ofNat ((a.toNat * 256 + b.toNat) % 256) = b := by
  have hb := b.toNat_lt
  have hhigh : (a.toNat * 256 + b.toNat) / 256 = a.toNat := by omega
  have hlow : (a.toNat * 256 + b.toNat) % 256 = b.toNat := by omega
  rw [hhigh, hlow, UInt8.ofNat_toNat, UInt8.ofNat_toNat]
  exact ⟨rfl, rfl⟩

lemma bytes_units (order : Utf16.ByteOrder) {bytes : List UInt8} (h : bytes.length % 2 = 0) :
    Utf16.bytes (Utf16.units order bytes) = highFirst order bytes := by
  induction bytes using swapPairs.induct with
  | case1 a b rest ih =>
    have hrest : rest.length % 2 = 0 := by
      rw [List.length_cons, List.length_cons] at h
      omega
    rw [Utf16.units, Utf16.bytes, List.flatMap_cons]
    have hlater : List.flatMap _ (Utf16.units order rest) = highFirst order rest := ih hrest
    rw [hlater]
    cases order with
    | big =>
      obtain ⟨hhigh, hlow⟩ := bytes_of_unit a b
      rw [Utf16.unit, hhigh, hlow]
      rfl
    | little =>
      obtain ⟨hhigh, hlow⟩ := bytes_of_unit b a
      rw [Utf16.unit, hhigh, hlow]
      rfl
  | case2 bytes hbytes =>
    rcases bytes with _ | ⟨a, _ | ⟨b, rest⟩⟩
    · cases order <;> rfl
    · simp at h
    · exact absurd rfl (hbytes a b rest)

/-- What a charset writes for the text that it reads from `bytes`. In UTF-16 this is a mark and, of
every unit behind the old mark, the high byte first. -/
def rewritten (cs : Charset) (bytes : List UInt8) : List UInt8 :=
  match cs with
  | .utf16 =>
    Utf16.bigMark ++
      if Utf16.littleMark <+: bytes then swapPairs (bytes.drop 2)
      else if Utf16.bigMark <+: bytes then bytes.drop 2
      else bytes
  | _ => bytes

lemma rewritten_utf16 (bytes : List UInt8) :
    rewritten .utf16 bytes =
      Utf16.bigMark ++ highFirst (Utf16.splitMark bytes).1 (Utf16.splitMark bytes).2.2 := by
  rcases splitMark_cases bytes with ⟨rest, rfl, hsplit⟩ | ⟨rest, rfl, hsplit⟩ | ⟨hlittle, hbig, hsplit⟩
  · rw [hsplit, rewritten, if_pos (List.prefix_append Utf16.littleMark rest)]
    rfl
  · have hlittle : ¬Utf16.littleMark <+: Utf16.bigMark ++ rest := by
      simp [Utf16.littleMark, Utf16.bigMark]
    rw [hsplit, rewritten, if_neg hlittle, if_pos (List.prefix_append Utf16.bigMark rest)]
    rfl
  · rw [hsplit, rewritten, if_neg hlittle, if_neg hbig]
    rfl

lemma encode_of_decode_of_ne {cs : Charset} (hcs : cs ≠ .utf16) {bytes : List UInt8}
    {text : List Char} (h : cs.decode bytes = .ok text) : cs.encode text = .ok bytes := by
  cases cs with
  | utf8 =>
    have hbytes := encode_of_decodeFrom h
    rw [encode, hbytes]
  | utf16 => exact absurd rfl hcs
  | ascii =>
    obtain ⟨rfl, hle⟩ := eq_map_char_of_decodeAscii h
    exact encode_map_char hle 0
  | latin1 =>
    obtain rfl : bytes.map SingleByte.char = text := by simpa [decode] using h
    have hle : ∀ b ∈ bytes, b.toNat ≤ 0xFF := fun b _ => Nat.le_of_lt_succ b.toNat_lt
    exact encode_map_char hle 0

/-- Encoding undoes decoding, in every charset and for all bytes that the charset can read, but for
the mark and the byte order of UTF-16. -/
theorem encode_of_decode (cs : Charset) (bytes : List UInt8) (text : List Char)
    (h : cs.decode bytes = .ok text) : cs.encode text = .ok (rewritten cs bytes) := by
  by_cases hcs : cs = .utf16
  · subst hcs
    obtain ⟨heven, hunits⟩ := units_of_decode h
    rw [encode, Utf16.encode, hunits, bytes_units _ heven, rewritten_utf16]
  · have hsame : rewritten cs bytes = bytes := by
      cases cs <;> first | rfl | exact absurd rfl hcs
    rw [hsame]
    exact encode_of_decode_of_ne hcs h

theorem encode_of_decode_low_bytes_first :
    decode .utf16 [0xFF, 0xFE, 0xFF, 0xFE, 0xFF, 0xDB, 0xFF, 0xDF] =
        .ok [Char.ofNat 0xFEFF, Char.ofNat 0x10FFFF] ∧
      encode .utf16 [Char.ofNat 0xFEFF, Char.ofNat 0x10FFFF] =
        .ok [0xFE, 0xFF, 0xFE, 0xFF, 0xDB, 0xFF, 0xDF, 0xFF] := by
  have hdecode : decode .utf16 [0xFF, 0xFE, 0xFF, 0xFE, 0xFF, 0xDB, 0xFF, 0xDF] =
      .ok [Char.ofNat 0xFEFF, Char.ofNat 0x10FFFF] := by decide
  exact ⟨hdecode, encode_of_decode .utf16 _ _ hdecode⟩

end PhpSlim.Proofs
