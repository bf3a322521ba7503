import Reexport.Text.Utf8

/-!
# Texts and their bytes

A text is read back from the bytes it is written as, so that no two texts are written as the same
bytes.

## What is proved

* `decodeFrom_encodeChar` — the bytes of a character are read as the character, whatever follows.
* `decode_encode` — the bytes of a text are read as the text.
-/

namespace Reexport.Text

/-! ### Bytes as numbers -/

theorem toNat_ofNat_byte {n : Nat} (h : n < 256) : (UInt8.ofNat n).toNat = n := by
  simpa using Nat.mod_eq_of_lt h

theorem byte_le_iff {low : UInt8} {n : Nat} (h : n < 256) : low ≤ UInt8.ofNat n ↔ low.toNat ≤ n := by
  rw [UInt8.le_iff_toNat_le, toNat_ofNat_byte h]

theorem le_byte_iff {high : UInt8} {n : Nat} (h : n < 256) :
    UInt8.ofNat n ≤ high ↔ n ≤ high.toNat := by
  rw [UInt8.le_iff_toNat_le, toNat_ofNat_byte h]

theorem byte_eq_iff {b : UInt8} {n : Nat} (h : n < 256) : UInt8.ofNat n = b ↔ n = b.toNat := by
  rw [← UInt8.toNat_inj, toNat_ofNat_byte h]

/-- The range of the byte after the first of several is that of all such bytes, but where it has to
keep the character from being too small, too great or half of a pair. -/
theorem leadByte?_two {n : Nat} (hlow : 0xC2 ≤ n) (hhigh : n ≤ 0xDF) :
    leadByte? (UInt8.ofNat n) = some (1, 0x80, 0xBF) := by
  have hn : n < 256 := by omega
  simp [leadByte?, byte_le_iff hn, le_byte_iff hn, hlow, hhigh]

theorem leadByte?_three (n second : Nat) (hlow : 0xE0 ≤ n) (hhigh : n ≤ 0xEF)
    (hsecond : 0x80 ≤ second ∧ second ≤ 0xBF) (hsmall : n = 0xE0 → 0xA0 ≤ second)
    (hpair : n = 0xED → second ≤ 0x9F) : ∃ low high,
      leadByte? (UInt8.ofNat n) = some (2, low, high) ∧ low.toNat ≤ second ∧ second ≤ high.toNat := by
  have hn : n < 256 := by omega
  have htwo : ¬n ≤ 0xDF := by omega
  by_cases hfirst : n = 0xE0
  · subst hfirst
    exact ⟨0xA0, 0xBF, by decide, hsmall rfl, hsecond.2⟩
  by_cases hsurrogate : n = 0xED
  · subst hsurrogate
    exact ⟨0x80, 0x9F, by decide, hsecond.1, hpair rfl⟩
  · refine ⟨0x80, 0xBF, ?_, hsecond.1, hsecond.2⟩
    have hmore : 0xE1 ≤ n := by omega
    simp [leadByte?, byte_le_iff hn, le_byte_iff hn, byte_eq_iff hn, htwo, hfirst, hsurrogate, hmore,
      hhigh]

theorem leadByte?_four (n second : Nat) (hlow : 0xF0 ≤ n) (hhigh : n ≤ 0xF4)
    (hsecond : 0x80 ≤ second ∧ second ≤ 0xBF) (hsmall : n = 0xF0 → 0x90 ≤ second)
    (hgreat : n = 0xF4 → second ≤ 0x8F) : ∃ low high,
      leadByte? (UInt8.ofNat n) = some (3, low, high) ∧ low.toNat ≤ second ∧ second ≤ high.toNat := by
  obtain rfl | rfl | rfl | rfl | rfl : n = 0xF0 ∨ n = 0xF1 ∨ n = 0xF2 ∨ n = 0xF3 ∨ n = 0xF4 := by
    omega
  · exact ⟨0x90, 0xBF, by decide, hsmall rfl, hsecond.2⟩
  · exact ⟨0x80, 0xBF, by decide, hsecond⟩
  · exact ⟨0x80, 0xBF, by decide, hsecond⟩
  · exact ⟨0x80, 0xBF, by decide, hsecond⟩
  · exact ⟨0x80, 0x8F, by decide, hsecond.1, hgreat rfl⟩

/-! ### Reading bytes -/

/-- A byte that is a character of its own. -/
theorem decodeFrom_ascii {n : Nat} (h : n ≤ 0x7F) (rest : List UInt8) :
    decodeFrom .start (UInt8.ofNat n :: rest) = Char.ofNat n :: decodeFrom .start rest := by
  have hn : n < 256 := by omega
  have hlt : UInt8.ofNat n < 0x80 := by
    rw [UInt8.lt_iff_toNat_lt, toNat_ofNat_byte hn]
    exact Nat.lt_succ_of_le h
  rw [decodeFrom, decodeFrom.fresh, if_pos hlt, toNat_ofNat_byte hn]

/-- The first byte of several. -/
theorem decodeFrom_lead {n count bits : Nat} {low high : UInt8} (hn : n < 256) (hascii : 0x80 ≤ n)
    (h : leadByte? (UInt8.ofNat n) = some (count, low, high))
    (hbits : n % (if count = 1 then 32 else if count = 2 then 16 else 8) = bits)
    (rest : List UInt8) :
    decodeFrom .start (UInt8.ofNat n :: rest) = decodeFrom (.more count bits low high) rest := by
  have hlt : ¬UInt8.ofNat n < 0x80 := by
    rw [UInt8.lt_iff_toNat_lt, toNat_ofNat_byte hn]
    exact Nat.not_lt.2 hascii
  rw [decodeFrom, decodeFrom.fresh, if_neg hlt, h, toNat_ofNat_byte hn]
  exact congrArg (fun bits => decodeFrom (.more count bits low high) rest) hbits

/-- The last byte of several. -/
theorem decodeFrom_last {bits n : Nat} {low high : UInt8} (hn : n < 256)
    (hlow : low.toNat ≤ n) (hhigh : n ≤ high.toNat) (rest : List UInt8) :
    decodeFrom (.more 1 bits low high) (UInt8.ofNat n :: rest) =
      Char.ofNat (bits * 64 + n % 64) :: decodeFrom .start rest := by
  have hin : (low ≤ UInt8.ofNat n && UInt8.ofNat n ≤ high) = true := by
    simp [byte_le_iff hn, le_byte_iff hn, hlow, hhigh]
  rw [decodeFrom, if_pos hin, lowBits, toNat_ofNat_byte hn]

/-- A byte with others before and after it. -/
theorem decodeFrom_middle {count bits n : Nat} {low high : UInt8} (hn : n < 256)
    (hlow : low.toNat ≤ n) (hhigh : n ≤ high.toNat) (rest : List UInt8) :
    decodeFrom (.more (count + 2) bits low high) (UInt8.ofNat n :: rest) =
      decodeFrom (.more (count + 1) (bits * 64 + n % 64) 0x80 0xBF) rest := by
  have hin : (low ≤ UInt8.ofNat n && UInt8.ofNat n ≤ high) = true := by
    simp [byte_le_iff hn, le_byte_iff hn, hlow, hhigh]
  rw [decodeFrom, if_pos hin, lowBits, toNat_ofNat_byte hn]
  exact Nat.succ_ne_zero count

/-- **One character.** Its bytes are read as the character, whatever follows. -/
theorem decodeFrom_encodeChar (c : Char) (rest : List UInt8) :
    decodeFrom .start (String.utf8EncodeChar c ++ rest) = c :: decodeFrom .start rest := by
  -- Surrogates are no characters, so the second byte after 0xED is small.
  have hvalid : c.toNat < 0xD800 ∨ 0xDFFF < c.toNat ∧ c.toNat < 0x110000 := c.valid
  have hchar : Char.ofNat c.toNat = c := Char.ofNat_toNat c
  have hval : c.val.toNat = c.toNat := rfl
  generalize hv : c.toNat = v at hvalid hchar hval
  unfold String.utf8EncodeChar
  rw [hval]
  by_cases hone : v ≤ 0x7F
  · rw [if_pos hone, List.singleton_append, decodeFrom_ascii hone, hchar]
  rw [if_neg hone]
  by_cases htwo : v ≤ 0x7FF
  · rw [if_pos htwo, List.cons_append, List.singleton_append,
      decodeFrom_lead (by omega) (by omega) (leadByte?_two (by omega) (by omega)) rfl,
      decodeFrom_last (by omega) (by show 0x80 ≤ _; omega) (by show _ ≤ 0xBF; omega)]
    have hbits : (v / 64 % 32 + 192) % 32 * 64 + (v % 64 + 128) % 64 = v := by omega
    exact congrArg (· :: decodeFrom .start rest) ((congrArg Char.ofNat hbits).trans hchar)
  rw [if_neg htwo]
  by_cases hthree : v ≤ 0xFFFF
  · obtain ⟨low, high, hlead, hlow, hhigh⟩ := leadByte?_three (v / 4096 % 16 + 224)
      (v / 64 % 64 + 128) (by omega) (by omega) (by omega) (by omega) (by omega)
    rw [if_pos hthree, List.cons_append, List.cons_append, List.singleton_append,
      decodeFrom_lead (by omega) (by omega) hlead rfl, decodeFrom_middle (by omega) hlow hhigh,
      decodeFrom_last (by omega) (by show 0x80 ≤ _; omega) (by show _ ≤ 0xBF; omega)]
    have hbits : ((v / 4096 % 16 + 224) % 16 * 64 + (v / 64 % 64 + 128) % 64) * 64 +
        (v % 64 + 128) % 64 = v := by omega
    exact congrArg (· :: decodeFrom .start rest) ((congrArg Char.ofNat hbits).trans hchar)
  · obtain ⟨low, high, hlead, hlow, hhigh⟩ := leadByte?_four (v / 262144 % 8 + 240)
      (v / 4096 % 64 + 128) (by omega) (by omega) (by omega) (by omega) (by omega)
    rw [if_neg hthree, List.cons_append, List.cons_append, List.cons_append, List.singleton_append,
      decodeFrom_lead (by omega) (by omega) hlead rfl, decodeFrom_middle (by omega) hlow hhigh,
      decodeFrom_middle (by omega) (by show 0x80 ≤ _; omega) (by show _ ≤ 0xBF; omega),
      decodeFrom_last (by omega) (by show 0x80 ≤ _; omega) (by show _ ≤ 0xBF; omega)]
    have hbits : (((v / 262144 % 8 + 240) % 8 * 64 + (v / 4096 % 64 + 128) % 64) * 64 +
        (v / 64 % 64 + 128) % 64) * 64 + (v % 64 + 128) % 64 = v := by omega
    exact congrArg (· :: decodeFrom .start rest) ((congrArg Char.ofNat hbits).trans hchar)

/-- **A text is read back from its bytes.** -/
theorem decode_encode (s : String) : decode (encode s) = s := by
  have hall (cs : List Char) : decodeFrom .start (cs.flatMap String.utf8EncodeChar) = cs := by
    induction cs with
    | nil => rfl
    | cons c cs ih => rw [List.flatMap_cons, decodeFrom_encodeChar, ih]
  rw [decode, encode, hall, String.ofList_toList]

end Reexport.Text
