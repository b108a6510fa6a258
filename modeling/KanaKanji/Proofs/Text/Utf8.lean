/-
Texts and their bytes.

A character takes one to four bytes, and the first of them tells how many:

* `Utf8.decode?_encodeChar_append`: a character is read back whatever bytes follow;
* `Utf8.decode?_encode`: so a text is read back from its bytes;
* `Utf8.length_encode_le`: a text that has been read takes no more bytes than were read.
-/
import KanaKanji.Text.Utf8
import Mathlib.Tactic.SplitIfs

namespace KanaKanji

namespace Utf8

/-! ### Reading back what was written -/

theorem tailBits?_tailByte (n : Nat) : tailBits? (tailByte n) = some (n % 64) := by
  have hbyte : (tailByte n).toNat = 0x80 + n % 64 := by
    rw [tailByte, UInt8.toNat_ofNat']
    omega
  rw [tailBits?, hbyte, if_pos (by omega), Nat.add_sub_cancel_left]

theorem charFrom?_toNat {least : Nat} {c : Char} (h : least ≤ c.toNat) :
    charFrom? least c.toNat = some c := by
  rw [charFrom?, if_pos ⟨h, c.valid⟩, Char.ofNat_toNat]

/-- A first byte that marks a character of more than one byte. -/
theorem toNat_leadByte (mark bits : Nat) (h : mark + bits < 256) :
    (UInt8.ofNat (mark + bits)).toNat = mark + bits := by
  rw [UInt8.toNat_ofNat']
  omega

theorem char2?_bytes {c : Char} (hleast : 0x80 ≤ c.toNat) (hbound : c.toNat < 0x800) :
    char2? (UInt8.ofNat (0xC0 + c.toNat / 64)) (tailByte c.toNat) = some c := by
  have hlead := toNat_leadByte 0xC0 (c.toNat / 64) (by omega)
  have hcode : (0xC0 + c.toNat / 64 - 0xC0) * 64 + c.toNat % 64 = c.toNat := by omega
  simp only [char2?, tailBits?_tailByte, hlead, Option.bind_eq_bind, Option.bind_some]
  rw [if_pos (by omega), hcode, charFrom?_toNat hleast]

theorem char3?_bytes {c : Char} (hleast : 0x800 ≤ c.toNat) (hbound : c.toNat < 0x10000) :
    char3? (UInt8.ofNat (0xE0 + c.toNat / 4096)) (tailByte (c.toNat / 64)) (tailByte c.toNat)
      = some c := by
  have hlead := toNat_leadByte 0xE0 (c.toNat / 4096) (by omega)
  have hcode : (0xE0 + c.toNat / 4096 - 0xE0) * 4096 + c.toNat / 64 % 64 * 64 + c.toNat % 64
      = c.toNat := by omega
  simp only [char3?, tailBits?_tailByte, hlead, Option.bind_eq_bind, Option.bind_some]
  rw [if_pos (by omega), hcode, charFrom?_toNat hleast]

theorem toNat_lt (c : Char) : c.toNat < 0x110000 := by
  rcases c.valid with h | h
  · exact Nat.lt_trans h (by omega)
  · exact h.2

theorem char4?_bytes {c : Char} (hleast : 0x10000 ≤ c.toNat) :
    char4? (UInt8.ofNat (0xF0 + c.toNat / 262144)) (tailByte (c.toNat / 4096))
      (tailByte (c.toNat / 64)) (tailByte c.toNat) = some c := by
  have hbound := toNat_lt c
  have hlead := toNat_leadByte 0xF0 (c.toNat / 262144) (by omega)
  have hcode : (0xF0 + c.toNat / 262144 - 0xF0) * 262144 + c.toNat / 4096 % 64 * 4096
      + c.toNat / 64 % 64 * 64 + c.toNat % 64 = c.toNat := by omega
  simp only [char4?, tailBits?_tailByte, hlead, Option.bind_eq_bind, Option.bind_some]
  rw [if_pos (by omega), hcode, charFrom?_toNat hleast]

/-- A character is read back from its bytes, whatever follows. -/
theorem decode?_encodeChar_append (c : Char) (s : List UInt8) :
    decode? (encodeChar c ++ s) = (decode? s).map (c :: ·) := by
  have hbound := toNat_lt c
  unfold encodeChar
  dsimp only
  by_cases h1 : c.toNat < 0x80
  · have hbyte : (UInt8.ofNat c.toNat).toNat = c.toNat := by
      rw [UInt8.toNat_ofNat']
      omega
    rw [if_pos h1, List.singleton_append, decode?.eq_def]
    dsimp only
    rw [hbyte, if_pos h1, Char.ofNat_toNat]
  by_cases h2 : c.toNat < 0x800
  · have hlead := toNat_leadByte 0xC0 (c.toNat / 64) (by omega)
    rw [if_neg h1, if_pos h2, List.cons_append, List.singleton_append, decode?.eq_def]
    dsimp only
    rw [hlead, if_neg (by omega), if_pos (by omega), char2?_bytes (by omega) h2]
    rfl
  by_cases h3 : c.toNat < 0x10000
  · have hlead := toNat_leadByte 0xE0 (c.toNat / 4096) (by omega)
    rw [if_neg h1, if_neg h2, if_pos h3, List.cons_append, List.cons_append,
      List.singleton_append, decode?.eq_def]
    dsimp only
    rw [hlead, if_neg (by omega), if_neg (by omega), if_pos (by omega),
      char3?_bytes (by omega) h3]
    rfl
  · have hlead := toNat_leadByte 0xF0 (c.toNat / 262144) (by omega)
    rw [if_neg h1, if_neg h2, if_neg h3, List.cons_append, List.cons_append, List.cons_append,
      List.singleton_append, decode?.eq_def]
    dsimp only
    rw [hlead, if_neg (by omega), if_neg (by omega), if_neg (by omega), char4?_bytes (by omega)]
    rfl

/-- **A text is read back from its bytes.** -/
theorem decode?_encode (s : Text) : decode? (encode s) = some s := by
  induction s with
  | nil => rfl
  | cons c s ih =>
    rw [encode, List.flatMap_cons, decode?_encodeChar_append]
    show (decode? (encode s)).map (c :: ·) = some (c :: s)
    rw [ih]
    rfl

/-! ### The bytes of what was read -/

theorem toNat_of_charFrom? {least n : Nat} {c : Char} (h : charFrom? least n = some c) :
    c.toNat = n := by
  unfold charFrom? at h
  split at h
  · rename_i hn
    obtain rfl := Option.some.inj h
    rw [Char.ofNat, dif_pos hn.2]
    rfl
  · exact nomatch h

theorem tailBits?_lt {b : UInt8} {n : Nat} (h : tailBits? b = some n) : n < 64 := by
  unfold tailBits? at h
  split at h
  · obtain rfl := Option.some.inj h
    omega
  · exact nomatch h

theorem length_encodeChar (c : Char) : (encodeChar c).length =
    if c.toNat < 0x80 then 1 else if c.toNat < 0x800 then 2 else if c.toNat < 0x10000 then 3
    else 4 := by
  unfold encodeChar
  dsimp only
  split_ifs <;> rfl

theorem length_of_char2? {b c : UInt8} {x : Char} (h : char2? b c = some x) :
    (encodeChar x).length ≤ 2 := by
  simp only [char2?, Option.bind_eq_bind, Option.bind_eq_some_iff] at h
  obtain ⟨y, hy, h⟩ := h
  split at h
  · have hcode := toNat_of_charFrom? h
    have hbits := tailBits?_lt hy
    rw [length_encodeChar]
    split_ifs <;> omega
  · exact nomatch h

theorem length_of_char3? {b c d : UInt8} {x : Char} (h : char3? b c d = some x) :
    (encodeChar x).length ≤ 3 := by
  simp only [char3?, Option.bind_eq_bind, Option.bind_eq_some_iff] at h
  obtain ⟨y, hy, z, hz, h⟩ := h
  split at h
  · have hcode := toNat_of_charFrom? h
    have hbits := tailBits?_lt hy
    have hbits' := tailBits?_lt hz
    rw [length_encodeChar]
    split_ifs <;> omega
  · exact nomatch h

theorem length_encodeChar_le_four (c : Char) : (encodeChar c).length ≤ 4 := by
  rw [length_encodeChar]
  split_ifs <;> omega

theorem length_encode_cons (c : Char) (s : Text) :
    (encode (c :: s)).length = (encodeChar c).length + (encode s).length := by
  rw [encode, List.flatMap_cons, List.length_append, encode]

/-- A text that has been read takes no more bytes than were read. -/
theorem length_encode_le {bytes : List UInt8} {s : Text} (h : decode? bytes = some s) :
    (encode s).length ≤ bytes.length := by
  have hsplit : ∀ {first : Option Char} {rest : List UInt8} {s : Text},
      (first.bind fun x => (decode? rest).map (x :: ·)) = some s →
      ∃ x t, first = some x ∧ decode? rest = some t ∧ s = x :: t := by
    intro first rest s h
    obtain ⟨x, hx, h⟩ := Option.bind_eq_some_iff.mp h
    obtain ⟨t, ht, rfl⟩ := Option.map_eq_some_iff.mp h
    exact ⟨x, t, hx, ht, rfl⟩
  fun_induction decode? bytes generalizing s with
  | case1 =>
    obtain rfl := Option.some.inj h
    exact Nat.le_refl _
  | case2 b rest hb ih =>
    obtain ⟨t, ht, rfl⟩ := Option.map_eq_some_iff.mp h
    have hchar : (encodeChar (Char.ofNat b.toNat)).length = 1 := by
      have hvalid : b.toNat.isValidChar := Or.inl (by omega)
      rw [length_encodeChar, Char.ofNat, dif_pos hvalid]
      exact if_pos hb
    have hrest := ih ht
    rw [length_encode_cons, List.length_cons]
    omega
  | case4 b _ c rest _ ih =>
    obtain ⟨x, t, hx, ht, rfl⟩ := hsplit h
    have hchar := length_of_char2? hx
    have hrest := ih ht
    simp only [length_encode_cons, List.length_cons]
    omega
  | case6 b _ c _ d rest _ ih =>
    obtain ⟨x, t, hx, ht, rfl⟩ := hsplit h
    have hchar := length_of_char3? hx
    have hrest := ih ht
    simp only [length_encode_cons, List.length_cons]
    omega
  | case8 b _ c _ d _ e rest ih =>
    obtain ⟨x, t, hx, ht, rfl⟩ := hsplit h
    have hchar := length_encodeChar_le_four x
    have hrest := ih ht
    simp only [length_encode_cons, List.length_cons]
    omega
  | case3 | case5 | case7 => exact nomatch h

end Utf8

end KanaKanji
