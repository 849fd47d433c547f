import Mathlib
import MisuseSlice.Text.Utf8

/-! UTF-8. The bytes of a text read back as its characters, with no stray bytes between them. -/
namespace MisuseSlice.Text

/-- A character is no surrogate and within the range of characters. -/
theorem toNat_char (c : Char) : c.toNat < 0xD800 ∨ (0xDFFF < c.toNat ∧ c.toNat < 0x110000) := c.valid

theorem toNat_toUInt8 {n : Nat} (small : n < 256) : n.toUInt8.toNat = n := by
  rw [Nat.toUInt8, UInt8.toNat_ofNat', Nat.mod_eq_of_lt (by omega)]

/-- A continuation byte gives its six bits. -/
theorem tail?_byte {n : Nat} (small : n < 0x40) : tail? (0x80 + n).toUInt8 = some n := by
  rw [tail?, toNat_toUInt8 (by omega), if_pos (by omega), Nat.add_sub_cancel_left]

/-- The first byte of a character tells the character and how many bytes follow. -/
theorem leading?_encodeChar (c : Char) (rest : Bytes) :
    ∃ a more, encodeChar c = a :: more ∧ leading? a (more ++ rest) = some (c, more.length) := by
  have valid := toNat_char c
  have same := Char.ofNat_toNat c
  rw [encodeChar]
  generalize c.toNat = n at valid same ⊢
  split_ifs with one two three
  · refine ⟨_, _, rfl, ?_⟩
    simp only [leading?, toNat_toUInt8 (show n < 256 by omega), one, ↓reduceIte, same, List.length_nil]
  · refine ⟨_, _, rfl, ?_⟩
    have value : (0xC0 + n / 0x40 - 0xC0) * 0x40 + n % 0x40 = n := by omega
    unfold leading?
    simp only [toNat_toUInt8 (show 0xC0 + n / 0x40 < 256 by omega), List.cons_append,
      tail?_byte (show n % 0x40 < 0x40 by omega), Option.map_some, value, same, List.length_singleton]
    rw [if_neg (by omega), if_neg (by omega), if_pos (by omega)]
  · refine ⟨_, _, rfl, ?_⟩
    have value : (0xE0 + n / 0x1000 - 0xE0) * 0x1000 + n / 0x40 % 0x40 * 0x40 + n % 0x40 = n := by omega
    unfold leading?
    simp only [toNat_toUInt8 (show 0xE0 + n / 0x1000 < 256 by omega), List.cons_append,
      tail?_byte (show n / 0x40 % 0x40 < 0x40 by omega), tail?_byte (show n % 0x40 < 0x40 by omega), value, same]
    rw [if_neg (by omega), if_neg (by omega), if_neg (by omega), if_pos (by omega), if_neg (by omega)]
    rfl
  · refine ⟨_, _, rfl, ?_⟩
    have value : (0xF0 + n / 0x40000 - 0xF0) * 0x40000 + n / 0x1000 % 0x40 * 0x1000 + n / 0x40 % 0x40 * 0x40 +
        n % 0x40 = n := by omega
    unfold leading?
    simp only [toNat_toUInt8 (show 0xF0 + n / 0x40000 < 256 by omega), List.cons_append,
      tail?_byte (show n / 0x1000 % 0x40 < 0x40 by omega), tail?_byte (show n / 0x40 % 0x40 < 0x40 by omega),
      tail?_byte (show n % 0x40 < 0x40 by omega), value, same]
    rw [if_neg (by omega), if_neg (by omega), if_neg (by omega), if_neg (by omega), if_pos (by omega),
      if_neg (by omega)]
    rfl

/-- The bytes of a character before others are read as the character. -/
theorem runes_encodeChar_append (c : Char) (rest : Bytes) : runes (encodeChar c ++ rest) = .char c :: runes rest := by
  have skipped : ∀ more : Bytes, runesFrom more.length (more ++ rest) = runesFrom 0 rest := by
    intro more
    induction more with
    | nil => rfl
    | cons b more ih => exact ih
  obtain ⟨a, more, bytes, read⟩ := leading?_encodeChar c rest
  rw [bytes, runes, List.cons_append, runesFrom, read]
  exact congrArg _ (skipped more)

/-- The bytes of characters are read as the characters. -/
theorem runes_encode (cs : List Char) : runes (encode cs) = cs.map .char := by
  induction cs with
  | nil => rfl
  | cons c cs ih =>
    rw [encode, List.flatMap_cons, runes_encodeChar_append, ← encode, ih, List.map_cons]

theorem bytesOf_ofList (cs : List Char) : bytesOf (String.ofList cs) = encode cs := by
  rw [bytesOf, String.toList_ofList]

/-- The bytes of a text show as the text. -/
@[simp] theorem shown_bytesOf (s : String) : shown (bytesOf s) = s := by
  have same : Rune.shown ∘ Rune.char = id := rfl
  rw [shown, bytesOf, runes_encode, List.map_map, same, List.map_id, String.ofList_toList]

theorem bytesOf_inj {s t : String} : bytesOf s = bytesOf t ↔ s = t :=
  ⟨fun same => by rw [← shown_bytesOf s, same, shown_bytesOf], congrArg bytesOf⟩

end MisuseSlice.Text
