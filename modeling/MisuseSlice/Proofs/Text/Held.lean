import Mathlib
import MisuseSlice.Proofs.Folds
import MisuseSlice.Proofs.Text.Utf8
import MisuseSlice.Text.Held

/-! Texts that hold bytes. The runes of a byte sequence have its bytes, so a text that holds bytes gives them back,
whatever they are: what is kept of a dump is the dump itself. -/
namespace MisuseSlice.Text

/-! ### Bytes of runes -/

theorem tail?_eq_some {b : UInt8} {x : Nat} (found : tail? b = some x) : x < 0x40 ∧ b = (0x80 + x).toUInt8 := by
  rw [tail?] at found
  split_ifs at found with range
  simp only [Option.some.injEq] at found
  have whole : 0x80 + x = b.toNat := by omega
  exact ⟨by omega, by rw [whole, Nat.toUInt8_eq, UInt8.ofNat_toNat]⟩

/-- The character that is read from bytes is written as them. -/
theorem encodeChar_of_leading? {a : UInt8} {rest : Bytes} {c : Char} {more : Nat}
    (found : leading? a rest = some (c, more)) : encodeChar c = a :: rest.take more := by
  have code {n : Nat} (valid : n < 0xD800 ∨ (0xDFFF < n ∧ n < 0x110000)) : (Char.ofNat n).toNat = n := by
    rw [Char.toNat_ofNat, if_pos valid]
  have first : a.toNat.toUInt8 = a := UInt8.ofNat_toNat
  unfold leading? at found
  generalize a.toNat = n at first found
  subst first
  dsimp only at found
  split_ifs at found with one low two three four
  · cases found
    rw [encodeChar, code (by omega)]
    simp [one]
  · rcases rest with _ | ⟨b, rest⟩
    · cases found
    simp only [Option.map_eq_some_iff, Prod.mk.injEq] at found
    obtain ⟨x, tail, rfl, rfl⟩ := found
    obtain ⟨small, rfl⟩ := tail?_eq_some tail
    rw [encodeChar, code (by omega)]
    rw [if_neg (by omega), if_pos (by omega), show 0xC0 + ((n - 0xC0) * 0x40 + x) / 0x40 = n by omega,
      show ((n - 0xC0) * 0x40 + x) % 0x40 = x by omega]
    rfl
  · rcases rest with _ | ⟨b, _ | ⟨c, rest⟩⟩
    · cases found
    · cases found
    dsimp only at found
    split at found
    · rename_i x y tail tail'
      split_ifs at found with range
      cases found
      obtain ⟨small, rfl⟩ := tail?_eq_some tail
      obtain ⟨small', rfl⟩ := tail?_eq_some tail'
      rw [encodeChar, code (by omega)]
      rw [if_neg (by omega), if_neg (by omega), if_pos (by omega),
        show 0xE0 + ((n - 0xE0) * 0x1000 + x * 0x40 + y) / 0x1000 = n by omega,
        show ((n - 0xE0) * 0x1000 + x * 0x40 + y) / 0x40 % 0x40 = x by omega,
        show ((n - 0xE0) * 0x1000 + x * 0x40 + y) % 0x40 = y by omega]
      rfl
    · cases found
  · rcases rest with _ | ⟨b, _ | ⟨c, _ | ⟨d, rest⟩⟩⟩
    · cases found
    · cases found
    · cases found
    dsimp only at found
    split at found
    · rename_i x y z tail tail' tail''
      split_ifs at found with range
      cases found
      obtain ⟨small, rfl⟩ := tail?_eq_some tail
      obtain ⟨small', rfl⟩ := tail?_eq_some tail'
      obtain ⟨small'', rfl⟩ := tail?_eq_some tail''
      rw [encodeChar, code (by omega)]
      rw [if_neg (by omega), if_neg (by omega), if_neg (by omega),
        show 0xF0 + ((n - 0xF0) * 0x40000 + x * 0x1000 + y * 0x40 + z) / 0x40000 = n by omega,
        show ((n - 0xF0) * 0x40000 + x * 0x1000 + y * 0x40 + z) / 0x1000 % 0x40 = x by omega,
        show ((n - 0xF0) * 0x40000 + x * 0x1000 + y * 0x40 + z) / 0x40 % 0x40 = y by omega,
        show ((n - 0xF0) * 0x40000 + x * 0x1000 + y * 0x40 + z) % 0x40 = z by omega]
      rfl
    · cases found

/-- The bytes of the runes of a byte sequence are the byte sequence. -/
theorem flatMap_bytes_runes (bs : Bytes) : (runes bs).flatMap Rune.bytes = bs := by
  have behind : ∀ skip, (runesFrom skip bs).flatMap Rune.bytes = bs.drop skip := by
    induction bs with
    | nil =>
      intro skip
      cases skip <;> rfl
    | cons a rest ih =>
      rintro (_ | skip)
      · rw [runesFrom]
        split
        · rename_i c more found
          rw [List.flatMap_cons, ih, Rune.bytes, encodeChar_of_leading? found, List.cons_append,
            List.take_append_drop, List.drop_zero]
        · rw [List.flatMap_cons, ih]
          rfl
      · exact ih skip
  exact behind 0

theorem ofBytes?_eq_some {bs : Bytes} {s : String} (found : ofBytes? bs = some s) : bytesOf s = bs := by
  obtain ⟨cs, made, rfl⟩ := Option.map_eq_some_iff.mp found
  have chars : runes bs = cs.map .char := by
    have same := map_of_mapM_eq_some made
    clear made found
    generalize runes bs = rs at same
    induction rs generalizing cs with
    | nil => rw [List.map_eq_nil_iff.mp same.symm, List.map_nil]
    | cons r rs ih =>
      rcases cs with _ | ⟨c, cs⟩
      · cases same
      rw [List.map_cons, List.map_cons, List.cons.injEq] at same
      rcases r with c' | b
      · rw [List.map_cons, ih cs same.2, Option.some.inj same.1]
      · cases same.1
  rw [bytesOf_ofList, encode, ← flatMap_bytes_runes bs, chars, List.flatMap_map]
  rfl

/-! ### Texts that hold bytes -/

theorem byteOf?_standIn (b : UInt8) : byteOf? (standIn b) = some b := by
  have below := b.toNat_lt
  have code : (standIn b).toNat = 0x10FF00 + b.toNat := by
    rw [standIn, Char.toNat_ofNat, if_pos (.inr ⟨by omega, by omega⟩)]
  rw [byteOf?, code, if_pos (by omega), Nat.add_sub_cancel_left, Nat.toUInt8_eq,
    UInt8.ofNat_toNat]

/-- The text that holds bytes gives them back. -/
@[simp] theorem bytesHeld_holding (bs : Bytes) : bytesHeld (holding bs) = bs := by
  have each (r : Rune) : r.held.flatMap bytesOfHeld = r.bytes := by
    have stood (b : UInt8) : bytesOfHeld (standIn b) = [b] := by rw [bytesOfHeld, byteOf?_standIn]
    cases r with
    | char c =>
      rw [Rune.held, Rune.bytes]
      split
      · simp only [List.flatMap_map, stood, List.flatMap_singleton']
      · rename_i free
        simp [bytesOfHeld, Option.not_isSome_iff_eq_none.mp free]
    | stray b => simp [Rune.held, Rune.bytes, stood]
  rw [bytesHeld, holding, String.toList_ofList, List.flatMap_assoc]
  simp only [each, flatMap_bytes_runes]

/-- The text holds some bytes: it is what a dump gives. -/
def IsHeld (s : String) : Prop := ∃ bs, holding bs = s

theorem isHeld_iff {s : String} : IsHeld s ↔ holding (bytesHeld s) = s := by
  constructor
  · rintro ⟨bs, rfl⟩
    rw [bytesHeld_holding]
  · exact fun same => ⟨_, same⟩

instance (s : String) : Decidable (IsHeld s) := decidable_of_iff _ isHeld_iff.symm

/-- The bytes that the text holds are UTF-8. -/
def IsLegible (s : String) : Prop := (ofBytes? (bytesHeld s)).isSome

instance (s : String) : Decidable (IsLegible s) := inferInstanceAs (Decidable ((ofBytes? _).isSome = true))

end MisuseSlice.Text
