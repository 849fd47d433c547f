import Mathlib
import MisuseSlice.Packed.Item
import MisuseSlice.Proofs.Text.Utf8

/-! Packed data reads back as it was written. Each form of a number or a size is the shortest that has room for it, and
an item is shorter than what it is nested in, so reading to the depth of the number of bytes reaches all of them. -/
namespace MisuseSlice.Packed

open Text (Bytes toNat_toUInt8)

theorem length_bigEndian (width n : Nat) : (bigEndian width n).length = width := by
  induction width generalizing n with
  | zero => rfl
  | succ width ih => rw [bigEndian, List.length_append, ih, List.length_singleton]

/-- The bytes of a number that they have room for denote the number. -/
theorem number_bigEndian {width n : Nat} (room : n < 256 ^ width) : number (bigEndian width n) = n := by
  induction width generalizing n with
  | zero =>
    rw [Nat.pow_zero] at room
    rw [Nat.lt_one_iff.mp room]
    rfl
  | succ width ih =>
    have shorter : n / 256 < 256 ^ width := Nat.div_lt_of_lt_mul (by rwa [Nat.pow_succ'] at room)
    have found := ih shorter
    rw [number] at found ⊢
    rw [bigEndian, List.foldl_append, found, List.foldl_cons, List.foldl_nil,
      toNat_toUInt8 (Nat.mod_lt n (by decide))]
    omega

namespace Item

theorem take?_append (bs rest : Bytes) : take? bs.length (bs ++ rest) = some (bs, rest) := by
  rw [take?, if_neg (by rw [List.length_append]; omega), List.take_left, List.drop_left]

theorem number?_bigEndian {width n : Nat} (room : n < 256 ^ width) (rest : Bytes) :
    number? width (bigEndian width n ++ rest) = some (n, rest) := by
  have taken := take?_append (bigEndian width n) rest
  rw [length_bigEndian] at taken
  simp only [number?, taken, Option.map_some, number_bigEndian room]

theorem signed_nonneg {width n : Nat} (small : n < 2 ^ (8 * width - 1)) : signed width n = n := if_pos small

theorem signed_neg {width n : Nat} (big : 2 ^ (8 * width - 1) ≤ n) : signed width n = n - (2 ^ (8 * width) : Nat) :=
  if_neg (Nat.not_lt.mpr big)

mutual

/-- Numbers have 64 bits, texts and collections have sizes of 32 bits, and there are no foreign items. -/
def isStorable : Item → Bool
  | .null | .truth _ => true
  | .integer n => decide (-0x8000000000000000 ≤ n ∧ n < 0x8000000000000000)
  | .bytes bs => decide (bs.length < 0x100000000)
  | .list items => decide (items.length < 0x100000000) && areStorable items
  | .record entries => decide (entries.length < 0x100000000) && entriesAreStorable entries
  | .foreign _ => false

/-- All items are storable. -/
def areStorable : List Item → Bool
  | [] => true
  | x :: rest => isStorable x && areStorable rest

/-- All entries are storable. -/
def entriesAreStorable : List (Item × Item) → Bool
  | [] => true
  | e :: rest => entryIsStorable e && entriesAreStorable rest

/-- Key and value are storable. -/
def entryIsStorable : Item × Item → Bool
  | (key, value) => isStorable key && isStorable value

end

/-- Bytes after a first one that tells an integer in the form of unsigned digits. -/
theorem read?_unsigned {depth width n : Nat} {code : UInt8} (rest : Bytes) (room : n < 256 ^ width)
    (form : ∀ rest, read? (depth + 1) (code :: rest) = (number? width rest).map fun (n, rest) => (.integer n, rest)) :
    read? (depth + 1) (code :: bigEndian width n ++ rest) = some (.integer n, rest) := by
  rw [List.cons_append, form, number?_bigEndian room, Option.map_some]

theorem read?_signed {width n : Nat} (depth : Nat) (code : UInt8) (rest : Bytes) (room : n < 256 ^ width)
    (form : ∀ rest, read? (depth + 1) (code :: rest) =
      (number? width rest).map fun (n, rest) => (.integer (signed width n), rest)) :
    read? (depth + 1) (code :: bigEndian width n ++ rest) = some (.integer (signed width n), rest) := by
  rw [List.cons_append, form, number?_bigEndian room, Option.map_some]

theorem read?_writeInteger {n : Int} (low : -0x8000000000000000 ≤ n) (high : n < 0x8000000000000000) (depth : Nat)
    (rest : Bytes) : read? (depth + 1) (writeInteger n ++ rest) = some (.integer n, rest) := by
  rcases n with m | m
  · rw [Int.ofNat_eq_natCast] at high
    rw [writeInteger]
    split_ifs with one two three four
    · rw [List.singleton_append, read?]
      simp only [toNat_toUInt8 (show m < 256 by omega), one, ↓reduceIte]
      rfl
    · exact read?_unsigned rest (by omega) fun _ => rfl
    · exact read?_unsigned rest (by omega) fun _ => rfl
    · exact read?_unsigned rest (by omega) fun _ => rfl
    · have read := read?_signed depth 0xCF rest (show m < 256 ^ 8 by omega) fun _ => rfl
      rwa [signed_nonneg (show m < 2 ^ 63 by omega)] at read
  · rw [Int.negSucc_eq] at low
    rw [writeInteger]
    -- two's complement of each width gives the number back
    have negative (width n : Nat) (big : 2 ^ (8 * width - 1) ≤ n) (sum : n + m + 1 = 2 ^ (8 * width)) :
        signed width n = Int.negSucc m := by
      rw [signed_neg big, Int.negSucc_eq]
      omega
    split_ifs with one two three four
    · rw [List.singleton_append, read?]
      simp only [toNat_toUInt8 (show 0xFF - m < 256 by omega)]
      rw [if_neg (by omega), if_neg (by omega), if_neg (by omega), if_neg (by omega), if_pos (by omega), Int.negSucc_eq]
      congr 3
      omega
    · have read := read?_signed depth 0xD0 rest (show 0xFF - m < 256 ^ 1 by omega) fun _ => rfl
      rwa [negative 1 _ (by omega) (by omega)] at read
    · have read := read?_signed depth 0xD1 rest (show 0xFFFF - m < 256 ^ 2 by omega) fun _ => rfl
      rwa [negative 2 _ (by omega) (by omega)] at read
    · have read := read?_signed depth 0xD2 rest (show 0xFFFFFFFF - m < 256 ^ 4 by omega)
        fun _ => rfl
      rwa [negative 4 _ (by omega) (by omega)] at read
    · have read := read?_signed depth 0xD3 rest (show 0xFFFFFFFFFFFFFFFF - m < 256 ^ 8 by omega)
        fun _ => rfl
      rwa [negative 8 _ (by omega) (by omega)] at read

theorem read?_writeBytes {bs : Bytes} (room : bs.length < 0x100000000) (depth : Nat) (rest : Bytes) :
    read? (depth + 1) (writeBytes bs ++ rest) = some (.bytes bs, rest) := by
  have sized (width : Nat) (code : UInt8) (room : bs.length < 256 ^ width)
      (form : ∀ {packed n after}, number? width packed = some (n, after) → take? n after = some (bs, rest) →
        read? (depth + 1) (code :: packed) = some (.bytes bs, rest)) :
      read? (depth + 1) (code :: bigEndian width bs.length ++ bs ++ rest) = some (.bytes bs, rest) := by
    rw [List.append_assoc, List.cons_append]
    exact form (number?_bigEndian room _) (take?_append bs rest)
  rw [writeBytes]
  split_ifs with one two three
  · rw [List.append_assoc, List.singleton_append, read?]
    simp only [toNat_toUInt8 (show 0xA0 + bs.length < 256 by omega)]
    rw [if_neg (by omega), if_neg (by omega), if_neg (by omega), if_pos (by omega), Nat.add_sub_cancel_left, take?_append]
    rfl
  · exact sized 1 _ (by omega) fun size taken => by simp [read?, size, taken]
  · exact sized 2 _ (by omega) fun size taken => by simp [read?, size, taken]
  · exact sized 4 _ (by omega) fun size taken => by simp [read?, size, taken]

theorem read?_listSize {size : Nat} (room : size < 0x100000000) (depth : Nat) (rest : Bytes) :
    read? (depth + 1) (writeSize 0x90 0xDC size ++ rest) =
      (many? (read? depth) size rest).map fun (xs, rest) => (.list xs, rest) := by
  have sized (width : Nat) (code : UInt8) (room : size < 256 ^ width)
      (form : ∀ rest, read? (depth + 1) (code :: rest) = (number? width rest).bind fun (n, rest) =>
        (many? (read? depth) n rest).map fun (xs, rest) => (.list xs, rest)) :
      read? (depth + 1) (code :: bigEndian width size ++ rest) =
        (many? (read? depth) size rest).map fun (xs, rest) => (.list xs, rest) := by
    rw [List.cons_append, form, number?_bigEndian room, Option.bind_some]
  rw [writeSize]
  split_ifs with one two
  · rw [List.singleton_append, read?]
    simp only [toNat_toUInt8 (show 0x90 + size < 256 by omega)]
    rw [if_neg (by omega), if_neg (by omega), if_pos (by omega), Nat.add_sub_cancel_left]
  · exact sized 2 _ (by omega) fun _ => rfl
  · exact sized 4 _ (by omega) fun _ => rfl

theorem read?_recordSize {size : Nat} (room : size < 0x100000000) (depth : Nat) (rest : Bytes) :
    read? (depth + 1) (writeSize 0x80 0xDE size ++ rest) =
      (many? (pair? (read? depth)) size rest).map fun (es, rest) => (.record es, rest) := by
  have sized (width : Nat) (code : UInt8) (room : size < 256 ^ width)
      (form : ∀ rest, read? (depth + 1) (code :: rest) = (number? width rest).bind fun (n, rest) =>
        (many? (pair? (read? depth)) n rest).map fun (es, rest) => (.record es, rest)) :
      read? (depth + 1) (code :: bigEndian width size ++ rest) =
        (many? (pair? (read? depth)) size rest).map fun (es, rest) => (.record es, rest) := by
    rw [List.cons_append, form, number?_bigEndian room, Option.bind_some]
  rw [writeSize]
  split_ifs with one two
  · rw [List.singleton_append, read?]
    simp only [toNat_toUInt8 (show 0x80 + size < 256 by omega)]
    rw [if_neg (by omega), if_pos (by omega), Nat.add_sub_cancel_left]
  · exact sized 2 _ (by omega) fun _ => rfl
  · exact sized 4 _ (by omega) fun _ => rfl

theorem length_writeSize_pos (short code size : Nat) : 0 < (writeSize short code size).length := by
  rw [writeSize]
  split_ifs <;> simp

mutual

/-- A storable item is read back from what is written of it, whatever follows. -/
theorem read?_write : ∀ (x : Item), x.isStorable = true → ∀ (depth : Nat) (rest : Bytes), x.write.length < depth →
    read? depth (x.write ++ rest) = some (x, rest)
  | .null, _, depth + 1, _, _ => rfl
  | .truth true, _, depth + 1, _, _ => rfl
  | .truth false, _, depth + 1, _, _ => rfl
  | .integer n, storable, depth + 1, rest, _ => by
    rw [isStorable, decide_eq_true_eq] at storable
    exact read?_writeInteger storable.1 storable.2 depth rest
  | .bytes bs, storable, depth + 1, rest, _ => by
    rw [isStorable, decide_eq_true_eq] at storable
    exact read?_writeBytes storable depth rest
  | .list items, storable, depth + 1, rest, deep => by
    rw [isStorable, Bool.and_eq_true, decide_eq_true_eq] at storable
    rw [write, List.length_append] at deep
    have head := length_writeSize_pos 0x90 0xDC items.length
    rw [write, List.append_assoc, read?_listSize storable.1,
      many?_writeAll items storable.2 depth rest (by omega), Option.map_some]
  | .record entries, storable, depth + 1, rest, deep => by
    rw [isStorable, Bool.and_eq_true, decide_eq_true_eq] at storable
    rw [write, List.length_append] at deep
    have head := length_writeSize_pos 0x80 0xDE entries.length
    rw [write, List.append_assoc, read?_recordSize storable.1,
      many?_writeEntries entries storable.2 depth rest (by omega), Option.map_some]

/-- Storable items are read back one after the other. -/
theorem many?_writeAll : ∀ (items : List Item), areStorable items = true → ∀ (depth : Nat) (rest : Bytes),
    (writeAll items).length < depth →
    many? (read? depth) items.length (writeAll items ++ rest) = some (items, rest)
  | [], _, _, _, _ => rfl
  | x :: items, storable, depth, rest, deep => by
    rw [areStorable, Bool.and_eq_true] at storable
    rw [writeAll, List.length_append] at deep
    rw [writeAll, List.append_assoc, List.length_cons, many?, read?_write x storable.1 depth _ (by omega)]
    simp only [many?_writeAll items storable.2 depth rest (by omega), Option.map_some]

/-- Storable entries are read back one after the other. -/
theorem many?_writeEntries : ∀ (entries : List (Item × Item)), entriesAreStorable entries = true →
    ∀ (depth : Nat) (rest : Bytes), (writeEntries entries).length < depth →
    many? (pair? (read? depth)) entries.length (writeEntries entries ++ rest) = some (entries, rest)
  | [], _, _, _, _ => rfl
  | e :: entries, storable, depth, rest, deep => by
    rw [entriesAreStorable, Bool.and_eq_true] at storable
    rw [writeEntries, List.length_append] at deep
    rw [writeEntries, List.append_assoc, List.length_cons, many?, pair?_writeEntry e storable.1 depth _ (by omega)]
    simp only [many?_writeEntries entries storable.2 depth rest (by omega), Option.map_some]

/-- The key and the value of an entry are read back. -/
theorem pair?_writeEntry : ∀ (e : Item × Item), entryIsStorable e = true → ∀ (depth : Nat) (rest : Bytes),
    (writeEntry e).length < depth → pair? (read? depth) (writeEntry e ++ rest) = some (e, rest)
  | (key, value), storable, depth, rest, deep => by
    rw [entryIsStorable, Bool.and_eq_true] at storable
    rw [writeEntry, List.length_append] at deep
    rw [writeEntry, List.append_assoc, pair?, read?_write key storable.1 depth _ (by omega)]
    simp only [read?_write value storable.2 depth rest (by omega), Option.map_some]

end

/-- The packed form of the item is read as the item. -/
def RoundTrips (x : Item) : Prop := ofBytes? x.write = some x

/-- Every storable item survives being written and read. -/
theorem roundTrips_of_storable {x : Item} (storable : x.isStorable = true) : x.RoundTrips := by
  have read := read?_write x storable (x.write.length + 1) [] (by omega)
  rw [List.append_nil] at read
  rw [RoundTrips, ofBytes?, read, Option.map_some]

end Item

end MisuseSlice.Packed
