import Mathlib.Data.Nat.ModEq
import Mathlib.Data.List.Induction

/-! Byte strings with big-endian numbers of fixed width and with a known head:
each reader undoes its writer, and a string that a reader accepts is what the
writer writes. -/
namespace BigEndian

abbrev Bytes := List UInt8

/-- The number in exactly `width` bytes, the most significant one first. -/
def pack : Nat → Nat → Bytes
  | 0, _ => []
  | width + 1, value => pack width (value / 256) ++ [UInt8.ofNat value]

/-- The number of a byte string. -/
def unpack (bytes : Bytes) : Nat := bytes.foldl (fun value byte => 256 * value + byte.toNat) 0

@[simp] theorem length_pack (width value : Nat) : (pack width value).length = width := by
  induction width generalizing value with
  | zero => rfl
  | succ width ih => simp [pack, ih]

theorem unpack_snoc (bytes : Bytes) (byte : UInt8) : unpack (bytes ++ [byte]) = 256 * unpack bytes + byte.toNat := by
  simp [unpack]

/-- A number that fits is read back. -/
theorem unpack_pack {width value : Nat} (h : value < 256 ^ width) : unpack (pack width value) = value := by
  induction width generalizing value with
  | zero =>
      rw [pow_zero] at h
      obtain rfl : value = 0 := by omega
      rfl
  | succ width ih =>
      have hHigh : value / 256 < 256 ^ width := Nat.div_lt_of_lt_mul (by rwa [pow_succ, Nat.mul_comm] at h)
      rw [pack, unpack_snoc, ih hHigh, UInt8.toNat_ofNat']
      omega

theorem unpack_lt (bytes : Bytes) : unpack bytes < 256 ^ bytes.length := by
  induction bytes using List.reverseRecOn with
  | nil => simp [unpack]
  | append_singleton bytes byte ih =>
      have hByte := byte.toNat_lt
      rw [unpack_snoc, List.length_append, List.length_singleton, pow_succ]
      omega

/-- Every byte string is the writing of its number. -/
theorem pack_unpack (bytes : Bytes) : pack bytes.length (unpack bytes) = bytes := by
  induction bytes using List.reverseRecOn with
  | nil => rfl
  | append_singleton bytes byte ih =>
      have hByte := byte.toNat_lt
      have hHigh : (256 * unpack bytes + byte.toNat) / 256 = unpack bytes := by omega
      have hLow : UInt8.ofNat (256 * unpack bytes + byte.toNat) = byte := by
        apply UInt8.toNat_inj.mp
        rw [UInt8.toNat_ofNat']
        omega
      rw [List.length_append, List.length_singleton, pack, unpack_snoc, hHigh, hLow, ih]

/-- Bytes at an offset. -/
def slice (bytes : Bytes) (start length : Nat) : Bytes := (bytes.drop start).take length

theorem length_slice {bytes : Bytes} {start length : Nat} (h : start + length ≤ bytes.length) :
    (slice bytes start length).length = length := by
  simp only [slice, List.length_take, List.length_drop]
  omega

/-- The bytes between a head and a rest of known lengths. -/
theorem slice_between {bytes head middle rest : Bytes} {start length : Nat} (hBytes : bytes = head ++ (middle ++ rest))
    (hHead : head.length = start) (hMiddle : middle.length = length) : slice bytes start length = middle := by
  subst hBytes hHead hMiddle
  simp [slice]

theorem drop_behind {bytes head rest : Bytes} {start : Nat} (hBytes : bytes = head ++ rest) (hHead : head.length = start) :
    bytes.drop start = rest := by
  subst hBytes hHead
  simp

/-- A slice of a known length is the writing of its number. -/
theorem pack_unpack_slice {bytes : Bytes} {start length : Nat} (h : start + length ≤ bytes.length) :
    pack length (unpack (slice bytes start length)) = slice bytes start length := by
  have hPack := pack_unpack (slice bytes start length)
  rwa [length_slice h] at hPack

theorem unpack_slice_lt {bytes : Bytes} {start length : Nat} (h : start + length ≤ bytes.length) :
    unpack (slice bytes start length) < 256 ^ length := by
  have hLess := unpack_lt (slice bytes start length)
  rwa [length_slice h] at hLess

/-- A long enough byte string is its head, the bytes after it and the rest. -/
theorem split_slice (bytes : Bytes) (start length : Nat) :
    bytes.drop start = slice bytes start length ++ bytes.drop (start + length) := by
  rw [slice, ← List.drop_drop, List.take_append_drop]

theorem eq_head_append {head bytes : Bytes} (h : head.isPrefixOf bytes = true) :
    bytes = head ++ bytes.drop head.length := by
  obtain ⟨rest, rfl⟩ := List.isPrefixOf_iff_prefix.mp h
  simp

theorem isPrefixOf_append (head rest : Bytes) : head.isPrefixOf (head ++ rest) = true :=
  List.isPrefixOf_iff_prefix.mpr (List.prefix_append head rest)

end BigEndian
