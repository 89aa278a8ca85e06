import Breadboard.Proofs.Source.Scanning
import Breadboard.Proofs.Text.Numerals
import Breadboard.Text.Column
import Mathlib.Algebra.Ring.Nat

/-!
# Columns of fixed width

A small number has exactly the digits that it is given (`Radix.length_write`), and a text that is
not too wide fills its column (`length_toList_padRight`), so that whatever follows is found at the
same place on every line. Bytes take up three characters each and are read back word by word
(`wordsOf_padRight_hexBytes`).
-/

namespace Breadboard

namespace Radix

/-- A small number has no more digits than it is given. -/
theorem length_digits (radix : Radix) {width number : Nat} (small : number < radix.base ^ width) :
    (radix.digits width number).length = width := by
  fun_induction digits radix width number with
  | case1 width number nothing => rw [nothing.1, List.length_nil]
  | case2 width number nonzero ih =>
    cases width with
    | zero =>
      rw [Nat.pow_zero, Nat.lt_one_iff] at small
      exact absurd ⟨rfl, small⟩ nonzero
    | succ width =>
      rw [Nat.pow_succ, Nat.mul_comm] at small
      rw [List.length_append, List.length_singleton, ih (Nat.div_lt_of_lt_mul small)]
      rfl

theorem length_write (radix : Radix) {width number : Nat} (small : number < radix.base ^ width) :
    (radix.write width number).toList.length = width := by
  rw [write, String.toList_ofList, List.length_map, radix.length_digits small]

/-- A numeral is a single word. -/
theorem isSeparator_of_mem_write (radix : Radix) (width number : Nat) :
    ∀ character ∈ (radix.write width number).toList, isSeparator character = false := by
  apply forall_mem_write
  decide

/-- A numeral stays on its line. -/
theorem not_mem_write (radix : Radix) (width number : Nat) :
    '\n' ∉ (radix.write width number).toList := by
  intro feed
  cases radix.isSeparator_of_mem_write width number '\n' feed

end Radix

theorem toList_padRight (width : Nat) (text : String) :
    (padRight width text).toList =
      text.toList ++ List.replicate (width - text.toList.length) ' ' := by
  rw [padRight, String.toList_append, String.toList_ofList, String.length_toList]

/-- A text fills its column, if it is not too wide for it. -/
theorem length_toList_padRight {width : Nat} {text : String} (narrow : text.toList.length ≤ width) :
    (padRight width text).toList.length = width := by
  rw [toList_padRight, List.length_append, List.length_replicate, Nat.add_sub_cancel' narrow]

/-- What fills up a column is no line feed. -/
theorem not_mem_padRight (width : Nat) {text : String} (noFeed : '\n' ∉ text.toList) :
    '\n' ∉ (padRight width text).toList := by
  rw [toList_padRight, List.mem_append]
  rintro (inText | blank)
  · exact noFeed inText
  · exact absurd (List.eq_of_mem_replicate blank) (by decide)

/-- The two digits of a byte. -/
def byteDigits (byte : UInt8) : List Char := (hex 2 byte.toNat).toList

theorem length_byteDigits (byte : UInt8) : (byteDigits byte).length = 2 :=
  Radix.hexadecimal.length_write byte.toNat_lt

theorem isSeparator_of_mem_byteDigits (byte : UInt8) :
    ∀ character ∈ byteDigits byte, isSeparator character = false :=
  Radix.hexadecimal.isSeparator_of_mem_write 2 byte.toNat

theorem toList_hexBytes (bytes : List UInt8) :
    (hexBytes bytes).toList = bytes.flatMap fun byte => byteDigits byte ++ [' '] := by
  rw [hexBytes, String.toList_join, List.flatMap_map]
  apply List.flatMap_congr
  intro byte _
  rw [String.toList_append]
  rfl

theorem toList_hexBytes_cons (byte : UInt8) (bytes : List UInt8) :
    (hexBytes (byte :: bytes)).toList = byteDigits byte ++ ' ' :: (hexBytes bytes).toList := by
  rw [toList_hexBytes, List.flatMap_cons, ← toList_hexBytes, List.append_assoc]
  rfl

theorem not_mem_hexBytes (bytes : List UInt8) : '\n' ∉ (hexBytes bytes).toList := by
  rw [toList_hexBytes, List.mem_flatMap]
  rintro ⟨byte, _, member⟩
  rcases List.mem_append.mp member with digit | space
  · cases isSeparator_of_mem_byteDigits byte '\n' digit
  · exact absurd space (by decide)

/-- Every byte takes up three characters. -/
theorem length_toList_hexBytes (bytes : List UInt8) :
    (hexBytes bytes).toList.length = 3 * bytes.length := by
  induction bytes with
  | nil => rfl
  | cons byte bytes ih =>
    rw [toList_hexBytes_cons, List.length_append, List.length_cons, length_byteDigits, ih,
      List.length_cons]
    omega

/-- A byte stands behind three characters for each byte in front of it. -/
theorem take_drop_hexBytes {bytes : List UInt8} {index : Nat} {byte : UInt8}
    (here : bytes[index]? = some byte) (following : List Char) :
    (((hexBytes bytes).toList ++ following).drop (3 * index)).take 3 =
      byteDigits byte ++ [' '] := by
  induction bytes generalizing index with
  | nil => cases here
  | cons first bytes ih =>
    have digits := length_byteDigits first
    cases index with
    | zero =>
      cases here
      rw [toList_hexBytes_cons, List.append_assoc, List.cons_append, Nat.mul_zero, List.drop_zero,
        List.take_append, digits, List.take_of_length_le (by omega)]
      rfl
    | succ index =>
      have behind : 3 * (index + 1) = 2 + (1 + 3 * index) := by omega
      rw [toList_hexBytes_cons, List.append_assoc, behind, List.drop_append, digits,
        List.drop_of_length_le (by omega), Nat.add_sub_cancel_left, Nat.add_comm 1]
      exact ih here

theorem wordsOf_replicate_space (count : Nat) : wordsOf (List.replicate count ' ') = [] := by
  induction count with
  | zero =>
    rw [List.replicate_zero, wordsOf, List.splitOnP_nil]
    rfl
  | succ count ih => rw [List.replicate_succ, wordsOf_cons_of_isSeparator rfl, ih]

/-- **Bytes in a column are read back word by word.** -/
theorem wordsOf_padRight_hexBytes (width : Nat) (bytes : List UInt8) :
    wordsOf (padRight width (hexBytes bytes)).toList = bytes.map byteDigits := by
  rw [toList_padRight]
  generalize width - (hexBytes bytes).toList.length = blanks
  induction bytes with
  | nil => exact wordsOf_replicate_space blanks
  | cons byte bytes ih =>
    -- The space behind its digits separates the byte from the next one.
    have space : ∀ character ∈
        (' ' :: ((hexBytes bytes).toList ++ List.replicate blanks ' ')).head?,
        isSeparator character = true := by
      rintro _ ⟨⟩
      rfl
    have digits : byteDigits byte ≠ [] := by
      rw [← List.length_pos_iff, length_byteDigits]
      exact Nat.zero_lt_two
    rw [toList_hexBytes_cons, List.append_assoc, List.cons_append,
      wordsOf_append digits (isSeparator_of_mem_byteDigits byte) space,
      wordsOf_cons_of_isSeparator rfl, ih]
    rfl

/-- Reads the digits of a byte. -/
def readByte? (digits : List Char) : Option UInt8 :=
  (Radix.hexadecimal.read? digits).map UInt8.ofNat

theorem readByte?_byteDigits (byte : UInt8) : readByte? (byteDigits byte) = some byte := by
  have read : Radix.hexadecimal.read? (byteDigits byte) = some byte.toNat :=
    Radix.hexadecimal.read?_write Nat.zero_lt_two
  rw [readByte?, read, Option.map_some, UInt8.ofNat_toNat]

/-- The bits of a byte stand in two groups of four, with a character between them. -/
theorem length_bitGroups (byte : UInt8) : (bitGroups byte).toList.length = 9 := by
  have everyGroup : ∀ group : UInt8, group.toNat < 16 →
      (Radix.binary.write 4 group.toNat).toList.length = 4 :=
    fun group small => Radix.binary.length_write small
  have high : (byte >>> 4).toNat < 16 := by
    have small := byte.toNat_lt
    rw [UInt8.toNat_shiftRight]
    change byte.toNat >>> 4 < 16
    rw [Nat.shiftRight_eq_div_pow]
    omega
  have low : (byte &&& 0x0F).toNat < 16 := by
    rw [UInt8.toNat_and]
    exact Nat.lt_of_le_of_lt Nat.and_le_right (by decide)
  rw [bitGroups, String.toList_append, String.toList_append, List.length_append,
    List.length_append, everyGroup _ high, everyGroup _ low]
  rfl

theorem not_mem_bitGroups (byte : UInt8) : '\n' ∉ (bitGroups byte).toList := by
  rw [bitGroups, String.toList_append, String.toList_append, List.mem_append, List.mem_append]
  rintro ((high | mark) | low)
  · exact Radix.binary.not_mem_write _ _ high
  · exact absurd mark (by decide)
  · exact Radix.binary.not_mem_write _ _ low

end Breadboard
