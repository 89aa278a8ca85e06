import Breadboard.Proofs.Isa.Encoding

/-!
# Encoding what was decoded

The bytes that an instruction was decoded from are its encoding again, with two
differences. Bytes that were missing are zeros, and a RAM address has lost its upper
four bits (`Decoded.encode_of_ofBytes`).
-/

namespace Breadboard

namespace AddressMode

theorem targetBytes_readTarget_eightBit (first second : UInt8) :
    eightBit.targetBytes (eightBit.readTarget [first, second]) = [first] := by
  rw [targetBytes, readTarget]
  simp

/-- The bytes that a target was read from are its bytes again. -/
theorem targetBytes_readTarget_elevenBit (first second : UInt8) :
    elevenBit.targetBytes (elevenBit.readTarget [first, second]) = [first, second] := by
  have number : (elevenBit.readTarget [first, second]).toNat = first.toNat * 256 + second.toNat :=
    toNat_readTarget_elevenBit [first, second]
  have highBound := first.toNat_lt
  have lowBound := second.toNat_lt
  have low : (elevenBit.readTarget [first, second]).toUInt8 = second := by
    rw [← UInt8.toNat_inj, UInt16.toNat_toUInt8, number]
    omega
  have high : (elevenBit.readTarget [first, second] >>> 8).toUInt8 = first := by
    rw [← UInt8.toNat_inj, UInt16.toNat_toUInt8, UInt16.toNat_shiftRight]
    change (elevenBit.readTarget [first, second]).toNat >>> 8 % 2 ^ 8 = _
    rw [Nat.shiftRight_eq_div_pow, number]
    omega
  rw [targetBytes, low, high]

end AddressMode

/-- An opcode byte holds nothing but its mnemonic and the registers. -/
theorem Mnemonic.opcode_unpack {byte : UInt8} {mnemonic : Mnemonic}
    (found : ofOpcode? byte = some mnemonic) : (mnemonic.unpack byte).opcode = byte := by
  have everywhere : ∀ number < 256, (ofOpcode? (UInt8.ofNat number)).all fun mnemonic =>
      (mnemonic.unpack (UInt8.ofNat number)).opcode == UInt8.ofNat number := by
    decide +kernel
  have here := everywhere byte.toNat byte.toNat_lt
  rw [UInt8.ofNat_toNat, found, Option.all_some, beq_iff_eq] at here
  exact here

/-- Whether what was read names a cell of RAM. -/
def Decoded.namesCell : Decoded → Bool
  | known (.memory _ _ _) => true
  | known _ | unknown _ => false

theorem Instruction.inRange_withPayload (mode : AddressMode) (payload : List UInt8)
    (instruction : Instruction) : (instruction.withPayload mode payload).InRange mode := by
  cases instruction with
  | bare | unary | pair | immediate => trivial
  | memory op register address =>
    rw [withPayload, InRange, toNat_ramAddress]
    exact Nat.mod_lt _ (by decide)
  | jump condition target =>
    rintro rfl
    rw [AddressMode.toNat_readTarget_eightBit]
    exact UInt8.toNat_lt _

theorem Instruction.opcode_withPayload (mode : AddressMode) (payload : List UInt8)
    (instruction : Instruction) :
    (instruction.withPayload mode payload).opcode = instruction.opcode := by
  cases instruction <;> rfl

/-- The bytes after an opcode that are read are those that are written again. -/
theorem Instruction.payload_withPayload (mode : AddressMode) (first second : UInt8)
    (instruction : Instruction) :
    (instruction.withPayload mode [first, second]).payload mode =
      ([first, second].take (instruction.size mode - 1)).map fun byte =>
        if (Decoded.known instruction).namesCell then ramAddress byte else byte := by
  cases instruction with
  | bare | unary | pair | immediate => rfl
  | memory op register address => exact congrArg (List.cons · []) (ramAddress_ramAddress first)
  | jump condition target =>
    cases mode with
    | eightBit => exact AddressMode.targetBytes_readTarget_eightBit first second
    | elevenBit => exact AddressMode.targetBytes_readTarget_elevenBit first second

theorem Instruction.namesCell_withPayload (mode : AddressMode) (payload : List UInt8)
    (instruction : Instruction) :
    (Decoded.known (instruction.withPayload mode payload)).namesCell =
      (Decoded.known instruction).namesCell := by
  cases instruction <;> rfl

/-- Missing bytes count as zeros. -/
theorem take_append_zeros {count : Nat} (small : count ≤ 2) (following : List UInt8) :
    following.take count ++ List.replicate (count - following.length) 0 =
      [following.getD 0 0, following.getD 1 0].take count := by
  rcases following with _ | ⟨first, _ | ⟨second, rest⟩⟩
  all_goals
    rcases count with _ | _ | _ | count
    all_goals first | omega | simp

namespace Decoded

/-- Whatever is read is an unknown byte or an opcode with the bytes that follow it. -/
theorem ofBytes_eq (mode : AddressMode) (opcode : UInt8) (following : List UInt8) :
    ofBytes mode opcode following =
      match Mnemonic.ofOpcode? opcode with
      | some mnemonic => known ((mnemonic.unpack opcode).withPayload mode
          [following.getD 0 0, following.getD 1 0])
      | none => unknown opcode := by
  rw [ofBytes, ofOpcode]
  cases Mnemonic.ofOpcode? opcode with
  | none => rfl
  | some mnemonic =>
    exact congrArg known ((mnemonic.unpack opcode).withPayload_take mode following)

theorem inRange_of_ofBytes {mode : AddressMode} {opcode : UInt8} {following : List UInt8}
    {instruction : Instruction} (read : ofBytes mode opcode following = known instruction) :
    instruction.InRange mode := by
  rw [ofBytes_eq] at read
  split at read
  · cases read
    exact Instruction.inRange_withPayload mode _ _
  · cases read

/-- **What was decoded is encoded into the bytes that it was read from**, except that
missing bytes become zeros and that the upper half of a RAM address is lost. -/
theorem encode_of_ofBytes {mode : AddressMode} {opcode : UInt8} {following : List UInt8}
    {instruction : Instruction} (read : ofBytes mode opcode following = known instruction) :
    instruction.encode mode =
      opcode :: (following.take (instruction.size mode - 1) ++
          List.replicate (instruction.size mode - 1 - following.length) 0).map fun byte =>
        if (known instruction).namesCell then ramAddress byte else byte := by
  rw [ofBytes_eq] at read
  split at read
  next mnemonic found =>
    cases read
    have short := mnemonic.shape.size_le_three mode
    have sameSize : ((mnemonic.unpack opcode).withPayload mode
        [following.getD 0 0, following.getD 1 0]).size mode = mnemonic.size mode := by
      rw [Instruction.size, Instruction.mnemonic_withPayload, Mnemonic.mnemonic_unpack]
    have unpackedSize : (mnemonic.unpack opcode).size mode = mnemonic.size mode := by
      rw [Instruction.size, Mnemonic.mnemonic_unpack]
    have few : mnemonic.size mode - 1 ≤ 2 := by
      rw [Mnemonic.size]
      omega
    rw [Instruction.encode, Instruction.opcode_withPayload, Mnemonic.opcode_unpack found,
      Instruction.payload_withPayload, Instruction.namesCell_withPayload, sameSize, unpackedSize,
      take_append_zeros few]
  next => cases read

end Decoded

end Breadboard
