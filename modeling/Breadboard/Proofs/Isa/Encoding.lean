import Breadboard.Isa.Decoded
import Breadboard.Proofs.Isa.Bytes

/-!
# Decoding inverts encoding

An encoding starts with an opcode byte from which the mnemonic and the registers are
read back (`Mnemonic.unpack_opcode`), and it is as long as the mnemonic says, so that
whatever follows it in memory is not looked at (`Decoded.ofBytes_encode`). What comes
back is the instruction with those bits of its operands that have a place in the
encoding, `Instruction.reduced`.
-/

namespace Breadboard

namespace AddressMode

/-- Two target bytes are read with the high byte first. -/
theorem toNat_readTarget_elevenBit (payload : List UInt8) :
    (elevenBit.readTarget payload).toNat =
      (payload.getD 0 0).toNat * 256 + (payload.getD 1 0).toNat := by
  have high := (payload.getD 0 0).toNat_lt
  have low := (payload.getD 1 0).toNat_lt
  have shifted : ((payload.getD 0 0).toUInt16 <<< 8).toNat = (payload.getD 0 0).toNat <<< 8 := by
    rw [UInt16.toNat_shiftLeft, UInt8.toNat_toUInt16]
    change (payload.getD 0 0).toNat <<< 8 % 2 ^ 16 = _
    rw [Nat.shiftLeft_eq]
    omega
  rw [readTarget, UInt16.toNat_or, shifted, UInt8.toNat_toUInt16,
    ← Nat.shiftLeft_add_eq_or_of_lt low, Nat.shiftLeft_eq]

theorem toNat_readTarget_eightBit (payload : List UInt8) :
    (eightBit.readTarget payload).toNat = (payload.getD 0 0).toNat := by
  rw [readTarget, UInt8.toNat_toUInt16]

/-- The upper byte of a target. -/
theorem toNat_upperByte (target : UInt16) :
    (target >>> 8).toUInt8.toNat = target.toNat / 256 := by
  have bound := target.toNat_lt
  rw [UInt16.toNat_toUInt8, UInt16.toNat_shiftRight]
  change target.toNat >>> 8 % 2 ^ 8 = _
  rw [Nat.shiftRight_eq_div_pow]
  omega

/-- The part of a jump target that the bytes after the opcode hold. -/
def reduceTarget (target : UInt16) : AddressMode → UInt16
  | eightBit => UInt16.ofNat (target.toNat % 256)
  | elevenBit => target

/-- The bytes of a target are read back, whatever follows them. -/
theorem readTarget_targetBytes (target : UInt16) (following : List UInt8) (mode : AddressMode) :
    mode.readTarget (mode.targetBytes target ++ following) = mode.reduceTarget target := by
  apply UInt16.toNat.inj
  have bound := target.toNat_lt
  cases mode with
  | eightBit =>
    have small : target.toNat % 256 < UInt16.size := by
      change _ < 65536
      omega
    rw [toNat_readTarget_eightBit, reduceTarget, UInt16.toNat_ofNat_of_lt' small]
    simp [targetBytes]
  | elevenBit =>
    rw [toNat_readTarget_elevenBit, reduceTarget]
    have upper := toNat_upperByte target
    simp only [targetBytes, List.cons_append, List.nil_append, List.getD_cons_zero,
      List.getD_cons_succ, upper, UInt16.toNat_toUInt8]
    omega

end AddressMode

namespace Instruction

/-- What an encoding keeps of an instruction: RAM addresses by their low four bits, and
jump targets by their low eight bits where only one byte is written. -/
def reduced (mode : AddressMode) : Instruction → Instruction
  | memory op register address => memory op register (UInt8.ofNat (address.toNat % ramSize))
  | jump condition target => jump condition (mode.reduceTarget target)
  | instruction => instruction

/-- Whether the operands fit into the encoding. -/
def InRange (mode : AddressMode) : Instruction → Prop
  | memory _ _ address => address.toNat < ramSize
  | jump _ target => mode = .eightBit → target.toNat < 256
  | bare _ | unary _ _ | pair _ _ _ | immediate _ _ _ => True

/-- An instruction whose operands fit is kept as it is. -/
theorem reduced_of_inRange {mode : AddressMode} {instruction : Instruction}
    (inRange : instruction.InRange mode) : instruction.reduced mode = instruction := by
  cases instruction with
  | memory op register address =>
    change address.toNat < ramSize at inRange
    rw [reduced, Nat.mod_eq_of_lt inRange, UInt8.ofNat_toNat]
  | jump condition target =>
    cases mode with
    | eightBit =>
      rw [reduced, AddressMode.reduceTarget, Nat.mod_eq_of_lt (inRange rfl), UInt16.ofNat_toNat]
    | elevenBit => rfl
  | bare | unary | pair | immediate => rfl

theorem length_payload (mode : AddressMode) (instruction : Instruction) :
    (instruction.payload mode).length = instruction.size mode - 1 := by
  have whole := instruction.length_encode mode
  rw [encode, List.length_cons] at whole
  omega

theorem size_pos (mode : AddressMode) (instruction : Instruction) :
    0 < instruction.size mode :=
  instruction.mnemonic.shape.size_pos mode

/-- An instruction without operands is its mnemonic. -/
theorem eq_bare_of_mnemonic {op : BareOp} {instruction : Instruction}
    (named : instruction.mnemonic = .bare op) : instruction = .bare op := by
  cases instruction with
  | bare op =>
    cases named
    rfl
  | unary | pair | immediate | memory | jump => cases named

/-- The bytes after the opcode are read back, whatever follows them. -/
theorem withPayload_payload (mode : AddressMode) (instruction : Instruction)
    (following : List UInt8) :
    instruction.withPayload mode (instruction.payload mode ++ following) =
      instruction.reduced mode := by
  cases instruction with
  | memory op register address =>
    change memory op register (ramAddress (ramAddress address)) = _
    rw [ramAddress_ramAddress, ramAddress_eq, reduced]
  | jump condition target =>
    rw [withPayload, payload, reduced, AddressMode.readTarget_targetBytes]
  | bare | unary | pair | immediate => rfl

end Instruction

/-- The registers in an opcode byte are those that it was made for. -/
theorem Mnemonic.unpack_opcode (mnemonic : Mnemonic) (upper lower : Register) :
    mnemonic.unpack (mnemonic.layout.opcode upper lower) =
      match mnemonic with
      | .bare op => .bare op
      | .unary op => .unary op upper
      | .pair op => .pair op lower upper
      | .immediate op => .immediate op upper 0
      | .memory op => .memory op upper 0
      | .jump condition => .jump condition 0 := by
  cases mnemonic with
  | bare op => rfl
  | unary op => cases op <;> cases upper <;> cases lower <;> rfl
  | pair op => cases op <;> cases upper <;> cases lower <;> rfl
  | immediate op => cases op <;> cases upper <;> cases lower <;> rfl
  | memory op => cases op <;> cases upper <;> cases lower <;> rfl
  | jump condition => rfl

theorem Instruction.withPayload_unpack_opcode (mode : AddressMode) (payload : List UInt8)
    (instruction : Instruction) :
    (instruction.mnemonic.unpack instruction.opcode).withPayload mode payload =
      instruction.withPayload mode payload := by
  rw [Instruction.opcode, Mnemonic.unpack_opcode]
  cases instruction <;> rfl

/-- Of the bytes after an opcode, those behind the instruction are not looked at, and
those that are missing count as zero. -/
theorem Instruction.withPayload_take (mode : AddressMode) (instruction : Instruction)
    (following : List UInt8) :
    instruction.withPayload mode (following.take (instruction.size mode - 1)) =
      instruction.withPayload mode [following.getD 0 0, following.getD 1 0] := by
  rcases following with _ | ⟨first, _ | ⟨second, rest⟩⟩ <;>
    cases instruction <;> cases mode <;> rfl

namespace Decoded

/-- **Decoding inverts encoding.** Whatever stands behind the encoding is not looked
at. -/
theorem ofBytes_encode (mode : AddressMode) (instruction : Instruction)
    (following : List UInt8) :
    ofBytes mode instruction.opcode (instruction.payload mode ++ following) =
      known (instruction.reduced mode) := by
  have front : ofOpcode instruction.opcode =
      known (instruction.mnemonic.unpack instruction.opcode) := by
    rw [ofOpcode, Instruction.opcode, Mnemonic.ofOpcode?_opcode]
  have sameSize : (instruction.mnemonic.unpack instruction.opcode).size mode =
      instruction.size mode := by
    rw [Instruction.size, Mnemonic.mnemonic_unpack, Instruction.size]
  have ownBytes : (instruction.payload mode ++ following).take (instruction.size mode - 1) =
      instruction.payload mode := by
    rw [← instruction.length_payload mode, List.take_left]
  rw [ofBytes, front]
  simp only [complete, size, sameSize, ownBytes]
  rw [Instruction.withPayload_unpack_opcode]
  have whole := instruction.withPayload_payload mode []
  rw [List.append_nil] at whole
  rw [whole]

end Decoded

end Breadboard
