import Breadboard.Assembly.OperandReading
import Breadboard.Proofs.Isa.Names
import Breadboard.Proofs.Isa.Bytes
import Breadboard.Proofs.Text.Numerals

/-!
# What an instruction line means

The words of an instruction line stand for at most one instruction: the one with the
mnemonic, the registers and the numbers that are written, where a name that is written
as a jump operand stands for the address of its label. `Means` states this without any
order of reading and without any fault, over an arbitrary relation between names and
addresses. Reading a line succeeds exactly if it means something
(`readLine_eq_ok_iff_means`), and then gives what it means.
-/

namespace Breadboard

theorem bind_eq_ok_iff {ε α β : Type} (first : Except ε α) (next : α → Except ε β) (result : β) :
    first >>= next = .ok result ↔ ∃ value, first = .ok value ∧ next value = .ok result := by
  cases first with
  | error failure =>
    constructor
    · intro success
      cases success
    · intro found
      obtain ⟨value, ⟨⟩, _⟩ := found
  | ok value =>
    constructor
    · intro rest
      exact ⟨value, rfl, rest⟩
    · intro found
      obtain ⟨_, ⟨⟩, rest⟩ := found
      exact rest

theorem bind_eq_error_iff {ε α β : Type} (first : Except ε α) (next : α → Except ε β)
    (failure : ε) :
    (first >>= next) = .error failure ↔
      first = .error failure ∨ ∃ value, first = .ok value ∧ next value = .error failure := by
  cases first with
  | ok value =>
    constructor
    · intro failed
      exact .inr ⟨value, rfl, failed⟩
    · intro either
      obtain first | ⟨_, same, failed⟩ := either
      · cases first
      · cases same
        exact failed
  | error own =>
    constructor
    · intro failed
      cases failed
      exact .inl rfl
    · intro either
      obtain first | ⟨_, same, _⟩ := either
      · cases first
        rfl
      · cases same

/-- A number is accepted if it is in range, and then stored without loss. -/
theorem bounded_eq_ok_iff {ε α : Type} {number bound : Int} {stored value : α} {failure : ε}
    {contents : Nat}
    (lossless : 0 ≤ number → number < bound → (stored = value ↔ (contents : Int) = number)) :
    (if 0 ≤ number ∧ number < bound then Except.ok stored else .error failure) = .ok value ↔
      number < bound ∧ (contents : Int) = number := by
  by_cases inside : 0 ≤ number ∧ number < bound
  · rw [if_pos inside, Except.ok.injEq, lossless inside.1 inside.2]
    exact (and_iff_right inside.2).symm
  · rw [if_neg inside]
    refine ⟨nofun, fun accepted => ?_⟩
    obtain ⟨high, same⟩ := accepted
    exact absurd ⟨by omega, high⟩ inside

namespace Word

/-- The word is a name, in any mixture of cases. -/
def Names (word : Word) (name : String) : Prop := capitalized word.text = name

/-- The word is a numeral. -/
def Writes (word : Word) (number : Int) : Prop := Literal.read? word.text.toList = some number

/-- The number that a jump operand stands for: the one that is written or, if a name is
written, the address of its label. -/
inductive PointsTo (labels : String → Nat → Prop) (word : Word) : Int → Prop where
  | number {number : Int} (written : word.Writes number) : PointsTo labels word number
  | label {address : Nat} (name : isIdentifier word.text.toList)
      (declared : labels (capitalized word.text) address) : PointsTo labels word address

end Word

/-- **What an instruction line means.** The words of the line, a mnemonic and operands,
stand for an instruction. A relation tells which addresses the names of labels have. -/
inductive Means (options : AssemblyOptions) (labels : String → Nat → Prop) (head : Word) :
    List Word → Instruction → Prop where
  | bare {op : BareOp} (named : head.Names (Mnemonic.bare op).text) :
      Means options labels head [] (.bare op)
  | unary {op : UnaryOp} {first : Word} {register : Register}
      (named : head.Names (Mnemonic.unary op).text) (onRegister : first.Names register.text) :
      Means options labels head [first] (.unary op register)
  | pair {op : PairOp} {first second : Word} {destination source : Register}
      (named : head.Names (Mnemonic.pair op).text) (into : first.Names destination.text)
      (outOf : second.Names source.text) :
      Means options labels head [first, second] (.pair op destination source)
  | immediate {op : ImmediateOp} {first second : Word} {register : Register} {number : Int}
      {value : UInt8} (named : head.Names (Mnemonic.immediate op).text)
      (onRegister : first.Names register.text) (constant : second.Writes number)
      (low : options.signedness.lowest ≤ number) (high : number ≤ 255)
      (stored : (value.toNat : Int) = number % 256) :
      Means options labels head [first, second] (.immediate op register value)
  | memory {op : MemoryOp} {first second : Word} {register : Register} {number : Int}
      {address : UInt8} (named : head.Names (Mnemonic.memory op).text)
      (onRegister : first.Names register.text) (cell : second.Writes number)
      (inRam : number < ramSize) (stored : (address.toNat : Int) = number) :
      Means options labels head [first, second] (.memory op register address)
  | jump {condition : Condition} {first : Word} {number : Int} {target : UInt16}
      (named : head.Names (Mnemonic.jump condition).text)
      (points : first.PointsTo labels number) (inRom : number < options.mode.limit)
      (stored : (target.toNat : Int) = number) :
      Means options labels head [first] (.jump condition target)

theorem Word.PointsTo.mono {labels more : String → Nat → Prop}
    (known : ∀ name address, labels name address → more name address) {word : Word} {number : Int}
    (points : word.PointsTo labels number) : word.PointsTo more number := by
  cases points with
  | number written => exact .number written
  | label name declared => exact .label name (known _ _ declared)

/-- Words keep their meaning if more constants are accepted and more labels are known. -/
theorem Means.mono {options wider : AssemblyOptions} {labels more : String → Nat → Prop}
    (sameMode : wider.mode = options.mode)
    (lower : wider.signedness.lowest ≤ options.signedness.lowest)
    (known : ∀ name address, labels name address → more name address) {head : Word}
    {operands : List Word} {instruction : Instruction}
    (meaning : Means options labels head operands instruction) :
    Means wider more head operands instruction := by
  cases meaning with
  | bare named => exact .bare named
  | unary named onRegister => exact .unary named onRegister
  | pair named into outOf => exact .pair named into outOf
  | immediate named onRegister constant low high stored =>
    exact .immediate named onRegister constant (Int.le_trans lower low) high stored
  | memory named onRegister cell inRam stored => exact .memory named onRegister cell inRam stored
  | jump named points inRom stored =>
    rw [← sameMode] at inRom
    exact .jump named (points.mono known) inRom stored

namespace Word

variable (word : Word)

theorem readMnemonic_eq_ok_iff (mnemonic : Mnemonic) :
    word.readMnemonic = .ok mnemonic ↔ word.Names mnemonic.text := by
  rw [Names, ← Mnemonic.ofText?_eq_some_iff, readMnemonic]
  cases Mnemonic.ofText? word.text <;> simp

theorem readRegister_eq_ok_iff (register : Register) :
    word.readRegister = .ok register ↔ word.Names register.text := by
  rw [Names, ← Register.ofText?_eq_some_iff, readRegister]
  cases Register.ofText? word.text <;> simp

theorem readNumber_eq_ok_iff (number : Int) :
    word.readNumber = .ok number ↔ word.Writes number := by
  rw [Writes, readNumber]
  cases Literal.read? word.text.toList <;> simp

/-- A constant is read if it is in range, and is stored as its remainder. -/
theorem readImmediate_eq_ok_iff (signedness : Signedness) (value : UInt8) :
    word.readImmediate signedness = .ok value ↔
      ∃ number, word.Writes number ∧ (signedness.lowest ≤ number ∧ number ≤ 255) ∧
        (value.toNat : Int) = number % 256 := by
  have stored (number : Int) : UInt8.ofInt number = value ↔ (value.toNat : Int) = number % 256 := by
    rw [← UInt8.toNat_inj, toNat_byteOfInt]
    omega
  rw [readImmediate, bind_eq_ok_iff]
  refine exists_congr fun number => ?_
  rw [readNumber_eq_ok_iff, Signedness.byte?, ← stored]
  refine and_congr_right fun _ => ?_
  by_cases inRange : signedness.lowest ≤ number ∧ number ≤ 255
  · simp [inRange]
  · simp [inRange]

theorem readRamAddress_eq_ok_iff (address : UInt8) :
    word.readRamAddress = .ok address ↔
      ∃ number, word.Writes number ∧ number < ramSize ∧ (address.toNat : Int) = number := by
  rw [readRamAddress, bind_eq_ok_iff]
  refine exists_congr fun number => ?_
  rw [readNumber_eq_ok_iff]
  refine and_congr_right fun _ => bounded_eq_ok_iff fun positive inRam => ?_
  have fits : number.toNat < UInt8.size := by
    have bound : (ramSize : Int) = 16 := rfl
    change number.toNat < 256
    omega
  rw [← UInt8.toNat_inj, UInt8.toNat_ofNat_of_lt' fits]
  omega

/-- A name is looked up only if it is no numeral, and no name is one. -/
theorem readAddress_eq_ok_iff {symbols : Symbols} {labels : String → Nat → Prop}
    (agree : ∀ name address, symbols.get? name = some address ↔ labels (capitalized name) address)
    (number : Int) :
    word.readAddress symbols = .ok number ↔ word.PointsTo labels number := by
  rw [readAddress]
  constructor
  · intro read
    split at read
    next written =>
      cases read
      exact .number written
    · split at read
      next name =>
        split at read
        next address found =>
          cases read
          exact .label name ((agree _ _).mp found)
        · cases read
      · cases read
  · intro points
    cases points with
    | number written =>
      rw [Writes] at written
      rw [written]
    | label name declared =>
      rw [Literal.read?_eq_none_of_isIdentifier name, (agree _ _).mpr declared]
      simp only [name, if_true]

theorem readTarget_eq_ok_iff {symbols : Symbols} {labels : String → Nat → Prop}
    (agree : ∀ name address, symbols.get? name = some address ↔ labels (capitalized name) address)
    (mode : AddressMode) (target : UInt16) :
    word.readTarget mode symbols = .ok target ↔
      ∃ number, word.PointsTo labels number ∧ number < mode.limit ∧
        (target.toNat : Int) = number := by
  rw [readTarget, bind_eq_ok_iff]
  refine exists_congr fun number => ?_
  rw [readAddress_eq_ok_iff word agree]
  refine and_congr_right fun _ => bounded_eq_ok_iff fun positive inRom => ?_
  have fits : number.toNat < UInt16.size := by
    have bound : mode.limit ≤ 2048 := by cases mode <;> decide
    change number.toNat < 65536
    omega
  rw [← UInt16.toNat_inj, UInt16.toNat_ofNat_of_lt' fits]
  omega

end Word

/-- Reads an instruction line: its mnemonic, then its operands. -/
def readLine (options : AssemblyOptions) (symbols : Symbols) (head : Word) (operands : List Word) :
    Reading Instruction := do
  readInstruction options symbols head (← head.readMnemonic) operands

section

variable {options : AssemblyOptions} {symbols : Symbols} {labels : String → Nat → Prop}
  (agree : ∀ name address, symbols.get? name = some address ↔ labels (capitalized name) address)
  {head : Word} {operands : List Word} {instruction : Instruction}

include agree

theorem means_of_readInstruction {mnemonic : Mnemonic} (named : head.Names mnemonic.text)
    (read : readInstruction options symbols head mnemonic operands = .ok instruction) :
    Means options labels head operands instruction := by
  unfold readInstruction at read
  split at read
  case h_1 =>
    cases read
    exact .bare named
  case h_2 =>
    obtain ⟨register, first, ⟨⟩⟩ := (bind_eq_ok_iff _ _ _).mp read
    exact .unary named ((Word.readRegister_eq_ok_iff _ _).mp first)
  case h_3 =>
    obtain ⟨destination, first, rest⟩ := (bind_eq_ok_iff _ _ _).mp read
    obtain ⟨source, second, ⟨⟩⟩ := (bind_eq_ok_iff _ _ _).mp rest
    exact .pair named ((Word.readRegister_eq_ok_iff _ _).mp first)
      ((Word.readRegister_eq_ok_iff _ _).mp second)
  case h_4 =>
    obtain ⟨register, first, rest⟩ := (bind_eq_ok_iff _ _ _).mp read
    obtain ⟨value, second, ⟨⟩⟩ := (bind_eq_ok_iff _ _ _).mp rest
    obtain ⟨number, constant, ⟨low, high⟩, stored⟩ :=
      (Word.readImmediate_eq_ok_iff _ _ _).mp second
    exact .immediate named ((Word.readRegister_eq_ok_iff _ _).mp first) constant low high stored
  case h_5 =>
    obtain ⟨register, first, rest⟩ := (bind_eq_ok_iff _ _ _).mp read
    obtain ⟨address, second, ⟨⟩⟩ := (bind_eq_ok_iff _ _ _).mp rest
    obtain ⟨number, cell, inRam, stored⟩ := (Word.readRamAddress_eq_ok_iff _ _).mp second
    exact .memory named ((Word.readRegister_eq_ok_iff _ _).mp first) cell inRam stored
  case h_6 =>
    obtain ⟨target, first, ⟨⟩⟩ := (bind_eq_ok_iff _ _ _).mp read
    obtain ⟨number, points, inRom, stored⟩ :=
      (Word.readTarget_eq_ok_iff _ agree _ _).mp first
    exact .jump named points inRom stored
  case h_7 => cases read

theorem readLine_of_means (meaning : Means options labels head operands instruction) :
    readLine options symbols head operands = .ok instruction := by
  rw [readLine, bind_eq_ok_iff]
  cases meaning with
  | bare named => exact ⟨_, (head.readMnemonic_eq_ok_iff _).mpr named, rfl⟩
  | unary named onRegister =>
    refine ⟨_, (head.readMnemonic_eq_ok_iff _).mpr named, ?_⟩
    rw [readInstruction, (Word.readRegister_eq_ok_iff _ _).mpr onRegister]
    rfl
  | pair named into outOf =>
    refine ⟨_, (head.readMnemonic_eq_ok_iff _).mpr named, ?_⟩
    rw [readInstruction, (Word.readRegister_eq_ok_iff _ _).mpr into,
      (Word.readRegister_eq_ok_iff _ _).mpr outOf]
    rfl
  | immediate named onRegister constant low high stored =>
    refine ⟨_, (head.readMnemonic_eq_ok_iff _).mpr named, ?_⟩
    rw [readInstruction, (Word.readRegister_eq_ok_iff _ _).mpr onRegister,
      (Word.readImmediate_eq_ok_iff _ _ _).mpr ⟨_, constant, ⟨low, high⟩, stored⟩]
    rfl
  | memory named onRegister cell inRam stored =>
    refine ⟨_, (head.readMnemonic_eq_ok_iff _).mpr named, ?_⟩
    rw [readInstruction, (Word.readRegister_eq_ok_iff _ _).mpr onRegister,
      (Word.readRamAddress_eq_ok_iff _ _).mpr ⟨_, cell, inRam, stored⟩]
    rfl
  | jump named points inRom stored =>
    refine ⟨_, (head.readMnemonic_eq_ok_iff _).mpr named, ?_⟩
    rw [readInstruction, (Word.readTarget_eq_ok_iff _ agree _ _).mpr ⟨_, points, inRom, stored⟩]
    rfl

/-- A line is read exactly if it means something, and then as what it means. -/
theorem readLine_eq_ok_iff_means :
    readLine options symbols head operands = .ok instruction ↔
      Means options labels head operands instruction := by
  constructor
  · intro read
    rw [readLine, bind_eq_ok_iff] at read
    obtain ⟨mnemonic, named, rest⟩ := read
    exact means_of_readInstruction agree ((head.readMnemonic_eq_ok_iff _).mp named) rest
  · exact readLine_of_means agree

end

theorem Means.mnemonic {options : AssemblyOptions} {labels : String → Nat → Prop} {head : Word}
    {operands : List Word} {instruction : Instruction}
    (meaning : Means options labels head operands instruction) :
    Mnemonic.ofText? head.text = some instruction.mnemonic := by
  rw [Mnemonic.ofText?_eq_some_iff]
  cases meaning <;> assumption

end Breadboard
