import Breadboard.Machine.Cpu

/-!
# A reference interpreter

A second description of one step of the processor, written down from the bit patterns of
the opcodes and from arithmetic on numbers alone:

```text
  0000_0000 NOP   0001_0000 OUT   0010_0000 HLT   1111_1111 RST
  SSDD_0001 ADD   SSDD_0010 SUB   SSDD_0110 MOV   SSDD_0111 AND
  SSDD_1000 OR    SSDD_1001 XOR   SSDD_1011 CMP
  RR10_0011 INC   RR11_0011 DEC   RR00_1010 NOT
  RR00_0100 LDI   RR01_0100 LDM   RR10_0100 SAV   RR00_1100 CMI
  0000_0101 JMP   0001_0101 JMZ   0010_0101 JNZ   0011_0101 JMC
  0100_0101 JME   0101_0101 JNG   0110_0101 JML
```

It consults no opcode table, no arithmetic unit and no decoder. What it leaves out of a
record update stays as it was, so that an equation with it also says what a step does not
touch.
-/

namespace Breadboard.Reference

/-- The register that two bits name. -/
def registerOf (bits : Nat) : Register :=
  if bits = 0 then .a else if bits = 1 then .b else if bits = 2 then .c else .d

/-- The jump target in the two bytes after an opcode. -/
def targetOf (mode : AddressMode) (first second : UInt8) : UInt16 :=
  if mode = .eightBit then UInt16.ofNat first.toNat
  else UInt16.ofNat (first.toNat * 256 + second.toNat)

/-- The instruction that an opcode and the two bytes after it stand for. The pattern of
the opcode is given by its lower and its upper four bits. -/
def instruction? (mode : AddressMode) (opcode first second : UInt8) : Option Instruction :=
  let lower := opcode.toNat % 16
  let upper := opcode.toNat / 16
  let source := registerOf (upper / 4)
  let destination := registerOf (upper % 4)
  match lower, upper with
  | 0b0000, 0b0000 => some (.bare .nop)
  | 0b0000, 0b0001 => some (.bare .out)
  | 0b0000, 0b0010 => some (.bare .hlt)
  | 0b1111, 0b1111 => some (.bare .rst)
  | 0b0001, _ => some (.pair .add destination source)
  | 0b0010, _ => some (.pair .sub destination source)
  | 0b0011, _ =>
    if upper % 4 = 0b10 then some (.unary .inc source)
    else if upper % 4 = 0b11 then some (.unary .dec source)
    else none
  | 0b0100, _ =>
    if upper % 4 = 0b00 then some (.immediate .ldi source first)
    else if upper % 4 = 0b01 then some (.memory .ldm source (UInt8.ofNat (first.toNat % 16)))
    else if upper % 4 = 0b10 then some (.memory .sav source (UInt8.ofNat (first.toNat % 16)))
    else none
  | 0b0101, 0 => some (.jump .always (targetOf mode first second))
  | 0b0101, 1 => some (.jump .zero (targetOf mode first second))
  | 0b0101, 2 => some (.jump .notZero (targetOf mode first second))
  | 0b0101, 3 => some (.jump .carry (targetOf mode first second))
  | 0b0101, 4 => some (.jump .equal (targetOf mode first second))
  | 0b0101, 5 => some (.jump .notGreater (targetOf mode first second))
  | 0b0101, 6 => some (.jump .less (targetOf mode first second))
  | 0b0110, _ => some (.pair .mov destination source)
  | 0b0111, _ => some (.pair .and destination source)
  | 0b1000, _ => some (.pair .or destination source)
  | 0b1001, _ => some (.pair .xor destination source)
  | 0b1010, _ => if upper % 4 = 0b00 then some (.unary .not source) else none
  | 0b1011, _ => some (.pair .cmp destination source)
  | 0b1100, _ => if upper % 4 = 0b00 then some (.immediate .cmi source first) else none
  | _, _ => none

/-- How many bytes an instruction takes up. -/
def size (mode : AddressMode) : Instruction → Nat
  | .bare _ | .unary _ _ | .pair _ _ _ => 1
  | .immediate _ _ _ | .memory _ _ _ => 2
  | .jump _ _ => if mode = .eightBit then 2 else 3

/-- How many clock cycles an instruction takes. -/
def cycles : Instruction → Nat
  | .bare .nop | .bare .hlt | .bare .rst => 1
  | .bare .out | .unary _ _ | .pair .mov _ _ => 2
  | .pair _ _ _ | .immediate _ _ _ | .jump _ _ => 3
  | .memory _ _ _ => 4

/-- Whether a jump is taken. -/
def taken (flags : Flags) : Condition → Bool
  | .always => true
  | .zero | .equal => flags.zero
  | .notZero => !flags.zero
  | .carry => flags.carry
  | .notGreater => flags.zero || flags.negative
  | .less => flags.negative && !flags.zero

/-- Replaces all three flags by those of a result below 256. -/
def setFlags (result : Nat) (carry : Bool) (state : MachineState) : MachineState :=
  { state with flags := { zero := result = 0, carry := carry, negative := 128 ≤ result } }

/-- Puts a number below 256 into a register. -/
def setRegister (register : Register) (number : Nat) (state : MachineState) : MachineState :=
  { state with registers := state.registers.write register (UInt8.ofNat number) }

/-- What an instruction does to registers, flags, RAM and the display. -/
def effect (instruction : Instruction) (state : MachineState) : MachineState :=
  let value (register : Register) : Nat := (state.registers.read register).toNat
  let put (register : Register) (result : Nat) (carry : Bool) : MachineState :=
    setRegister register result (setFlags result carry state)
  match instruction with
  | .bare .out => { state with output := state.registers.read .a, outputEnabled := true }
  | .bare .nop | .bare .hlt | .bare .rst | .jump _ _ => state
  | .unary .inc register => put register ((value register + 1) % 256) (value register = 255)
  | .unary .dec register => put register ((value register + 255) % 256) (value register = 0)
  | .unary .not register => put register (255 - value register) false
  | .pair .add destination source =>
    put destination ((value destination + value source) % 256)
      (256 ≤ value destination + value source)
  | .pair .sub destination source =>
    put destination ((value destination + 256 - value source) % 256)
      (value destination < value source)
  | .pair .and destination source => put destination (value destination &&& value source) false
  | .pair .or destination source => put destination (value destination ||| value source) false
  | .pair .xor destination source => put destination (value destination ^^^ value source) false
  | .pair .mov destination source => setRegister destination (value source) state
  | .pair .cmp destination source =>
    setFlags ((value destination + 256 - value source) % 256) (value destination < value source)
      state
  | .immediate .ldi register constant => setRegister register constant.toNat state
  | .immediate .cmi register constant =>
    setFlags ((value register + 256 - constant.toNat) % 256) (value register < constant.toNat)
      state
  | .memory .ldm register address =>
    setRegister register (state.ram[address.toNat % 16]?.getD 0).toNat state
  | .memory .sav register address =>
    { state with
      ram := state.ram.set (address.toNat % 16) (state.registers.read register)
        (Nat.mod_lt _ (by decide)) }

/-- The address of the next instruction, given the address behind the present one. -/
def goOn (state : MachineState) (behind : Nat) : Instruction → UInt16
  | .bare .hlt => state.programCounter
  | .jump condition target => if taken state.flags condition then target else UInt16.ofNat behind
  | _ => UInt16.ofNat behind

/-- The state after a reset. -/
def cleared : MachineState where
  registers := ⟨0, 0, 0, 0⟩
  flags := ⟨false, false, false⟩
  ram := Vector.replicate ramSize 0
  programCounter := 0
  instructionRegister := 0
  status := .ready
  output := 0
  outputEnabled := false
  instructionCount := 0
  cycleCount := 0
  lastDecoded := none

/-- The state after an instruction other than a reset. -/
def advance (mode : AddressMode) (opcode : UInt8) (instruction : Instruction)
    (state : MachineState) : MachineState :=
  let behind := state.programCounter.toNat + size mode instruction
  { effect instruction state with
    programCounter := goOn state behind instruction
    instructionRegister := opcode
    status := if instruction = .bare .hlt ∨ 2048 < behind then .halted else .running
    instructionCount := state.instructionCount + 1
    cycleCount := state.cycleCount + cycles instruction
    lastDecoded := some (.known instruction) }

/-- A byte of program memory; behind its end there are zeros. -/
def byteAt (rom : Rom) (address : Nat) : UInt8 := rom[address]?.getD 0

/-- **One step of the reference interpreter**, and whether it executed anything. -/
def step (cpu : Cpu) : Bool × Cpu :=
  let state := cpu.state
  let address := state.programCounter.toNat
  if state.status = .halted then (false, cpu)
  else if 2048 ≤ address then (false, { cpu with state := { state with status := .halted } })
  else
    let opcode := byteAt cpu.rom address
    match instruction? cpu.mode opcode (byteAt cpu.rom (address + 1))
        (byteAt cpu.rom (address + 2)) with
    | none =>
      (false, { cpu with state := { state with
        programCounter := UInt16.ofNat (address + 1)
        instructionRegister := opcode
        status := .running
        lastDecoded := some (.unknown opcode) } })
    | some instruction =>
      if instruction = .bare .rst then (true, { cpu with state := cleared })
      else (true, { cpu with state := advance cpu.mode opcode instruction state })

end Breadboard.Reference
