import Breadboard.Proofs.Machine.Counters

/-!
# A machine in which something can fail

A second description of one step, in which nothing is taken for granted: numbers are held in words
of 16 or 64 bits, registers, RAM and the tables of instructions are arrays that are read at an
index, and the bytes behind an opcode are a slice of program memory. Whatever does not fit is a
`Failure`. `Bounded.step` says where each of these limits is met in a step, and
`Bounded.step_eq_ok` that none of them is ever exceeded, as long as the counters have room for one
more instruction: the step that can fail is the step of the processor.
-/

namespace Breadboard

/-- The place of a mnemonic in the table. -/
def Mnemonic.place (mnemonic : Mnemonic) : Nat := Mnemonic.all.idxOf mnemonic

/-- The bytes behind an opcode begin at the next address. -/
theorem Rom.drop_succ_of_drop {rom : Rom} {address : Nat} {opcode : UInt8}
    {following : List UInt8} (bytes : rom.toList.drop address = opcode :: following) :
    rom.toList.drop (address + 1) = following := by
  rw [← List.drop_drop, bytes, List.drop_one, List.tail_cons]

namespace Bounded

/-- What is too large for its place. -/
inductive Failure where
  /-- The number does not fit into its word. -/
  | overflow (number : Int)
  /-- There is nothing at this index of an array. -/
  | outside (index size : Nat)
  /-- The ends of a slice are in the wrong order, or behind the end of the array. -/
  | slice (start stop size : Nat)
deriving DecidableEq, Repr

section

variable {α : Type} {size : Nat}

/-- A number in a word without a sign. -/
def unsigned (bits number : Nat) : Except Failure Nat :=
  if number < 2 ^ bits then .ok number else .error (.overflow number)

/-- A number in a word of 16 bits with a sign. -/
def signed (number : Int) : Except Failure Int :=
  if -2 ^ 15 ≤ number ∧ number < 2 ^ 15 then .ok number else .error (.overflow number)

def item (array : Vector α size) (index : Nat) : Except Failure α :=
  if inside : index < size then .ok array[index] else .error (.outside index size)

def replace (array : Vector α size) (index : Nat) (value : α) : Except Failure (Vector α size) :=
  if inside : index < size then .ok (array.set index value) else .error (.outside index size)

def slice (array : Vector α size) (start stop : Nat) : Except Failure (List α) :=
  if start ≤ stop ∧ stop ≤ size then .ok (array.extract start stop).toList
  else .error (.slice start stop size)

theorem unsigned_of_lt {bits number : Nat} (fits : number < 2 ^ bits) :
    unsigned bits number = pure number := if_pos fits

theorem signed_of_fits {number : Int} (low : -2 ^ 15 ≤ number) (high : number < 2 ^ 15) :
    signed number = pure number := if_pos ⟨low, high⟩

theorem item_of_lt (array : Vector α size) {index : Nat} (inside : index < size) :
    item array index = pure array[index] := dif_pos inside

theorem replace_of_lt (array : Vector α size) {index : Nat} (inside : index < size) (value : α) :
    replace array index value = pure (array.set index value) := dif_pos inside

theorem slice_of_le (array : Vector α size) {start stop : Nat} (ordered : start ≤ stop)
    (inside : stop ≤ size) : slice array start stop = pure (array.extract start stop).toList :=
  if_pos ⟨ordered, inside⟩

end

/-- The registers as an array. -/
def cells (file : RegisterFile) : Vector UInt8 4 := #v[file.a, file.b, file.c, file.d]

def fileOf (cells : Vector UInt8 4) : RegisterFile := ⟨cells[0], cells[1], cells[2], cells[3]⟩

def readRegister (register : Register) (state : MachineState) : Except Failure UInt8 :=
  item (cells state.registers) register.code.toNat

def writeRegister (register : Register) (value : UInt8) (state : MachineState) :
    Except Failure MachineState := do
  let written ← replace (cells state.registers) register.code.toNat value
  return { state with registers := fileOf written }

def readRam (address : UInt8) (state : MachineState) : Except Failure UInt8 :=
  item state.ram (address &&& 0x0F).toNat

def writeRam (address value : UInt8) (state : MachineState) : Except Failure MachineState := do
  let written ← replace state.ram (address &&& 0x0F).toNat value
  return { state with ram := written }

/-- A sum of two bytes and a carry, in 16 bits. -/
def add (left right : UInt8) (carryIn : Bool) : Except Failure CarryResult := do
  let sum ← unsigned 16 (left.toNat + right.toNat)
  let sum ← unsigned 16 (sum + carryIn.toNat)
  let carryOut : Bool := 255 < sum
  return ⟨Alu.result (UInt8.ofNat sum) carryOut, carryOut⟩

/-- Takes a negative difference up by 256. -/
def wrap (difference : Int) : Except Failure Int :=
  if difference < 0 then signed (difference + 256) else return difference

/-- A difference of two bytes and a borrow, in 16 bits, of which one has the sign. -/
def subtract (left right : UInt8) (borrowIn : Bool) : Except Failure CarryResult := do
  let difference ← signed (left.toNat - right.toNat)
  let difference ← signed (difference - borrowIn.toNat)
  let wrapped ← wrap difference
  let borrowOut : Bool := difference < 0
  return ⟨Alu.result (UInt8.ofInt wrapped) borrowOut, borrowOut⟩

/-- A result without what was carried. -/
def dropCarry (result : Except Failure CarryResult) : Except Failure AluResult :=
  return (← result).toAluResult

/-- What an instruction does, and where execution goes on. -/
abbrev Handler := Instruction → MachineState → Except Failure (Flow × MachineState)

def nop : Handler := fun _ state => return (.advance, state)

def out : Handler := fun _ state => do
  let value ← readRegister .a state
  return (.advance, { state with output := value, outputEnabled := true })

def hlt : Handler := fun _ state => return (.stay, { state with status := .halted })

def rst : Handler := fun _ _ => return (.restart, {})

/-- An operation on two registers whose result goes into the first of them. -/
def pairOp (operation : UInt8 → UInt8 → Except Failure AluResult) : Handler
  | .pair _ destination source, state => do
    let left ← readRegister destination state
    let right ← readRegister source state
    let result ← operation left right
    let stored ← writeRegister destination result.value state
    return (.advance, { stored with flags := result.flags })
  | _, state => return (.advance, state)

/-- An operation on one register. -/
def unaryOp (operation : UInt8 → Except Failure AluResult) : Handler
  | .unary _ register, state => do
    let value ← readRegister register state
    let result ← operation value
    let stored ← writeRegister register result.value state
    return (.advance, { stored with flags := result.flags })
  | _, state => return (.advance, state)

def mov : Handler
  | .pair _ destination source, state => do
    let value ← readRegister source state
    return (.advance, ← writeRegister destination value state)
  | _, state => return (.advance, state)

def cmp : Handler
  | .pair _ destination source, state => do
    let left ← readRegister destination state
    let right ← readRegister source state
    let result ← subtract left right false
    return (.advance, { state with flags := result.flags })
  | _, state => return (.advance, state)

def ldi : Handler
  | .immediate _ register constant, state => do
    return (.advance, ← writeRegister register constant state)
  | _, state => return (.advance, state)

def cmi : Handler
  | .immediate _ register constant, state => do
    let value ← readRegister register state
    let result ← subtract value constant false
    return (.advance, { state with flags := result.flags })
  | _, state => return (.advance, state)

def ldm : Handler
  | .memory _ register address, state => do
    let value ← readRam address state
    return (.advance, ← writeRegister register value state)
  | _, state => return (.advance, state)

def sav : Handler
  | .memory _ register address, state => do
    let value ← readRegister register state
    return (.advance, ← writeRam address value state)
  | _, state => return (.advance, state)

def jump : Handler
  | .jump condition target, state =>
    return (if condition.holds state.flags then .goto target else .advance, state)
  | _, state => return (.advance, state)

/-- The handlers in the order of the table of mnemonics. -/
def handlers : Vector Handler 25 :=
  #v[nop, out, hlt, rst,
    pairOp fun left right => dropCarry (add left right false),
    pairOp fun left right => dropCarry (subtract left right false),
    unaryOp fun value => dropCarry (add value 1 false),
    unaryOp fun value => dropCarry (subtract value 1 false), ldi, ldm, sav,
    jump, jump, jump, jump, jump, jump, jump, mov,
    pairOp fun left right => return Alu.and left right,
    pairOp fun left right => return Alu.or left right,
    pairOp fun left right => return Alu.xor left right,
    unaryOp fun value => return Alu.not value, cmp, cmi]

/-- The rows of the opcode table. -/
def rows : Vector Mnemonic.Row 25 := ⟨(Mnemonic.all.map Mnemonic.row).toArray, rfl⟩

/-- What is left to do behind an instruction that is no reset. -/
def finish (instruction : Instruction) (cutOff : Bool) (programCounter : UInt16)
    (done : MachineState) : Except Failure MachineState := do
  let instructionCount ← unsigned 64 (done.instructionCount + 1)
  let row ← item rows instruction.mnemonic.place
  let cycleCount ← unsigned 64 (done.cycleCount + row.cycles)
  return { done with
    programCounter := programCounter
    status := if cutOff then .halted else done.status
    instructionCount := instructionCount
    cycleCount := cycleCount }

/-- Where a jump went. -/
def jumpedTo : Flow → Option UInt16
  | .goto target => some target
  | .advance | .stay | .restart => none

/-- What a step does with what it has read. `behind` is the address behind it. -/
def handle (behind : Nat) (fetched : MachineState) (cpu : Cpu) :
    Decoded → Except Failure (Outcome × Cpu)
  | .unknown byte => do
    let next ← unsigned 16 (fetched.programCounter.toNat + 1)
    return (.skipped byte,
      { cpu with state := { fetched with programCounter := UInt16.ofNat next } })
  | .known instruction => do
    let handler ← item handlers instruction.mnemonic.place
    let (flow, done) ← handler instruction fetched
    let cutOff : Bool := romSize < behind
    let outcome := Outcome.executed instruction (jumpedTo flow) cutOff
    match flow with
    | .restart => return (outcome, { cpu with state := done })
    | .advance =>
      let next ← unsigned 16 behind
      return (outcome,
        { cpu with state := ← finish instruction cutOff (UInt16.ofNat next) done })
    | .goto target =>
      return (outcome, { cpu with state := ← finish instruction cutOff target done })
    | .stay =>
      return (outcome, { cpu with state := ← finish instruction cutOff done.programCounter done })

/-- **One step**, in which every index, every slice and every number is looked after. -/
def step (cpu : Cpu) : Except Failure (Outcome × Cpu) :=
  let state := cpu.state
  let address := state.programCounter.toNat
  if cpu.isHalted then return (.idle, cpu)
  else
    match cpu.rom.read? address with
    | none => return (.pastEnd, { cpu with state := { state with status := .halted } })
    | some opcode => do
      let front := Decoded.ofOpcode opcode
      let behind ← unsigned 64 (address + front.size cpu.mode)
      let first ← unsigned 64 (address + 1)
      let payload ← slice cpu.rom (min first romSize) (min behind romSize)
      let decoded := front.complete cpu.mode payload
      handle behind { state with
        status := .running, instructionRegister := opcode, lastDecoded := some decoded } cpu decoded

theorem readRegister_eq (register : Register) (state : MachineState) :
    readRegister register state = pure (state.registers.read register) := by
  cases register <;> rfl

theorem writeRegister_eq (register : Register) (value : UInt8) (state : MachineState) :
    writeRegister register value state =
      pure { state with registers := state.registers.write register value } := by
  cases register <;> rfl

theorem readRam_eq (address : UInt8) (state : MachineState) :
    readRam address state = pure (state.ram.read address) := by
  have place : (address &&& 0x0F).toNat = address.toNat % ramSize := toNat_ramAddress address
  have inside : address.toNat % ramSize < ramSize := Nat.mod_lt _ (by decide)
  rw [readRam, place, item_of_lt _ inside]
  rfl

theorem writeRam_eq (address value : UInt8) (state : MachineState) :
    writeRam address value state = pure { state with ram := state.ram.write address value } := by
  have place : (address &&& 0x0F).toNat = address.toNat % ramSize := toNat_ramAddress address
  have inside : address.toNat % ramSize < ramSize := Nat.mod_lt _ (by decide)
  rw [writeRam, place, replace_of_lt _ inside]
  rfl

theorem add_eq (left right : UInt8) (carryIn : Bool) :
    add left right carryIn = pure (Alu.add left right carryIn) := by
  have leftBound := left.toNat_lt
  have rightBound := right.toNat_lt
  have carryBound := Bool.toNat_le carryIn
  have first : unsigned 16 (left.toNat + right.toNat) = pure (left.toNat + right.toNat) :=
    unsigned_of_lt (by omega)
  have second : unsigned 16 (left.toNat + right.toNat + carryIn.toNat) =
      pure (left.toNat + right.toNat + carryIn.toNat) := unsigned_of_lt (by omega)
  rw [add, first, pure_bind, second, pure_bind]
  rfl

/-- In a byte, a negative difference and the one taken up by 256 are the same. -/
theorem exists_wrap_eq {difference : Int} (low : -2 ^ 15 ≤ difference) :
    ∃ wrapped, wrap difference = pure wrapped ∧ UInt8.ofInt wrapped = UInt8.ofInt difference := by
  rw [wrap]
  by_cases negative : difference < 0
  · rw [if_pos negative, signed_of_fits (by omega) (by omega)]
    refine ⟨difference + 256, rfl, UInt8.toNat.inj ?_⟩
    rw [toNat_byteOfInt, toNat_byteOfInt, Int.add_emod_right]
  · rw [if_neg negative]
    exact ⟨difference, rfl, rfl⟩

theorem subtract_eq (left right : UInt8) (borrowIn : Bool) :
    subtract left right borrowIn = pure (Alu.subtract left right borrowIn) := by
  have leftBound := left.toNat_lt
  have rightBound := right.toNat_lt
  have borrowBound := Bool.toNat_le borrowIn
  have first : signed (left.toNat - right.toNat) = pure ((left.toNat : Int) - right.toNat) :=
    signed_of_fits (by omega) (by omega)
  have second : signed (left.toNat - right.toNat - borrowIn.toNat) =
      pure ((left.toNat : Int) - right.toNat - borrowIn.toNat) :=
    signed_of_fits (by omega) (by omega)
  obtain ⟨wrapped, wraps, sameByte⟩ : ∃ wrapped,
      wrap (left.toNat - right.toNat - borrowIn.toNat) = pure wrapped ∧
        UInt8.ofInt wrapped = UInt8.ofInt (left.toNat - right.toNat - borrowIn.toNat) :=
    exists_wrap_eq (by omega)
  rw [subtract, first, pure_bind, second, pure_bind, wraps, pure_bind, sameByte, Alu.subtract]

theorem dropCarry_add (left right : UInt8) :
    dropCarry (add left right false) = pure (Alu.add left right false).toAluResult := by
  rw [dropCarry, add_eq, pure_bind]

theorem dropCarry_subtract (left right : UInt8) :
    dropCarry (subtract left right false) = pure (Alu.subtract left right false).toAluResult := by
  rw [dropCarry, subtract_eq, pure_bind]

theorem pairOp_eq {operation : UInt8 → UInt8 → Except Failure AluResult}
    {result : UInt8 → UInt8 → AluResult}
    (computes : ∀ left right, operation left right = pure (result left right)) (op : PairOp)
    (destination source : Register) (state : MachineState) :
    pairOp operation (.pair op destination source) state =
      pure (.advance, state.store destination
        (result (state.registers.read destination) (state.registers.read source))) := by
  simp only [pairOp, readRegister_eq, computes, writeRegister_eq, pure_bind, MachineState.store]

theorem unaryOp_eq {operation : UInt8 → Except Failure AluResult} {result : UInt8 → AluResult}
    (computes : ∀ value, operation value = pure (result value)) (op : UnaryOp)
    (register : Register) (state : MachineState) :
    unaryOp operation (.unary op register) state =
      pure (.advance, state.store register (result (state.registers.read register))) := by
  simp only [unaryOp, readRegister_eq, computes, writeRegister_eq, pure_bind, MachineState.store]

/-- **What an instruction does** is looked up in the table of handlers. -/
theorem dispatch_eq (instruction : Instruction) (state : MachineState) :
    (do
      let handler ← item handlers instruction.mnemonic.place
      handler instruction state) =
      pure (instruction.flow state.flags,
        if instruction = .bare .rst then {} else state.execute instruction) := by
  cases instruction with
  | bare op => cases op <;> rfl
  | unary op register =>
    cases op with
    | inc => exact unaryOp_eq (fun value => dropCarry_add value 1) .inc register state
    | dec => exact unaryOp_eq (fun value => dropCarry_subtract value 1) .dec register state
    | not => exact unaryOp_eq (fun value => rfl) .not register state
  | pair op destination source =>
    cases op with
    | add => exact pairOp_eq dropCarry_add .add destination source state
    | sub => exact pairOp_eq dropCarry_subtract .sub destination source state
    | and => exact pairOp_eq (fun left right => rfl) .and destination source state
    | or => exact pairOp_eq (fun left right => rfl) .or destination source state
    | xor => exact pairOp_eq (fun left right => rfl) .xor destination source state
    | mov =>
      change mov (.pair .mov destination source) state = _
      simp only [mov, readRegister_eq, writeRegister_eq, pure_bind]
      rfl
    | cmp =>
      change cmp (.pair .cmp destination source) state = _
      simp only [cmp, readRegister_eq, subtract_eq, pure_bind]
      rfl
  | immediate op register constant =>
    cases op with
    | ldi =>
      change ldi (.immediate .ldi register constant) state = _
      simp only [ldi, writeRegister_eq, pure_bind]
      rfl
    | cmi =>
      change cmi (.immediate .cmi register constant) state = _
      simp only [cmi, readRegister_eq, subtract_eq, pure_bind]
      rfl
  | memory op register address =>
    cases op with
    | ldm =>
      change ldm (.memory .ldm register address) state = _
      simp only [ldm, readRam_eq, writeRegister_eq, pure_bind]
      rfl
    | sav =>
      change sav (.memory .sav register address) state = _
      simp only [sav, readRegister_eq, writeRam_eq, pure_bind]
      rfl
  | jump condition target => cases condition <;> rfl

theorem row_eq (mnemonic : Mnemonic) : item rows mnemonic.place = pure mnemonic.row := by
  cases mnemonic with
  | bare op | unary op | pair op | immediate op | memory op => cases op <;> rfl
  | jump condition => cases condition <;> rfl

theorem finish_eq {instruction : Instruction} {done : MachineState}
    (room : done.instructionCount + 1 < 2 ^ 64)
    (time : done.cycleCount + instruction.mnemonic.cycles < 2 ^ 64) (cutOff : Bool)
    (programCounter : UInt16) :
    finish instruction cutOff programCounter done =
      pure { done with
        programCounter := programCounter
        status := if cutOff then .halted else done.status
        instructionCount := done.instructionCount + 1
        cycleCount := done.cycleCount + instruction.mnemonic.cycles } := by
  have costs : unsigned 64 (done.cycleCount + instruction.mnemonic.row.cycles) =
      pure (done.cycleCount + instruction.mnemonic.cycles) := unsigned_of_lt time
  rw [finish, unsigned_of_lt room, pure_bind, row_eq, pure_bind, costs, pure_bind]

theorem execute_counters (opcode : UInt8) (decoded : Decoded) (instruction : Instruction)
    (state : MachineState) :
    ((Reference.fetched opcode decoded state).execute instruction).instructionCount =
        state.instructionCount ∧
      ((Reference.fetched opcode decoded state).execute instruction).cycleCount =
        state.cycleCount := by
  obtain ⟨_, instructions, cycles⟩ := Reference.effect_counters instruction state
  rw [Reference.execute_eq, Reference.effect_fetched]
  exact ⟨instructions, cycles⟩

/-- **Handling what was read** fails nowhere. -/
theorem handle_eq {cpu : Cpu} (opcode : UInt8) (decoded : Decoded)
    (inside : cpu.state.programCounter.toNat < romSize)
    (room : cpu.state.instructionCount + 1 < 2 ^ 64) (time : cpu.state.cycleCount + 4 < 2 ^ 64) :
    handle (cpu.state.programCounter.toNat + decoded.size cpu.mode)
      (Reference.fetched opcode decoded cpu.state) cpu decoded =
        pure (cpu.handle opcode decoded) := by
  have rom : romSize = 2048 := rfl
  have short := decoded.size_le_three cpu.mode
  have behindFits : cpu.state.programCounter.toNat + decoded.size cpu.mode < 2 ^ 16 := by omega
  cases decoded with
  | unknown byte =>
    have nextFits : cpu.state.programCounter.toNat + 1 < 2 ^ 16 := by omega
    have moved : UInt16.ofNat (cpu.state.programCounter.toNat + 1) =
        cpu.state.programCounter + 1 := by
      rw [UInt16.ofNat_add, UInt16.ofNat_toNat]
      rfl
    change (unsigned 16 (cpu.state.programCounter.toNat + 1) >>= _) = _
    rw [unsigned_of_lt nextFits, pure_bind, moved]
    rfl
  | known instruction =>
    have sameFlags : (Reference.fetched opcode (.known instruction) cpu.state).flags =
        cpu.state.flags := rfl
    rw [handle, ← bind_assoc, dispatch_eq, pure_bind, Cpu.handle, Cpu.perform, sameFlags]
    by_cases isReset : instruction = .bare .rst
    · subst isReset
      rfl
    · obtain ⟨_, cheap⟩ := instruction.mnemonic.cycles_bounds
      obtain ⟨counted, spent⟩ :=
        execute_counters opcode (.known instruction) instruction cpu.state
      rw [← counted] at room
      rw [← spent] at time
      have finishes := finish_eq room (Nat.lt_of_le_of_lt (Nat.add_le_add_left cheap _) time)
        (decide (romSize < cpu.state.programCounter.toNat +
          (Decoded.known instruction).size cpu.mode))
      rw [if_neg isReset, Instruction.jumpTarget?]
      cases flow : instruction.flow cpu.state.flags with
      | restart => exact absurd ((Reference.flow_eq_restart_iff _ _).mp flow) isReset
      | advance =>
        dsimp only
        rw [unsigned_of_lt behindFits, pure_bind, finishes, pure_bind]
        rfl
      | goto target =>
        dsimp only
        rw [finishes, pure_bind]
        rfl
      | stay =>
        dsimp only
        rw [finishes, pure_bind]
        rfl

/-- The slice that a step reads behind an opcode ends where the instruction ends, or with program
memory. -/
theorem payload_eq {rom : Rom} {address : Nat} {opcode : UInt8} {following : List UInt8}
    (bytes : rom.toList.drop address = opcode :: following) (size : Nat) :
    (rom.extract (min (address + 1) romSize) (min (address + size) romSize)).toList =
      following.take (size - 1) := by
  have behind := Rom.drop_succ_of_drop bytes
  have length : following.length = romSize - (address + 1) := by
    rw [← behind, List.length_drop, Vector.length_toList]
  obtain ⟨inside, _⟩ := Vector.getElem?_eq_some_iff.mp (Rom.read?_of_drop bytes)
  rw [Vector.toList_extract, Nat.min_eq_left inside, behind, List.take_eq_take_iff, length]
  omega

/-- **The step that can fail is the step of the processor**, as long as the counters have room for
one more instruction. -/
theorem step_eq_ok {cpu : Cpu} (room : cpu.state.instructionCount + 1 < 2 ^ 64)
    (time : cpu.state.cycleCount + 4 < 2 ^ 64) : step cpu = .ok cpu.step := by
  cases halted : cpu.isHalted with
  | true =>
    rw [step, if_pos halted, Cpu.step_eq_idle halted]
    rfl
  | false =>
    have awake : ¬cpu.isHalted = true := by
      rw [halted]
      exact Bool.false_ne_true
    rw [step, if_neg awake]
    rcases Nat.lt_or_ge cpu.state.programCounter.toNat romSize with inside | outside
    · obtain ⟨opcode, following, bytes, handled⟩ := Cpu.exists_step_eq_handle halted inside
      have rom : romSize = 2048 := rfl
      have longer := (Decoded.ofOpcode opcode).size_pos cpu.mode
      have short := (Decoded.ofOpcode opcode).size_le_three cpu.mode
      have sameSize : (Decoded.ofBytes cpu.mode opcode following).size cpu.mode =
          (Decoded.ofOpcode opcode).size cpu.mode := Decoded.size_complete _ _ _
      rw [Rom.read?_of_drop bytes, handled]
      dsimp only
      rw [unsigned_of_lt (by omega), pure_bind, unsigned_of_lt (by omega), pure_bind,
        slice_of_le _ (by omega) (Nat.min_le_right _ _), pure_bind, payload_eq bytes]
      have handles := handle_eq opcode (.ofBytes cpu.mode opcode following) inside room time
      rw [sameSize] at handles
      exact handles
    · rw [Rom.read?, Vector.getElem?_eq_none outside, Cpu.step_eq_pastEnd halted outside]
      rfl

example : step { mode := .eightBit, state := { instructionCount := 2 ^ 64 - 1 } } =
    .error (.overflow (2 ^ 64)) := by
  decide +kernel

end Bounded

end Breadboard
