import Breadboard.Proofs.Isa.Reencoding
import Breadboard.Proofs.Machine.Refinement
import Mathlib.Logic.Function.Iterate

/-!
# What a step does

A step of a processor that is not halted reads what stands at the program counter and
then handles it, and that is all it does (`Cpu.step_eq_handle`). An instruction that stands
in memory from its first byte to its last is executed as a whole (`Cpu.step_of_encode`). Where
execution goes on is decided by what was read and by the flags (`Cpu.programCounter_handle`);
program memory and the width of addresses are never touched.
-/

namespace Breadboard

open Reference (fetched)

/-- Of the bytes behind an opcode, no more than two are looked at. -/
theorem Decoded.ofBytes_take_two (mode : AddressMode) (opcode : UInt8) (following : List UInt8) :
    ofBytes mode opcode (following.take 2) = ofBytes mode opcode following := by
  rw [ofBytes_eq, ofBytes_eq]
  rcases following with _ | ⟨first, _ | ⟨second, rest⟩⟩ <;> rfl

/-- The data that an instruction works on do not include the program counter and the
record of what was fetched. -/
theorem MachineState.execute_frame (state : MachineState) (instruction : Instruction) :
    (state.execute instruction).programCounter = state.programCounter ∧
      (state.execute instruction).instructionRegister = state.instructionRegister ∧
      (state.execute instruction).lastDecoded = state.lastDecoded := by
  cases instruction with
  | bare op | unary op | pair op | immediate op | memory op =>
    cases op <;> exact ⟨rfl, rfl, rfl⟩
  | jump condition target => exact ⟨rfl, rfl, rfl⟩

/-- The byte at an address is the first one from there on. -/
theorem Rom.read?_of_drop {rom : Rom} {address : Nat} {byte : UInt8} {following : List UInt8}
    (bytes : rom.toList.drop address = byte :: following) : rom.read? address = some byte := by
  rw [read?, ← Vector.getElem?_toList, ← List.head?_drop, bytes, List.head?_cons]

/-- Addresses in program memory and the one behind its end are not truncated. -/
theorem toNat_ofNat_of_le_romSize {address : Nat} (inside : address ≤ romSize) :
    (UInt16.ofNat address).toNat = address :=
  UInt16.toNat_ofNat_of_lt' (Nat.lt_of_le_of_lt inside (by decide))

/-- What a step read, if it read anything. -/
def Outcome.handled? : Outcome → Option Decoded
  | executed instruction _ _ => some (.known instruction)
  | skipped byte => some (.unknown byte)
  | idle | pastEnd => none

namespace Cpu

variable (cpu : Cpu) (opcode : UInt8)

/-- What a step does with what it has read at the program counter: it executes an
instruction and moves past a byte that is none. -/
def handle : Decoded → Outcome × Cpu
  | .known instruction =>
    cpu.perform instruction (fetched opcode (.known instruction) cpu.state)
  | .unknown byte =>
    (.skipped byte, { cpu with state :=
      { fetched opcode (.unknown byte) cpu.state with
        programCounter := cpu.state.programCounter + 1 } })

/-- **A step reads and handles.** -/
theorem step_eq_handle {cpu : Cpu} (active : cpu.isHalted = false) {opcode : UInt8}
    {following : List UInt8}
    (bytes : cpu.rom.toList.drop cpu.state.programCounter.toNat = opcode :: following) :
    cpu.step = cpu.handle opcode (.ofBytes cpu.mode opcode following) := by
  have window : cpu.rom.window cpu.state.programCounter.toNat = opcode :: following.take 2 := by
    rw [Rom.window_eq, bytes, List.take_succ_cons]
  have awake : ¬cpu.isHalted = true := by simp [active]
  unfold step
  rw [if_neg awake, window]
  simp only [Decoded.ofBytes_take_two]
  cases Decoded.ofBytes cpu.mode opcode following with
  | known instruction => rfl
  | unknown byte => rfl

/-- A halted processor does nothing. -/
theorem step_eq_idle {cpu : Cpu} (halted : cpu.isHalted = true) : cpu.step = (.idle, cpu) := by
  rw [step, if_pos halted]

/-- Behind the end of program memory there is nothing to read. -/
theorem step_eq_pastEnd {cpu : Cpu} (active : cpu.isHalted = false)
    (outside : romSize ≤ cpu.state.programCounter.toNat) :
    cpu.step = (.pastEnd, { cpu with state := { cpu.state with status := .halted } }) := by
  have awake : ¬cpu.isHalted = true := by simp [active]
  rw [step, if_neg awake, Reference.window_eq_nil cpu.rom outside]

/-- Inside of program memory, a step handles what stands at the program counter. -/
theorem exists_step_eq_handle {cpu : Cpu} (active : cpu.isHalted = false)
    (inside : cpu.state.programCounter.toNat < romSize) :
    ∃ opcode following,
      cpu.rom.toList.drop cpu.state.programCounter.toNat = opcode :: following ∧
        cpu.step = cpu.handle opcode (.ofBytes cpu.mode opcode following) := by
  cases bytes : cpu.rom.toList.drop cpu.state.programCounter.toNat with
  | nil =>
    rw [List.drop_eq_nil_iff, Vector.length_toList] at bytes
    omega
  | cons opcode following => exact ⟨opcode, following, rfl, step_eq_handle active bytes⟩

/-- **What a step can do**: nothing, halt at the end of program memory, or handle what stands
at the program counter. -/
theorem step_cases :
    (cpu.isHalted = true ∧ cpu.step = (.idle, cpu)) ∨
    (romSize ≤ cpu.state.programCounter.toNat ∧
      cpu.step = (.pastEnd, { cpu with state := { cpu.state with status := .halted } })) ∨
    ∃ opcode following, cpu.isHalted = false ∧
      cpu.rom.toList.drop cpu.state.programCounter.toNat = opcode :: following ∧
      cpu.step = cpu.handle opcode (.ofBytes cpu.mode opcode following) := by
  cases active : cpu.isHalted with
  | true => exact .inl ⟨rfl, step_eq_idle active⟩
  | false =>
    rcases Nat.lt_or_ge cpu.state.programCounter.toNat romSize with inside | outside
    · obtain ⟨opcode, following, bytes, step⟩ := exists_step_eq_handle active inside
      exact .inr (.inr ⟨opcode, following, rfl, bytes, step⟩)
    · exact .inr (.inl ⟨outside, step_eq_pastEnd active outside⟩)

/-- An instruction is cut off if it reaches behind the end of program memory. -/
theorem handle_known_fst (instruction : Instruction) :
    (cpu.handle opcode (.known instruction)).1 =
      .executed instruction (instruction.jumpTarget? cpu.state.flags)
        (decide (romSize < cpu.state.programCounter.toNat + instruction.size cpu.mode)) := by
  rw [handle, perform]
  cases instruction.flow _ <;> rfl

/-- **The step at an instruction that stands in memory as a whole.** -/
theorem step_of_encode {cpu : Cpu} {instruction : Instruction} {following : List UInt8}
    (active : cpu.isHalted = false) (inRange : instruction.InRange cpu.mode)
    (bytes : cpu.rom.toList.drop cpu.state.programCounter.toNat =
      instruction.encode cpu.mode ++ following) :
    cpu.step = cpu.handle instruction.opcode (.known instruction) ∧
      cpu.step.1 = .executed instruction (instruction.jumpTarget? cpu.state.flags) false ∧
      cpu.state.programCounter.toNat + instruction.size cpu.mode ≤ romSize ∧
      cpu.rom.toList.drop (cpu.state.programCounter.toNat + instruction.size cpu.mode) =
        following := by
  have step : cpu.step = cpu.handle instruction.opcode (.known instruction) := by
    rw [Instruction.encode, List.cons_append] at bytes
    rw [step_eq_handle active bytes, Decoded.ofBytes_encode, Instruction.reduced_of_inRange inRange]
  have inside : cpu.state.programCounter.toNat + instruction.size cpu.mode ≤ romSize := by
    have notEmpty := instruction.size_pos cpu.mode
    have length := congrArg List.length bytes
    rw [List.length_drop, Vector.length_toList, List.length_append, instruction.length_encode]
      at length
    omega
  refine ⟨step, ?_, inside, ?_⟩
  · rw [step, handle_known_fst, decide_eq_false (Nat.not_lt.mpr inside)]
  · rw [← List.drop_drop, bytes, ← instruction.length_encode, List.drop_left]

theorem handled?_handle (decoded : Decoded) :
    (cpu.handle opcode decoded).1.handled? = some decoded := by
  cases decoded with
  | unknown byte => rfl
  | known instruction => rw [handle_known_fst, Outcome.handled?]

/-- **What executing an instruction other than a reset leaves.** -/
theorem handle_known_snd {instruction : Instruction} (notReset : instruction ≠ .bare .rst) :
    (cpu.handle opcode (.known instruction)).2 =
      { cpu with state := Reference.advance cpu.mode opcode instruction cpu.state } :=
  Reference.perform_snd cpu opcode instruction notReset

theorem handle_reset_snd : (cpu.handle opcode (.known (.bare .rst))).2 = cpu.reset := rfl

/-- Program memory and the width of addresses stay as they are. -/
theorem handle_frame (decoded : Decoded) :
    (cpu.handle opcode decoded).2.mode = cpu.mode ∧
      (cpu.handle opcode decoded).2.rom = cpu.rom := by
  cases decoded with
  | unknown byte => exact ⟨rfl, rfl⟩
  | known instruction =>
    rw [handle, perform]
    cases instruction.flow _ <;> exact ⟨rfl, rfl⟩

/-- Where execution goes on. -/
theorem programCounter_handle (decoded : Decoded) :
    (cpu.handle opcode decoded).2.state.programCounter =
      match decoded with
      | .unknown _ => cpu.state.programCounter + 1
      | .known instruction =>
        match instruction.flow cpu.state.flags with
        | .advance =>
          UInt16.ofNat (cpu.state.programCounter.toNat + instruction.size cpu.mode)
        | .goto target => target
        | .stay => cpu.state.programCounter
        | .restart => 0 := by
  cases decoded with
  | unknown byte => rfl
  | known instruction =>
    have kept := (MachineState.execute_frame
      (fetched opcode (.known instruction) cpu.state) instruction).1
    have sameFlags : (fetched opcode (.known instruction) cpu.state).flags = cpu.state.flags := rfl
    simp only [handle, perform, sameFlags]
    cases instruction.flow cpu.state.flags with
    | advance | goto | restart => rfl
    | stay => exact kept

/-- Whatever was read is remembered, except by a reset. -/
theorem lastDecoded_handle (decoded : Decoded) :
    (cpu.handle opcode decoded).2.state.lastDecoded =
      if decoded = .known (.bare .rst) then none else some decoded := by
  cases decoded with
  | unknown byte => rfl
  | known instruction =>
    have kept := (MachineState.execute_frame
      (fetched opcode (.known instruction) cpu.state) instruction).2.2
    have restarts := Reference.flow_eq_restart_iff cpu.state.flags instruction
    have sameFlags : (fetched opcode (.known instruction) cpu.state).flags = cpu.state.flags := rfl
    simp only [handle, perform, sameFlags, Decoded.known.injEq, ← restarts]
    cases instruction.flow cpu.state.flags with
    | restart => rfl
    | advance | goto | stay => exact kept

/-- No step writes to program memory or changes the width of addresses. -/
theorem step_frame : cpu.step.2.mode = cpu.mode ∧ cpu.step.2.rom = cpu.rom := by
  rcases cpu.step_cases with ⟨_, step⟩ | ⟨_, step⟩ | ⟨opcode, following, _, _, step⟩
  · rw [step]
    exact ⟨rfl, rfl⟩
  · rw [step]
    exact ⟨rfl, rfl⟩
  · rw [step]
    exact cpu.handle_frame opcode _

/-- The processor after a number of steps. -/
def after (count : Nat) (cpu : Cpu) : Cpu := (fun present : Cpu => present.step.2)^[count] cpu

theorem after_succ (count : Nat) : cpu.after (count + 1) = (cpu.after count).step.2 :=
  Function.iterate_succ_apply' _ count cpu

/-- A halted processor stays as it is. -/
theorem after_of_isHalted (count : Nat) {cpu : Cpu} (halted : cpu.isHalted = true) :
    cpu.after count = cpu := by
  induction count with
  | zero => rfl
  | succ count ih => rw [after_succ, ih, step_eq_idle halted]

end Cpu

end Breadboard
