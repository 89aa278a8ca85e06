import Breadboard.Proofs.Machine.Program
import Breadboard.Proofs.Machine.Session

/-!
# Consistent processors

Not every combination of a status, flags and a program counter can come about. A processor
that executed nothing since it was reset is as if it were new, a result is not both zero and
negative, a display to which nothing was sent shows zero, and a halted processor shows why it is
halted (`Cpu.HaltCause`). A step keeps all of this whatever it reads (`Cpu.Consistent.step_snd`),
so it holds throughout a session (`session_consistent`).
-/

namespace Breadboard

/-- Why a processor is halted. -/
inductive Cpu.HaltCause (cpu : Cpu) : Prop where
  /-- It executed a halt, and stays where that stands. -/
  | halt (here : cpu.rom.read? cpu.state.programCounter.toNat = some 0x20)
      (fetched : cpu.state.instructionRegister = 0x20)
      (last : cpu.state.lastDecoded = some (.known (.bare .hlt)))
  /-- There is nothing to read at the program counter. -/
  | pastEnd (outside : romSize ≤ cpu.state.programCounter.toNat)
  /-- It took a jump whose last bytes lie behind the end of ROM. -/
  | cutOffJump {address : Nat} {condition : Condition} {target : UInt16}
      (inside : address < romSize) (beyond : romSize < address + cpu.mode.jumpSize)
      (read : Decoded.atFront? cpu.mode (cpu.rom.toList.drop address) =
        some (.known (.jump condition target)))
      (last : cpu.state.lastDecoded = some (.known (.jump condition target)))
      (there : cpu.state.programCounter = target)

/-- **What holds of every processor that is used as it should be.** -/
structure Cpu.Consistent (cpu : Cpu) : Prop where
  fresh : cpu.state.status = .ready → cpu.state = {}
  oneSign : ¬(cpu.state.flags.zero = true ∧ cpu.state.flags.negative = true)
  dark : cpu.state.outputEnabled = false → cpu.state.output = 0
  low : cpu.mode = .eightBit → cpu.state.programCounter.toNat ≤ 2049
  cause : cpu.isHalted = true → cpu.HaltCause

theorem Shape.size_eightBit_le_two (shape : Shape) : shape.size .eightBit ≤ 2 := by
  cases shape <;> decide

/-- Only a halt stays where it is. -/
theorem Instruction.eq_hlt_of_flow {flags : Flags} {instruction : Instruction}
    (flow : instruction.flow flags = .stay) : instruction = .bare .hlt := by
  cases instruction with
  | bare op =>
    cases op with
    | hlt => rfl
    | nop | out | rst => cases flow
  | unary | pair | immediate | memory => cases flow
  | jump condition target =>
    rw [Instruction.flow] at flow
    split at flow <;> cases flow

/-- What was decoded has the opcode that it was decoded from. -/
theorem Decoded.opcode_of_ofBytes {mode : AddressMode} {opcode : UInt8}
    {following : List UInt8} {instruction : Instruction}
    (read : ofBytes mode opcode following = known instruction) : instruction.opcode = opcode :=
  (List.cons.inj (encode_of_ofBytes read)).1

namespace Reference

/-- No instruction leaves both flags set. -/
theorem oneSign_effect {state : MachineState}
    (oneSign : ¬(state.flags.zero = true ∧ state.flags.negative = true))
    (instruction : Instruction) :
    ¬((effect instruction state).flags.zero = true ∧
      (effect instruction state).flags.negative = true) := by
  have ofResult (result : Nat) (carry : Bool) :
      ¬((setFlags result carry state).flags.zero = true ∧
        (setFlags result carry state).flags.negative = true) := by
    simp only [setFlags, decide_eq_true_eq]
    omega
  cases instruction with
  | bare op => cases op <;> exact oneSign
  | unary op register => cases op <;> exact ofResult _ _
  | pair op destination source =>
    cases op with
    | mov => exact oneSign
    | add | sub | and | or | xor | cmp => exact ofResult _ _
  | immediate op register constant =>
    cases op with
    | ldi => exact oneSign
    | cmi => exact ofResult _ _
  | memory op register address => cases op <;> exact oneSign
  | jump condition target => exact oneSign

/-- An instruction that puts a byte on the display lines enables the display. -/
theorem dark_effect {state : MachineState}
    (dark : state.outputEnabled = false → state.output = 0) (instruction : Instruction) :
    (effect instruction state).outputEnabled = false → (effect instruction state).output = 0 := by
  cases instruction with
  | bare op =>
    cases op with
    | out => rintro ⟨⟩
    | nop | hlt | rst => exact dark
  | unary op | pair op | immediate op | memory op => cases op <;> exact dark
  | jump condition target => exact dark

end Reference

namespace Cpu

variable {cpu : Cpu}

/-- A program counter that only eight bits are jumped with stays low. -/
theorem toNat_programCounter_handle_le {opcode : UInt8} {following : List UInt8}
    (eightBit : cpu.mode = .eightBit) (inside : cpu.state.programCounter.toNat < romSize) :
    (cpu.handle opcode (.ofBytes cpu.mode opcode following)).2.state.programCounter.toNat ≤
      2049 := by
  have rom : romSize = 2048 := rfl
  rw [programCounter_handle]
  cases read : Decoded.ofBytes cpu.mode opcode following with
  | unknown byte =>
    change (cpu.state.programCounter + 1).toNat ≤ 2049
    have moved : (cpu.state.programCounter + 1).toNat ≤ cpu.state.programCounter.toNat + 1 := by
      rw [UInt16.toNat_add]
      exact Nat.mod_le _ _
    omega
  | known instruction =>
    dsimp only
    cases flow : instruction.flow cpu.state.flags with
    | advance =>
      have small : instruction.size .eightBit ≤ 2 := instruction.mnemonic.shape.size_eightBit_le_two
      have moved : (UInt16.ofNat (cpu.state.programCounter.toNat +
          instruction.size cpu.mode)).toNat ≤
          cpu.state.programCounter.toNat + instruction.size cpu.mode := by
        rw [UInt16.toNat_ofNat']
        exact Nat.mod_le _ _
      rw [eightBit] at moved ⊢
      dsimp only
      omega
    | goto target =>
      obtain ⟨condition, rfl⟩ := instruction.exists_eq_jump_of_flow flow
      have inRange : target.toNat < 256 := Decoded.inRange_of_ofBytes read eightBit
      dsimp only
      omega
    | stay =>
      dsimp only
      omega
    | restart => exact Nat.zero_le _

/-- What halts a processor that executes an instruction: a halt or the end of ROM. -/
theorem eq_hlt_or_lt_of_isHalted_handle {opcode : UInt8} {instruction : Instruction}
    (notReset : instruction ≠ .bare .rst)
    (halted : (cpu.handle opcode (.known instruction)).2.isHalted = true) :
    instruction = .bare .hlt ∨
      romSize < cpu.state.programCounter.toNat + instruction.size cpu.mode := by
  rw [cpu.handle_known_snd opcode notReset, isHalted, decide_eq_true_iff] at halted
  rw [Reference.size_eq]
  by_contra running
  have status : (Reference.advance cpu.mode opcode instruction cpu.state).status = .running :=
    if_neg running
  rw [status] at halted
  cases halted

/-- **A halt has a cause.** -/
theorem haltCause_handle {opcode : UInt8} {following : List UInt8} {instruction : Instruction}
    (bytes : cpu.rom.toList.drop cpu.state.programCounter.toNat = opcode :: following)
    (read : Decoded.ofBytes cpu.mode opcode following = .known instruction)
    (notReset : instruction ≠ .bare .rst)
    (halted : (cpu.handle opcode (.known instruction)).2.isHalted = true) :
    (cpu.handle opcode (.known instruction)).2.HaltCause := by
  have here := Rom.read?_of_drop bytes
  obtain ⟨inside, _⟩ := Vector.getElem?_eq_some_iff.mp here
  obtain ⟨sameMode, sameRom⟩ := cpu.handle_frame opcode (.known instruction)
  have goesOn := cpu.programCounter_handle opcode (.known instruction)
  have last := cpu.lastDecoded_handle opcode (.known instruction)
  rw [if_neg fun same => notReset (Decoded.known.inj same)] at last
  have stopped := eq_hlt_or_lt_of_isHalted_handle notReset halted
  cases flow : instruction.flow cpu.state.flags with
  | stay =>
    have isHlt := Instruction.eq_hlt_of_flow flow
    have isOpcode := Decoded.opcode_of_ofBytes read
    rw [isHlt] at isOpcode
    simp only [flow] at goesOn
    apply HaltCause.halt
    · rw [sameRom, goesOn, here, ← isOpcode]
      rfl
    · rw [cpu.handle_known_snd opcode notReset]
      exact isOpcode.symm
    · rw [last, isHlt]
  | advance =>
    have notHlt : instruction ≠ .bare .hlt := by
      rintro rfl
      cases flow
    have beyond := stopped.resolve_left notHlt
    have small := instruction.mnemonic.shape.size_le_three cpu.mode
    have fits : cpu.state.programCounter.toNat + instruction.size cpu.mode < UInt16.size := by
      change _ < 65536
      have rom : romSize = 2048 := rfl
      rw [Instruction.size, Mnemonic.size]
      omega
    simp only [flow] at goesOn
    apply HaltCause.pastEnd
    rw [goesOn, UInt16.toNat_ofNat_of_lt' fits]
    exact Nat.le_of_lt beyond
  | goto target =>
    obtain ⟨condition, rfl⟩ := instruction.exists_eq_jump_of_flow flow
    simp only [flow] at goesOn
    refine .cutOffJump inside ?_ ?_ last goesOn
    · rw [sameMode]
      exact stopped.resolve_left (by rintro ⟨⟩)
    · rw [sameMode, sameRom, bytes, Decoded.atFront?, read]
  | restart => exact absurd ((Reference.flow_eq_restart_iff _ _).mp flow) notReset

namespace Consistent

/-- A cleared processor is consistent. -/
theorem of_cleared (cleared : cpu.state = {}) : cpu.Consistent where
  fresh := fun _ => cleared
  oneSign := by
    rw [cleared]
    rintro ⟨⟨⟩, _⟩
  dark := by
    rw [cleared]
    exact fun _ => rfl
  low := by
    rw [cleared]
    exact fun _ => Nat.zero_le _
  cause := by
    rw [isHalted, cleared]
    rintro ⟨⟩

/-- Whatever is handled, a consistent processor stays consistent. -/
theorem handle (consistent : cpu.Consistent) {opcode : UInt8} {following : List UInt8}
    (bytes : cpu.rom.toList.drop cpu.state.programCounter.toNat = opcode :: following) :
    (cpu.handle opcode (.ofBytes cpu.mode opcode following)).2.Consistent := by
  obtain ⟨inside, _⟩ := Vector.getElem?_eq_some_iff.mp (Rom.read?_of_drop bytes)
  obtain ⟨sameMode, _⟩ := cpu.handle_frame opcode (.ofBytes cpu.mode opcode following)
  have low : (cpu.handle opcode (.ofBytes cpu.mode opcode following)).2.mode = .eightBit →
      (cpu.handle opcode (.ofBytes cpu.mode opcode following)).2.state.programCounter.toNat ≤
        2049 :=
    fun eightBit => toNat_programCounter_handle_le (sameMode.symm.trans eightBit) inside
  cases read : Decoded.ofBytes cpu.mode opcode following with
  | unknown byte =>
    rw [read] at low
    exact ⟨by rintro ⟨⟩, consistent.oneSign, consistent.dark, low, by rintro ⟨⟩⟩
  | known instruction =>
    rw [read] at low
    by_cases isReset : instruction = .bare .rst
    · subst isReset
      exact of_cleared rfl
    · refine ⟨?_, ?_, ?_, low, haltCause_handle bytes read isReset⟩
      · rw [cpu.handle_known_snd opcode isReset]
        intro ready
        change (if _ then Status.halted else Status.running) = Status.ready at ready
        split at ready <;> cases ready
      · rw [cpu.handle_known_snd opcode isReset]
        exact Reference.oneSign_effect consistent.oneSign instruction
      · rw [cpu.handle_known_snd opcode isReset]
        exact Reference.dark_effect consistent.dark instruction

/-- **A step keeps a processor consistent.** -/
theorem step_snd (consistent : cpu.Consistent) : cpu.step.2.Consistent := by
  rcases cpu.step_cases with ⟨_, step⟩ | ⟨outside, step⟩ | ⟨opcode, following, _, bytes, step⟩
  · rw [step]
    exact consistent
  · rw [step]
    exact ⟨by rintro ⟨⟩, consistent.oneSign, consistent.dark, consistent.low,
      fun _ => .pastEnd outside⟩
  · rw [step]
    exact consistent.handle bytes

/-- **A session keeps a processor consistent.** -/
theorem session (consistent : cpu.Consistent) (operations : List Operation) :
    (cpu.session operations).Consistent := by
  apply session_induction Cpu.Consistent consistent
  · exact fun _ => step_snd
  · exact fun _ _ => of_cleared rfl
  · intro present bytes start loaded done _
    apply of_cleared
    rw [present.eq_reset_of_load done]
    rfl

end Consistent

/-- A reset that is executed does what a reset does. -/
theorem step_snd_of_reset {jumpedTo : Option UInt16} {cutOff : Bool}
    (executed : cpu.step.1 = .executed (.bare .rst) jumpedTo cutOff) :
    cpu.step.2 = cpu.reset := by
  rcases cpu.step_cases with ⟨_, step⟩ | ⟨_, step⟩ | ⟨opcode, following, _, _, step⟩
  · rw [step] at executed
    cases executed
  · rw [step] at executed
    cases executed
  · rw [step] at executed ⊢
    cases read : Decoded.ofBytes cpu.mode opcode following with
    | unknown byte =>
      rw [read] at executed
      cases executed
    | known instruction =>
      rw [read, cpu.handle_known_fst opcode instruction] at executed
      cases executed
      exact cpu.handle_reset_snd opcode

/-- A reset goes back to the load before it, as long as nothing else was loaded. -/
theorem reset_session_of_load {present loaded : Cpu} {bytes : List UInt8} {start : Nat}
    (done : present.load bytes start = (none, loaded)) {operations : List Operation}
    (nothing : operations.filterMap Operation.stored? = []) :
    (loaded.session operations).reset = loaded := by
  have cleared : loaded.state = {} := by
    rw [present.eq_reset_of_load done]
    rfl
  obtain ⟨mode, rom⟩ := loaded.session_frame nothing
  rw [reset, mode, rom, ← cleared]

end Cpu

/-- **A session keeps a processor consistent**, whatever is loaded and whether it succeeds. A
processor that executed nothing is as new but for its program memory; zero and negative are
never set together; a display to which nothing was sent shows zero; eight bits do not lead far; and
what is halted has a cause. A reset that is executed goes back to the latest load. -/
theorem session_consistent (mode : AddressMode) (operations : List Operation) :
    let fresh : Cpu := { mode := mode }
    let cpu := fresh.session operations
    cpu.mode = mode ∧
    (cpu.state.status = .ready → cpu = { fresh with rom := cpu.rom }) ∧
    ¬(cpu.state.flags.zero = true ∧ cpu.state.flags.negative = true) ∧
    (cpu.state.outputEnabled = false → cpu.state.output = 0) ∧
    (mode = .eightBit → cpu.state.programCounter.toNat ≤ 2049) ∧
    (cpu.isHalted = true → cpu.HaltCause) ∧
    ∀ jumpedTo cutOff, cpu.step.1 = .executed (.bare .rst) jumpedTo cutOff →
      cpu.step.2 = { fresh with rom := cpu.rom } ∧
      ∀ before bytes start after loaded, operations = before ++ .load bytes start :: after →
        (fresh.session before).load bytes start = (none, loaded) →
        after.filterMap Operation.stored? = [] → cpu.step.2 = loaded := by
  intro fresh cpu
  have sameMode : cpu.mode = mode := fresh.mode_session operations
  have consistent : cpu.Consistent :=
    (Cpu.Consistent.of_cleared (rfl : fresh.state = {})).session operations
  refine ⟨sameMode, ?_, consistent.oneSign, consistent.dark,
    fun eightBit => consistent.low (sameMode.trans eightBit), consistent.cause, ?_⟩
  · intro ready
    have cleared := consistent.fresh ready
    generalize cpu = present at cleared sameMode ⊢
    obtain ⟨_, rom, state⟩ := present
    cases sameMode
    cases cleared
    rfl
  · intro jumpedTo cutOff executed
    rw [Cpu.step_snd_of_reset executed]
    refine ⟨?_, ?_⟩
    · rw [Cpu.reset, sameMode]
    · intro before bytes start after loaded split done nothing
      have reached : cpu = loaded.session after := by
        change fresh.session operations = _
        rw [split, fresh.session_append, Cpu.session, List.foldl_cons, ← Cpu.session,
          Cpu.operate, done]
      rw [reached]
      exact Cpu.reset_session_of_load done nothing

theorem session_consistent_of_cut_off_jump :
    let jumped := Cpu.session { mode := .elevenBit }
      [.load [0x05, 0x07, 0xFF] 0, .load [0x05] 2047, .step, .step]
    let halting := Cpu.session { mode := .eightBit } [.load [0x04, 0x03, 0x20] 0, .run 5]
    let resetting := Cpu.session { mode := .eightBit }
      [.load [0x10, 0xFF] 0, .load [1, 2] 2047, .step]
    (jumped.isHalted = true ∧ jumped.state.programCounter = 0 ∧ jumped.HaltCause) ∧
    (halting.isHalted = true ∧ halting.HaltCause ∧ halting.state.outputEnabled = false ∧
      halting.state.output = 0 ∧ halting.state.programCounter.toNat ≤ 2049) ∧
    (resetting.step.1 = .executed (.bare .rst) none false ∧
      Cpu.load [0x10, 0xFF] 0 { mode := .eightBit } = (none, resetting.step.2)) := by
  obtain ⟨_, _, _, _, _, cutOff, _⟩ := session_consistent .elevenBit
    [.load [0x05, 0x07, 0xFF] 0, .load [0x05] 2047, .step, .step]
  obtain ⟨_, _, _, dark, low, cause, _⟩ := session_consistent .eightBit
    [.load [0x04, 0x03, 0x20] 0, .run 5]
  obtain ⟨_, _, _, _, _, _, resets⟩ := session_consistent .eightBit
    [.load [0x10, 0xFF] 0, .load [1, 2] 2047, .step]
  have done : Cpu.load [0x10, 0xFF] 0 { mode := .eightBit } = (none, _) :=
    Cpu.load_of_fits _ (by decide)
  have back := (resets none false (by decide +kernel)).2 [] [0x10, 0xFF] 0
    [.load [1, 2] 2047, .step] _ rfl done (by decide)
  exact ⟨⟨by decide +kernel, by decide +kernel, cutOff (by decide +kernel)⟩,
    ⟨by decide +kernel, cause (by decide +kernel), by decide +kernel, dark (by decide +kernel),
      low rfl⟩,
    by decide +kernel, done.trans (congrArg (Prod.mk none) back.symm)⟩

end Breadboard
