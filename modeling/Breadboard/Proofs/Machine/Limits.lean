import Breadboard.Proofs.Isa.OwnBytes
import Breadboard.Proofs.Machine.Bounded
import Breadboard.Proofs.Machine.Consistency

/-!
# No session exceeds a limit

Every step of a session is taken by a single step or inside of a run (`Cpu.TakesStep`,
`Cpu.exists_takesStep_of_history`). Whatever was loaded, and wherever execution has come, such a
step reads a slice that lies in program memory and leaves a program counter that fits into its 16
bits, and a jump behind the end of program memory halts. The counters are kept small by the number
of steps, so nothing fails (`session_stays_in_bounds`).
-/

namespace Breadboard

/-- A jump that was read has its target from the bytes behind its opcode. -/
theorem Decoded.target_of_ofBytes {mode : AddressMode} {opcode : UInt8} {following : List UInt8}
    {condition : Condition} {target : UInt16}
    (read : ofBytes mode opcode following = known (.jump condition target)) :
    target = mode.readTarget following := by
  rw [ofBytes_eq_complete] at read
  cases front : ofOpcode opcode with
  | unknown byte =>
    rw [front] at read
    cases read
  | known instruction =>
    rw [front, complete, known.injEq] at read
    cases instruction with
    | bare | unary | pair | immediate | memory => cases read
    | jump other place =>
      cases read
      rfl

/-- The number that the bytes at an address stand for as a jump target. -/
def Rom.targetAt (rom : Rom) (mode : AddressMode) (address : Nat) : Nat :=
  let first := ((rom.read? address).getD 0).toNat
  let second := ((rom.read? (address + 1)).getD 0).toNat
  match mode with
  | .eightBit => first
  | .elevenBit => first * 256 + second

theorem Rom.toNat_readTarget {rom : Rom} {address : Nat} {opcode : UInt8} {following : List UInt8}
    (bytes : rom.toList.drop address = opcode :: following) (mode : AddressMode) :
    (mode.readTarget following).toNat = rom.targetAt mode (address + 1) := by
  have byteAt (index : Nat) :
      following.getD index 0 = (rom.read? (address + 1 + index)).getD 0 := by
    rw [← drop_succ_of_drop bytes, List.getD_eq_getElem?_getD, List.getElem?_drop, read?,
      Vector.getElem?_toList]
  cases mode with
  | eightBit =>
    rw [AddressMode.toNat_readTarget_eightBit, byteAt]
    rfl
  | elevenBit =>
    rw [AddressMode.toNat_readTarget_elevenBit, byteAt, byteAt]
    rfl

namespace Cpu

/-- A session takes a step with the last of these, the processor as it then is. The list of events
is what has happened until then. -/
inductive TakesStep (fresh : Cpu) : List Operation → List Event → Cpu → Prop where
  | alone (before after : List Operation) :
    TakesStep fresh (before ++ .step :: after) (fresh.history before) (fresh.session before)
  | inRun (before after : List Operation) {limit index : Nat}
    (inside : index < ((fresh.session before).runOutcomes limit).length) :
    TakesStep fresh (before ++ .run limit :: after)
      (fresh.history before ++ (((fresh.session before).runOutcomes limit).take index).map .stepped)
      ((fresh.session before).after index)

/-- What the first steps of a run do. -/
theorem take_runOutcomes (cpu : Cpu) {limit index : Nat}
    (inside : index < (cpu.runOutcomes limit).length) :
    (cpu.runOutcomes limit).take index =
      (List.range index).map fun earlier => (cpu.after earlier).step.1 := by
  obtain ⟨outcomes, _, _⟩ := cpu.runOutcomes_eq limit
  rw [outcomes, ← List.map_take, List.take_range, Nat.min_eq_left (Nat.le_of_lt inside)]

/-- Which step of a run it is that does something. -/
theorem step_after_of_runOutcomes {cpu : Cpu} {limit : Nat} {first rest : List Outcome}
    {outcome : Outcome} (split : cpu.runOutcomes limit = first ++ outcome :: rest) :
    first.length < (cpu.runOutcomes limit).length ∧ (cpu.after first.length).step.1 = outcome := by
  have inside : first.length < (cpu.runOutcomes limit).length := by
    rw [split, List.length_append, List.length_cons]
    omega
  have here : (cpu.runOutcomes limit)[first.length]? = some outcome := by
    rw [split, List.getElem?_append_right (Nat.le_refl _), Nat.sub_self, List.getElem?_cons_zero]
  obtain ⟨outcomes, _, _⟩ := cpu.runOutcomes_eq limit
  rw [outcomes, List.getElem?_map, List.getElem?_range inside] at here
  exact ⟨inside, Option.some.inj here⟩

namespace AccountsFor

variable {cpu : Cpu} {history : List Event}

/-- Any number of steps is accounted for. -/
theorem after (accounts : cpu.AccountsFor history) (count : Nat) :
    (cpu.after count).AccountsFor (history ++
      ((List.range count).map fun index => (cpu.after index).step.1).map .stepped) := by
  induction count with
  | zero =>
    rw [List.range_zero, List.map_nil, List.map_nil, List.append_nil]
    exact accounts
  | succ count ih =>
    rw [after_succ, List.range_succ, List.map_append, List.map_append, ← List.append_assoc]
    exact ih.step_snd

/-- The counters are small as long as there were not too many steps. -/
theorem counters_lt (accounts : cpu.AccountsFor history)
    (few : (sinceReset history).length < 2 ^ 61) :
    cpu.state.instructionCount < 2 ^ 61 ∧ cpu.state.cycleCount < 2 ^ 63 := by
  have counted : (costs (sinceReset history)).length ≤ (sinceReset history).length := by
    rw [length_costs]
    exact List.countP_le_length
  obtain ⟨_, cheap⟩ := sum_costs_bounds (sinceReset history)
  rw [accounts.instructions, accounts.cycles]
  omega

end AccountsFor

namespace TakesStep

variable {fresh cpu : Cpu} {operations : List Operation} {history : List Event}

theorem mode_eq (taken : fresh.TakesStep operations history cpu) : cpu.mode = fresh.mode := by
  cases taken with
  | alone before after => exact fresh.mode_session before
  | inRun before after inside => exact (after_frame _ _).1.trans (fresh.mode_session before)

/-- **Each step of a session** finds counters that account for what was before it. -/
theorem accountsFor (taken : fresh.TakesStep operations history cpu)
    (noneYet : fresh.AccountsFor []) : cpu.AccountsFor history := by
  cases taken with
  | alone before after => exact noneYet.session before
  | inRun before after inside =>
    rw [take_runOutcomes _ inside]
    exact (noneYet.session before).after _

/-- Steps behind an operation are steps of the session that begins with it. -/
theorem cons {operation : Operation}
    (taken : (fresh.operate operation).TakesStep operations history cpu) :
    fresh.TakesStep (operation :: operations) (fresh.events operation ++ history) cpu := by
  cases taken with
  | alone before after => exact .alone (operation :: before) after
  | inRun before after inside =>
    rw [← List.append_assoc]
    exact .inRun (operation :: before) after inside

end TakesStep

/-- The steps of an operation are steps of the session that begins with it. -/
theorem exists_takesStep_of_events {fresh : Cpu} {operation : Operation}
    {earlier later : List Event} {outcome : Outcome}
    (happened : fresh.events operation = earlier ++ .stepped outcome :: later)
    (operations : List Operation) :
    ∃ cpu, fresh.TakesStep (operation :: operations) earlier cpu ∧ cpu.step.1 = outcome := by
  have among : Event.stepped outcome ∈ fresh.events operation := by
    rw [happened]
    exact List.mem_append_right _ List.mem_cons_self
  cases operation with
  | load bytes start =>
    rw [events] at among
    split at among
    · cases List.mem_singleton.mp among
    · cases among
  | reset => cases List.mem_singleton.mp among
  | step =>
    obtain ⟨rfl, same⟩ | ⟨_, nothing⟩ := List.append_eq_singleton_iff.mp happened.symm
    · cases same
      exact ⟨fresh, .alone [] operations, rfl⟩
    · cases nothing
  | run limit =>
    obtain ⟨first, rest, split, rfl, behind⟩ := List.map_eq_append_iff.mp happened
    obtain ⟨other, others, rfl, same, _⟩ := List.map_eq_cons_iff.mp behind
    cases same
    obtain ⟨inside, does⟩ := step_after_of_runOutcomes split
    have taken : fresh.TakesStep (.run limit :: operations)
        (((fresh.runOutcomes limit).take first.length).map .stepped) (fresh.after first.length) :=
      .inRun [] operations inside
    rw [split, List.take_left] at taken
    exact ⟨fresh.after first.length, taken, does⟩

/-- **No step is left out**: whatever a session tells of as a step is one that it takes. -/
theorem exists_takesStep_of_history {fresh : Cpu} {operations : List Operation}
    {earlier later : List Event} {outcome : Outcome}
    (happened : fresh.history operations = earlier ++ .stepped outcome :: later) :
    ∃ cpu, fresh.TakesStep operations earlier cpu ∧ cpu.step.1 = outcome := by
  induction operations generalizing fresh earlier with
  | nil =>
    exact absurd happened.symm (List.append_ne_nil_of_right_ne_nil earlier (List.cons_ne_nil _ _))
  | cons operation operations ih =>
    rw [history] at happened
    -- The step belongs to the first operation or to one behind it.
    obtain ⟨between, rfl, behind⟩ | ⟨between, within, behind⟩ :=
      List.append_eq_append_iff.mp happened
    · obtain ⟨cpu, taken, same⟩ := ih behind
      exact ⟨cpu, taken.cons, same⟩
    · cases between with
      | nil =>
        rw [List.append_nil] at within
        have atOnce : (fresh.operate operation).history operations =
            [] ++ .stepped outcome :: later := behind.symm
        obtain ⟨cpu, taken, same⟩ := ih atOnce
        have all := taken.cons
        rw [List.append_nil, within] at all
        exact ⟨cpu, all, same⟩
      | cons event between =>
        cases behind
        exact exists_takesStep_of_events within operations

variable {cpu : Cpu}

/-- A step that reads an opcode handles it. -/
theorem exists_step_eq_handle_of_read {opcode : UInt8} (active : cpu.isHalted = false)
    (read : cpu.rom.read? cpu.state.programCounter.toNat = some opcode) :
    ∃ following, cpu.rom.toList.drop cpu.state.programCounter.toNat = opcode :: following ∧
      cpu.step = cpu.handle opcode (.ofBytes cpu.mode opcode following) := by
  obtain ⟨inside, _⟩ := Vector.getElem?_eq_some_iff.mp read
  obtain ⟨other, following, bytes, step⟩ := exists_step_eq_handle active inside
  rw [Rom.read?_of_drop bytes] at read
  cases read
  exact ⟨following, bytes, step⟩

/-- A step that does something has read an opcode. -/
theorem exists_handle_of_handled? {decoded : Decoded}
    (handled : cpu.step.1.handled? = some decoded) :
    ∃ opcode following, cpu.rom.toList.drop cpu.state.programCounter.toNat = opcode :: following ∧
      decoded = .ofBytes cpu.mode opcode following ∧ cpu.step = cpu.handle opcode decoded := by
  rcases cpu.step_cases with ⟨_, step⟩ | ⟨_, step⟩ | ⟨opcode, following, _, bytes, step⟩
  · rw [step] at handled
    cases handled
  · rw [step] at handled
    cases handled
  · rw [step, handled?_handle] at handled
    cases handled
    exact ⟨opcode, following, bytes, rfl, step⟩

/-- Behind a byte that is no opcode there is the next address. -/
theorem toNat_programCounter_of_skipped {byte : UInt8} (skipped : cpu.step.1 = .skipped byte) :
    cpu.step.2.state.programCounter.toNat = cpu.state.programCounter.toNat + 1 := by
  have handled : cpu.step.1.handled? = some (.unknown byte) := congrArg Outcome.handled? skipped
  obtain ⟨opcode, following, bytes, _, step⟩ := exists_handle_of_handled? handled
  obtain ⟨inside, _⟩ := Vector.getElem?_eq_some_iff.mp (Rom.read?_of_drop bytes)
  have rom : romSize = 2048 := rfl
  rw [step, programCounter_handle, UInt16.toNat_add]
  exact Nat.mod_eq_of_lt (by change _ + 1 < 65536; omega)

/-- What an instruction that was executed has been read from, and where it leads. -/
theorem flow_of_executed {instruction : Instruction} {jumpedTo : Option UInt16} {cutOff : Bool}
    (executed : cpu.step.1 = .executed instruction jumpedTo cutOff) :
    ∃ opcode following, cpu.rom.toList.drop cpu.state.programCounter.toNat = opcode :: following ∧
      Decoded.ofBytes cpu.mode opcode following = .known instruction ∧
      jumpedTo = instruction.jumpTarget? cpu.state.flags ∧
      cpu.step.2.state.programCounter =
        match instruction.flow cpu.state.flags with
        | .advance =>
          UInt16.ofNat (cpu.state.programCounter.toNat + instruction.size cpu.mode)
        | .goto target => target
        | .stay => cpu.state.programCounter
        | .restart => 0 := by
  have handled : cpu.step.1.handled? = some (.known instruction) :=
    congrArg Outcome.handled? executed
  obtain ⟨opcode, following, bytes, read, step⟩ := exists_handle_of_handled? handled
  refine ⟨opcode, following, bytes, read.symm, ?_, ?_⟩
  · rw [step, handle_known_fst] at executed
    cases executed
    rfl
  · rw [step]
    exact cpu.programCounter_handle opcode (.known instruction)

/-- Behind an instruction that does not jump there is the address where it ends. -/
theorem toNat_programCounter_of_executed {instruction : Instruction} {cutOff : Bool}
    (executed : cpu.step.1 = .executed instruction none cutOff)
    (notHalt : instruction ≠ .bare .hlt) (notReset : instruction ≠ .bare .rst) :
    cpu.step.2.state.programCounter.toNat =
      cpu.state.programCounter.toNat + instruction.size cpu.mode := by
  obtain ⟨opcode, following, bytes, _, jumps, goesOn⟩ := flow_of_executed executed
  obtain ⟨inside, _⟩ := Vector.getElem?_eq_some_iff.mp (Rom.read?_of_drop bytes)
  have rom : romSize = 2048 := rfl
  have short := instruction.mnemonic.shape.size_le_three cpu.mode
  rw [goesOn]
  cases flow : instruction.flow cpu.state.flags with
  | advance =>
    apply UInt16.toNat_ofNat_of_lt'
    change _ < 65536
    rw [Instruction.size, Mnemonic.size]
    omega
  | goto target =>
    rw [Instruction.jumpTarget?, flow] at jumps
    cases jumps
  | stay => exact absurd (Instruction.eq_hlt_of_flow flow) notHalt
  | restart => exact absurd ((Reference.flow_eq_restart_iff _ _).mp flow) notReset

/-- A jump goes to what the bytes behind its opcode say. -/
theorem programCounter_of_jumped {instruction : Instruction} {target : UInt16} {cutOff : Bool}
    (executed : cpu.step.1 = .executed instruction (some target) cutOff) :
    cpu.step.2.state.programCounter = target ∧
      target.toNat = cpu.rom.targetAt cpu.mode (cpu.state.programCounter.toNat + 1) := by
  obtain ⟨opcode, following, bytes, read, jumps, goesOn⟩ := flow_of_executed executed
  rw [Instruction.jumpTarget?] at jumps
  cases flow : instruction.flow cpu.state.flags with
  | goto other =>
    rw [flow] at goesOn jumps
    cases jumps
    obtain ⟨condition, rfl⟩ := instruction.exists_eq_jump_of_flow flow
    refine ⟨goesOn, ?_⟩
    rw [Decoded.target_of_ofBytes read, Rom.toNat_readTarget bytes]
  | advance | stay | restart =>
    rw [flow] at jumps
    cases jumps

/-- Behind the end of program memory a step executes nothing, and the processor is halted. -/
theorem step_of_outside (outside : romSize ≤ cpu.state.programCounter.toNat) :
    cpu.step.1.ran = false ∧ cpu.step.2.isHalted = true := by
  cases halted : cpu.isHalted with
  | true =>
    rw [step_eq_idle halted]
    exact ⟨rfl, halted⟩
  | false =>
    rw [step_eq_pastEnd halted outside]
    exact ⟨rfl, rfl⟩

end Cpu

/-- **No step of a session exceeds a limit**, whatever is loaded and wherever execution leads. The
bytes of an instruction are a slice of program memory, from which the instruction is read. The
address behind it, or behind a byte that is no opcode, fits into the program counter. The target
of a jump is stored as it stands in memory, and if it lies behind the end, the next step executes
nothing and leaves the processor halted. As long as there were fewer than 2⁶¹ steps since
everything was cleared, the counters fit into 64 bits, so that the step that fails wherever an
index, a slice or a number is out of range does what the processor does. -/
theorem session_stays_in_bounds {mode : AddressMode} {operations : List Operation}
    {history : List Event} {cpu : Cpu}
    (taken : Cpu.TakesStep { mode := mode } operations history cpu)
    (few : (sinceReset history).length < 2 ^ 61) :
    let address := cpu.state.programCounter.toNat
    let next := cpu.step.2
    (∀ opcode, cpu.isHalted = false → cpu.rom.read? address = some opcode →
      let front := Decoded.ofOpcode opcode
      let size := front.size mode
      let start := min (address + 1) 2048
      let stop := min (address + size) 2048
      start ≤ stop ∧ stop ≤ 2048 ∧ address + size ≤ 2050 ∧ address + 1 ≤ 2048 ∧
      cpu.step.1.handled? = some (front.complete mode (cpu.rom.extract start stop).toList)) ∧
    (∀ byte, cpu.step.1 = .skipped byte → next.state.programCounter.toNat = address + 1) ∧
    (∀ instruction cutOff, cpu.step.1 = .executed instruction none cutOff →
      instruction ≠ .bare .hlt → instruction ≠ .bare .rst →
      next.state.programCounter.toNat = address + instruction.size mode) ∧
    (∀ instruction target cutOff, cpu.step.1 = .executed instruction (some target) cutOff →
      next.state.programCounter = target ∧
      target.toNat = cpu.rom.targetAt mode (address + 1) ∧
      (2048 ≤ target.toNat → next.step.1.ran = false ∧ next.step.2.isHalted = true)) ∧
    cpu.state.instructionCount + 1 < 2 ^ 64 ∧ cpu.state.cycleCount + 4 < 2 ^ 64 ∧
    Bounded.step cpu = .ok cpu.step := by
  intro address next
  have sameMode : cpu.mode = mode := taken.mode_eq
  obtain ⟨instructions, cycles⟩ := (taken.accountsFor ⟨rfl, rfl⟩).counters_lt few
  have room : cpu.state.instructionCount + 1 < 2 ^ 64 := by omega
  have time : cpu.state.cycleCount + 4 < 2 ^ 64 := by omega
  refine ⟨?_, fun byte => Cpu.toNat_programCounter_of_skipped, ?_, ?_, room, time,
    Bounded.step_eq_ok room time⟩
  · intro opcode active read front size start stop
    obtain ⟨inside, _⟩ := Vector.getElem?_eq_some_iff.mp read
    have within : address < 2048 := inside
    have longer : 0 < size := front.size_pos mode
    have short : size ≤ 3 := front.size_le_three mode
    obtain ⟨following, bytes, step⟩ := Cpu.exists_step_eq_handle_of_read active read
    refine ⟨by omega, by omega, by omega, by omega, ?_⟩
    rw [step, Cpu.handled?_handle, sameMode]
    exact congrArg (fun payload => some (front.complete mode payload))
      (Bounded.payload_eq bytes size).symm
  · intro instruction cutOff executed notHalt notReset
    rw [← sameMode]
    exact Cpu.toNat_programCounter_of_executed executed notHalt notReset
  · intro instruction target cutOff executed
    obtain ⟨goesOn, number⟩ := Cpu.programCounter_of_jumped executed
    rw [sameMode] at number
    refine ⟨goesOn, number, fun outside => Cpu.step_of_outside ?_⟩
    rw [goesOn]
    exact outside

/-- A run that sends a byte to the display and then jumps to the last address of 16 bits. -/
theorem session_stays_in_bounds_of_far_jump :
    let fresh : Cpu := { mode := .elevenBit }
    let program : List Operation := [.load [0x10, 0x05, 0xFF, 0xFF] 0]
    let cpu := (fresh.session program).after 1
    let history := fresh.history program ++
      (((fresh.session program).runOutcomes 5).take 1).map .stepped
    (fresh.TakesStep (program ++ .run 5 :: [.reset]) history cpu ∧
      (sinceReset history).length < 2 ^ 61) ∧
    (cpu.isHalted = false ∧ cpu.rom.read? 1 = some 0x05 ∧
      cpu.step.1.handled? = some (.known (.jump .always 0xFFFF))) ∧
    (cpu.step.1 = .executed (.jump .always 0xFFFF) (some 0xFFFF) false ∧
      cpu.step.2.state.programCounter = 0xFFFF ∧ cpu.rom.targetAt .elevenBit 2 = 0xFFFF ∧
      cpu.step.2.step.1.ran = false ∧ cpu.step.2.step.2.isHalted = true) ∧
    Bounded.step cpu = .ok cpu.step := by
  intro fresh program cpu history
  have taken : fresh.TakesStep (program ++ .run 5 :: [.reset]) history cpu :=
    .inRun program [.reset] (by decide +kernel : 1 < ((fresh.session program).runOutcomes 5).length)
  have few : (sinceReset history).length < 2 ^ 61 := by decide +kernel
  obtain ⟨reads, _, _, jumps, _, _, done⟩ := session_stays_in_bounds taken few
  have active : cpu.isHalted = false := by decide +kernel
  have read : cpu.rom.read? cpu.state.programCounter.toNat = some 0x05 := by decide +kernel
  have executed : cpu.step.1 = .executed (.jump .always 0xFFFF) (some 0xFFFF) false := by
    decide +kernel
  obtain ⟨_, _, _, _, handled⟩ := reads 0x05 active read
  obtain ⟨goesOn, number, halts⟩ := jumps _ _ _ executed
  exact ⟨⟨taken, few⟩, ⟨active, read, handled.trans (by decide +kernel)⟩,
    ⟨executed, goesOn, number.symm, halts (by decide)⟩, done⟩

end Breadboard
