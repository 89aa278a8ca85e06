import Breadboard.Proofs.Isa.Reencoding
import Breadboard.Proofs.Machine.Portions
import Breadboard.Proofs.Machine.Session
import Mathlib.Algebra.Order.BigOperators.Group.List
import Mathlib.Algebra.Order.Ring.Nat
import Mathlib.Data.List.DropRight

/-!
# What the counters count

The history of a session is kept beside the processor: every step with what it did, also those
inside of a run, and every reset from outside (`Cpu.history`). Of this history only the steps
since the last time that everything was cleared are left to be counted (`sinceReset`). Each step
counts the instruction that it executed, whole or cut off, and nothing if it executed none
(`Cpu.counters_step`), so the two counters are the number of these instructions and the sum of what
the opcode table says they cost (`counters_account_for_session`).
-/

namespace Breadboard

namespace Outcome

/-- The instruction that was executed, if one was. -/
def executed? : Outcome → Option Instruction
  | executed instruction _ _ => some instruction
  | idle | pastEnd | skipped _ => none

theorem isSome_executed? (outcome : Outcome) : outcome.executed?.isSome = outcome.ran := by
  cases outcome <;> rfl

end Outcome

/-- What happens to a processor. -/
inductive Event where
  | stepped (outcome : Outcome)
  /-- It was reset from outside, be it by a load that fits. -/
  | reset
deriving DecidableEq, Repr

namespace Event

/-- What a step did. -/
def outcome? : Event → Option Outcome
  | stepped outcome => some outcome
  | reset => none

/-- Everything is cleared by a reset, be it one that is executed. -/
def clears : Event → Bool
  | stepped outcome => outcome.executed? = some (.bare .rst)
  | reset => true

end Event

/-- What the steps did that were taken since everything was cleared for the last time. -/
def sinceReset (history : List Event) : List Outcome :=
  (history.rtakeWhile (!·.clears)).filterMap Event.outcome?

/-- What the executed instructions cost, one by one. -/
def costs (outcomes : List Outcome) : List Nat :=
  (outcomes.filterMap Outcome.executed?).map (·.mnemonic.cycles)

theorem sinceReset_concat_of_clears (history : List Event) {event : Event}
    (clears : event.clears = true) : sinceReset (history ++ [event]) = [] := by
  rw [sinceReset, List.rtakeWhile_concat_neg _ _ _ (by simp [clears]), List.filterMap_nil]

theorem sinceReset_concat_of_not_clears (history : List Event) {outcome : Outcome}
    (keeps : (Event.stepped outcome).clears = false) :
    sinceReset (history ++ [.stepped outcome]) = sinceReset history ++ [outcome] := by
  rw [sinceReset, List.rtakeWhile_concat_pos _ _ _ (by simp [keeps]), List.filterMap_append,
    sinceReset]
  rfl

theorem costs_concat (outcomes : List Outcome) (outcome : Outcome) :
    costs (outcomes ++ [outcome]) =
      costs outcomes ++ (outcome.executed?.map (·.mnemonic.cycles)).toList := by
  rw [costs, List.filterMap_append, List.map_append, costs]
  cases outcome <;> rfl

theorem length_costs (outcomes : List Outcome) :
    (costs outcomes).length = outcomes.countP Outcome.ran := by
  rw [costs, List.length_map, List.length_filterMap_eq_countP]
  simp only [Outcome.isSome_executed?]

/-- Every instruction takes one to four clock cycles. -/
theorem Mnemonic.cycles_bounds (mnemonic : Mnemonic) :
    1 ≤ mnemonic.cycles ∧ mnemonic.cycles ≤ 4 := by
  have everywhere : ∀ mnemonic ∈ all, 1 ≤ mnemonic.cycles ∧ mnemonic.cycles ≤ 4 := by decide
  exact everywhere mnemonic mnemonic.mem_all

theorem sum_costs_bounds (outcomes : List Outcome) :
    (costs outcomes).length ≤ (costs outcomes).sum ∧
      (costs outcomes).sum ≤ 4 * (costs outcomes).length := by
  have bounds : ∀ cost ∈ costs outcomes, 1 ≤ cost ∧ cost ≤ 4 := by
    intro cost member
    obtain ⟨instruction, _, rfl⟩ := List.mem_map.mp member
    exact instruction.mnemonic.cycles_bounds
  have low := List.card_nsmul_le_sum (costs outcomes) 1 fun cost member => (bounds cost member).1
  have high := List.sum_le_card_nsmul (costs outcomes) 4 fun cost member => (bounds cost member).2
  rw [Nat.nsmul_eq_mul] at low high
  omega

namespace Cpu

/-- What the steps of a run do, up to the first one that executes nothing. -/
def runOutcomes : Nat → Cpu → List Outcome
  | 0, _ => []
  | limit + 1, cpu =>
    if cpu.isHalted then []
    else if cpu.step.1.ran then cpu.step.1 :: runOutcomes limit cpu.step.2
    else [cpu.step.1]

/-- What happens during an operation. -/
def events (cpu : Cpu) : Operation → List Event
  | .load bytes start =>
    match cpu.load bytes start with
    | (none, _) => [.reset]
    | (some _, _) => []
  | .step => [.stepped cpu.step.1]
  | .run limit => (cpu.runOutcomes limit).map .stepped
  | .reset => [.reset]

/-- What happens during a session. -/
def history : List Operation → Cpu → List Event
  | [], _ => []
  | operation :: rest, cpu => cpu.events operation ++ history rest (cpu.operate operation)

/-- The counters hold how many instructions were executed since everything was cleared for the
last time, and how many clock cycles these took. -/
structure AccountsFor (history : List Event) (cpu : Cpu) : Prop where
  instructions : cpu.state.instructionCount = (costs (sinceReset history)).length
  cycles : cpu.state.cycleCount = (costs (sinceReset history)).sum

/-- **What a step does to the counters.** It leaves them alone, or it clears them with everything
else, or it counts the instruction that it executed. -/
theorem counters_step (cpu : Cpu) :
    (cpu.step.1.executed? = none ∧
      cpu.step.2.state.instructionCount = cpu.state.instructionCount ∧
      cpu.step.2.state.cycleCount = cpu.state.cycleCount) ∨
    (cpu.step.1.executed? = some (.bare .rst) ∧ cpu.step.2 = cpu.reset) ∨
    ∃ instruction, cpu.step.1.executed? = some instruction ∧ instruction ≠ .bare .rst ∧
      cpu.step.2.state.instructionCount = cpu.state.instructionCount + 1 ∧
      cpu.step.2.state.cycleCount = cpu.state.cycleCount + instruction.mnemonic.cycles := by
  rcases cpu.step_cases with ⟨_, step⟩ | ⟨_, step⟩ | ⟨opcode, following, _, _, step⟩
  · rw [step]
    exact .inl ⟨rfl, rfl, rfl⟩
  · rw [step]
    exact .inl ⟨rfl, rfl, rfl⟩
  · rw [step]
    cases Decoded.ofBytes cpu.mode opcode following with
    | unknown byte => exact .inl ⟨rfl, rfl, rfl⟩
    | known instruction =>
      right
      rw [handle_known_fst, Outcome.executed?]
      by_cases isReset : instruction = .bare .rst
      · subst isReset
        exact .inl ⟨rfl, cpu.handle_reset_snd opcode⟩
      · rw [cpu.handle_known_snd opcode isReset]
        refine .inr ⟨instruction, rfl, isReset, rfl, ?_⟩
        rw [Reference.cycles_eq]
        rfl

namespace AccountsFor

variable {history : List Event} {cpu : Cpu}

theorem of_clears (history : List Event) {event : Event} (clears : event.clears = true)
    (cleared : cpu.state = {}) : cpu.AccountsFor (history ++ [event]) := by
  constructor
  · rw [cleared, sinceReset_concat_of_clears history clears]
    rfl
  · rw [cleared, sinceReset_concat_of_clears history clears]
    rfl

/-- **A step is accounted for.** -/
theorem step_snd (accounts : cpu.AccountsFor history) :
    cpu.step.2.AccountsFor (history ++ [.stepped cpu.step.1]) := by
  rcases cpu.counters_step with ⟨nothing, instructions, cycles⟩ | ⟨isReset, step⟩ |
    ⟨instruction, executed, notReset, instructions, cycles⟩
  · have keeps : (Event.stepped cpu.step.1).clears = false := by
      rw [Event.clears, nothing]
      rfl
    have added : costs (sinceReset (history ++ [.stepped cpu.step.1])) =
        costs (sinceReset history) := by
      rw [sinceReset_concat_of_not_clears history keeps, costs_concat, nothing]
      exact List.append_nil _
    constructor
    · rw [instructions, added, accounts.instructions]
    · rw [cycles, added, accounts.cycles]
  · apply of_clears
    · rw [Event.clears, isReset, decide_eq_true rfl]
    · rw [step]
      rfl
  · have keeps : (Event.stepped cpu.step.1).clears = false := by
      rw [Event.clears, executed, decide_eq_false]
      exact fun same => notReset (Option.some.inj same)
    have added : costs (sinceReset (history ++ [.stepped cpu.step.1])) =
        costs (sinceReset history) ++ [instruction.mnemonic.cycles] := by
      rw [sinceReset_concat_of_not_clears history keeps, costs_concat, executed]
      rfl
    constructor
    · rw [instructions, added, accounts.instructions, List.length_append, List.length_singleton]
    · rw [cycles, added, accounts.cycles, List.sum_append, List.sum_singleton]

/-- **A run is accounted for**, step by step. -/
theorem run_snd (accounts : cpu.AccountsFor history) (limit : Nat) :
    (cpu.run limit).2.AccountsFor (history ++ (cpu.runOutcomes limit).map .stepped) := by
  induction limit generalizing cpu history with
  | zero =>
    rw [runOutcomes, List.map_nil, List.append_nil]
    exact accounts
  | succ limit ih =>
    rw [run_succ, runOutcomes]
    cases halted : cpu.isHalted with
    | true =>
      rw [if_pos rfl, step_eq_idle halted, List.map_nil, List.append_nil]
      exact accounts
    | false =>
      rw [if_neg Bool.false_ne_true]
      by_cases ran : cpu.step.1.ran = true
      · rw [if_pos ran, if_pos ran, List.map_cons, List.append_cons]
        exact ih accounts.step_snd
      · rw [if_neg ran, if_neg ran]
        exact accounts.step_snd

theorem operate (accounts : cpu.AccountsFor history) (operation : Operation) :
    (cpu.operate operation).AccountsFor (history ++ cpu.events operation) := by
  cases operation with
  | load bytes start =>
    rw [Cpu.operate, events]
    rcases behind : cpu.load bytes start with ⟨_ | failure, loaded⟩
    · apply of_clears history rfl
      rw [cpu.eq_reset_of_load behind]
      rfl
    · rw [cpu.eq_of_load_failed behind, List.append_nil]
      exact accounts
  | step => exact accounts.step_snd
  | run limit => exact accounts.run_snd limit
  | reset => exact of_clears history rfl rfl

/-- **A session is accounted for.** -/
theorem session (accounts : cpu.AccountsFor history) (operations : List Operation) :
    (cpu.session operations).AccountsFor (history ++ cpu.history operations) := by
  induction operations generalizing cpu history with
  | nil =>
    rw [Cpu.history, List.append_nil]
    exact accounts
  | cons operation operations ih =>
    rw [Cpu.history, ← List.append_assoc]
    exact ih (accounts.operate operation)

end AccountsFor

/-- What a run does are its steps, one behind the other. Those that execute something are as many
as the run says. -/
theorem runOutcomes_eq (cpu : Cpu) (limit : Nat) :
    let outcomes := cpu.runOutcomes limit
    outcomes = (List.range outcomes.length).map (fun index => (cpu.after index).step.1) ∧
      (cpu.run limit).2 = cpu.after outcomes.length ∧
      (cpu.run limit).1 = outcomes.countP Outcome.ran := by
  induction limit generalizing cpu with
  | zero => exact ⟨rfl, rfl, rfl⟩
  | succ limit ih =>
    rw [run_succ, runOutcomes]
    cases halted : cpu.isHalted with
    | true =>
      rw [if_pos rfl, step_eq_idle halted]
      exact ⟨rfl, rfl, rfl⟩
    | false =>
      rw [if_neg Bool.false_ne_true]
      by_cases ran : cpu.step.1.ran = true
      · obtain ⟨steps, final, count⟩ := ih cpu.step.2
        rw [if_pos ran, if_pos ran]
        refine ⟨?_, ?_, ?_⟩
        · rw [List.length_cons, List.range_succ_eq_map, List.map_cons, List.map_map, after_zero]
          nth_rewrite 1 [steps]
          simp only [Function.comp_def, Nat.succ_eq_add_one, after_add_one]
        · rw [List.length_cons, after_add_one]
          exact final
        · rw [List.countP_cons_of_pos ran]
          exact congrArg (· + 1) count
      · rw [if_neg ran, if_neg ran]
        refine ⟨rfl, rfl, ?_⟩
        rw [List.countP_cons_of_neg ran, List.countP_nil]

/-- **What a step executes** is what stands at the program counter, if that is an opcode: also a
halt, and also an instruction whose last bytes lie behind the end of program memory. -/
theorem mnemonic_executed? (cpu : Cpu) :
    cpu.step.1.executed?.map (·.mnemonic) =
      if cpu.isHalted then none
      else (cpu.rom.read? cpu.state.programCounter.toNat).bind Mnemonic.ofOpcode? := by
  rcases cpu.step_cases with ⟨halted, step⟩ | ⟨outside, step⟩ |
    ⟨opcode, following, active, bytes, step⟩
  · rw [step, if_pos halted]
    rfl
  · rw [step, Rom.read?, Vector.getElem?_eq_none outside]
    exact (ite_self none).symm
  · rw [step, active, if_neg Bool.false_ne_true, Rom.read?_of_drop bytes, Option.bind_some,
      Decoded.ofBytes_eq]
    cases Mnemonic.ofOpcode? opcode with
    | none => rfl
    | some mnemonic =>
      rw [handle_known_fst, Outcome.executed?, Option.map_some, Instruction.mnemonic_withPayload,
        Mnemonic.mnemonic_unpack]

end Cpu

/-- **The counters account for a session.** Since everything was cleared for the last time, by a
load that fits, by a reset or by one that was executed, as many instructions were counted as
steps have executed one, and as many cycles as the opcode table has for these instructions. That
is one to four for each of them, so the counters stay below 64 bits as long as there are not too
many steps. A step executes what stands at the program counter, a halt and a cut off instruction
included, and nothing at a byte that is no opcode, behind the end of program memory or if the
processor is halted. The steps of a run are those that it takes one behind the other. -/
theorem counters_account_for_session (mode : AddressMode) (operations : List Operation) :
    let fresh : Cpu := { mode := mode }
    let state := (fresh.session operations).state
    let steps := sinceReset (fresh.history operations)
    (state.instructionCount = steps.countP Outcome.ran ∧
      state.cycleCount = ((steps.filterMap Outcome.executed?).map (·.mnemonic.cycles)).sum ∧
      state.instructionCount ≤ state.cycleCount ∧
      state.cycleCount ≤ 4 * state.instructionCount ∧
      (steps.length < 2 ^ 61 → state.instructionCount < 2 ^ 61 ∧ state.cycleCount < 2 ^ 63)) ∧
    (∀ cpu : Cpu, cpu.step.1.executed?.map (·.mnemonic) =
      if cpu.isHalted then none
      else (cpu.rom.read? cpu.state.programCounter.toNat).bind Mnemonic.ofOpcode?) ∧
    ∀ (cpu : Cpu) (limit : Nat),
      let outcomes := cpu.runOutcomes limit
      outcomes = (List.range outcomes.length).map (fun index => (cpu.after index).step.1) ∧
        (cpu.run limit).2 = cpu.after outcomes.length ∧
        (cpu.run limit).1 = outcomes.countP Outcome.ran := by
  intro fresh state steps
  refine ⟨?_, Cpu.mnemonic_executed?, Cpu.runOutcomes_eq⟩
  have noneYet : fresh.AccountsFor [] := ⟨rfl, rfl⟩
  have accounts := noneYet.session operations
  rw [List.nil_append] at accounts
  have counted : state.instructionCount = steps.countP Outcome.ran := by
    rw [← length_costs]
    exact accounts.instructions
  have spent : state.cycleCount = (costs steps).sum := accounts.cycles
  have few : steps.countP Outcome.ran ≤ steps.length := List.countP_le_length
  obtain ⟨low, high⟩ := sum_costs_bounds steps
  rw [length_costs, ← counted, ← spent] at low high
  refine ⟨counted, spent, low, high, ?_⟩
  intro short
  omega

theorem counters_account_for_session_of_cut_off_constant :
    let operations : List Operation :=
      [.load [0xFF] 0, .step, .load [0x10, 0x0E, 0x05, 0x07, 0xFF] 0, .load [0x04] 2047, .step,
        .run 9, .run 9, .step]
    let resetting : List Operation := [.load [0x10, 0xFF] 0, .step, .step, .step]
    (sinceReset (Cpu.history operations { mode := .elevenBit }) =
        [.executed (.bare .out) none false, .skipped 0x0E,
          .executed (.jump .always 0x07FF) (some 0x07FF) false,
          .executed (.immediate .ldi .a 0) none true, .idle] ∧
      (Cpu.session { mode := .elevenBit } operations).state.instructionCount = 3 ∧
      (Cpu.session { mode := .elevenBit } operations).state.cycleCount = 8 ∧
      (sinceReset (Cpu.history operations { mode := .elevenBit })).length < 2 ^ 61 ∧
      (Cpu.session { mode := .elevenBit } operations).state.cycleCount < 2 ^ 63) ∧
    (Cpu.session { mode := .elevenBit } resetting).state.instructionCount = 1 ∧
    (Cpu.session { mode := .elevenBit } resetting).state.cycleCount = 2 := by
  intro operations resetting
  obtain ⟨⟨counted, spent, _, _, small⟩, _⟩ :=
    counters_account_for_session .elevenBit operations
  obtain ⟨⟨countedBehind, spentBehind, _⟩, _⟩ :=
    counters_account_for_session .elevenBit resetting
  have taken : sinceReset (Cpu.history operations { mode := .elevenBit }) =
      [.executed (.bare .out) none false, .skipped 0x0E,
        .executed (.jump .always 0x07FF) (some 0x07FF) false,
        .executed (.immediate .ldi .a 0) none true, .idle] := by decide +kernel
  have takenBehind : sinceReset (Cpu.history resetting { mode := .elevenBit }) =
      [.executed (.bare .out) none false] := by decide +kernel
  rw [taken] at counted spent small
  rw [takenBehind] at countedBehind spentBehind
  refine ⟨⟨taken, counted, spent, ?_, (small (by decide)).2⟩, countedBehind, spentBehind⟩
  rw [taken]
  decide

end Breadboard
