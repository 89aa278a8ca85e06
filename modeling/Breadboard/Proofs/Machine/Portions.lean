import Breadboard.Machine.Run
import Breadboard.Proofs.Machine.Step
import Mathlib.Order.Bounds.Defs

/-!
# Running in portions

A run takes the steps of the processor one by one, as long as each executes an instruction.
Where it stops in front of its limit, the step that executed nothing has been taken as well
(`Cpu.run_succ`), so the processor behind a run is the one behind its steps and, if there is
room, behind one more (`Cpu.run_eq`). A run that was stopped by its limit can be continued, and
any other run has come to its end (`run_splits`).
-/

namespace Breadboard

namespace Cpu

/-- As many steps as that execute an instruction each, one behind the other. -/
def RunsThrough (count : Nat) (cpu : Cpu) : Prop :=
  ∀ index < count, (cpu.after index).isHalted = false ∧ (cpu.after index).step.1.ran = true

section

variable (cpu : Cpu) (limit : Nat)

theorem after_zero : cpu.after 0 = cpu := rfl

theorem after_add_one (count : Nat) : cpu.after (count + 1) = cpu.step.2.after count :=
  Function.iterate_succ_apply _ count cpu

theorem isHalted_of_ran {cpu : Cpu} (ran : cpu.step.1.ran = true) : cpu.isHalted = false := by
  cases halted : cpu.isHalted with
  | false => rfl
  | true =>
    rw [step_eq_idle halted] at ran
    cases ran

/-- What a step executes does not depend on what was executed before. -/
theorem runFrom_eq (executed : Nat) :
    runFrom executed limit cpu = (executed + (cpu.run limit).1, (cpu.run limit).2) := by
  suffices shifted : ∀ earlier, runFrom (executed + earlier) limit cpu =
      (executed + (runFrom earlier limit cpu).1, (runFrom earlier limit cpu).2) from shifted 0
  induction limit generalizing cpu with
  | zero => exact fun _ => rfl
  | succ limit ih =>
    intro earlier
    rw [runFrom, runFrom]
    split
    · rfl
    · dsimp only
      split
      · exact ih cpu.step.2 (earlier + 1)
      · rfl

theorem run_zero : cpu.run 0 = (0, cpu) := rfl

/-- **The first step of a run.** It is taken whether it executes an instruction or not, for a
halted processor stays as it is. -/
theorem run_succ :
    cpu.run (limit + 1) =
      if cpu.step.1.ran then ((cpu.step.2.run limit).1 + 1, (cpu.step.2.run limit).2)
      else (0, cpu.step.2) := by
  rw [run, runFrom]
  split
  next halted =>
    rw [step_eq_idle halted]
    rfl
  next active =>
    dsimp only
    rw [runFrom_eq, Nat.zero_add, Nat.add_comm]

theorem runsThrough_zero : cpu.RunsThrough 0 := nofun

theorem runsThrough_succ_iff (count : Nat) :
    cpu.RunsThrough (count + 1) ↔ cpu.step.1.ran = true ∧ cpu.step.2.RunsThrough count := by
  constructor
  · intro through
    refine ⟨(through 0 (Nat.succ_pos count)).2, ?_⟩
    intro index inside
    rw [← after_add_one]
    exact through (index + 1) (Nat.succ_lt_succ inside)
  · intro both
    obtain ⟨ran, through⟩ := both
    intro index inside
    cases index with
    | zero => exact ⟨isHalted_of_ran ran, ran⟩
    | succ index =>
      rw [after_add_one]
      exact through index (Nat.lt_of_succ_lt_succ inside)

/-- **What a run does.** It takes steps up to the first one that executes nothing, and this one
too, if its limit allows. -/
theorem run_eq :
    let count := (cpu.run limit).1
    count ≤ limit ∧ cpu.RunsThrough count ∧
      (count < limit → (cpu.after count).step.1.ran = false) ∧
      (cpu.run limit).2 = cpu.after (min limit (count + 1)) := by
  induction limit generalizing cpu with
  | zero => exact ⟨Nat.le_refl 0, cpu.runsThrough_zero, nofun, rfl⟩
  | succ limit ih =>
    rw [run_succ]
    split
    next ran =>
      obtain ⟨low, through, stops, final⟩ := ih cpu.step.2
      dsimp only at low stops ⊢
      rw [Nat.add_min_add_right, after_add_one, after_add_one, runsThrough_succ_iff]
      exact ⟨Nat.succ_le_succ low, ⟨ran, through⟩,
        fun early => stops (Nat.lt_of_succ_lt_succ early), final⟩
    next idle =>
      refine ⟨Nat.zero_le _, cpu.runsThrough_zero, fun _ => Bool.eq_false_iff.mpr idle, ?_⟩
      rw [Nat.min_eq_right (Nat.succ_le_succ (Nat.zero_le limit)), after_add_one, after_zero]

/-- No longer series of steps executes instructions only. -/
theorem isGreatest_run :
    IsGreatest {count | count ≤ limit ∧ cpu.RunsThrough count} (cpu.run limit).1 := by
  obtain ⟨low, through, stops, _⟩ := cpu.run_eq limit
  refine ⟨⟨low, through⟩, ?_⟩
  intro count member
  obtain ⟨inside, executes⟩ := member
  apply Nat.le_of_not_lt
  intro longer
  have idle := stops (Nat.lt_of_lt_of_le longer inside)
  rw [(executes _ longer).2] at idle
  cases idle

/-- A run that its limit stopped is continued by another one. -/
theorem run_add_of_eq (more : Nat) :
    (cpu.run limit).1 = limit →
      cpu.run (limit + more) =
        (limit + ((cpu.run limit).2.run more).1, ((cpu.run limit).2.run more).2) := by
  induction limit generalizing cpu with
  | zero =>
    intro _
    rw [run_zero, Nat.zero_add, Nat.zero_add]
  | succ limit ih =>
    rw [run_succ, Nat.add_right_comm, run_succ]
    split
    next ran =>
      intro full
      dsimp only at full ⊢
      rw [ih cpu.step.2 (Nat.succ.inj full), Nat.add_right_comm]
    next idle => nofun

/-- A run that came to its end is not changed by a higher limit. -/
theorem run_add_of_lt (more : Nat) :
    (cpu.run limit).1 < limit → cpu.run (limit + more) = cpu.run limit := by
  induction limit generalizing cpu with
  | zero => nofun
  | succ limit ih =>
    rw [Nat.add_right_comm, run_succ, run_succ]
    split
    next ran =>
      intro early
      rw [ih cpu.step.2 (Nat.lt_of_succ_lt_succ early)]
    next idle => exact fun _ => rfl

end

/-- **A step that executes nothing** although the processor is not halted goes over a byte that is
no opcode, or halts at the end of ROM. -/
theorem step_cases_of_not_ran {cpu : Cpu} (active : cpu.isHalted = false)
    (idle : cpu.step.1.ran = false) :
    (∃ byte, cpu.rom.read? cpu.state.programCounter.toNat = some byte ∧
      Mnemonic.ofOpcode? byte = none ∧ cpu.step.1 = .skipped byte ∧
      cpu.step.2.isHalted = false ∧
      cpu.step.2.state.programCounter = cpu.state.programCounter + 1) ∨
    (romSize ≤ cpu.state.programCounter.toNat ∧ cpu.step.1 = .pastEnd ∧
      cpu.step.2 = { cpu with state := { cpu.state with status := .halted } }) := by
  rcases cpu.step_cases with ⟨halted, _⟩ | ⟨outside, step⟩ | ⟨opcode, following, _, bytes, step⟩
  · rw [active] at halted
    cases halted
  · right
    rw [step]
    exact ⟨outside, rfl, rfl⟩
  · left
    rw [Decoded.ofBytes_eq] at step
    cases known : Mnemonic.ofOpcode? opcode with
    | none =>
      rw [known] at step
      rw [step]
      exact ⟨opcode, Rom.read?_of_drop bytes, known, rfl, rfl, rfl⟩
    | some mnemonic =>
      rw [known] at step
      rw [step, handle_known_fst] at idle
      cases idle

end Cpu

/-- **A run is a series of steps, and can be split.** It executes as many instructions as can be
executed one behind the other, up to its limit. If it executes fewer, then either the processor
is halted behind them, or one more step was taken, which went over a byte that is no opcode or
halted at the end of ROM. A run that reached its limit is continued by another run as if there
had been one with both limits together, and a run that did not is what it would have been with
any higher limit. -/
theorem run_splits (cpu : Cpu) (limit : Nat) :
    let count := (cpu.run limit).1
    let final := (cpu.run limit).2
    let last := cpu.after count
    IsGreatest {count | count ≤ limit ∧ cpu.RunsThrough count} count ∧
    (count = limit → final = last) ∧
    (count < limit →
      (last.isHalted = true ∧ final = last) ∨
      (last.isHalted = false ∧ final = last.step.2 ∧
        ((∃ byte, last.rom.read? last.state.programCounter.toNat = some byte ∧
            Mnemonic.ofOpcode? byte = none ∧ last.step.1 = .skipped byte ∧
            final.isHalted = false ∧
            final.state.programCounter = last.state.programCounter + 1) ∨
          (romSize ≤ last.state.programCounter.toNat ∧ last.step.1 = .pastEnd ∧
            final = { last with state := { last.state with status := .halted } })))) ∧
    ∀ more,
      (count = limit → cpu.run (limit + more) = (count + (final.run more).1, (final.run more).2)) ∧
      (count < limit → cpu.run (limit + more) = (count, final)) := by
  intro count final last
  obtain ⟨_, _, stops, behind⟩ := cpu.run_eq limit
  refine ⟨cpu.isGreatest_run limit, ?_, ?_, ?_⟩
  · intro full
    rw [Nat.min_eq_left (Nat.le_succ_of_le (Nat.le_of_eq full.symm))] at behind
    have same : final = cpu.after limit := behind
    rw [same, ← full]
  · intro early
    rw [Nat.min_eq_right early, Cpu.after_succ] at behind
    have same : final = last.step.2 := behind
    cases halted : last.isHalted with
    | true =>
      left
      rw [same, Cpu.step_eq_idle halted]
      exact ⟨rfl, rfl⟩
    | false =>
      right
      rw [same]
      exact ⟨rfl, rfl, Cpu.step_cases_of_not_ran halted (stops early)⟩
  · intro more
    constructor
    · intro full
      rw [cpu.run_add_of_eq limit more full, full]
    · exact cpu.run_add_of_lt limit more

/-- One instruction stands in front of a byte that is no opcode. A run of one is continued over
that byte by the next run, and a longer run stops behind it. -/
theorem run_splits_at_unknown_byte :
    let cpu : Cpu :=
      { mode := .elevenBit, rom := Rom.blank.overwrite [0x10, 0x0E, 0x20] 0 (by decide) }
    (cpu.run 1).1 = 1 ∧ (cpu.run 1).2 = cpu.after 1 ∧
      cpu.run 5 = (1 + ((cpu.run 1).2.run 4).1, ((cpu.run 1).2.run 4).2) ∧
      (cpu.run 5).1 < 5 ∧ cpu.run (5 + 4) = ((cpu.run 5).1, (cpu.run 5).2) ∧
      (cpu.after 1).step.1 = .skipped 0x0E ∧ (cpu.run 5).2 = (cpu.after 1).step.2 ∧
      (cpu.run 5).2.isHalted = false := by
  intro cpu
  have full : (cpu.run 1).1 = 1 := by decide +kernel
  have executed : (cpu.run 5).1 = 1 := by decide +kernel
  have early : (cpu.run 5).1 < 5 := by
    rw [executed]
    exact Nat.lt_of_sub_pos (Nat.succ_pos 3)
  obtain ⟨_, behind, _, continued⟩ := run_splits cpu 1
  obtain ⟨_, _, stopped, ended⟩ := run_splits cpu 5
  have split := (continued 4).1 full
  have active : (cpu.after 1).isHalted = false := by decide +kernel
  have skipped : (cpu.after 1).step.1 = .skipped 0x0E := by decide +kernel
  rw [full] at behind split
  refine ⟨full, behind rfl, split, early, (ended 4).2 early, skipped, ?_⟩
  have outcome := stopped early
  rw [executed] at outcome
  obtain ⟨halted, _⟩ | ⟨_, final, ⟨_, _, _, _, stillActive, _⟩ | ⟨_, atEnd, _⟩⟩ := outcome
  · rw [active] at halted
    cases halted
  · exact ⟨final, stillActive⟩
  · rw [skipped] at atEnd
    cases atEnd

end Breadboard
