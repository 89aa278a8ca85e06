import Breadboard.Proofs.Cli.Scripts
import Breadboard.Proofs.Machine.Consistency

/-!
# What a run reports

Whoever watches a run sees of a step only whether an instruction was executed, and the processor
behind it. That is enough: what is read off the processor behind a step is what the byte in
front of it says would happen (`Cpu.displayedBehind?_step`, `Cpu.skippedBehind_step`), although
a reset forgets what was read and a halt executes nothing either. So the report of a run shows
the steps that were taken from the reset on, each once and in order (`runOn_run`), as long as the
bytes that are no opcode can be counted. A program that meets such a byte in every round of a
loop (`Cpu.unknownMet_of_loop`) meets more of them than that if only it runs for long enough, and
then there is no report (`run_gives_up_counting`).
-/

namespace Breadboard

/-- Whether an opcode is known is seen from what is decoded. -/
theorem Decoded.mnemonic?_ofBytes (mode : AddressMode) (opcode : UInt8) (following : List UInt8) :
    (ofBytes mode opcode following).mnemonic? = Mnemonic.ofOpcode? opcode := by
  rw [ofBytes_eq]
  cases Mnemonic.ofOpcode? opcode with
  | none => rfl
  | some mnemonic =>
    simp only [mnemonic?, instruction?, Option.map_some, Instruction.mnemonic_withPayload,
      Mnemonic.mnemonic_unpack]

/-- What stands for an output instruction is read as one, and nothing else is. -/
theorem Decoded.eq_out_iff_of_ofBytes {mode : AddressMode} {opcode : UInt8}
    {following : List UInt8} {instruction : Instruction}
    (read : ofBytes mode opcode following = .known instruction) :
    instruction = .bare .out ↔ opcode = 0x10 := by
  constructor
  · rintro rfl
    exact (opcode_of_ofBytes read).symm
  · rintro rfl
    have known := mnemonic?_ofBytes mode 0x10 following
    have output : Mnemonic.ofOpcode? 0x10 = some (.bare .out) := by decide
    rw [read, output] at known
    exact Instruction.eq_bare_of_mnemonic (Option.some.inj known)

namespace Cpu

/-- The byte that the next step reads, if it reads anything. -/
def upcoming? (cpu : Cpu) : Option UInt8 :=
  if cpu.isHalted then none else cpu.rom.read? cpu.state.programCounter.toNat

/-- What the next step sends to the display: the byte in register A, if an output instruction
stands at the program counter. -/
def sends? (cpu : Cpu) : Option UInt8 :=
  if cpu.upcoming? = some 0x10 then some (cpu.state.registers.read .a) else none

/-- Whether the next step meets a byte that is no opcode. -/
def meetsUnknown (cpu : Cpu) : Bool :=
  cpu.upcoming?.any fun byte => (Mnemonic.ofOpcode? byte).isNone

/-- What the first `count` steps send to the display, in order. -/
def sent (count : Nat) (cpu : Cpu) : List UInt8 :=
  (List.range count).filterMap fun index => (cpu.after index).sends?

/-- How many of the first `count` steps meet a byte that is no opcode. -/
def unknownMet (count : Nat) (cpu : Cpu) : Nat :=
  (List.range count).countP fun index => (cpu.after index).meetsUnknown

section

variable {cpu : Cpu}

theorem upcoming?_of_bytes (active : cpu.isHalted = false) {opcode : UInt8}
    {following : List UInt8}
    (bytes : cpu.rom.toList.drop cpu.state.programCounter.toNat = opcode :: following) :
    cpu.upcoming? = some opcode := by
  rw [upcoming?, active, if_neg Bool.false_ne_true, Rom.read?_of_drop bytes]

theorem upcoming?_of_isHalted (halted : cpu.isHalted = true) : cpu.upcoming? = none := by
  rw [upcoming?, halted, if_pos rfl]

theorem upcoming?_of_pastEnd (outside : romSize ≤ cpu.state.programCounter.toNat) :
    cpu.upcoming? = none := by
  rw [upcoming?, Rom.read?, Vector.getElem?_eq_none outside, ite_self]

/-- **A byte is displayed exactly by the steps that send one.** -/
theorem displayedBehind?_step (cpu : Cpu) :
    displayedBehind? cpu.step.1.ran cpu.step.2 = cpu.sends? := by
  rcases cpu.step_cases with ⟨halted, step⟩ | ⟨outside, step⟩ |
    ⟨opcode, following, active, bytes, step⟩
  · rw [step, sends?, upcoming?_of_isHalted halted]
    rfl
  · rw [step, sends?, upcoming?_of_pastEnd outside]
    rfl
  · simp only [step, sends?, upcoming?_of_bytes active bytes, Option.some.injEq]
    cases read : Decoded.ofBytes cpu.mode opcode following with
    | unknown byte =>
      have noOutput : opcode ≠ 0x10 := by
        rintro rfl
        have known := Decoded.mnemonic?_ofBytes cpu.mode 0x10 following
        rw [read] at known
        cases known
      rw [if_neg noOutput]
      rfl
    | known instruction =>
      have outputs := Decoded.eq_out_iff_of_ofBytes read
      rw [displayedBehind?, lastDecoded_handle, handle_known_fst]
      by_cases output : instruction = .bare .out
      · rw [if_pos (outputs.mp output), output, handle_known_snd _ _ (by decide)]
        rfl
      · have another : (if Decoded.known instruction = .known (.bare .rst) then none
            else some (Decoded.known instruction)).bind (·.mnemonic?) ≠ some (.bare .out) := by
          intro same
          split at same
          · cases same
          · exact output (Instruction.eq_bare_of_mnemonic (Option.some.inj same))
        rw [if_neg (mt outputs.mpr output), if_neg]
        simpa using fun _ => another

/-- **A byte is stepped over exactly by the steps that meet one that is no opcode.** -/
theorem skippedBehind_step (cpu : Cpu) :
    skippedBehind cpu.step.1.ran cpu.step.2 = cpu.meetsUnknown := by
  rcases cpu.step_cases with ⟨halted, step⟩ | ⟨outside, step⟩ |
    ⟨opcode, following, active, bytes, step⟩
  · rw [step, meetsUnknown, upcoming?_of_isHalted halted, skippedBehind, halted]
    rfl
  · rw [step, meetsUnknown, upcoming?_of_pastEnd outside]
    rfl
  · have known := Decoded.mnemonic?_ofBytes cpu.mode opcode following
    rw [step, meetsUnknown, upcoming?_of_bytes active bytes, Option.any_some, ← known]
    cases Decoded.ofBytes cpu.mode opcode following with
    | unknown byte => rfl
    | known instruction =>
      rw [handle_known_fst]
      rfl

end

section

variable (cpu : Cpu) (limit : Nat)

theorem sent_succ :
    cpu.sent (limit + 1) = cpu.sends?.toList ++ cpu.step.2.sent limit := by
  rw [sent, List.range_succ_eq_map, List.filterMap_cons, List.filterMap_map, sent]
  cases here : cpu.sends? with
  | none => simp only [after, Function.iterate_zero_apply, here]; rfl
  | some byte => simp only [after, Function.iterate_zero_apply, here]; rfl

theorem unknownMet_zero : cpu.unknownMet 0 = 0 := rfl

theorem unknownMet_succ :
    cpu.unknownMet (limit + 1) =
      (if cpu.meetsUnknown then 1 else 0) + cpu.step.2.unknownMet limit := by
  rw [unknownMet, List.range_succ_eq_map, List.countP_cons, List.countP_map, Nat.add_comm]
  rfl

/-- A halted processor sends nothing and meets nothing. -/
theorem sent_of_isHalted {cpu : Cpu} (halted : cpu.isHalted = true) :
    cpu.sent limit = [] ∧ cpu.unknownMet limit = 0 := by
  have nothing := upcoming?_of_isHalted halted
  constructor
  · rw [sent, List.filterMap_eq_nil_iff]
    intro index _
    rw [after_of_isHalted index halted, sends?, nothing]
    rfl
  · rw [unknownMet, List.countP_eq_zero]
    intro index _
    rw [after_of_isHalted index halted, meetsUnknown, nothing]
    exact Bool.false_ne_true

theorem unknownMet_add (count further : Nat) :
    cpu.unknownMet (count + further) =
      cpu.unknownMet count + (cpu.after count).unknownMet further := by
  induction count generalizing cpu with
  | zero =>
    rw [Nat.zero_add, unknownMet_zero, Nat.zero_add]
    rfl
  | succ count ih =>
    rw [Nat.succ_add, unknownMet_succ, unknownMet_succ, ih, Nat.add_assoc]
    rfl

/-- **A loop that meets a byte that is no opcode once in every round** meets as many of them as
it has rounds. -/
theorem unknownMet_of_loop {inLoop : Cpu → Prop} {length : Nat}
    (round : ∀ present, inLoop present →
      inLoop (present.after length) ∧ present.unknownMet length = 1)
    {cpu : Cpu} (here : inLoop cpu) (rounds : Nat) :
    cpu.unknownMet (length * rounds) = rounds := by
  induction rounds generalizing cpu with
  | zero => exact unknownMet_zero cpu
  | succ rounds ih =>
    obtain ⟨again, one⟩ := round cpu here
    rw [Nat.mul_succ, Nat.add_comm, unknownMet_add, one, ih again, Nat.add_comm]

/-- Nothing is displayed if no output instruction stands in program memory. -/
theorem sent_eq_nil (noOutput : 0x10 ∉ cpu.rom.toList) (count : Nat) : cpu.sent count = [] := by
  rw [sent, List.filterMap_eq_nil_iff]
  intro index _
  rw [sends?, if_neg]
  intro output
  rw [upcoming?] at output
  split at output
  · cases output
  · rw [(cpu.after_frame index).2, Rom.read?, ← Vector.getElem?_toList] at output
    exact noOutput (List.mem_of_getElem? output)

/-- The counting word takes one more unless it holds the greatest number that fits. -/
theorem countOne?_ofNat {count : Nat} (fits : count < 2 ^ 31) :
    countOne? (Int32.ofNat count) =
      if count + 1 < 2 ^ 31 then some (Int32.ofNat (count + 1)) else none := by
  have full : Int32.ofNat count = Int32.maxValue ↔ ¬count + 1 < 2 ^ 31 := by
    rw [← Int32.toInt_inj, Int32.toInt_ofNat_of_lt fits, Int32.toInt_maxValue]
    omega
  rw [countOne?]
  by_cases room : count + 1 < 2 ^ 31
  · rw [if_pos room, if_neg (mt full.mp (not_not_intro room)), Int32.ofNat_add]
    rfl
  · rw [if_neg room, if_pos (full.mpr room)]

variable (displayed : List UInt8) (stepCount : Nat)

/-- What is seen behind the first `count` steps: behind what was displayed and watched so far,
what these steps send. -/
def seenBehind (count : Nat) (skipCount : Int32) (overflowed : Bool) : Observation :=
  ⟨displayed.reverse ++ cpu.sent count, skipCount, stepCount + count, cpu.after count, overflowed⟩

theorem seenBehind_zero (skipCount : Int32) (overflowed : Bool) :
    cpu.seenBehind displayed stepCount 0 skipCount overflowed =
      ⟨displayed.reverse, skipCount, stepCount, cpu, overflowed⟩ := by
  rw [seenBehind, sent, List.range_zero, List.filterMap_nil, List.append_nil]
  rfl

theorem seenBehind_succ (count : Nat) (skipCount : Int32) (overflowed : Bool) :
    cpu.seenBehind displayed stepCount (count + 1) skipCount overflowed =
      cpu.step.2.seenBehind (cpu.sends?.toList ++ displayed) (stepCount + 1) count skipCount
        overflowed := by
  have shown : displayed.reverse ++ cpu.sent (count + 1) =
      (cpu.sends?.toList ++ displayed).reverse ++ cpu.step.2.sent count := by
    rw [sent_succ, List.reverse_append, List.append_assoc]
    cases cpu.sends? <;> rfl
  rw [seenBehind, shown, Nat.add_comm count 1, ← Nat.add_assoc, Nat.add_comm 1 count]
  rfl

theorem seenBehind_of_isHalted {cpu : Cpu} (halted : cpu.isHalted = true) (count : Nat)
    (skipCount : Int32) (overflowed : Bool) :
    cpu.seenBehind displayed stepCount count skipCount overflowed =
      ⟨displayed.reverse, skipCount, stepCount + count, cpu, overflowed⟩ := by
  rw [seenBehind, (sent_of_isHalted count halted).1, after_of_isHalted count halted,
    List.append_nil]

section

variable {cpu} (active : cpu.isHalted = false) {skipCount : Int32}

include active

/-- **Watching a step** that meets no unknown byte. What it sends is displayed. -/
theorem observeFrom_succ_of_known (known : cpu.meetsUnknown = false) :
    observeFrom displayed skipCount stepCount (limit + 1) cpu =
      observeFrom (cpu.sends?.toList ++ displayed) skipCount (stepCount + 1) limit cpu.step.2 := by
  simp only [observeFrom, active, Bool.false_eq_true, if_false, displayedBehind?_step,
    skippedBehind_step, known]

/-- **Watching a step** that steps over a byte. It is counted if there is room. -/
theorem observeFrom_succ_of_room (met : cpu.meetsUnknown = true) {more : Int32}
    (room : countOne? skipCount = some more) :
    observeFrom displayed skipCount stepCount (limit + 1) cpu =
      observeFrom (cpu.sends?.toList ++ displayed) more (stepCount + 1) limit cpu.step.2 := by
  simp only [observeFrom, active, Bool.false_eq_true, if_false, displayedBehind?_step,
    skippedBehind_step, met, if_true, room]

/-- Without room the run is given up behind this step. -/
theorem observeFrom_succ_of_full (met : cpu.meetsUnknown = true)
    (full : countOne? skipCount = none) :
    observeFrom displayed skipCount stepCount (limit + 1) cpu =
      cpu.seenBehind displayed stepCount 1 skipCount true := by
  simp only [observeFrom, active, Bool.false_eq_true, if_false, displayedBehind?_step,
    skippedBehind_step, met, if_true, full, seenBehind_succ, seenBehind_zero]

end

variable {count : Nat}

/-- **A run whose unknown bytes can be counted** is seen to its end. -/
theorem observeFrom_of_few (few : count + cpu.unknownMet limit < 2 ^ 31) :
    observeFrom displayed (Int32.ofNat count) stepCount limit cpu =
      cpu.seenBehind displayed stepCount limit (Int32.ofNat (count + cpu.unknownMet limit))
        false := by
  induction limit generalizing cpu displayed stepCount count with
  | zero => rw [observeFrom, seenBehind_zero, unknownMet_zero, Nat.add_zero]
  | succ limit ih =>
    cases active : cpu.isHalted with
    | true =>
      rw [observeFrom, if_pos active, seenBehind_of_isHalted _ _ active,
        (sent_of_isHalted _ active).2]
      rfl
    | false =>
      rw [unknownMet_succ] at few ⊢
      cases met : cpu.meetsUnknown with
      | true =>
        rw [met, if_pos rfl, ← Nat.add_assoc] at few
        have fits : count + 1 < 2 ^ 31 := Nat.lt_of_le_of_lt (Nat.le_add_right _ _) few
        have room := countOne?_ofNat (Nat.lt_of_succ_lt fits)
        rw [if_pos fits] at room
        rw [observeFrom_succ_of_room _ _ _ active met room, if_pos rfl, ← Nat.add_assoc,
          seenBehind_succ]
        exact ih _ _ _ few
      | false =>
        rw [met, if_neg Bool.false_ne_true, Nat.zero_add] at few
        rw [observeFrom_succ_of_known _ _ _ active met, if_neg Bool.false_ne_true, Nat.zero_add,
          seenBehind_succ]
        exact ih _ _ _ few

/-- **A run whose unknown bytes cannot be counted** is given up behind the step that meets the
first one for which there is no room. -/
theorem observeFrom_of_many (fits : count < 2 ^ 31)
    (many : 2 ^ 31 ≤ count + cpu.unknownMet limit) :
    ∃ last < limit, count + cpu.unknownMet last = 2 ^ 31 - 1 ∧
      (cpu.after last).meetsUnknown = true ∧
      observeFrom displayed (Int32.ofNat count) stepCount limit cpu =
        cpu.seenBehind displayed stepCount (last + 1) (Int32.ofNat (2 ^ 31 - 1)) true := by
  induction limit generalizing cpu displayed stepCount count with
  | zero =>
    rw [unknownMet_zero] at many
    omega
  | succ limit ih =>
    cases active : cpu.isHalted with
    | true =>
      rw [(sent_of_isHalted _ active).2] at many
      omega
    | false =>
      rw [unknownMet_succ] at many
      cases met : cpu.meetsUnknown with
      | true =>
        rw [met, if_pos rfl, ← Nat.add_assoc] at many
        have room := countOne?_ofNat fits
        by_cases more : count + 1 < 2 ^ 31
        · rw [if_pos more] at room
          obtain ⟨last, inside, full, meets, seen⟩ := ih cpu.step.2
            (cpu.sends?.toList ++ displayed) (stepCount + 1) more many
          refine ⟨last + 1, Nat.succ_lt_succ inside, ?_, meets, ?_⟩
          · rw [unknownMet_succ, met, if_pos rfl, ← Nat.add_assoc]
            exact full
          · rw [observeFrom_succ_of_room _ _ _ active met room, seenBehind_succ]
            exact seen
        · rw [if_neg more] at room
          have full : count = 2 ^ 31 - 1 := by omega
          refine ⟨0, Nat.succ_pos limit, full, met, ?_⟩
          rw [observeFrom_succ_of_full _ _ _ active met room, full]
      | false =>
        rw [met, if_neg Bool.false_ne_true, Nat.zero_add] at many
        obtain ⟨last, inside, full, meets, seen⟩ := ih cpu.step.2
          (cpu.sends?.toList ++ displayed) (stepCount + 1) fits many
        refine ⟨last + 1, Nat.succ_lt_succ inside, ?_, meets, ?_⟩
        · rw [unknownMet_succ, met, if_neg Bool.false_ne_true, Nat.zero_add]
          exact full
        · rw [observeFrom_succ_of_known _ _ _ active met, seenBehind_succ]
          exact seen

/-- **A run that meets opcodes only takes every step.** -/
theorem runFrom_snd_eq_after (executed : Nat) (known : cpu.unknownMet limit = 0) :
    (runFrom executed limit cpu).2 = cpu.after limit := by
  induction limit generalizing cpu executed with
  | zero => rfl
  | succ limit ih =>
    rw [runFrom]
    split
    next halted => exact (after_of_isHalted _ halted).symm
    next active =>
      rw [unknownMet_succ, Nat.add_eq_zero_iff] at known
      have noUnknown : cpu.meetsUnknown = false := by simpa using known.1
      rw [← skippedBehind_step] at noUnknown
      dsimp only
      split
      next ran => exact ih cpu.step.2 (executed + 1) known.2
      next idle =>
        -- A step that executes nothing and meets no unknown byte has halted.
        have halted : cpu.step.2.isHalted = true := by simpa [skippedBehind, idle] using noUnknown
        exact (after_of_isHalted limit halted).symm

end

section

variable {cpu : Cpu} {limit : Nat}

theorem observe_of_few (few : cpu.unknownMet limit < 2 ^ 31) :
    cpu.observe limit =
      ⟨cpu.sent limit, Int32.ofNat (cpu.unknownMet limit), limit, cpu.after limit, false⟩ := by
  rw [← Nat.zero_add (cpu.unknownMet limit)] at few
  have seen := observeFrom_of_few cpu limit [] 0 few
  rw [seenBehind, Nat.zero_add, Nat.zero_add] at seen
  exact seen

theorem observe_of_many (many : 2 ^ 31 ≤ cpu.unknownMet limit) :
    ∃ last < limit, cpu.unknownMet last = 2 ^ 31 - 1 ∧ (cpu.after last).meetsUnknown = true ∧
      cpu.observe limit =
        ⟨cpu.sent (last + 1), Int32.ofNat (2 ^ 31 - 1), last + 1, cpu.after (last + 1), true⟩ := by
  rw [← Nat.zero_add (cpu.unknownMet limit)] at many
  obtain ⟨last, inside, full, meets, seen⟩ :=
    observeFrom_of_many cpu limit [] 0 (Nat.two_pow_pos 31) many
  rw [Nat.zero_add] at full
  rw [seenBehind, Nat.zero_add] at seen
  exact ⟨last, inside, full, meets, seen⟩

end

end Cpu

/-- What is printed about an image that was read from a file. -/
def loadingText (terminal : Terminal) (name : String) (mode : AddressMode)
    (image : List UInt8) : String :=
  let found := inspect mode image
  terminal.fileLine "Loading" name ++
    (terminal.line .cyan "Inspected"
        (decimal found.size ++ " bytes, " ++ decimal found.used ++ " in use, " ++
          decimal found.instructions ++ " instructions") ++
      terminal.issueLines found.issues)

/-- **What is run.** A file holds an image or the source text of one, as its extension says, and
something is printed about it before the run. -/
inductive RunsImage (terminal : Terminal) (disk : Disk) (name : String)
    (reading : ReadSettings) : List UInt8 → String → Prop where
  | binary {image : List UInt8} (extension : Path.extension? name = some "bin")
      (content : disk.read name = .ok image) :
      RunsImage terminal disk name reading image (loadingText terminal name reading.mode image)
  | source {source : String} {image : Image} (extension : Path.extension? name = some "asm")
      (content : disk.read name = .ok (textBytes source))
      (success : assemble (reading.assembly false) source = .ok image) :
      RunsImage terminal disk name reading image.bytes (terminal.fileLine "Assembling" name)

section

variable {terminal : Terminal} {disk : Disk} {name : String} {settings : RunSettings}
  {image : List UInt8}

/-- An image that does not fit is not run. -/
theorem runOn_running_of_failed {failure : LoadError} {behind : Cpu}
    (load : Cpu.load image settings.start { mode := settings.reading.mode } =
      (some failure, behind)) :
    (running terminal name settings image).runOn disk =
      { failure? := some (.load failure), disk := disk } := by
  rw [running]
  dsimp only
  rw [load]
  rfl

theorem runOn_running {loaded : Cpu}
    (load : Cpu.load image settings.start { mode := settings.reading.mode } = (none, loaded)) :
    (running terminal name settings image).runOn disk =
      let coloured := terminal.coloured && !settings.minimal
      let seen := loaded.observe settings.limit
      { output :=
          if seen.overflowed then runProgress coloured settings seen
          else runReport coloured name settings seen
        diagnostics :=
          if terminal.traced then Cpu.traceText coloured (loaded.steps seen.stepCount) else ""
        failure? := if seen.overflowed then some .skipCountOverflow else none
        disk := disk } := by
  rw [running]
  dsimp only
  rw [load]
  dsimp only
  cases (loaded.observe settings.limit).overflowed with
  | false => cases terminal.traced <;> simp [Script.runOn]
  | true => cases terminal.traced <;> simp [Script.runOn]

/-- Running a file prints what is to be said about the file, and then the report. -/
theorem runOn_runScript {opening : String}
    (given : RunsImage terminal disk name settings.reading image opening) :
    (runScript terminal name settings).runOn disk =
      let report := (running terminal name settings image).runOn disk
      { report with output := opening ++ report.output } := by
  rw [runScript]
  cases given with
  | binary extension content =>
    rw [extension]
    dsimp only
    rw [if_pos rfl, Script.runOn, Script.runOn_readingFile content]
    simp only [Script.runOn, loadingText, String.append_assoc]
  | source extension content success =>
    rw [extension]
    dsimp only
    rw [if_neg (by decide), if_pos rfl, Script.runOn, Script.runOn_assembling content success]

/-- A run whose unknown bytes cannot be counted reports what was displayed until it was given up,
and nothing else. -/
theorem runOn_runScript_of_many {opening : String}
    (given : RunsImage terminal disk name settings.reading image opening) {loaded : Cpu}
    (load : Cpu.load image settings.start { mode := settings.reading.mode } = (none, loaded))
    (many : 2 ^ 31 ≤ loaded.unknownMet settings.limit) :
    let report := (runScript terminal name settings).runOn disk
    let coloured := terminal.coloured && !settings.minimal
    report.failure? = some .skipCountOverflow ∧ ∃ last < settings.limit,
      loaded.unknownMet last = 2 ^ 31 - 1 ∧ (loaded.after last).meetsUnknown = true ∧
      report.output = opening ++ (reportLine coloured .green "Running" "emitted binary" ++
        String.join ((loaded.sent (last + 1)).map (displayedLine coloured settings))) := by
  intro report coloured
  obtain ⟨last, inside, full, meets, seen⟩ := Cpu.observe_of_many many
  have printed : report = _ := runOn_runScript given
  rw [runOn_running load, seen] at printed
  rw [printed]
  exact ⟨rfl, last, inside, full, meets, rfl⟩

end

/-- **The report of a run shows the machine as it is.** Running a loadable image from its start
prints a line for each byte that its first steps from the reset on send to the display, in order,
says how many of these steps met a byte that is no opcode, if any did, says that the limit was
reached if the processor is not halted then, and shows the state behind these steps. Nothing is
written. If every step met an opcode, then this is the state that running the machine leaves.

This holds if fewer than 2³¹ of these steps meet a byte that is no opcode. Otherwise the run ends
without a report behind the step that meets the first one for which the count has no room, and
all that is printed are the lines for what was sent to the display until then. -/
theorem runOn_run {terminal : Terminal} {disk : Disk} {name : String} {settings : RunSettings}
    {image : List UInt8} {opening : String}
    (given : RunsImage terminal disk name settings.reading image opening) {loaded : Cpu}
    (load : Cpu.load image settings.start { mode := settings.reading.mode } = (none, loaded)) :
    let report := ((Command.run name settings).script terminal).runOn disk
    let coloured := terminal.coloured && !settings.minimal
    let signedness := settings.reading.signedness
    let progress (count : Nat) : String :=
      opening ++ reportLine coloured .green "Running" "emitted binary" ++
        String.join ((loaded.sent count).map fun byte =>
          if settings.minimal then signedness.write byte ++ "\n"
          else reportLine coloured .cyan "Output"
            (styledIf coloured "1" (signedness.write byte)))
    let unknown := loaded.unknownMet settings.limit
    let final := loaded.after settings.limit
    loaded = loaded.reset ∧ report.disk = disk ∧
    (unknown < 2 ^ 31 → report.failure? = none ∧ report.output =
      progress settings.limit ++
        (if unknown = 0 then ""
          else reportLine coloured .red "Warning"
            ("skipped " ++ decimal unknown ++ " bytes of unknown opcodes")) ++
        (if final.isHalted then ""
          else reportLine coloured .red "Stopped"
            ("reached limit of " ++ decimal settings.limit ++ " steps")) ++
        (if settings.minimal then final.state.plainText signedness
          else final.state.panel signedness) ++
        reportLine coloured .green "Completed" ("target " ++ name)) ∧
    (2 ^ 31 ≤ unknown → report.failure? = some .skipCountOverflow ∧ ∃ last < settings.limit,
      loaded.unknownMet last = 2 ^ 31 - 1 ∧ (loaded.after last).meetsUnknown = true ∧
      report.output = progress (last + 1)) ∧
    (unknown = 0 → (loaded.run settings.limit).2 = final) := by
  intro report coloured signedness progress unknown final
  have printed : report = _ := runOn_runScript given
  rw [runOn_running load] at printed
  have fresh : loaded = loaded.reset := by
    rw [Cpu.eq_reset_of_load _ load]
    rfl
  refine ⟨fresh, ?_, ?_, ?_, loaded.runFrom_snd_eq_after settings.limit 0⟩
  · rw [printed]
  · intro few
    rw [printed, Cpu.observe_of_few few]
    refine ⟨rfl, ?_⟩
    have counted : (Int32.ofNat (loaded.unknownMet settings.limit)).toNatClampNeg = unknown :=
      Int32.toNatClampNeg_ofNat_of_lt few
    simp only [Bool.false_eq_true, if_false, runReport, ← Int32.toNatClampNeg_pos_iff, counted,
      Nat.pos_iff_ne_zero, ne_eq, ite_not, runProgress, progress, String.append_assoc]
    rfl
  · intro many
    obtain ⟨failure, last, inside, full, meets, output⟩ := runOn_runScript_of_many given load many
    refine ⟨failure, last, inside, full, meets, output.trans ?_⟩
    rw [← String.append_assoc]
    rfl

/-- The program displays two bytes, and then a byte that is no opcode stands in front of a halt.
Two steps do not reach it, nine do. -/
theorem runOn_run_of_unknown_byte :
    let image : List UInt8 := [0x10, 0x04, 0x07, 0x10, 0x0E, 0x20]
    let disk : Disk := ⟨[(["p.bin"], image)]⟩
    let settings (limit : Nat) : RunSettings := { minimal := true, limit := limit }
    let opening := "     Loading target p.bin\n   Inspected 6 bytes, 6 in use, 4 instructions\n"
    let loaded : Cpu := { mode := .elevenBit, rom := Rom.blank.overwrite image 0 (by decide) }
    let output (limit : Nat) : String :=
      (((Command.run "p.bin" (settings limit)).script {}).runOn disk).output
    RunsImage {} disk "p.bin" {} image opening ∧
      Cpu.load image 0 { mode := .elevenBit } = (none, loaded) ∧
      loaded.unknownMet 2 = 0 ∧ (loaded.run 2).2 = loaded.after 2 ∧
      output 2 = opening ++ "     Running emitted binary\n0\n" ++
        "     Stopped reached limit of 2 steps\n" ++
        "A 7\nB 0\nC 0\nD 0\nPC 3\nFLAGS ---\nOUT 0\n   Completed target p.bin\n" ∧
      loaded.unknownMet 9 = 1 ∧
      output 9 = opening ++ "     Running emitted binary\n0\n7\n" ++
        "     Warning skipped 1 bytes of unknown opcodes\n" ++
        "A 7\nB 0\nC 0\nD 0\nPC 5\nFLAGS ---\nOUT 7\n   Completed target p.bin\n" := by
  intro image disk settings opening loaded output
  have extension : Path.extension? "p.bin" = some "bin" := by decide
  have content : disk.read "p.bin" = .ok image := rfl
  have opens : loadingText {} "p.bin" .elevenBit image = opening := by decide +kernel
  have given : RunsImage {} disk "p.bin" {} image opening := by
    rw [← opens]
    exact .binary extension content
  have load : Cpu.load image 0 { mode := .elevenBit } = (none, loaded) :=
    Cpu.load_of_fits _ (by decide)
  have known : loaded.unknownMet 2 = 0 := by decide +kernel
  have one : loaded.unknownMet 9 = 1 := by decide +kernel
  have short := @runOn_run {} disk "p.bin" (settings 2) _ _ given _ load
  have long := @runOn_run {} disk "p.bin" (settings 9) _ _ given _ load
  obtain ⟨_, _, stopped, _, run⟩ := short
  obtain ⟨_, _, halted, _⟩ := long
  obtain ⟨_, shortOutput⟩ := stopped (Nat.lt_of_le_of_lt (Nat.le_of_eq known) (by decide))
  obtain ⟨_, longOutput⟩ := halted (Nat.lt_of_le_of_lt (Nat.le_of_eq one) (by decide))
  exact ⟨given, load, known, run known, shortOutput.trans (by decide +kernel), one,
    longOutput.trans (by decide +kernel)⟩

namespace Cpu

/-- At the beginning of a program that is a byte that is no opcode and a jump back to it. -/
structure InSkippingLoop (cpu : Cpu) : Prop where
  active : cpu.isHalted = false
  mode : cpu.mode = .elevenBit
  program : ∃ rest, cpu.rom.toList = 0x30 :: 0x05 :: 0x00 :: 0x00 :: rest
  start : cpu.state.programCounter = 0

/-- **One round of the loop** meets one byte that is no opcode and comes back. -/
theorem InSkippingLoop.round {cpu : Cpu} (inLoop : cpu.InSkippingLoop) :
    (cpu.after 2).InSkippingLoop ∧ cpu.unknownMet 2 = 1 := by
  obtain ⟨active, mode, ⟨rest, program⟩, start⟩ := inLoop
  have front : cpu.rom.toList.drop cpu.state.programCounter.toNat =
      0x30 :: 0x05 :: 0x00 :: 0x00 :: rest := by
    rw [start]
    exact program
  have skips : cpu.step = cpu.handle 0x30 (.unknown 0x30) := by
    rw [step_eq_handle active front]
    rfl
  have skipped : cpu.step.2.isHalted = false := by
    rw [skips]
    rfl
  have behind : cpu.step.2.rom.toList.drop cpu.step.2.state.programCounter.toNat =
      0x05 :: 0x00 :: 0x00 :: rest := by
    rw [cpu.step_frame.2, skips, program, handle]
    dsimp only
    rw [start]
    rfl
  obtain ⟨jumps, _, inside, _⟩ := @step_of_encode cpu.step.2 (.jump .always 0) rest skipped
    (fun _ => Nat.zero_lt_succ _) (by rw [behind, cpu.step_frame.1, mode]; rfl)
  have two : cpu.after 2 = cpu.step.2.step.2 := rfl
  have back : (cpu.after 2).state.programCounter = 0 := by
    rw [two, jumps, programCounter_handle]
    rfl
  have runs : (cpu.after 2).isHalted = false := by
    rw [two, jumps, Bool.eq_false_iff]
    intro halted
    obtain isHalt | cutOff := eq_hlt_or_lt_of_isHalted_handle (by decide) halted
    · cases isHalt
    · omega
  have frame := cpu.after_frame 2
  constructor
  · exact ⟨runs, frame.1.trans mode, ⟨rest, by rw [frame.2, program]⟩, back⟩
  · rw [unknownMet_succ, unknownMet_succ, unknownMet_zero, meetsUnknown,
      upcoming?_of_bytes active front, meetsUnknown, upcoming?_of_bytes skipped behind]
    decide

end Cpu

/-- A program of four bytes that steps over a byte that is no opcode in every second step. It
does so too often within 2³² steps, and the run ends without a report. -/
theorem run_gives_up_counting :
    let image : List UInt8 := [0x30, 0x05, 0x00, 0x00]
    let disk : Disk := ⟨[(["a.bin"], image)]⟩
    let loaded : Cpu := { mode := .elevenBit, rom := Rom.blank.overwrite image 0 (by decide) }
    let report := ((Command.run "a.bin" { limit := 4294967296 }).script {}).runOn disk
    Cpu.load image 0 { mode := .elevenBit } = (none, loaded) ∧
      loaded.unknownMet 4294967296 = 2147483648 ∧
      report.failure? = some .skipCountOverflow ∧ report.exitCode = 101 ∧
      report.output =
        "     Loading target a.bin\n   Inspected 4 bytes, 4 in use, 1 instructions\n" ++
          "     Running emitted binary\n" := by
  intro image disk loaded report
  have extension : Path.extension? "a.bin" = some "bin" := by decide
  have content : disk.read "a.bin" = .ok image := rfl
  have opens : loadingText {} "a.bin" .elevenBit image =
      "     Loading target a.bin\n   Inspected 4 bytes, 4 in use, 1 instructions\n" := by
    decide +kernel
  have load : Cpu.load image 0 { mode := .elevenBit } = (none, loaded) :=
    Cpu.load_of_fits _ (by decide)
  have inLoop : loaded.InSkippingLoop :=
    ⟨rfl, rfl, ⟨loaded.rom.toList.drop 4, by decide +kernel⟩, rfl⟩
  have met : loaded.unknownMet 4294967296 = 2147483648 := by
    have rounds := Cpu.unknownMet_of_loop (fun _ => Cpu.InSkippingLoop.round) inLoop 2147483648
    simp only [Nat.reduceMul] at rounds
    exact rounds
  obtain ⟨failure, last, _, _, _, output⟩ := @runOn_runScript_of_many {} disk "a.bin"
    { limit := 4294967296 } image _ (.binary extension content) loaded load (Nat.le_of_eq met.symm)
  have failed : report.failure? = some .skipCountOverflow := failure
  refine ⟨load, met, failed, ?_, ?_⟩
  · rw [Report.exitCode, failed]
    rfl
  · rw [loaded.sent_eq_nil (by decide +kernel), opens] at output
    exact output

end Breadboard
