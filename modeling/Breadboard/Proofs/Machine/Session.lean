import Breadboard.Machine.Run
import Breadboard.Proofs.Machine.Step

/-!
# Sessions with a processor

Whoever works with a processor loads programs into it, takes steps, lets it run and resets it,
in any order. What every step, every reset and every load keeps, a whole session keeps
(`Cpu.session_induction`). Program memory is written by loads only, and by those that fit
only: at the end of a session it holds the programs that were loaded, the later ones written
over the earlier ones, and zeros around them (`session_keeps_loads`).
-/

namespace Breadboard

/-- What can be done with a processor. -/
inductive Operation where
  | load (bytes : List UInt8) (start : Nat)
  | step
  | run (limit : Nat)
  | reset
deriving DecidableEq, Repr

/-- The program that an operation stores and the address of its first byte. A load that does
not fit stores nothing. -/
def Operation.stored? : Operation → Option (List UInt8 × Nat)
  | .load bytes start =>
    if start < romSize ∧ start + bytes.length ≤ romSize then some (bytes, start) else none
  | .step | .run _ | .reset => none

/-- What a byte at an address becomes when programs are stored one after the other. -/
def overwritten (address : Nat) (byte : UInt8) (programs : List (List UInt8 × Nat)) : UInt8 :=
  programs.foldl (fun present (bytes, start) =>
    if start ≤ address ∧ address < start + bytes.length then bytes.getD (address - start) 0
    else present) byte

namespace Rom

theorem read?_blank (address : Nat) :
    blank.read? address = if address < romSize then some 0 else none := by
  rw [read?, blank, Vector.getElem?_replicate]

theorem read?_overwrite (rom : Rom) (bytes : List UInt8) (start : Nat)
    (fits : start + bytes.length ≤ romSize) (address : Nat) :
    (rom.overwrite bytes start fits).read? address =
      if start ≤ address ∧ address < start + bytes.length then bytes[address - start]?
      else rom.read? address := by
  have size : rom.toList.length = romSize := Vector.length_toList
  have front : (rom.toList.take start).length = start := by
    rw [List.length_take]
    omega
  rw [read?, read?, ← Vector.getElem?_toList, ← Vector.getElem?_toList, toList_overwrite,
    List.append_assoc]
  rcases Nat.lt_or_ge address start with before | behind
  · rw [List.getElem?_append_left (by omega), List.getElem?_take_of_lt before, if_neg (by omega)]
  · rw [List.getElem?_append_right (by omega), front]
    by_cases inside : address < start + bytes.length
    · rw [List.getElem?_append_left (by omega), if_pos ⟨behind, inside⟩]
    · rw [List.getElem?_append_right (by omega), List.getElem?_drop, if_neg (by omega)]
      congr 1
      omega

end Rom

namespace Cpu

variable (cpu : Cpu)

/-- **When a load succeeds, and how it fails otherwise.** A start behind the end of ROM is
reported whether the program is too long or not. A load that fails changes nothing. -/
theorem load_cases (bytes : List UInt8) (start : Nat) :
    (∃ fits : start < romSize ∧ start + bytes.length ≤ romSize, cpu.load bytes start =
      (none, { cpu.reset with rom := cpu.rom.overwrite bytes start fits.2 })) ∨
    (romSize ≤ start ∧ cpu.load bytes start = (some (.startOutOfRange start), cpu)) ∨
    (start < romSize ∧ romSize < start + bytes.length ∧
      cpu.load bytes start = (some (.overflow start bytes.length), cpu)) := by
  rw [load, Rom.load]
  rcases Nat.lt_or_ge start romSize with begins | outside
  · rw [if_pos begins]
    rcases Nat.lt_or_ge romSize (start + bytes.length) with exceeds | fits
    · rw [dif_neg (Nat.not_le.mpr exceeds)]
      exact .inr (.inr ⟨begins, exceeds, rfl⟩)
    · rw [dif_pos fits]
      exact .inl ⟨⟨begins, fits⟩, rfl⟩
  · rw [if_neg (Nat.not_lt.mpr outside)]
    exact .inr (.inl ⟨outside, rfl⟩)

theorem load_of_fits {bytes : List UInt8} {start : Nat}
    (fits : start < romSize ∧ start + bytes.length ≤ romSize) :
    cpu.load bytes start =
      (none, { cpu.reset with rom := cpu.rom.overwrite bytes start fits.2 }) := by
  rcases cpu.load_cases bytes start with ⟨_, done⟩ | ⟨outside, _⟩ | ⟨_, exceeds, _⟩
  · exact done
  · omega
  · omega

/-- A load that succeeds resets. -/
theorem eq_reset_of_load {bytes : List UInt8} {start : Nat} {loaded : Cpu}
    (done : cpu.load bytes start = (none, loaded)) :
    loaded = { cpu.reset with rom := loaded.rom } := by
  rcases cpu.load_cases bytes start with ⟨_, own⟩ | ⟨_, failed⟩ | ⟨_, _, failed⟩
  · rw [own] at done
    cases done
    rfl
  · rw [failed] at done
    cases done
  · rw [failed] at done
    cases done

/-- **A load that fails leaves everything as it was.** -/
theorem eq_of_load_failed {bytes : List UInt8} {start : Nat} {failure : LoadError} {behind : Cpu}
    (failed : cpu.load bytes start = (some failure, behind)) : behind = cpu := by
  rcases cpu.load_cases bytes start with ⟨_, done⟩ | ⟨_, own⟩ | ⟨_, _, own⟩
  · rw [done] at failed
    cases failed
  · rw [own] at failed
    cases failed
    rfl
  · rw [own] at failed
    cases failed
    rfl

/-- **What a load reports.** -/
theorem load_fst (bytes : List UInt8) (start : Nat) :
    (cpu.load bytes start).1 =
      if romSize ≤ start then some (.startOutOfRange start)
      else if romSize < start + bytes.length then some (.overflow start bytes.length)
      else none := by
  rcases cpu.load_cases bytes start with ⟨fits, done⟩ | ⟨outside, failed⟩ |
    ⟨begins, exceeds, failed⟩
  · rw [done, if_neg (by omega), if_neg (by omega)]
  · rw [failed, if_pos outside]
  · rw [failed, if_neg (by omega), if_pos exceeds]

theorem load_fst_eq_none_iff (bytes : List UInt8) (start : Nat) :
    (cpu.load bytes start).1 = none ↔ start < romSize ∧ start + bytes.length ≤ romSize := by
  rw [load_fst]
  grind

theorem load_fst_eq_startOutOfRange_iff (bytes : List UInt8) (start : Nat) :
    (cpu.load bytes start).1 = some (.startOutOfRange start) ↔ romSize ≤ start := by
  rw [load_fst]
  grind

theorem load_fst_eq_overflow_iff (bytes : List UInt8) (start : Nat) :
    (cpu.load bytes start).1 = some (.overflow start bytes.length) ↔
      start < romSize ∧ romSize < start + bytes.length := by
  rw [load_fst]
  grind

/-- The processor behind an operation. -/
def operate : Operation → Cpu
  | .load bytes start => (cpu.load bytes start).2
  | .step => cpu.step.2
  | .run limit => (cpu.run limit).2
  | .reset => cpu.reset

/-- The processor behind a session. -/
def session (operations : List Operation) : Cpu :=
  operations.foldl operate cpu

theorem session_append (before after : List Operation) :
    cpu.session (before ++ after) = (cpu.session before).session after :=
  List.foldl_append

/-- A run takes some number of steps. -/
theorem exists_runFrom_snd_eq_after (executed limit : Nat) :
    ∃ count, (runFrom executed limit cpu).2 = cpu.after count := by
  induction limit generalizing executed cpu with
  | zero => exact ⟨0, rfl⟩
  | succ limit ih =>
    rw [runFrom]
    split
    · exact ⟨0, rfl⟩
    · split
      next outcome next stepped =>
        have behind : cpu.step.2 = next := congrArg Prod.snd stepped
        split
        · obtain ⟨count, run⟩ := ih next (executed + 1)
          refine ⟨count + 1, ?_⟩
          rw [run, ← behind, after, after, Function.iterate_succ_apply]
        · exact ⟨1, behind.symm⟩

/-- **What every step, reset and load keeps, every operation keeps.** -/
theorem operate_induction (holds : Cpu → Prop) {cpu : Cpu} (here : holds cpu)
    (step : ∀ present, holds present → holds present.step.2)
    (reset : ∀ present, holds present → holds present.reset)
    (load : ∀ present bytes start loaded, present.load bytes start = (none, loaded) →
      holds present → holds loaded)
    (operation : Operation) : holds (cpu.operate operation) := by
  cases operation with
  | load bytes start =>
    rw [operate]
    rcases behind : cpu.load bytes start with ⟨_ | failure, loaded⟩
    · exact load cpu bytes start loaded behind here
    · rw [cpu.eq_of_load_failed behind]
      exact here
  | step => exact step cpu here
  | run limit =>
    obtain ⟨count, run⟩ := cpu.exists_runFrom_snd_eq_after 0 limit
    rw [operate, Cpu.run, run]
    clear run
    induction count with
    | zero => exact here
    | succ count ih =>
      rw [after_succ]
      exact step _ ih
  | reset => exact reset cpu here

/-- **What every step, reset and load keeps, every session keeps.** -/
theorem session_induction (holds : Cpu → Prop) {cpu : Cpu} (here : holds cpu)
    (step : ∀ present, holds present → holds present.step.2)
    (reset : ∀ present, holds present → holds present.reset)
    (load : ∀ present bytes start loaded, present.load bytes start = (none, loaded) →
      holds present → holds loaded)
    (operations : List Operation) : holds (cpu.session operations) := by
  induction operations generalizing cpu with
  | nil => exact here
  | cons first rest ih => exact ih (operate_induction holds here step reset load first)

theorem after_frame (count : Nat) :
    (cpu.after count).mode = cpu.mode ∧ (cpu.after count).rom = cpu.rom := by
  induction count with
  | zero => exact ⟨rfl, rfl⟩
  | succ count ih =>
    obtain ⟨mode, rom⟩ := (cpu.after count).step_frame
    rw [after_succ, mode, rom]
    exact ih

/-- Program memory behind an operation: nothing but a load that fits writes to it. -/
theorem read?_rom_operate (operation : Operation) (address : Nat) :
    (cpu.operate operation).rom.read? address =
      (cpu.rom.read? address).map fun byte =>
        overwritten address byte operation.stored?.toList := by
  have kept : (cpu.rom.read? address).map (fun byte => overwritten address byte []) =
      cpu.rom.read? address := Option.map_id'
  cases operation with
  | load bytes start =>
    rw [Operation.stored?]
    by_cases fits : start < romSize ∧ start + bytes.length ≤ romSize
    · rw [operate, cpu.load_of_fits fits, if_pos fits, Rom.read?_overwrite]
      simp only [overwritten, Option.toList_some, List.foldl_cons, List.foldl_nil]
      by_cases inside : start ≤ address ∧ address < start + bytes.length
      · have here : address < romSize := by omega
        have offset : address - start < bytes.length := by omega
        simp only [if_pos inside, Rom.read?, Vector.getElem?_eq_getElem here, Option.map_some,
          List.getElem?_eq_getElem offset, List.getD_eq_getElem?_getD, Option.getD_some]
      · simp only [if_neg inside, Option.map_id']
    · rcases behind : cpu.load bytes start with ⟨_ | failure, after⟩
      · exact absurd ((cpu.load_fst_eq_none_iff bytes start).mp (congrArg Prod.fst behind)) fits
      · rw [operate, behind, cpu.eq_of_load_failed behind, if_neg fits]
        exact kept.symm
  | step =>
    rw [operate, cpu.step_frame.2]
    exact kept.symm
  | run limit =>
    obtain ⟨count, run⟩ := cpu.exists_runFrom_snd_eq_after 0 limit
    rw [operate, Cpu.run, run, (cpu.after_frame count).2]
    exact kept.symm
  | reset => exact kept.symm

/-- **Program memory behind a session.** -/
theorem read?_rom_session (operations : List Operation) (address : Nat) :
    (cpu.session operations).rom.read? address =
      (cpu.rom.read? address).map fun byte =>
        overwritten address byte (operations.filterMap Operation.stored?) := by
  induction operations generalizing cpu with
  | nil => exact Option.map_id'.symm
  | cons first rest ih =>
    have joined (byte : UInt8) :
        overwritten address (overwritten address byte first.stored?.toList)
          (rest.filterMap Operation.stored?) =
        overwritten address byte ((first :: rest).filterMap Operation.stored?) := by
      rw [List.filterMap_cons]
      cases first.stored? <;> rfl
    rw [session, List.foldl_cons, ← session, ih, read?_rom_operate, Option.map_map]
    simp only [Function.comp_def, joined]

/-- No operation changes the width of addresses. -/
theorem mode_session (operations : List Operation) : (cpu.session operations).mode = cpu.mode := by
  apply session_induction (fun present => present.mode = cpu.mode) rfl
  · intro present same
    rw [present.step_frame.1, same]
  · exact fun _ same => same
  · intro present bytes start loaded done same
    rw [present.eq_reset_of_load done]
    exact same

/-- Without a load that fits, program memory stays as it is. -/
theorem session_frame {operations : List Operation}
    (nothing : operations.filterMap Operation.stored? = []) :
    (cpu.session operations).mode = cpu.mode ∧ (cpu.session operations).rom = cpu.rom := by
  refine ⟨cpu.mode_session operations, Vector.ext fun address inside => ?_⟩
  have same := cpu.read?_rom_session operations address
  rw [nothing] at same
  change _ = (cpu.rom.read? address).map id at same
  rw [Option.map_id_fun, id, Rom.read?, Rom.read?, Vector.getElem?_eq_getElem inside,
    Vector.getElem?_eq_getElem inside] at same
  exact Option.some.inj same

end Cpu

/-- **Program memory holds what was loaded.** It is written by the loads that fit and by
nothing else, the later ones over the earlier ones. A load fits if its first and its last byte
do; one that does not fit is refused, for its start first, and leaves the whole processor as it
was. One that fits writes its own bytes only, and everything outside of program memory is as
after a reset. -/
theorem session_keeps_loads (mode : AddressMode) (operations : List Operation) :
    (∀ address, (Cpu.session { mode := mode } operations).rom.read? address =
      if address < romSize then
        some (overwritten address 0 (operations.filterMap Operation.stored?))
      else none) ∧
    (∀ (cpu : Cpu) (bytes : List UInt8) (start : Nat),
      let failure? := (cpu.load bytes start).1
      let behind := (cpu.load bytes start).2
      (failure? = none ↔ start < romSize ∧ start + bytes.length ≤ romSize) ∧
      (failure? = some (.startOutOfRange start) ↔ romSize ≤ start) ∧
      (failure? = some (.overflow start bytes.length) ↔
        start < romSize ∧ romSize < start + bytes.length) ∧
      (failure? ≠ none → behind = cpu) ∧
      (failure? = none →
        behind = { cpu.reset with rom := behind.rom } ∧
        ∀ address, behind.rom.read? address =
          if start ≤ address ∧ address < start + bytes.length then bytes[address - start]?
          else cpu.rom.read? address) ∧
      cpu.operate (.load bytes start) = behind) ∧
    ∀ cpu : Cpu, cpu.step.2.rom = cpu.rom := by
  refine ⟨?_, ?_, fun cpu => cpu.step_frame.2⟩
  · intro address
    rw [Cpu.read?_rom_session, Rom.read?_blank]
    split <;> rfl
  · intro cpu bytes start failure? behind
    refine ⟨cpu.load_fst_eq_none_iff bytes start, cpu.load_fst_eq_startOutOfRange_iff bytes start,
      cpu.load_fst_eq_overflow_iff bytes start, ?_, ?_, rfl⟩
    · intro failed
      obtain ⟨failure, same⟩ := Option.ne_none_iff_exists'.mp failed
      exact cpu.eq_of_load_failed (Prod.ext same rfl)
    · intro done
      have fits := (cpu.load_fst_eq_none_iff bytes start).mp done
      have written : behind = { cpu.reset with rom := cpu.rom.overwrite bytes start fits.2 } :=
        congrArg Prod.snd (cpu.load_of_fits fits)
      rw [written]
      exact ⟨rfl, cpu.rom.read?_overwrite bytes start fits.2⟩

theorem session_keeps_loads_of_overlap :
    let operations : List Operation :=
      [.load [1, 2, 3] 4, .load [9, 9] 2047, .step, .load [7] 5, .run 3, .load [] 2048, .reset]
    let cpu := Cpu.session { mode := .elevenBit } operations
    cpu.rom.read? 4 = some 1 ∧ cpu.rom.read? 5 = some 7 ∧ cpu.rom.read? 6 = some 3 ∧
      cpu.rom.read? 2047 = some 0 ∧
      cpu.load [9, 9] 2047 = (some (.overflow 2047 2), cpu) ∧
      (cpu.load [8] 2047).1 = none ∧
      (cpu.operate (.load [8] 2047)).rom.read? 2047 = some 8 ∧
      (cpu.operate (.load [8] 2047)).rom.read? 5 = some 7 := by
  intro operations cpu
  obtain ⟨memory, loads, _⟩ := session_keeps_loads .elevenBit operations
  have overlapped : cpu.rom.read? 5 = some 7 := (memory 5).trans (by decide)
  obtain ⟨_, _, overflows, kept, _⟩ := loads cpu [9, 9] 2047
  obtain ⟨fits, _, _, _, accepted, behind⟩ := loads cpu [8] 2047
  have failed := overflows.mpr (by decide)
  have done := fits.mpr (by decide)
  obtain ⟨_, written⟩ := accepted done
  refine ⟨(memory 4).trans (by decide), overlapped, (memory 6).trans (by decide),
    (memory 2047).trans (by decide), Prod.ext failed (kept ?_), done, ?_, ?_⟩
  · rw [failed]
    exact Option.some_ne_none _
  · rw [behind]
    exact (written 2047).trans (by decide)
  · rw [behind, written 5, if_neg (by decide)]
    exact overlapped

end Breadboard
