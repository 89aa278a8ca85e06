import Mathlib.Data.List.Defs
import Breadboard.Proofs.Assembly.Faults

/-!
# The two passes, line by line

`Draft.placeLabels` and `Draft.emitListing` compute what a pass finds in all the lines. Here
a pass takes the lines in one at a time and changes a workbench as it goes: it moves the
running address, declares a label, or sends out bytes. It starts by clearing what it is going
to fill, and it stops at the first line at fault, with the bench as that line left it.

What an earlier pass has left is on the bench when the next one starts: an address anywhere in
the program, half of the labels, half of the output. `firstPass_eq` and `secondPass_eq` say
that, whatever that is, a pass line by line finds what the draft finds, and that the output
is then the bytes of the listing.
-/

namespace Breadboard

/-- A draft under work: between two passes, or in the middle of one. -/
structure Workbench extends Draft where
  /-- Where the next line stands. -/
  address : Nat := 0
  /-- The bytes that were sent out. -/
  output : List UInt8 := []
deriving DecidableEq, Repr

namespace Workbench

/-- Takes in one line of the first pass. -/
def placeLine (bench : Workbench) (line : Line) : Option CompileError × Workbench :=
  match line.content with
  | .blank => (none, bench)
  | .label name =>
    match bench.symbols.insert name.text bench.address with
    | (none, extended) => (none, { bench with symbols := extended })
    | (some earlier, kept) =>
      (some (line.error name.span (.duplicateLabel name.text earlier)),
        { bench with symbols := kept })
  | .instruction head _ =>
    match head.readMnemonic with
    | .error (span, fault) => (some (line.error span fault), bench)
    | .ok mnemonic =>
      -- The address moves before it is checked, so it can be left behind the end of ROM.
      let moved := { bench with address := bench.address + mnemonic.size bench.options.mode }
      if romSize < moved.address then
        (some (line.error line.raw.span (.programTooLarge moved.address)), moved)
      else (none, moved)

/-- Takes in one line of the second pass. -/
def emitLine (bench : Workbench) (line : Line) : Option CompileError × Workbench :=
  let entry (bytes : List UInt8) : ListingEntry :=
    ⟨line.raw.number, bench.address, bytes, line.text⟩
  match line.content with
  | .blank => (none, bench)
  | .label _ => (none, { bench with listing := bench.listing ++ [entry []] })
  | .instruction head operands =>
    match head.readMnemonic with
    | .error (span, fault) => (some (line.error span fault), bench)
    | .ok mnemonic =>
      match readInstruction bench.options bench.symbols head mnemonic operands with
      | .error (span, fault) => (some (line.error span fault), bench)
      | .ok instruction =>
        let bytes := instruction.encode bench.options.mode
        let next := bench.address + bytes.length
        if romSize < next then
          (some (line.error line.raw.span (.programTooLarge next)), bench)
        else
          (none, { bench with
            listing := bench.listing ++ [entry bytes]
            address := next
            output := bench.output ++ bytes })

/-- Takes in lines up to the first one at fault. -/
def sweep (take : Workbench → Line → Option CompileError × Workbench) (bench : Workbench) :
    List Line → Option CompileError × Workbench
  | [] => (none, bench)
  | line :: rest =>
    match take bench line with
    | (some failure, stopped) => (some failure, stopped)
    | (none, next) => next.sweep take rest

def firstPass (bench : Workbench) : Option CompileError × Workbench :=
  sweep placeLine { bench with address := 0, symbols := {} } bench.lines

def secondPass (bench : Workbench) : Option CompileError × Workbench :=
  sweep emitLine { bench with address := 0, output := [], listing := [] } bench.lines

/-- The image of what is on the bench. Output is cut off or filled up to the size of ROM if it
is filled up at all. -/
def image (bench : Workbench) : Image :=
  ⟨if bench.options.padded then bench.output.takeD romSize padByte else bench.output,
    bench.listing, bench.symbols⟩

section

variable (bench : Workbench) (line : Line)

/-- What taking in a line of the first pass does is what `Line.place` says of it, but for the
address that a line at fault leaves. -/
theorem placeLine_eq :
    ∃ stop, bench.placeLine line =
      match line.place bench.options.mode bench.address bench.symbols with
      | .error failure => (some failure, { bench with address := stop })
      | .ok (next, extended) => (none, { bench with address := next, symbols := extended }) := by
  obtain ⟨raw, content⟩ := line
  cases content with
  | blank => exact ⟨bench.address, rfl⟩
  | label name =>
    refine ⟨bench.address, ?_⟩
    simp only [placeLine, Line.place]
    cases found : bench.symbols.get? name.text with
    | some earlier => rw [Symbols.insert_of_declared found]
    | none => rw [Symbols.insert_of_new found]
  | instruction head operands =>
    simp only [placeLine, Line.place]
    cases head.readMnemonic with
    | error failure => exact ⟨bench.address, rfl⟩
    | ok mnemonic =>
      refine ⟨bench.address + mnemonic.size bench.options.mode, ?_⟩
      by_cases large : romSize < bench.address + mnemonic.size bench.options.mode
      · simp only [if_pos large]
      · simp only [if_neg large]

/-- What taking in a line of the second pass does is what `Line.emit` says of it. -/
theorem emitLine_eq :
    bench.emitLine line =
      match line.emit bench.options bench.symbols bench.address with
      | .error failure => (some failure, bench)
      | .ok none => (none, bench)
      | .ok (some entry) =>
        (none, { bench with
          listing := bench.listing ++ [entry]
          address := bench.address + entry.bytes.length
          output := bench.output ++ entry.bytes }) := by
  obtain ⟨raw, content⟩ := line
  cases content with
  | blank => rfl
  | label name =>
    simp only [emitLine, Line.emit, List.length_nil, Nat.add_zero, List.append_nil]
  | instruction head operands =>
    simp only [emitLine, Line.emit]
    cases named : head.readMnemonic with
    | error failure => rfl
    | ok mnemonic =>
      cases read : readInstruction bench.options bench.symbols head mnemonic operands with
      | error failure =>
        simp only [bind, Except.bind, read]
      | ok instruction =>
        simp only [bind, Except.bind, read]
        by_cases large : romSize < bench.address + (instruction.encode bench.options.mode).length
        · simp only [if_pos large]
        · simp only [if_neg large]

end

/-- The lines of a first pass, from the middle of a program on. -/
theorem sweep_placeLine (bench : Workbench) (lines : List Line) :
    let found := placeFrom bench.options.mode bench.address bench.symbols lines
    ∃ address, bench.sweep placeLine lines =
      (found.1, { bench with address := address, symbols := found.2 }) := by
  induction lines generalizing bench with
  | nil => exact ⟨bench.address, rfl⟩
  | cons line rest ih =>
    obtain ⟨stop, taken⟩ := bench.placeLine_eq line
    cases placed : line.place bench.options.mode bench.address bench.symbols with
    | error failure =>
      rw [placed] at taken
      simp only [sweep, taken, placeFrom, placed]
      exact ⟨stop, rfl⟩
    | ok state =>
      rw [placed] at taken
      simp only [sweep, taken, placeFrom, placed]
      exact ih _

/-- The lines of a second pass, from the middle of a program on. -/
theorem sweep_emitLine (bench : Workbench) (lines : List Line) :
    let found := emitFrom bench.options bench.symbols bench.address lines
    ∃ address, bench.sweep emitLine lines =
      (found.1, { bench with
        address := address
        listing := bench.listing ++ found.2
        output := bench.output ++ listingBytes found.2 }) := by
  induction lines generalizing bench with
  | nil =>
    refine ⟨bench.address, ?_⟩
    simp only [sweep, emitFrom, listingBytes, List.flatMap_nil, List.append_nil]
  | cons line rest ih =>
    have taken := bench.emitLine_eq line
    cases emitted : line.emit bench.options bench.symbols bench.address with
    | error failure =>
      rw [emitted] at taken
      refine ⟨bench.address, ?_⟩
      simp only [sweep, taken, emitFrom, emitted, listingBytes, List.flatMap_nil,
        List.append_nil]
    | ok entry? =>
      rw [emitted] at taken
      cases entry? with
      | none =>
        simp only [sweep, taken, emitFrom, emitted]
        exact ih bench
      | some entry =>
        simp only [sweep, taken, emitFrom, emitted]
        obtain ⟨address, swept⟩ := ih { bench with
          listing := bench.listing ++ [entry]
          address := bench.address + entry.bytes.length
          output := bench.output ++ entry.bytes }
        refine ⟨address, ?_⟩
        rw [swept]
        simp only [listingBytes_cons, List.append_assoc, List.singleton_append]

/-- **A first pass forgets what was on the bench.** Whatever that was, the pass fails as that of
the draft does and declares the same labels. The output stays. -/
theorem firstPass_eq (bench : Workbench) :
    ∃ address, bench.firstPass =
      (bench.placeLabels.1, ⟨bench.placeLabels.2, address, bench.output⟩) :=
  sweep_placeLine { bench with address := 0, symbols := {} } bench.lines

/-- **A second pass forgets what was on the bench**, but for the labels. Its output is the
bytes of the listing. -/
theorem secondPass_eq (bench : Workbench) :
    ∃ address, bench.secondPass =
      (bench.emitListing.1,
        ⟨bench.emitListing.2, address, listingBytes bench.emitListing.2.listing⟩) :=
  sweep_emitLine { bench with address := 0, output := [], listing := [] } bench.lines

end Workbench

theorem Line.emit_fits {options : AssemblyOptions} {symbols : Symbols} {address : Nat}
    (start : address ≤ romSize) {line : Line} {entry : ListingEntry}
    (emitted : line.emit options symbols address = .ok (some entry)) :
    address + entry.bytes.length ≤ romSize := by
  obtain ⟨raw, content⟩ := line
  cases content with
  | blank => cases emitted
  | label name =>
    cases emitted
    exact start
  | instruction head operands =>
    simp only [emit] at emitted
    split at emitted
    next => cases emitted
    next instruction read =>
      split at emitted
      next => cases emitted
      next fits =>
        cases emitted
        exact Nat.not_lt.mp fits

/-- A second pass never sends out more than fits into ROM, not even if it fails. -/
theorem emitFrom_fits (options : AssemblyOptions) (symbols : Symbols) {address : Nat}
    (start : address ≤ romSize) (lines : List Line) :
    address + (listingBytes (emitFrom options symbols address lines).2).length ≤ romSize := by
  induction lines generalizing address with
  | nil => exact start
  | cons line rest ih =>
    cases emitted : line.emit options symbols address with
    | error failure =>
      simp only [emitFrom, emitted]
      exact start
    | ok entry? =>
      cases entry? with
      | none =>
        simp only [emitFrom, emitted]
        exact ih start
      | some entry =>
        simp only [emitFrom, emitted, listingBytes_cons, List.length_append, ← Nat.add_assoc]
        exact ih (Line.emit_fits start emitted)

theorem takeD_of_length_le {α : Type} {list : List α} {size : Nat} (fits : list.length ≤ size)
    (fill : α) : list.takeD size fill = list ++ List.replicate (size - list.length) fill := by
  induction list generalizing size with
  | nil => exact List.takeD_nil size fill
  | cons head rest ih =>
    obtain ⟨shorter, rfl⟩ := Nat.exists_eq_add_of_le' (Nat.lt_of_lt_of_le (Nat.succ_pos _) fits)
    rw [List.length_cons, Nat.add_le_add_iff_right] at fits
    rw [List.takeD, List.headD_cons, List.tail_cons, ih fits, List.length_cons,
      Nat.add_sub_add_right, List.cons_append]

namespace Workbench

/-- The output is that of the listing. -/
structure Tidy (bench : Workbench) : Prop where
  output : bench.output = listingBytes bench.listing
  fits : bench.output.length ≤ romSize

namespace Tidy

variable {bench : Workbench}

theorem firstPass (tidy : bench.Tidy) : bench.firstPass.2.Tidy := by
  obtain ⟨address, passed⟩ := bench.firstPass_eq
  rw [passed]
  exact ⟨tidy.output, tidy.fits⟩

/-- A second pass tidies up. -/
theorem secondPass (bench : Workbench) : bench.secondPass.2.Tidy := by
  obtain ⟨address, passed⟩ := bench.secondPass_eq
  rw [passed]
  refine ⟨rfl, ?_⟩
  have fits := emitFrom_fits bench.options bench.symbols (Nat.zero_le romSize) bench.lines
  rw [Nat.zero_add] at fits
  exact fits

/-- Filling up never cuts anything off. -/
theorem image_eq (tidy : bench.Tidy) : bench.image = bench.toDraft.image := by
  unfold Workbench.image Draft.image
  rw [← tidy.output]
  cases bench.options.padded with
  | false => simp only [Bool.false_eq_true, if_false, List.append_nil]
  | true => simp only [if_true, takeD_of_length_le tidy.fits]

end Tidy

end Workbench

end Breadboard
