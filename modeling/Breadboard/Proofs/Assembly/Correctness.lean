import Breadboard.Proofs.Assembly.Emission
import Breadboard.Proofs.Source.Reading

/-!
# Correctness of the assembler

A source text is assembled exactly if its lines mean a program, with each name standing
for the address of the one line that declares it, and everything fits into ROM; the
image is then the machine code of that program. Nothing here mentions the passes: the
first one is replaced by the addresses of the lines, the second by what they mean.
-/

namespace Breadboard

/-- **A correct assembly.** An image holds the program that the lines of a source text
mean. -/
structure Assembled (options : AssemblyOptions) (lines : List Line) (program : List Instruction)
    (image : Image) : Prop where
  /-- Every instruction line means its instruction. A name stands for the address of a
  line that declares it, above or below. -/
  resolved : Resolves options (DeclaredAt options.mode lines) lines program
  /-- No two lines declare the same name. -/
  distinct : (lines.filterMap Line.label?).Nodup
  /-- No address leaves ROM. -/
  fits : ∀ index, addressOf options.mode lines index ≤ romSize
  /-- The bytes are the encodings one after the other, filled up if that was asked for. -/
  bytes : ∃ fill, image.bytes = machineCode options.mode program ++ List.replicate fill padByte ∧
    if options.padded then image.bytes.length = romSize else fill = 0
  symbols : image.symbols.entries = labelsFrom options.mode 0 lines
  listing : image.listing = listingFrom options.mode 0 lines program

section

variable {options : AssemblyOptions} {lines : List Line} {program : List Instruction}

theorem fits_iff_totalSize_le (mode : AddressMode) (lines : List Line) :
    (∀ index, addressOf mode lines index ≤ romSize) ↔ totalSize mode lines ≤ romSize := by
  constructor
  · intro fits
    have last := fits lines.length
    rw [addressOf_length] at last
    exact last
  · intro fits index
    exact Nat.le_trans (addressOf_le_totalSize mode lines index) fits

/-- Code that fits into ROM is filled up to its end and not beyond. -/
theorem filled_iff (padded : Bool) {code bytes : List UInt8} (fits : code.length ≤ romSize) :
    bytes = code ++ (if padded then List.replicate (romSize - code.length) padByte else []) ↔
      ∃ fill, bytes = code ++ List.replicate fill padByte ∧
        if padded then bytes.length = romSize else fill = 0 := by
  cases padded with
  | true =>
    constructor
    · rintro rfl
      refine ⟨romSize - code.length, rfl, ?_⟩
      simp only [if_true, List.length_append, List.length_replicate]
      omega
    · intro described
      obtain ⟨fill, rfl, whole⟩ := described
      simp only [if_true, List.length_append, List.length_replicate] at whole ⊢
      have exactFill : fill = romSize - code.length := by omega
      rw [exactFill]
  | false =>
    constructor
    · rintro rfl
      exact ⟨0, rfl, rfl⟩
    · intro described
      obtain ⟨_, rfl, rfl⟩ := described
      rfl

/-- The image that a draft with given lines, labels and program has. -/
theorem image_eq_iff {symbols : Symbols} {image : Image}
    (resolves : Resolves options (DeclaredAt options.mode lines) lines program)
    (fits : codeSize options.mode program ≤ romSize) :
    (Draft.mk options lines symbols (listingFrom options.mode 0 lines program)).image = image ↔
      (∃ fill, image.bytes = machineCode options.mode program ++ List.replicate fill padByte ∧
        if options.padded then image.bytes.length = romSize else fill = 0) ∧
      image.symbols = symbols ∧ image.listing = listingFrom options.mode 0 lines program := by
  obtain ⟨bytes, listing, table⟩ := image
  rw [← length_machineCode] at fits
  rw [← filled_iff options.padded fits]
  simp only [Draft.image, resolves.listingBytes_eq, Image.mk.injEq]
  constructor
  · intro same
    obtain ⟨rfl, rfl, rfl⟩ := same
    exact ⟨rfl, rfl, rfl⟩
  · intro same
    obtain ⟨rfl, rfl, rfl⟩ := same
    exact ⟨rfl, rfl, rfl⟩

end

namespace Assembled

variable {options : AssemblyOptions} {lines : List Line} {program : List Instruction}
  {image : Image} (assembled : Assembled options lines program image)

include assembled

theorem codeSize_le : codeSize options.mode program ≤ romSize := by
  rw [← assembled.resolved.codeSize_eq]
  exact (fits_iff_totalSize_le _ _).mp assembled.fits

theorem bytes_eq_of_unpadded (unpadded : options.padded = false) :
    image.bytes = machineCode options.mode program := by
  obtain ⟨fill, bytes, noFill⟩ := assembled.bytes
  rw [if_neg (by simp [unpadded])] at noFill
  rw [bytes, noFill, List.replicate_zero, List.append_nil]

end Assembled

/-- An image is assembled if both passes end without a fault. -/
theorem assemble_eq_ok_iff_passes (options : AssemblyOptions) (source : String) (image : Image) :
    assemble options source = .ok image ↔
      ∃ lines table entries, readSource source = .ok lines ∧
        placeFrom options.mode 0 {} lines = (none, table) ∧
        emitFrom options table 0 lines = (none, entries) ∧
        (Draft.mk options lines table entries).image = image := by
  rw [assemble, Draft.ofSource]
  cases readSource source with
  | error failure =>
    constructor
    · intro success
      cases success
    · intro described
      obtain ⟨_, _, _, ⟨⟩, _⟩ := described
  | ok lines =>
    simp only [Draft.placeLabels, Draft.emitListing]
    constructor
    · intro run
      cases placed : placeFrom options.mode 0 {} lines with
      | mk failure? table =>
        cases emitted : emitFrom options table 0 lines with
        | mk laterFailure? entries =>
          cases failure? with
          | some failure =>
            rw [placed] at run
            cases run
          | none =>
            simp only [placed, emitted] at run
            cases laterFailure? with
            | some failure => cases run
            | none =>
              exact ⟨lines, table, entries, rfl, placed, emitted, Except.ok.inj run⟩
    · intro described
      obtain ⟨_, table, entries, ⟨⟩, placed, emitted, rfl⟩ := described
      rw [placed]
      simp only [emitted]

/-- Whatever is assembled is a correct assembly of its source text. -/
theorem assembled_of_assemble {options : AssemblyOptions} {source : String} {image : Image}
    (success : assemble options source = .ok image) :
    ∃ lines program, readSource source = .ok lines ∧ Assembled options lines program image := by
  obtain ⟨lines, table, entries, read, placed, emitted, made⟩ :=
    (assemble_eq_ok_iff_passes options source image).mp success
  obtain ⟨_, fits, declared, unique⟩ := (placeFrom_zero_eq_none_iff _ lines table).mp placed
  have agree := get?_eq_some_iff_declaredAt declared unique
  obtain ⟨program, resolves, inRom, rfl⟩ :=
    (emitFrom_eq_none_iff agree 0 (Nat.zero_le _) lines entries).mp emitted
  rw [Nat.zero_add] at inRom
  obtain ⟨bytes, sameTable, listing⟩ := (image_eq_iff resolves inRom).mp made
  refine ⟨lines, program, read, ⟨resolves, unique, (fits_iff_totalSize_le _ _).mpr fits, bytes, ?_,
    listing⟩⟩
  rw [sameTable]
  exact declared

/-- A source text that has a correct assembly is assembled into it. -/
theorem Assembled.assemble_eq_ok {options : AssemblyOptions} {source : String} {image : Image}
    {lines : List Line} {program : List Instruction} (read : readSource source = .ok lines)
    (assembled : Assembled options lines program image) :
    assemble options source = .ok image := by
  have placed := (placeFrom_zero_eq_none_iff options.mode lines image.symbols).mpr
    ⟨assembled.resolved.isNamed, (fits_iff_totalSize_le _ _).mp assembled.fits,
      assembled.symbols, assembled.distinct⟩
  have inRom := assembled.codeSize_le
  have agree := get?_eq_some_iff_declaredAt assembled.symbols assembled.distinct
  have emitted := (emitFrom_eq_none_iff agree 0 (Nat.zero_le _) lines _).mpr
    ⟨program, assembled.resolved, by rwa [Nat.zero_add], rfl⟩
  rw [assemble_eq_ok_iff_passes]
  exact ⟨lines, image.symbols, _, read, placed, emitted,
    (image_eq_iff assembled.resolved inRom).mpr ⟨assembled.bytes, rfl, assembled.listing⟩⟩

end Breadboard
