import Breadboard.Proofs.Assembly.Emission
import Breadboard.Proofs.Image.Printing

/-!
# What printed lines mean

A printed instruction means itself, whichever constants are accepted: its constant is a
byte, its RAM address was masked, and its jump target is written as a number, so that no
label is looked up. Only a jump past the end of ROM is refused, and a byte that is no
opcode is printed with a word that is no mnemonic.
-/

namespace Breadboard

theorem capitals_hex (width number : Nat) :
    capitals (hex width number).toList = (hex width number).toList := by
  have everywhere : ∀ digit < 16, (Radix.digitChar digit).toUpper = Radix.digitChar digit := by
    decide +kernel
  rw [hex, Radix.write, String.toList_ofList, capitals, List.map_map]
  refine List.map_congr_left fun digit member => ?_
  exact everywhere digit (Radix.hexadecimal.lt_base_of_mem_digits width number digit member)

namespace Word

theorem names_of_text_eq {word : Word} {name : String} (text : word.text = capitalized name)
    (capital : capitalized name = name) : word.Names name := by
  rw [Names, text, capitalized_capitalized, capital]

theorem writes_of_text_eq {word : Word} {width number : Nat}
    (text : word.text = capitalized ("0x" ++ hex width number)) (wide : 0 < width)
    (small : number < Literal.magnitudeLimit) : word.Writes number := by
  have characters : word.text.toList = '0' :: 'X' :: (hex width number).toList := by
    rw [text, toList_capitalized, String.toList_append, capitals, List.map_append, ← capitals,
      ← capitals, capitals_hex]
    rfl
  rw [Writes, characters, Literal.read?_hex wide small]

end Word

/-- The numbers that are printed are far from the largest that is read. -/
theorem byte_lt_magnitudeLimit (byte : UInt8) : byte.toNat < Literal.magnitudeLimit :=
  Nat.lt_trans byte.toNat_lt (by decide)

theorem target_lt_magnitudeLimit (target : UInt16) : target.toNat < Literal.magnitudeLimit :=
  Nat.lt_trans target.toNat_lt (by decide)

/-- **A printed instruction means itself**, if its operands fit into the encoding and it
does not jump past the end of ROM. -/
theorem means_of_printed {options : AssemblyOptions} {labels : String → Nat → Prop} {head : Word}
    {operands : List Word} {instruction : Instruction}
    (texts : (head :: operands).map (·.text) =
      (Decoded.known instruction).printedWords.map capitalized)
    (inRange : instruction.InRange options.mode)
    (inRom : ∀ condition target, instruction = .jump condition target → target.toNat < romSize) :
    Means options labels head operands instruction := by
  rw [Decoded.printedWords, List.map_cons, List.map_cons] at texts
  obtain ⟨headText, operandTexts⟩ := List.cons.inj texts
  have named := Word.names_of_text_eq headText instruction.mnemonic.capitalized_text
  cases instruction with
  | bare op =>
    rw [List.map_eq_nil_iff.mp operandTexts]
    exact .bare named
  | unary op register =>
    obtain ⟨first, rfl, text⟩ := List.map_eq_singleton_iff.mp operandTexts
    exact .unary named (Word.names_of_text_eq text register.capitalized_text)
  | pair op destination source =>
    obtain ⟨first, rest, rfl, into, others⟩ := List.map_eq_cons_iff.mp operandTexts
    obtain ⟨second, rfl, outOf⟩ := List.map_eq_singleton_iff.mp others
    exact .pair named (Word.names_of_text_eq into destination.capitalized_text)
      (Word.names_of_text_eq outOf source.capitalized_text)
  | immediate op register value =>
    obtain ⟨first, rest, rfl, text, others⟩ := List.map_eq_cons_iff.mp operandTexts
    obtain ⟨second, rfl, constant⟩ := List.map_eq_singleton_iff.mp others
    have byte := value.toNat_lt
    have low : options.signedness.lowest ≤ value.toNat := by
      cases options.signedness <;> simp only [Signedness.lowest] <;> omega
    exact .immediate named (Word.names_of_text_eq text register.capitalized_text)
      (Word.writes_of_text_eq constant Nat.two_pos (byte_lt_magnitudeLimit value)) low (by omega)
      (by omega)
  | memory op register address =>
    obtain ⟨first, rest, rfl, text, others⟩ := List.map_eq_cons_iff.mp operandTexts
    obtain ⟨second, rfl, cell⟩ := List.map_eq_singleton_iff.mp others
    exact .memory named (Word.names_of_text_eq text register.capitalized_text)
      (Word.writes_of_text_eq cell Nat.one_pos (byte_lt_magnitudeLimit address))
      (Int.ofNat_lt.mpr inRange) rfl
  | jump condition target =>
    obtain ⟨first, rfl, number⟩ := List.map_eq_singleton_iff.mp operandTexts
    have reachable : target.toNat < options.mode.limit := by
      cases mode : options.mode with
      | eightBit => exact inRange mode
      | elevenBit => exact inRom condition target rfl
    exact .jump named
      (.number (Word.writes_of_text_eq number (by decide) (target_lt_magnitudeLimit target)))
      (Int.ofNat_lt.mpr reachable) rfl

/-- A printed jump past the end of ROM is refused with its target. -/
theorem readLine_of_printed_jump {options : AssemblyOptions} (symbols : Symbols) {head : Word}
    {operands : List Word} {condition : Condition} {target : UInt16}
    (texts : (head :: operands).map (·.text) =
      (Decoded.known (.jump condition target)).printedWords.map capitalized)
    (outside : options.mode.limit ≤ target.toNat) :
    ∃ span, readLine options symbols head operands =
      .error (span, .romAddressOutOfRange target.toNat options.mode.limit) := by
  obtain ⟨headText, operandTexts⟩ := List.cons.inj texts
  have named := Word.names_of_text_eq headText (Mnemonic.jump condition).capitalized_text
  obtain ⟨first, rfl, number⟩ := List.map_eq_singleton_iff.mp operandTexts
  have written : Literal.read? first.text.toList = some (target.toNat : Int) :=
    Word.writes_of_text_eq number (by decide) (target_lt_magnitudeLimit target)
  refine ⟨first.span, ?_⟩
  rw [readLine, (head.readMnemonic_eq_ok_iff _).mpr named]
  have refused : ¬(0 ≤ (target.toNat : Int) ∧ (target.toNat : Int) < options.mode.limit) := by omega
  have read : first.readTarget options.mode symbols =
      .error (first.span, .romAddressOutOfRange target.toNat options.mode.limit) := by
    rw [Word.readTarget, Word.readAddress, written]
    exact if_neg refused
  change first.readTarget options.mode symbols >>= (fun address =>
    pure (Instruction.jump condition address)) = _
  rw [read]
  rfl

/-- A printed byte has no mnemonic. -/
theorem readMnemonic_of_printed_unknown {head : Word} {operands : List Word} {byte : UInt8}
    (texts : (head :: operands).map (·.text) =
      (Decoded.unknown byte).printedWords.map capitalized) :
    head.readMnemonic = .error (head.span, .unknownMnemonic "???") := by
  have text : head.text = "???" := (List.cons.inj texts).1.trans (by decide)
  have noMnemonic : Mnemonic.ofText? "???" = none := by decide +kernel
  rw [Word.readMnemonic, text, noMnemonic]

/-- A line that prints an instruction is as large as the instruction. -/
theorem size_of_prints {mode : AddressMode} {line : Line} {instruction : Instruction}
    (prints : Prints line (.known instruction)) : line.size mode = instruction.size mode := by
  obtain ⟨head, operands, content, texts⟩ := prints
  have named := Word.names_of_text_eq (List.cons.inj texts).1 instruction.mnemonic.capitalized_text
  rw [Line.size, Line.instruction?, content]
  simp only [(Mnemonic.ofText?_eq_some_iff _ _).mpr named]
  rfl

theorem place_of_prints {mode : AddressMode} {line : Line} {instruction : Instruction}
    (prints : Prints line (.known instruction)) (address : Nat) (symbols : Symbols) :
    line.place mode address symbols =
      if romSize < address + instruction.size mode then
        .error (line.error line.raw.span (.programTooLarge (address + instruction.size mode)))
      else .ok (address + instruction.size mode, symbols) := by
  obtain ⟨head, operands, content, texts⟩ := prints
  have named := Word.names_of_text_eq (List.cons.inj texts).1 instruction.mnemonic.capitalized_text
  rw [Line.place, content]
  simp only [(head.readMnemonic_eq_ok_iff _).mpr named]
  rfl

/-- A line that prints a byte is refused by the first pass. -/
theorem place_of_prints_unknown {mode : AddressMode} {line : Line} {byte : UInt8}
    (prints : Prints line (.unknown byte)) (address : Nat) (symbols : Symbols) :
    ∃ span, line.place mode address symbols =
      .error (line.error span (.unknownMnemonic "???")) := by
  obtain ⟨head, operands, content, texts⟩ := prints
  refine ⟨head.span, ?_⟩
  rw [Line.place, content]
  simp only [readMnemonic_of_printed_unknown texts]

/-- A line that prints a jump past the end of ROM is refused by the second pass. -/
theorem emit_of_prints_jump (options : AssemblyOptions) {line : Line} {condition : Condition}
    {target : UInt16} (prints : Prints line (.known (.jump condition target)))
    (outside : options.mode.limit ≤ target.toNat) (symbols : Symbols) (address : Nat) :
    ∃ span, line.emit options symbols address =
      .error (line.error span (.romAddressOutOfRange target.toNat options.mode.limit)) := by
  obtain ⟨head, operands, content, texts⟩ := prints
  obtain ⟨span, refused⟩ := readLine_of_printed_jump symbols texts outside
  refine ⟨span, ?_⟩
  rw [readLine] at refused
  rw [Line.emit, content]
  simp only [refused]

/-- Printed lines declare no label. -/
theorem filterMap_label?_of_prints {lines : List Line} {decoded : List Decoded}
    (prints : List.Forall₂ Prints lines decoded) : lines.filterMap Line.label? = [] := by
  induction prints with
  | nil => rfl
  | cons printsLine _ ih =>
    obtain ⟨head, operands, content, _⟩ := printsLine
    rw [List.filterMap_cons_none, ih]
    rw [Line.label?, content]

section

variable {lines : List Line} {program : List Instruction}
  (prints : List.Forall₂ Prints lines (program.map .known))

include prints

theorem totalSize_of_prints (mode : AddressMode) :
    totalSize mode lines = codeSize mode program := by
  induction program generalizing lines with
  | nil =>
    rw [List.map_nil, List.forall₂_nil_right_iff] at prints
    rw [prints, totalSize_nil, codeSize_nil]
  | cons instruction program ih =>
    rw [List.map_cons] at prints
    obtain ⟨line, rest, printsLine, printsRest, rfl⟩ := List.forall₂_cons_right_iff.mp prints
    rw [totalSize_cons, codeSize_cons, ih printsRest, size_of_prints printsLine]

/-- The first pass gets through printed instructions that fit into ROM. -/
theorem placeFrom_of_prints {mode : AddressMode} {address : Nat} (symbols : Symbols)
    (fits : address + codeSize mode program ≤ romSize) :
    placeFrom mode address symbols lines = (none, symbols) := by
  induction program generalizing lines address with
  | nil =>
    rw [List.map_nil, List.forall₂_nil_right_iff] at prints
    rw [prints, placeFrom]
  | cons instruction program ih =>
    rw [List.map_cons] at prints
    rw [codeSize_cons, ← Nat.add_assoc] at fits
    obtain ⟨line, rest, printsLine, printsRest, rfl⟩ := List.forall₂_cons_right_iff.mp prints
    have inRom : ¬romSize < address + instruction.size mode := by omega
    rw [placeFrom, place_of_prints printsLine, if_neg inRom]
    exact ih printsRest fits

/-- Printed instructions are resolved without any label. -/
theorem resolves_of_prints {options : AssemblyOptions} (labels : String → Nat → Prop)
    (inRange : ∀ instruction ∈ program, instruction.InRange options.mode)
    (inRom : ∀ instruction ∈ program, ∀ condition target,
      instruction = .jump condition target → target.toNat < romSize) :
    Resolves options labels lines program := by
  induction program generalizing lines with
  | nil =>
    rw [List.map_nil, List.forall₂_nil_right_iff] at prints
    rw [prints, resolves_nil_iff]
  | cons instruction program ih =>
    rw [List.map_cons] at prints
    rw [List.forall_mem_cons] at inRange inRom
    obtain ⟨line, rest, printsLine, printsRest, rfl⟩ := List.forall₂_cons_right_iff.mp prints
    obtain ⟨head, operands, content, texts⟩ := printsLine
    have words : line.instruction? = some (head, operands) := by
      rw [Line.instruction?, content]
    exact (resolves_cons_of_some words).mpr ⟨instruction, program,
      means_of_printed texts inRange.1 inRom.1, ih printsRest inRange.2 inRom.2, rfl⟩

end

end Breadboard
