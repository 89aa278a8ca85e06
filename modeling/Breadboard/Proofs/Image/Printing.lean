import Breadboard.Image.Disassembly
import Breadboard.Proofs.Isa.Names
import Breadboard.Proofs.Source.Reading

/-!
# A disassembly as a source text

What is printed for an instruction is a line of words, so that printing a whole image
and reading it as a source text gives one instruction line for each line of the
disassembly, with the printed words in capitals (`readSource_sourceOfImage`).
-/

namespace Breadboard

/-- The operands as they are printed. -/
def Instruction.printedOperands : Instruction → List String
  | bare _ => []
  | unary _ register => [register.text]
  | pair _ destination source => [destination.text, source.text]
  | immediate _ register value => [register.text, "0x" ++ hex 2 value.toNat]
  | memory _ register address => [register.text, "0x" ++ hex 1 address.toNat]
  | jump _ target => ["0x" ++ hex 4 target.toNat]

/-- The words that are printed. -/
def Decoded.printedWords : Decoded → List String
  | known instruction => instruction.mnemonic.text :: instruction.printedOperands
  | unknown byte => ["???", "0x" ++ hex 2 byte.toNat]

/-- Whether a line of a source text holds the words that are printed, in capitals. -/
def Prints (line : Line) (decoded : Decoded) : Prop :=
  ∃ head operands, line.content = .instruction head operands ∧
    (head :: operands).map (·.text) = decoded.printedWords.map capitalized

theorem Decoded.text_eq_intercalate (decoded : Decoded) :
    decoded.text = " ".intercalate decoded.printedWords := by
  have mark : " 0x" = " " ++ "0x" := rfl
  have unknownMark : "??? 0x" = "???" ++ " " ++ "0x" := rfl
  cases decoded with
  | unknown byte =>
    simp only [text, printedWords, unknownMark, String.intercalate_cons_cons,
      String.intercalate_singleton, String.append_assoc]
  | known instruction =>
    cases instruction <;>
      simp only [text, printedWords, Instruction.text, Instruction.printedOperands,
        Instruction.mnemonic, mark, String.intercalate_cons_cons, String.intercalate_singleton,
        String.append_assoc, String.append_empty]

theorem isWord_mnemonic (mnemonic : Mnemonic) : IsWord mnemonic.text.toList := by
  have everywhere : ∀ mnemonic ∈ Mnemonic.all, !mnemonic.text.toList.isEmpty &&
      mnemonic.text.toList.all isWordCharacter := by decide +kernel
  exact isWord_of_all (everywhere mnemonic mnemonic.mem_all)

theorem isWord_register (register : Register) : IsWord register.text.toList := by
  cases register <;> exact isWord_of_all (by decide)

theorem isWord_hex (width number : Nat) : IsWord ("0x" ++ hex width number).toList := by
  have digits : ∀ character ∈ (hex width number).toList, isWordCharacter character :=
    Radix.forall_mem_write (by decide +kernel) _ width number
  have marked : ("0x" ++ hex width number).toList = '0' :: 'x' :: (hex width number).toList := by
    simp
  rw [marked]
  refine ⟨List.cons_ne_nil _ _, ?_⟩
  simp only [List.forall_mem_cons]
  exact ⟨by decide, by decide, digits⟩

/-- What is printed are words. -/
theorem Decoded.isWord_of_mem_printedWords (decoded : Decoded) :
    ∀ word ∈ decoded.printedWords, IsWord word.toList := by
  cases decoded with
  | unknown byte =>
    have marks : IsWord "???".toList := isWord_of_all (by decide)
    simp only [printedWords, List.forall_mem_cons]
    exact ⟨marks, isWord_hex 2 _, nofun⟩
  | known instruction =>
    cases instruction <;>
      simp only [printedWords, Instruction.printedOperands, List.forall_mem_cons, isWord_mnemonic,
        isWord_register, isWord_hex, true_and] <;>
      exact nofun

theorem Decoded.toList_text (decoded : Decoded) :
    decoded.text.toList = [' '].intercalate (decoded.printedWords.map String.toList) := by
  rw [text_eq_intercalate, String.toList_intercalate]
  rfl

/-- Nothing but spaces stands between the words that are printed. -/
theorem Decoded.not_mem_toList_text (decoded : Decoded) {character : Char}
    (other : isWordCharacter character = false) (noSpace : character ≠ ' ') :
    character ∉ decoded.text.toList := by
  rw [toList_text]
  refine not_mem_intercalate_space noSpace (List.forall_mem_map.mpr ?_)
  intro word printed member
  have inWord := (decoded.isWord_of_mem_printedWords word printed).2 character member
  rw [other] at inWord
  cases inWord

/-- A printed line is read as the words that were printed. -/
theorem ofTokens_text (decoded : Decoded) (place : Nat) :
    ∃ head operands,
      Content.ofTokens (tokenize place decoded.text.toList) = .ok (.instruction head operands) ∧
        (head :: operands).map (·.text) = decoded.printedWords.map capitalized := by
  have tokens : tokenize place decoded.text.toList =
      placedWords place (decoded.printedWords.map String.toList) := by
    rw [decoded.toList_text, tokenize_intercalate]
    exact List.forall_mem_map.mpr decoded.isWord_of_mem_printedWords
  obtain ⟨word, rest, printed⟩ : ∃ word rest, decoded.printedWords = word :: rest := by
    cases decoded <;> exact ⟨_, _, rfl⟩
  rw [printed, List.map_cons] at tokens
  obtain ⟨head, operands, read, texts⟩ :=
    ofTokens_placedWords place word.toList (rest.map String.toList)
  refine ⟨head, operands, ?_, ?_⟩
  · rw [tokens, read]
  · rw [texts, printed, List.map_cons, List.map_cons, List.map_map]
    rfl

/-- **A disassembly is read as a source text line by line.** An image without any line
is printed as the empty text, which has one line. -/
theorem readSource_sourceOfImage (mode : AddressMode) (image : List UInt8)
    (someLine : disassemble mode image ≠ []) :
    ∃ lines, readSource (sourceOfImage mode image) = .ok lines ∧
      List.Forall₂ Prints lines ((disassemble mode image).map (·.decoded)) ∧
      ∀ index line, lines[index]? = some line → line.raw.number = index + 1 := by
  have reads : ∀ decoded ∈ (disassemble mode image).map (·.decoded), ∀ place, ∃ content,
      Content.ofTokens (tokenize place decoded.text.toList) = .ok content ∧
        ∃ head operands, content = .instruction head operands ∧
          (head :: operands).map (·.text) = decoded.printedWords.map capitalized := by
    intro decoded _ place
    obtain ⟨head, operands, read, texts⟩ := ofTokens_text decoded place
    exact ⟨_, read, head, operands, rfl, texts⟩
  have characters : (sourceOfImage mode image).toList = ['\n'].intercalate
      (((disassemble mode image).map (·.decoded)).map (·.text.toList)) := by
    rw [sourceOfImage, String.toList_intercalate, List.map_map, List.map_map]
    rfl
  have someDecoded : (disassemble mode image).map (·.decoded) ≠ [] := by
    rw [ne_eq, List.map_eq_nil_iff]
    exact someLine
  obtain ⟨lines, read, prints⟩ := readSource_intercalate reads
    (fun decoded _ => decoded.not_mem_toList_text rfl (by decide))
    (fun decoded _ => decoded.not_mem_toList_text rfl (by decide)) someDecoded characters
  exact ⟨lines, read, prints, number_of_readSource read⟩

end Breadboard
