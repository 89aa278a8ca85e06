import Breadboard.Proofs.Assembly.Interruption
import Breadboard.Proofs.Text.Columns

/-!
# Reading a listing back

A listing is printed in columns. Its addresses, bytes and texts fit into theirs, since an address
stays in ROM, an instruction has three bytes at most, and a text in normal form stays on one line
(`fits_of_assemble`). So each column starts at the same place on every line
(`ListingEntry.Fits.laidOut`), and the printed text can be read back (`listing_reads_back`).
-/

namespace Breadboard

namespace ListingEntry

/-- The parts of an entry fit into the columns of a line. -/
structure Fits (entry : ListingEntry) : Prop where
  address : entry.address < 16 ^ 4
  bytes : entry.bytes.length ≤ 3
  text : '\n' ∉ entry.text.toList

/-- Where the parts of an entry stand on its line, from column zero on. -/
structure LaidOut (entry : ListingEntry) (row : List Char) : Prop where
  oneLine : '\n' ∉ row
  length : row.length = 27 + entry.text.length
  address : row.take 4 = (hex 4 entry.address).toList
  /-- Each byte has two digits and a space behind them. -/
  bytes : ∀ index byte, entry.bytes[index]? = some byte →
    (row.drop (6 + 3 * index)).take 3 = byteDigits byte ++ [' ']
  bits :
    (row.drop 16).take 9 =
      match entry.bytes with
      | [] => List.replicate 9 ' '
      | opcode :: _ => (bitGroups opcode).toList
  text : row.drop 27 = entry.text.toList
  /-- Between the columns, and where there is no byte. -/
  blanks : (row.drop 4).take 2 = [' ', ' '] ∧ (row.drop 25).take 2 = [' ', ' '] ∧
    (row.drop (6 + 3 * entry.bytes.length)).take (10 - 3 * entry.bytes.length) =
      List.replicate (10 - 3 * entry.bytes.length) ' '

/-- The bits that are printed for an entry. -/
def bits (entry : ListingEntry) : String :=
  match entry.bytes with
  | [] => ""
  | opcode :: _ => bitGroups opcode

theorem toList_render (entry : ListingEntry) :
    entry.render.toList = (hex 4 entry.address).toList ++ ([' ', ' '] ++
      ((padRight 9 (hexBytes entry.bytes)).toList ++ ([' '] ++
        ((padRight 9 entry.bits).toList ++ ([' ', ' '] ++ entry.text.toList))))) := by
  have unfolded : entry.render = hex 4 entry.address ++ "  " ++
      padRight 9 (hexBytes entry.bytes) ++ " " ++ padRight 9 entry.bits ++ "  " ++ entry.text := by
    unfold render bits
    rfl
  simp only [unfolded, String.toList_append, List.append_assoc]
  rfl

theorem length_bits_le (entry : ListingEntry) : entry.bits.toList.length ≤ 9 := by
  unfold bits
  split
  · exact Nat.zero_le 9
  · exact Nat.le_of_eq (length_bitGroups _)

theorem padRight_bits (entry : ListingEntry) :
    (padRight 9 entry.bits).toList =
      match entry.bytes with
      | [] => List.replicate 9 ' '
      | opcode :: _ => (bitGroups opcode).toList := by
  rw [toList_padRight, bits]
  cases entry.bytes with
  | nil => rfl
  | cons opcode rest =>
    dsimp only
    rw [length_bitGroups, Nat.sub_self, List.replicate_zero, List.append_nil]

namespace Fits

variable {entry : ListingEntry} (fits : entry.Fits)

include fits

theorem length_address : (hex 4 entry.address).toList.length = 4 :=
  Radix.hexadecimal.length_write fits.address

theorem length_bytes : (padRight 9 (hexBytes entry.bytes)).toList.length = 9 := by
  apply length_toList_padRight
  rw [length_toList_hexBytes]
  exact Nat.mul_le_mul_left 3 fits.bytes

theorem drop_four_render : entry.render.toList.drop 4 = [' ', ' '] ++
    ((padRight 9 (hexBytes entry.bytes)).toList ++ ([' '] ++
      ((padRight 9 entry.bits).toList ++ ([' ', ' '] ++ entry.text.toList)))) := by
  rw [toList_render]
  exact List.drop_left' fits.length_address

theorem drop_six_render : entry.render.toList.drop 6 =
    (padRight 9 (hexBytes entry.bytes)).toList ++ ([' '] ++
      ((padRight 9 entry.bits).toList ++ ([' ', ' '] ++ entry.text.toList))) := by
  have behind := congrArg (List.drop 2) fits.drop_four_render
  rw [List.drop_drop] at behind
  exact behind

theorem drop_sixteen_render : entry.render.toList.drop 16 =
    (padRight 9 entry.bits).toList ++ ([' ', ' '] ++ entry.text.toList) := by
  have behind := congrArg (List.drop 10) fits.drop_six_render
  rw [List.drop_drop, ← List.append_assoc, List.drop_left'] at behind
  · exact behind
  · rw [List.length_append, fits.length_bytes]
    rfl

theorem drop_twentyFive_render :
    entry.render.toList.drop 25 = [' ', ' '] ++ entry.text.toList := by
  have behind := congrArg (List.drop 9) fits.drop_sixteen_render
  rw [List.drop_drop, List.drop_left' (length_toList_padRight entry.length_bits_le)] at behind
  exact behind

theorem drop_twentySeven_render : entry.render.toList.drop 27 = entry.text.toList := by
  have behind := congrArg (List.drop 2) fits.drop_twentyFive_render
  rw [List.drop_drop] at behind
  exact behind

theorem not_mem_render : '\n' ∉ entry.render.toList := by
  have noFeed : '\n' ∉ entry.bits.toList := by
    unfold bits
    split
    · exact List.not_mem_nil
    · exact not_mem_bitGroups _
  have space : '\n' ∉ [' '] := by decide
  have spaces : '\n' ∉ [' ', ' '] := by decide
  simp only [toList_render, List.mem_append, not_or]
  exact ⟨Radix.hexadecimal.not_mem_write _ _, spaces, not_mem_padRight 9 (not_mem_hexBytes _),
    space, not_mem_padRight 9 noFeed, spaces, fits.text⟩

/-- **An entry is printed in its columns.** -/
theorem laidOut : entry.LaidOut entry.render.toList where
  oneLine := fits.not_mem_render
  length := by
    rw [toList_render]
    simp only [List.length_append, fits.length_address, fits.length_bytes,
      length_toList_padRight entry.length_bits_le, List.length_cons, List.length_nil,
      String.length_toList]
    omega
  address := by
    rw [toList_render]
    exact List.take_left' fits.length_address
  bytes := by
    intro index byte here
    rw [← List.drop_drop, fits.drop_six_render, toList_padRight, List.append_assoc]
    exact take_drop_hexBytes here _
  bits := by
    rw [fits.drop_sixteen_render, List.take_left' (length_toList_padRight entry.length_bits_le),
      padRight_bits]
  text := fits.drop_twentySeven_render
  blanks := by
    refine ⟨?_, ?_, ?_⟩
    · rw [fits.drop_four_render]
      exact List.take_left' rfl
    · rw [fits.drop_twentyFive_render]
      exact List.take_left' rfl
    · have few := fits.bytes
      have one : 10 - 3 * entry.bytes.length = 9 - 3 * entry.bytes.length + 1 := by omega
      rw [← List.drop_drop, fits.drop_six_render, toList_padRight, List.append_assoc,
        List.drop_left' (length_toList_hexBytes _), length_toList_hexBytes, ← List.append_assoc,
        one, List.replicate_succ']
      exact List.take_left' (by simp)

end Fits

end ListingEntry

/-- Reads an entry from the columns of its line. -/
def readRow? (row : List Char) : Option (Nat × List UInt8 × String) := do
  let address ← Radix.hexadecimal.read? (row.take 4)
  let bytes ← (wordsOf ((row.drop 6).take 9)).mapM readByte?
  return (address, bytes, String.ofList (row.drop 27))

/-- Reads a listing that was printed. Every line of it ends with a line feed. -/
def readListing? (text : String) : Option (List (Nat × List UInt8 × String)) :=
  (splitLines text.toList).dropLast.mapM readRow?

/-- **An entry is read back.** -/
theorem ListingEntry.Fits.readRow?_render {entry : ListingEntry} (fits : entry.Fits) :
    readRow? entry.render.toList = some entry.unnumbered := by
  have address : Radix.hexadecimal.read? (hex 4 entry.address).toList = some entry.address :=
    Radix.hexadecimal.read?_write (by decide)
  have bytes : (entry.bytes.map byteDigits).mapM readByte? = some entry.bytes := by
    rw [mapM_eq_some_iff, List.forall₂_map_left_iff, List.forall₂_same]
    exact fun byte _ => readByte?_byteDigits byte
  rw [readRow?, fits.laidOut.address, address, fits.drop_six_render,
    List.take_left' fits.length_bytes, wordsOf_padRight_hexBytes, bytes, fits.laidOut.text,
    String.ofList_toList]
  rfl

section

variable {listing : List ListingEntry}

theorem toList_renderListing (listing : List ListingEntry) :
    (renderListing listing).toList =
      (listing.map (·.render.toList)).flatMap (· ++ ['\n']) := by
  rw [renderListing, String.toList_join, List.flatMap_map, List.flatMap_map]
  apply List.flatMap_congr
  intro entry _
  exact String.toList_append

theorem renderListing_cons (entry : ListingEntry) :
    (renderListing (entry :: listing)).toList =
      entry.render.toList ++ '\n' :: (renderListing listing).toList := by
  rw [toList_renderListing, List.map_cons, List.flatMap_cons, ← toList_renderListing,
    List.append_assoc]
  rfl

theorem splitLines_eq_singleton {line : List Char} (oneLine : '\n' ∉ line) :
    splitLines line = [line] := by
  have alone : ∀ other ∈ [line], '\n' ∉ other := by
    rw [List.forall_mem_singleton]
    exact oneLine
  have split := splitLines_intercalate alone (List.cons_ne_nil _ _)
  rwa [List.intercalate_singleton] at split

/-- The lines of a printed listing are those of its entries, and nothing stands behind the last
line feed. -/
theorem splitLines_renderListing (fits : ∀ entry ∈ listing, entry.Fits) :
    splitLines (renderListing listing).toList = listing.map (·.render.toList) ++ [[]] := by
  induction listing with
  | nil => rfl
  | cons entry listing ih =>
    rw [List.forall_mem_cons] at fits
    rw [renderListing_cons, splitLines_append, splitLines_eq_singleton fits.1.not_mem_render,
      ih fits.2]
    rfl

/-- **A printed listing is read back.** -/
theorem readListing?_renderListing (fits : ∀ entry ∈ listing, entry.Fits) :
    readListing? (renderListing listing) = some (listing.map ListingEntry.unnumbered) := by
  rw [readListing?, splitLines_renderListing fits, List.dropLast_concat, mapM_eq_some_iff,
    List.forall₂_map_left_iff, List.forall₂_map_right_iff, List.forall₂_same]
  exact fun entry member => (fits entry member).readRow?_render

/-- Listings that fit into their columns are printed alike if they have the same addresses, bytes
and texts, and only then. -/
theorem renderListing_eq_iff {other : List ListingEntry} (fits : ∀ entry ∈ listing, entry.Fits)
    (otherFits : ∀ entry ∈ other, entry.Fits) :
    renderListing other = renderListing listing ↔
      other.map ListingEntry.unnumbered = listing.map ListingEntry.unnumbered := by
  constructor
  · intro same
    have read := readListing?_renderListing otherFits
    rw [same, readListing?_renderListing fits] at read
    exact (Option.some.inj read).symm
  · intro same
    -- What is printed of an entry does not depend on the number of its line.
    have printed (entries : List ListingEntry) : renderListing entries =
        renderListing ((entries.map ListingEntry.unnumbered).map fun row =>
          ⟨0, row.1, row.2.1, row.2.2⟩) := by
      rw [renderListing, renderListing, List.map_map, List.map_map]
      rfl
    rw [printed, same, ← printed]

end

/-- **What is assembled fits into the columns of its listing.** -/
theorem fits_of_assemble {options : AssemblyOptions} {source : String} {image : Image}
    (success : assemble options source = .ok image) : ∀ entry ∈ image.listing, entry.Fits := by
  obtain ⟨lines, program, read, assembled⟩ := assembled_of_assemble success
  intro entry member
  rw [assembled.listing] at member
  obtain ⟨upper, lower, split⟩ := List.append_of_mem member
  obtain ⟨above, line, below, rfl, shows, address, size⟩ :=
    assembled.resolved.exists_line_of_listingFrom split
  have inside : line ∈ above ++ line :: below := List.mem_append_right _ List.mem_cons_self
  refine ⟨?_, ?_, ?_⟩
  · have inRom := (fits_iff_totalSize_le _ _).mp assembled.fits
    rw [totalSize_append] at inRom
    change _ < 65536
    change _ ≤ 2048 at inRom
    omega
  · have few := shows.bytes
    split at few
    · cases few
    · rw [few]
      exact Nat.zero_le 3
    · exact few.2
  · rw [shows.text]
    exact (said_of_mem_readSource read inside).not_mem_text rfl (by decide) (by decide)

/-- Without padding, a text is assembled into the bytes of its listing. -/
theorem assemble_unpadded {options : AssemblyOptions} {source : String} {image : Image}
    (success : assemble options source = .ok image) :
    assemble { options with padded := false } source =
      .ok { image with bytes := listingBytes image.listing } := by
  obtain ⟨lines, program, read, assembled⟩ := assembled_of_assemble success
  have resolved : Resolves { options with padded := false } (DeclaredAt options.mode lines) lines
      program := by
    refine Resolves.mono ?_ ?_ ?_ assembled.resolved
    · rfl
    · exact Int.le_refl _
    · exact fun _ _ known => known
  have bytes : listingBytes image.listing = machineCode options.mode program := by
    rw [assembled.listing, assembled.resolved.listingBytes_eq]
  refine Assembled.assemble_eq_ok read ⟨resolved, assembled.distinct, assembled.fits,
    ⟨0, ?_, rfl⟩, assembled.symbols, assembled.listing⟩
  rw [bytes, List.replicate_zero, List.append_nil]

/-- **A listing can be read back from its text.** The text has one line for each entry, with a line
feed behind it, and each part of the entry in its own columns. The addresses, bytes and texts are
read from these columns, the bytes make up the image without its padding, and so listings of
accepted sources are printed alike only if they agree in all of these. -/
theorem listing_reads_back {options : AssemblyOptions} {source : String} {image : Image}
    (success : assemble options source = .ok image) :
    let text := renderListing image.listing
    let entries := image.listing.map ListingEntry.unnumbered
    (∃ rows, text.toList = rows.flatMap (· ++ ['\n']) ∧
      List.Forall₂ ListingEntry.LaidOut image.listing rows) ∧
    readListing? text = some entries ∧
    assemble { options with padded := false } source =
      .ok { image with bytes := entries.flatMap (·.2.1) } ∧
    ∀ otherOptions other otherImage, assemble otherOptions other = .ok otherImage →
      (renderListing otherImage.listing = text ↔
        otherImage.listing.map ListingEntry.unnumbered = entries) := by
  intro text entries
  have fits := fits_of_assemble success
  have bytes : entries.flatMap (·.2.1) = listingBytes image.listing :=
    List.flatMap_map _ _ image.listing
  refine ⟨⟨image.listing.map (·.render.toList), toList_renderListing _, ?_⟩,
    readListing?_renderListing fits, ?_, ?_⟩
  · rw [List.forall₂_map_right_iff, List.forall₂_same]
    exact fun entry member => (fits entry member).laidOut
  · rw [bytes]
    exact assemble_unpadded success
  · intro otherOptions other otherImage otherSuccess
    exact renderListing_eq_iff fits (fits_of_assemble otherSuccess)

theorem listing_reads_back_of_commented_loop :
    let source := "loop: ; again\n\n ldi a,$0f\n jnz Loop @ back"
    let image : Image :=
      ⟨[0x04, 0x0F, 0x25, 0x00, 0x00],
        [⟨1, 0, [], "LOOP:"⟩, ⟨3, 0, [0x04, 0x0F], "LDI A $0F"⟩,
          ⟨4, 2, [0x25, 0x00, 0x00], "JNZ LOOP"⟩],
        ⟨[("LOOP", 0)]⟩⟩
    let text := "0000                       LOOP:\n" ++
      "0000  04 0F     0000_0100  LDI A $0F\n" ++
      "0002  25 00 00  0010_0101  JNZ LOOP\n"
    assemble {} source = .ok image ∧ renderListing image.listing = text ∧
      readListing? text =
        some [(0, [], "LOOP:"), (0, [0x04, 0x0F], "LDI A $0F"),
          (2, [0x25, 0x00, 0x00], "JNZ LOOP")] ∧
      assemble {} source =
        .ok { image with bytes := [] ++ [0x04, 0x0F] ++ [0x25, 0x00, 0x00] } := by
  intro source image text
  have success : assemble {} source = .ok image := by decide +kernel
  have printed : renderListing image.listing = text := by decide +kernel
  obtain ⟨_, read, unpadded, _⟩ := listing_reads_back success
  rw [printed] at read
  exact ⟨success, printed, read, unpadded⟩

end Breadboard
