import Breadboard.Proofs.Assembly.Correctness
import Breadboard.Proofs.Source.NormalForm

/-!
# The normal form of a program

The texts of a listing are a source text of their own: that of the same program, without its
comments and its blank lines. What a text is assembled into depends on what its lines say and
not on where they say it (`Assembled.of_alike`), and the lines of a normal form say what the
lines say that it was made from (`exists_readSource_normalForm`). So a listing is assembled
into itself, but for the numbers of its lines (`assemble_normalForm`).
-/

namespace Breadboard

/-- The texts of the listing, one on each line. -/
def Image.normalForm (image : Image) : String :=
  "\n".intercalate (image.listing.map (·.text))

/-- A listing entry without the number of its line. -/
def ListingEntry.unnumbered (entry : ListingEntry) : Nat × List UInt8 × String :=
  (entry.address, entry.bytes, entry.text)

/-- Two texts say the same, their blank lines aside. -/
inductive AlikeLines : List Line → List Line → Prop where
  | nil : AlikeLines [] []
  | skipLeft {line : Line} {lines others : List Line} (blank : line.content = .blank)
      (rest : AlikeLines lines others) : AlikeLines (line :: lines) others
  | skipRight {other : Line} {lines others : List Line} (blank : other.content = .blank)
      (rest : AlikeLines lines others) : AlikeLines lines (other :: others)
  | cons {line other : Line} {lines others : List Line}
      (alike : line.content.Alike other.content) (rest : AlikeLines lines others) :
      AlikeLines (line :: lines) (other :: others)

section

variable {word other : Word} (text : word.text = other.text)

include text

theorem Word.Names.of_text {name : String} (named : word.Names name) : other.Names name := by
  unfold Names
  rw [← text]
  exact named

theorem Word.Writes.of_text {number : Int} (written : word.Writes number) :
    other.Writes number := by
  unfold Writes
  rw [← text]
  exact written

theorem Word.PointsTo.of_text {labels : String → Nat → Prop} {number : Int}
    (points : word.PointsTo labels number) : other.PointsTo labels number := by
  cases points with
  | number written => exact .number (written.of_text text)
  | label name declared =>
    rw [text] at name declared
    exact .label name declared

end

/-- What a line means depends on its texts only. -/
theorem Means.of_texts {options : AssemblyOptions} {labels : String → Nat → Prop}
    {head otherHead : Word} {operands otherOperands : List Word} {instruction : Instruction}
    (meaning : Means options labels head operands instruction)
    (texts : (head :: operands).map (·.text) = (otherHead :: otherOperands).map (·.text)) :
    Means options labels otherHead otherOperands instruction := by
  rw [List.map_cons, List.map_cons] at texts
  obtain ⟨same, rest⟩ := List.cons.inj texts
  cases meaning with
  | bare named =>
    cases List.map_eq_nil_iff.mp rest.symm
    exact .bare (named.of_text same)
  | unary named onRegister =>
    obtain ⟨first, rfl, one⟩ := List.map_eq_singleton_iff.mp rest.symm
    exact .unary (named.of_text same) (onRegister.of_text one.symm)
  | pair named into outOf =>
    obtain ⟨first, _, rfl, one, rest⟩ := List.map_eq_cons_iff.mp rest.symm
    obtain ⟨second, rfl, two⟩ := List.map_eq_singleton_iff.mp rest
    exact .pair (named.of_text same) (into.of_text one.symm) (outOf.of_text two.symm)
  | immediate named onRegister constant low high stored =>
    obtain ⟨first, _, rfl, one, rest⟩ := List.map_eq_cons_iff.mp rest.symm
    obtain ⟨second, rfl, two⟩ := List.map_eq_singleton_iff.mp rest
    exact .immediate (named.of_text same) (onRegister.of_text one.symm)
      (constant.of_text two.symm) low high stored
  | memory named onRegister cell inRam stored =>
    obtain ⟨first, _, rfl, one, rest⟩ := List.map_eq_cons_iff.mp rest.symm
    obtain ⟨second, rfl, two⟩ := List.map_eq_singleton_iff.mp rest
    exact .memory (named.of_text same) (onRegister.of_text one.symm) (cell.of_text two.symm)
      inRam stored
  | jump named points inRom stored =>
    obtain ⟨first, rfl, one⟩ := List.map_eq_singleton_iff.mp rest.symm
    exact .jump (named.of_text same) (points.of_text one.symm) inRom stored

namespace Line

variable {line other : Line} (alike : line.content.Alike other.content)

include alike

theorem label?_eq_of_alike : line.label? = other.label? := by
  obtain ⟨raw, content⟩ := line
  obtain ⟨otherRaw, otherContent⟩ := other
  cases alike with
  | blank | instruction => rfl
  | label text =>
    unfold label?
    simp only [text]

theorem size_eq_of_alike (mode : AddressMode) : line.size mode = other.size mode := by
  obtain ⟨raw, content⟩ := line
  obtain ⟨otherRaw, otherContent⟩ := other
  cases alike with
  | blank | label => rfl
  | instruction texts =>
    unfold size instruction?
    simp only [(List.cons.inj texts).1]

end Line

theorem label?_of_blank {line : Line} (blank : line.content = .blank) : line.label? = none := by
  rw [Line.label?, blank]

theorem instruction?_of_blank {line : Line} (blank : line.content = .blank) :
    line.instruction? = none := by
  rw [Line.instruction?, blank]

theorem size_of_blank {line : Line} (mode : AddressMode) (blank : line.content = .blank) :
    line.size mode = 0 := Line.size_eq_zero_of_none (instruction?_of_blank blank)

theorem listingFrom_of_blank {mode : AddressMode} {address : Nat} {line : Line} {lines : List Line}
    {program : List Instruction} (blank : line.content = .blank) :
    listingFrom mode address (line :: lines) program = listingFrom mode address lines program := by
  rw [listingFrom]
  exact blank

namespace AlikeLines

variable {lines others : List Line} (alike : AlikeLines lines others)

include alike

theorem totalSize_eq (mode : AddressMode) : totalSize mode lines = totalSize mode others := by
  induction alike with
  | nil => rfl
  | skipLeft blank _ ih => rw [totalSize_cons, size_of_blank mode blank, Nat.zero_add, ih]
  | skipRight blank _ ih => rw [totalSize_cons, size_of_blank mode blank, Nat.zero_add, ih]
  | cons alike _ ih => rw [totalSize_cons, totalSize_cons, Line.size_eq_of_alike alike, ih]

theorem labelsFrom_eq (mode : AddressMode) (start : Nat) :
    labelsFrom mode start lines = labelsFrom mode start others := by
  induction alike generalizing start with
  | nil => rfl
  | skipLeft blank _ ih =>
    rw [labelsFrom_cons, label?_of_blank blank, size_of_blank mode blank, Nat.add_zero, ih]
    rfl
  | skipRight blank _ ih =>
    rw [labelsFrom_cons, label?_of_blank blank, size_of_blank mode blank, Nat.add_zero, ih]
    rfl
  | cons alike _ ih =>
    rw [labelsFrom_cons, labelsFrom_cons, Line.label?_eq_of_alike alike,
      Line.size_eq_of_alike alike, ih]

/-- A name is declared at the same address in both texts. -/
theorem declaredAt_eq (mode : AddressMode) : DeclaredAt mode lines = DeclaredAt mode others := by
  funext name address
  rw [← mem_labelsFrom_zero_iff, ← mem_labelsFrom_zero_iff, alike.labelsFrom_eq]

theorem filterMap_label?_eq :
    lines.filterMap Line.label? = others.filterMap Line.label? := by
  rw [← map_fst_labelsFrom .elevenBit 0, alike.labelsFrom_eq, map_fst_labelsFrom]

/-- Both texts mean the same program. -/
theorem resolves {options : AssemblyOptions} {labels : String → Nat → Prop}
    {program : List Instruction} (resolves : Resolves options labels lines program) :
    Resolves options labels others program := by
  induction alike generalizing program with
  | nil => exact resolves
  | skipLeft blank _ ih =>
    exact ih ((resolves_cons_of_none (instruction?_of_blank blank)).mp resolves)
  | skipRight blank _ ih =>
    exact (resolves_cons_of_none (instruction?_of_blank blank)).mpr (ih resolves)
  | @cons line other _ _ alike _ ih =>
    obtain ⟨raw, content⟩ := line
    obtain ⟨otherRaw, otherContent⟩ := other
    cases alike with
    | blank | label =>
      exact (resolves_cons_of_none rfl).mpr (ih ((resolves_cons_of_none rfl).mp resolves))
    | instruction texts =>
      obtain ⟨instruction, rest, meaning, below, rfl⟩ := (resolves_cons_of_some rfl).mp resolves
      exact (resolves_cons_of_some rfl).mpr
        ⟨instruction, rest, meaning.of_texts texts, ih below, rfl⟩

/-- Both texts have the same listing, but for the numbers of lines. -/
theorem listingFrom_eq (mode : AddressMode) (address : Nat) (program : List Instruction) :
    (listingFrom mode address lines program).map ListingEntry.unnumbered =
      (listingFrom mode address others program).map ListingEntry.unnumbered := by
  induction alike generalizing address program with
  | nil => rfl
  | skipLeft blank _ ih => rw [listingFrom_of_blank blank, ih]
  | skipRight blank _ ih => rw [listingFrom_of_blank blank, ih]
  | @cons line other _ _ alike _ ih =>
    have text : line.text = other.text := alike.text_eq
    obtain ⟨raw, content⟩ := line
    obtain ⟨otherRaw, otherContent⟩ := other
    cases alike with
    | blank => exact ih address program
    | label =>
      simp only [listingFrom, List.map_cons, ListingEntry.unnumbered, text]
      exact congrArg (List.cons _) (ih address program)
    | instruction texts =>
      cases program with
      | nil => rfl
      | cons instruction rest =>
        simp only [listingFrom, List.map_cons, ListingEntry.unnumbered, text]
        exact congrArg (List.cons _) (ih _ rest)

end AlikeLines

/-- **What is assembled depends on what the lines say.** -/
theorem Assembled.of_alike {options : AssemblyOptions} {lines others : List Line}
    {program : List Instruction} {image : Image}
    (assembled : Assembled options lines program image) (alike : AlikeLines lines others) :
    Assembled options others program
      { image with listing := listingFrom options.mode 0 others program } where
  resolved := by
    rw [← alike.declaredAt_eq]
    exact alike.resolves assembled.resolved
  distinct := by
    rw [← alike.filterMap_label?_eq]
    exact assembled.distinct
  fits := by
    have fits := (fits_iff_totalSize_le _ _).mp assembled.fits
    rw [alike.totalSize_eq] at fits
    exact (fits_iff_totalSize_le _ _).mpr fits
  bytes := assembled.bytes
  symbols := by
    rw [← alike.labelsFrom_eq]
    exact assembled.symbols
  listing := rfl

/-- The lines that are listed. -/
def listedLines (lines : List Line) : List Line := lines.filter (·.content ≠ .blank)

/-- The entry shows the line: its number, its text in normal form, and its bytes, of which a label
has none and an instruction one to three. -/
structure ListingEntry.Shows (entry : ListingEntry) (line : Line) : Prop where
  number : entry.line = line.raw.number
  text : entry.text = line.text
  bytes :
    match line.content with
    | .blank => False
    | .label _ => entry.bytes = []
    | .instruction _ _ => 1 ≤ entry.bytes.length ∧ entry.bytes.length ≤ 3

theorem ListingEntry.shows_instruction (raw : RawLine) (head : Word) (operands : List Word)
    (mode : AddressMode) (address : Nat) (instruction : Instruction) :
    Shows ⟨raw.number, address, instruction.encode mode, (Content.instruction head operands).text⟩
      ⟨raw, .instruction head operands⟩ := by
  refine ⟨rfl, rfl, ?_⟩
  change 1 ≤ (instruction.encode mode).length ∧ _ ≤ 3
  rw [instruction.length_encode]
  exact ⟨instruction.size_pos mode, instruction.mnemonic.shape.size_le_three mode⟩

/-- **A listing shows the lines that are not blank**, one by one. -/
theorem Resolves.forall₂_listingFrom {options : AssemblyOptions}
    {labels : String → Nat → Prop} {lines : List Line} {program : List Instruction}
    (resolves : Resolves options labels lines program) (address : Nat) :
    List.Forall₂ ListingEntry.Shows (listingFrom options.mode address lines program)
      (listedLines lines) := by
  induction lines generalizing program address with
  | nil => exact .nil
  | cons line lines ih =>
    obtain ⟨raw, content⟩ := line
    cases content with
    | blank => exact ih ((resolves_cons_of_none rfl).mp resolves) address
    | label name =>
      exact .cons ⟨rfl, rfl, rfl⟩ (ih ((resolves_cons_of_none rfl).mp resolves) address)
    | instruction head operands =>
      obtain ⟨instruction, others, meaning, rest, rfl⟩ := (resolves_cons_of_some rfl).mp resolves
      exact .cons (ListingEntry.shows_instruction raw head operands _ _ instruction)
        (ih rest (address + instruction.size options.mode))

theorem map_eq_map_of_forall₂ {α β γ : Type} {related : α → β → Prop} {f : α → γ} {g : β → γ}
    (same : ∀ left right, related left right → f left = g right) {list : List α} {others : List β}
    (alike : List.Forall₂ related list others) : list.map f = others.map g := by
  induction alike with
  | nil => rfl
  | cons first _ ih => rw [List.map_cons, List.map_cons, same _ _ first, ih]

/-- The texts of a listing are those of the lines that are not blank. -/
theorem Resolves.map_text_listingFrom {options : AssemblyOptions}
    {labels : String → Nat → Prop} {lines : List Line} {program : List Instruction}
    (resolves : Resolves options labels lines program) (address : Nat) :
    (listingFrom options.mode address lines program).map (·.text) =
      (listedLines lines).map (·.text) :=
  map_eq_map_of_forall₂ (fun _ _ shows => shows.text) (resolves.forall₂_listingFrom address)

/-- Lines that say what the listed lines say. -/
theorem alikeLines_of_listedLines {lines again : List Line}
    (same : List.Forall₂ (fun other line => line.content.Alike other.content) again
      (listedLines lines)) : AlikeLines lines again := by
  induction lines generalizing again with
  | nil =>
    cases same
    exact .nil
  | cons line lines ih =>
    by_cases blank : line.content = .blank
    · apply AlikeLines.skipLeft blank
      apply ih
      unfold listedLines at same ⊢
      rwa [List.filter_cons_of_neg (by simpa using blank)] at same
    · unfold listedLines at same
      rw [List.filter_cons_of_pos (by simpa using blank)] at same
      cases same with
      | cons alike rest => exact .cons alike (ih rest)

/-- The empty text has one line, which is blank. -/
theorem readSource_empty : readSource "" = .ok [⟨⟨1, 0, []⟩, .blank⟩] := by decide +kernel

/-- **The normal form says the same.** -/
theorem exists_readSource_normalForm {options : AssemblyOptions} {source : String}
    {lines : List Line} {program : List Instruction} {image : Image}
    (read : readSource source = .ok lines) (assembled : Assembled options lines program image) :
    ∃ again, readSource image.normalForm = .ok again ∧ AlikeLines lines again := by
  have texts := assembled.resolved.map_text_listingFrom 0
  rw [← assembled.listing] at texts
  by_cases nothing : listedLines lines = []
  · refine ⟨[⟨⟨1, 0, []⟩, .blank⟩], ?_, .skipRight rfl (alikeLines_of_listedLines ?_)⟩
    · rw [Image.normalForm, texts, nothing]
      exact readSource_empty
    · rw [nothing]
      exact .nil
  · have written : image.normalForm.toList =
        ['\n'].intercalate ((listedLines lines).map (·.text.toList)) := by
      rw [Image.normalForm, texts, String.toList_intercalate, List.map_map]
      rfl
    have said : ∀ line ∈ listedLines lines,
        Says line.raw.characters line.content ∧ line.content ≠ .blank := by
      intro line member
      obtain ⟨inside, someText⟩ := List.mem_filter.mp member
      exact ⟨said_of_mem_readSource read inside, of_decide_eq_true someText⟩
    obtain ⟨again, readAgain, same⟩ := readSource_intercalate
      (fun line member => (said line member).1.ofTokens_text (said line member).2)
      (fun line member => (said line member).1.not_mem_text rfl (by decide) (by decide))
      (fun line member => (said line member).1.not_mem_text rfl (by decide) (by decide))
      nothing written
    exact ⟨again, readAgain, alikeLines_of_listedLines same⟩

/-- Images whose listings differ in the numbers of lines only have the same normal form. -/
theorem normalForm_eq_of_unnumbered {image other : Image}
    (same : image.listing.map ListingEntry.unnumbered =
      other.listing.map ListingEntry.unnumbered) : image.normalForm = other.normalForm := by
  have texts (listing : List ListingEntry) :
      listing.map (·.text) = (listing.map ListingEntry.unnumbered).map (·.2.2) := by
    rw [List.map_map]
    rfl
  unfold Image.normalForm
  rw [texts, same, ← texts]

/-- **The listing of a program is that program.** The texts of the listing are assembled into
the same bytes, labels and entries, which differ at most in the numbers of their lines, and
doing it again changes nothing at all. -/
theorem assemble_normalForm {options : AssemblyOptions} {source : String} {image : Image}
    (success : assemble options source = .ok image) :
    ∃ again, assemble options image.normalForm = .ok again ∧ again.bytes = image.bytes ∧
      again.symbols = image.symbols ∧
      again.listing.map ListingEntry.unnumbered = image.listing.map ListingEntry.unnumbered ∧
      again.normalForm = image.normalForm ∧ assemble options again.normalForm = .ok again := by
  obtain ⟨lines, program, read, assembled⟩ := assembled_of_assemble success
  obtain ⟨others, readAgain, alike⟩ := exists_readSource_normalForm read assembled
  have assembledAgain := (assembled.of_alike alike).assemble_eq_ok readAgain
  have entries : (listingFrom options.mode 0 others program).map ListingEntry.unnumbered =
      image.listing.map ListingEntry.unnumbered := by
    rw [assembled.listing]
    exact (alike.listingFrom_eq options.mode 0 program).symm
  have same : ({ image with listing := listingFrom options.mode 0 others program } :
      Image).normalForm = image.normalForm := normalForm_eq_of_unnumbered entries
  refine ⟨_, assembledAgain, rfl, rfl, entries, same, ?_⟩
  rw [same]
  exact assembledAgain

theorem assemble_normalForm_of_commented_loop :
    let source := "loop: ; again\n\n ldi a,$0f\n jnz Loop @ back"
    let image : Image :=
      ⟨[0x04, 0x0F, 0x25, 0x00, 0x00],
        [⟨1, 0, [], "LOOP:"⟩, ⟨3, 0, [0x04, 0x0F], "LDI A $0F"⟩,
          ⟨4, 2, [0x25, 0x00, 0x00], "JNZ LOOP"⟩],
        ⟨[("LOOP", 0)]⟩⟩
    assemble {} source = .ok image ∧ image.normalForm = "LOOP:\nLDI A $0F\nJNZ LOOP" ∧
      ∃ again, assemble {} image.normalForm = .ok again ∧ again.bytes = image.bytes ∧
        again.symbols = image.symbols ∧
        again.listing.map ListingEntry.unnumbered = image.listing.map ListingEntry.unnumbered ∧
        again.normalForm = image.normalForm ∧ assemble {} again.normalForm = .ok again := by
  intro source image
  have success : assemble {} source = .ok image := by decide +kernel
  have text : image.normalForm = "LOOP:\nLDI A $0F\nJNZ LOOP" := by decide
  exact ⟨success, text, assemble_normalForm success⟩

end Breadboard
