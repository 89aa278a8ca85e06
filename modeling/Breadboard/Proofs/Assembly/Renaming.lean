import Breadboard.Proofs.Assembly.Normalization
import Breadboard.Proofs.Assembly.Placement
import Breadboard.Proofs.Source.Renaming

/-!
# Renaming the labels of a program

The names of labels do not matter: under other names that are told apart in the same way, a
text is assembled into the same bytes at the same addresses (`assemble_renameLabels`). A name
may be anything that has the form of a name, also that of a register or of a mnemonic, or
digits of a number, since a jump operand is looked up exactly if it has the form of a name, and
nothing else ever is. What a line means under the old labels it means, renamed, under the new
ones (`Means.of_renamed`), and the lines keep their sizes and with them their addresses
(`labelsFrom_of_renamed`).
-/

namespace Breadboard

/-- **A renaming of labels.** The spellings of the labels become names, and two of them become
the same label exactly if they were the same label before. -/
structure RenamesLabels (rename : List Char → List Char) (labels : List String) : Prop where
  isIdentifier : ∀ name, String.ofList (capitals name) ∈ labels → isIdentifier (rename name)
  eq_iff : ∀ name other, String.ofList (capitals name) ∈ labels →
    String.ofList (capitals other) ∈ labels →
    (capitals (rename name) = capitals (rename other) ↔ capitals name = capitals other)

/-- The new name of a label, in capitals. -/
def newName (rename : List Char → List Char) (label : String) : String :=
  String.ofList (capitals (rename label.toList))

/-- A listing entry without its text. -/
def ListingEntry.textless (entry : ListingEntry) : Nat × Nat × List UInt8 :=
  (entry.line, entry.address, entry.bytes)

theorem DeclaredAt.mem_filterMap_label? {mode : AddressMode} {lines : List Line} {name : String}
    {address : Nat} (declared : DeclaredAt mode lines name address) :
    name ∈ lines.filterMap Line.label? := by
  obtain ⟨index, line, here, named, _⟩ := declared
  exact List.mem_filterMap.mpr ⟨line, List.mem_of_getElem? here, named⟩

/-- What is declared is in capitals. -/
theorem capitalized_of_mem_filterMap_label? {lines : List Line} {name : String}
    (declared : name ∈ lines.filterMap Line.label?) : capitalized name = name := by
  obtain ⟨⟨raw, content⟩, _, named⟩ := List.mem_filterMap.mp declared
  cases content with
  | blank | instruction => cases named
  | label word =>
    cases named
    rw [capitalized, toList_capitalized, capitals_capitals, capitalized]

/-- Capitals are their own capitals. -/
theorem capitalized_ofList_capitals (characters : List Char) :
    capitalized (String.ofList (capitals characters)) = String.ofList (capitals characters) := by
  rw [capitalized, String.toList_ofList, capitals_capitals]

section

variable {options : AssemblyOptions} {labels : String → Nat → Prop} {head : Word}
  {operands : List Word} {instruction : Instruction}

/-- What a line with the mnemonic of a jump means. -/
theorem Means.exists_of_isJump (meaning : Means options labels head operands instruction)
    (jump : head.isJump) :
    ∃ condition operand number target, operands = [operand] ∧
      instruction = .jump condition target ∧ head.Names (Mnemonic.jump condition).text ∧
      operand.PointsTo labels number ∧ number < options.mode.limit ∧
      (target.toNat : Int) = number := by
  rw [Word.isJump, meaning.mnemonic] at jump
  cases meaning with
  | jump named points inRom stored =>
    exact ⟨_, _, _, _, rfl, rfl, named, points, inRom, stored⟩
  | bare | unary | pair | immediate | memory => cases jump

/-- Without a jump, labels do not matter. -/
theorem Means.of_not_isJump (meaning : Means options labels head operands instruction)
    (noJump : ¬head.isJump) (others : String → Nat → Prop) :
    Means options others head operands instruction := by
  rw [Word.isJump, meaning.mnemonic] at noJump
  cases meaning with
  | bare named => exact .bare named
  | unary named onRegister => exact .unary named onRegister
  | pair named into outOf => exact .pair named into outOf
  | immediate named onRegister constant low high stored =>
    exact .immediate named onRegister constant low high stored
  | memory named onRegister cell inRam stored => exact .memory named onRegister cell inRam stored
  | jump => exact absurd rfl noJump

/-- **What a line mentions is declared**, if the line means something: the label that it declares
by itself, and a name behind a jump by some line. -/
theorem Resolves.mem_filterMap_label?_of_mentions {lines : List Line} {program : List Instruction}
    (resolves : Resolves options (DeclaredAt options.mode lines) lines program) {line : Line}
    (member : line ∈ lines) {name : String} (mentions : line.content.Mentions name) :
    capitalized name ∈ lines.filterMap Line.label? := by
  obtain ⟨raw, content⟩ := line
  cases mentions with
  | label word => exact List.mem_filterMap.mpr ⟨_, member, rfl⟩
  | target jump operand isName =>
    obtain ⟨index, here⟩ := List.mem_iff_getElem?.mp member
    obtain ⟨_, _, _, _, _, meaning, _⟩ := resolves.exists_at here rfl
    obtain ⟨_, _, _, _, rfl, _, _, points, _⟩ := meaning.exists_of_isJump jump
    cases List.mem_singleton.mp operand
    cases points with
    | number written =>
      rw [Word.Writes, Literal.read?_eq_none_of_isIdentifier isName] at written
      cases written
    | label _ declared => exact declared.mem_filterMap_label?

end

section

variable {rename : List Char → List Char} {labels : List String}
  (renames : RenamesLabels rename labels)

include renames

/-- Every spelling of a label becomes the new name of the label. -/
theorem RenamesLabels.newName_eq {characters : List Char}
    (declared : String.ofList (capitals characters) ∈ labels) :
    newName rename (String.ofList (capitals characters)) =
      String.ofList (capitals (rename characters)) := by
  rw [newName, String.toList_ofList]
  congr 1
  apply (renames.eq_iff _ _ ?_ declared).mpr (capitals_capitals characters)
  rw [capitals_capitals]
  exact declared

/-- Labels that differ get names that differ. -/
theorem RenamesLabels.eq_of_newName_eq {name other : String} (declared : capitalized name ∈ labels)
    (otherDeclared : capitalized other ∈ labels)
    (same : newName rename name = newName rename other) :
    capitalized name = capitalized other := by
  rw [newName, newName, String.ofList_inj, renames.eq_iff _ _ declared otherDeclared] at same
  rw [capitalized, capitalized, same]

/-- The new name of a label line. -/
theorem Line.label?_of_renamed {line other : Line} (renamed : line.Renamed rename other)
    (declared : ∀ name, line.label? = some name → name ∈ labels) :
    other.label? = line.label?.map (newName rename) := by
  obtain ⟨raw, content⟩ := line
  obtain ⟨otherRaw, otherContent⟩ := other
  cases renamed.content with
  | blank | jump | instruction => rfl
  | label becomes =>
    obtain ⟨characters, text, otherText⟩ := becomes
    have member := declared _ rfl
    simp only [label?, Option.map_some]
    rw [text, capitalized_ofList_capitals] at member ⊢
    rw [otherText, capitalized_ofList_capitals, renames.newName_eq member]

/-- **A renamed jump operand points to the same address**: numbers are not renamed, and the new
names stand where the old ones stood. -/
theorem Word.PointsTo.of_becomes {word other : Word} {old new : String → Nat → Prop}
    {number : Int} (points : word.PointsTo old number)
    (becomes : Becomes (renameTarget rename) word.text other.text)
    (inLabels : ∀ name address, old name address → name ∈ labels)
    (renamed : ∀ name address, old name address → new (newName rename name) address) :
    other.PointsTo new number := by
  obtain ⟨characters, text, otherText⟩ := becomes
  cases points with
  | number written =>
    have noName : ¬isIdentifier characters = true := by
      intro name
      rw [Writes, text, String.toList_ofList,
        Literal.read?_eq_none_of_isIdentifier (by rwa [isIdentifier_capitals])] at written
      cases written
    rw [renameTarget, if_neg noName, ← text] at otherText
    exact .number (written.of_text otherText.symm)
  | @label address name declared =>
    rw [text, String.toList_ofList, isIdentifier_capitals] at name
    rw [text, capitalized_ofList_capitals] at declared
    rw [renameTarget, if_pos name] at otherText
    have member := inLabels _ _ declared
    have there := renamed _ _ declared
    rw [renames.newName_eq member] at there
    apply Word.PointsTo.label
    · rw [otherText, String.toList_ofList, isIdentifier_capitals]
      exact renames.isIdentifier characters member
    · rw [otherText, capitalized_ofList_capitals]
      exact there

/-- **What a line means**, it means after renaming. -/
theorem Means.of_renamed {options : AssemblyOptions} {head otherHead : Word}
    {operands others : List Word} {instruction : Instruction} {old new : String → Nat → Prop}
    (meaning : Means options old head operands instruction)
    (becomes : (Content.instruction head operands).Renamed rename (.instruction otherHead others))
    (inLabels : ∀ name address, old name address → name ∈ labels)
    (renamed : ∀ name address, old name address → new (newName rename name) address) :
    Means options new otherHead others instruction := by
  cases becomes with
  | instruction noJump texts => exact (meaning.of_not_isJump noJump new).of_texts texts
  | jump jump same become =>
    obtain ⟨condition, operand, number, target, rfl, rfl, named, points, inRom, stored⟩ :=
      meaning.exists_of_isJump jump
    obtain ⟨text, _, first, rest, texts⟩ := List.forall₂_cons_left_iff.mp become
    cases rest
    obtain ⟨other, rfl, rfl⟩ := List.map_eq_singleton_iff.mp texts
    exact .jump (named.of_text same) (points.of_becomes renames first inLabels renamed) inRom
      stored

end

/-- A line keeps its size. -/
theorem Line.Renamed.size_eq {rename : List Char → List Char} {line other : Line}
    (renamed : line.Renamed rename other) (mode : AddressMode) :
    line.size mode = other.size mode := by
  obtain ⟨raw, content⟩ := line
  obtain ⟨otherRaw, otherContent⟩ := other
  cases renamed.content with
  | blank | label => rfl
  | jump _ named =>
    unfold size instruction?
    simp only [named]
  | instruction _ texts =>
    unfold size instruction?
    simp only [(List.cons.inj texts).1]

section

variable {rename : List Char → List Char} {lines others : List Line}
  (renamed : List.Forall₂ (Line.Renamed rename) lines others)

include renamed

theorem totalSize_of_renamed (mode : AddressMode) :
    totalSize mode lines = totalSize mode others := by
  induction renamed with
  | nil => rfl
  | cons first _ ih => rw [totalSize_cons, totalSize_cons, first.size_eq, ih]

/-- **The listing stays**, but for its texts. -/
theorem listingFrom_of_renamed (mode : AddressMode) (address : Nat) (program : List Instruction) :
    (listingFrom mode address others program).map ListingEntry.textless =
      (listingFrom mode address lines program).map ListingEntry.textless := by
  induction renamed generalizing address program with
  | nil => rfl
  | @cons line other _ _ first _ ih =>
    obtain ⟨raw, content⟩ := line
    obtain ⟨otherRaw, otherContent⟩ := other
    have number : raw.number = otherRaw.number := first.number
    cases first.content with
    | blank => exact ih address program
    | label =>
      simp only [listingFrom, List.map_cons, ListingEntry.textless, number]
      exact congrArg (List.cons _) (ih address program)
    | jump | instruction =>
      cases program with
      | nil => rfl
      | cons instruction rest =>
        simp only [listingFrom, List.map_cons, ListingEntry.textless, number]
        exact congrArg (List.cons _) (ih _ rest)

variable {labels : List String} (renames : RenamesLabels rename labels)

include renames

/-- **Every label stays at its address**, under its new name. -/
theorem labelsFrom_of_renamed
    (declared : ∀ line ∈ lines, ∀ name, line.label? = some name → name ∈ labels)
    (mode : AddressMode) (start : Nat) :
    labelsFrom mode start others =
      (labelsFrom mode start lines).map (Prod.map (newName rename) id) := by
  induction renamed generalizing start with
  | nil => rfl
  | @cons line _ _ _ first _ ih =>
    rw [List.forall_mem_cons] at declared
    rw [labelsFrom_cons, labelsFrom_cons, List.map_append, ih declared.2, first.size_eq,
      Line.label?_of_renamed renames first declared.1]
    cases line.label? <;> rfl

/-- The new text means the same program. -/
theorem Resolves.of_renamed {options : AssemblyOptions} {old new : String → Nat → Prop}
    {program : List Instruction} (resolves : Resolves options old lines program)
    (inLabels : ∀ name address, old name address → name ∈ labels)
    (stays : ∀ name address, old name address → new (newName rename name) address) :
    Resolves options new others program := by
  induction renamed generalizing program with
  | nil => exact resolves_nil_iff.mpr (resolves_nil_iff.mp resolves)
  | @cons line other _ _ first _ ih =>
    obtain ⟨raw, content⟩ := line
    obtain ⟨otherRaw, otherContent⟩ := other
    have here := first.content
    cases here with
    | blank | label =>
      exact (resolves_cons_of_none rfl).mpr (ih ((resolves_cons_of_none rfl).mp resolves))
    | jump | instruction =>
      obtain ⟨instruction, rest, meaning, below, rfl⟩ := (resolves_cons_of_some rfl).mp resolves
      exact (resolves_cons_of_some rfl).mpr
        ⟨instruction, rest, meaning.of_renamed renames first.content inLabels stays, ih below, rfl⟩

end

/-- **What is assembled under new names**: the same program and bytes, with the new names in the
table and in the texts of the listing. -/
theorem Assembled.of_renamed {options : AssemblyOptions} {rename : List Char → List Char}
    {lines others : List Line} {program : List Instruction} {image : Image}
    (assembled : Assembled options lines program image)
    (renamed : List.Forall₂ (Line.Renamed rename) lines others)
    (renames : RenamesLabels rename (lines.filterMap Line.label?)) :
    Assembled options others program
      { image with
        listing := listingFrom options.mode 0 others program
        symbols := ⟨image.symbols.entries.map (Prod.map (newName rename) id)⟩ } := by
  have entries : labelsFrom options.mode 0 others =
      (labelsFrom options.mode 0 lines).map (Prod.map (newName rename) id) :=
    labelsFrom_of_renamed renamed renames
      (fun line member name named => List.mem_filterMap.mpr ⟨line, member, named⟩) options.mode 0
  have names : others.filterMap Line.label? =
      (lines.filterMap Line.label?).map (newName rename) := by
    rw [← map_fst_labelsFrom options.mode 0, entries, ← map_fst_labelsFrom options.mode 0,
      List.map_map, List.map_map]
    rfl
  exact {
    resolved := by
      refine assembled.resolved.of_renamed renamed renames
        (fun name address declared => declared.mem_filterMap_label?) fun name address declared => ?_
      rw [← mem_labelsFrom_zero_iff] at declared ⊢
      rw [entries]
      exact List.mem_map_of_mem declared
    distinct := by
      rw [names]
      refine assembled.distinct.map_on fun name declared other otherDeclared same => ?_
      have capital := capitalized_of_mem_filterMap_label? declared
      have otherCapital := capitalized_of_mem_filterMap_label? otherDeclared
      rw [← capital, ← otherCapital]
      rw [← capital] at declared
      rw [← otherCapital] at otherDeclared
      exact renames.eq_of_newName_eq declared otherDeclared same
    fits := by
      have fits := (fits_iff_totalSize_le _ _).mp assembled.fits
      rw [totalSize_of_renamed renamed] at fits
      exact (fits_iff_totalSize_le _ _).mpr fits
    bytes := assembled.bytes
    symbols := by rw [entries, assembled.symbols]
    listing := rfl }

/-- **The names of labels do not matter.** Whatever the labels of an accepted text are called,
the text is accepted with the same bytes, with the same listing but for its texts, and with the
same symbols under their new names. -/
theorem assemble_renameLabels {options : AssemblyOptions} {source : String} {image : Image}
    (success : assemble options source = .ok image) {rename : List Char → List Char}
    (renames : RenamesLabels rename (image.symbols.entries.map Prod.fst)) :
    ∃ other, assemble options (renameLabels rename source) = .ok other ∧
      other.bytes = image.bytes ∧
      other.listing.map ListingEntry.textless = image.listing.map ListingEntry.textless ∧
      other.symbols.entries =
        image.symbols.entries.map fun entry => (newName rename entry.1, entry.2) := by
  obtain ⟨lines, program, read, assembled⟩ := assembled_of_assemble success
  rw [assembled.symbols, map_fst_labelsFrom] at renames
  have names : ∀ line ∈ lines, ∀ characters,
      line.content.Mentions (String.ofList (capitals characters)) →
        isIdentifier (rename characters) := by
    intro line member characters mentions
    have declared := assembled.resolved.mem_filterMap_label?_of_mentions member mentions
    rw [capitalized_ofList_capitals] at declared
    exact renames.isIdentifier characters declared
  obtain ⟨others, readAgain, renamed⟩ := exists_readSource_renameLabels read names
  refine ⟨_, (assembled.of_renamed renamed renames).assemble_eq_ok readAgain, rfl, ?_, rfl⟩
  rw [assembled.listing]
  exact listingFrom_of_renamed renamed options.mode 0 program

/-- Labels that are called like a mnemonic, a register and a number. -/
theorem assemble_renameLabels_of_names_with_meanings :
    let source := "go:\n jnz Go ; go\n jmc up\nup:\n jmp on\non:"
    let rename (name : List Char) : List Char :=
      if capitals name = ['G', 'O'] then ['A', 'd', 'd']
      else if capitals name = ['U', 'P'] then ['a'] else ['f', 'F']
    let image : Image :=
      ⟨[0x25, 0x00, 0x00, 0x35, 0x00, 0x06, 0x05, 0x00, 0x09],
        [⟨1, 0, [], "GO:"⟩, ⟨2, 0, [0x25, 0x00, 0x00], "JNZ GO"⟩,
          ⟨3, 3, [0x35, 0x00, 0x06], "JMC UP"⟩, ⟨4, 6, [], "UP:"⟩,
          ⟨5, 6, [0x05, 0x00, 0x09], "JMP ON"⟩, ⟨6, 9, [], "ON:"⟩],
        ⟨[("GO", 0), ("UP", 6), ("ON", 9)]⟩⟩
    renameLabels rename source = "Add:\n jnz Add ; go\n jmc a\na:\n jmp fF\nfF:" ∧
      assemble {} source = .ok image ∧
      RenamesLabels rename (image.symbols.entries.map Prod.fst) ∧
      ∃ other, assemble {} (renameLabels rename source) = .ok other ∧
        other.bytes = image.bytes ∧
        other.listing.map ListingEntry.textless = image.listing.map ListingEntry.textless ∧
        other.symbols.entries =
          image.symbols.entries.map fun entry => (newName rename entry.1, entry.2) := by
  intro source rename image
  have success : assemble {} source = .ok image := by decide +kernel
  have text : renameLabels rename source =
      "Add:\n jnz Add ; go\n jmc a\na:\n jmp fF\nfF:" := by decide +kernel
  have spelled : ∀ name, String.ofList (capitals name) ∈ image.symbols.entries.map Prod.fst →
      (capitals name = ['G', 'O'] ∧ rename name = ['A', 'd', 'd']) ∨
        (capitals name = ['U', 'P'] ∧ rename name = ['a']) ∨
        (capitals name = ['O', 'N'] ∧ rename name = ['f', 'F']) := by
    intro name declared
    simp only [image, List.map_cons, List.map_nil, List.mem_cons, List.not_mem_nil, or_false,
      ← String.toList_inj, String.toList_ofList] at declared
    rcases declared with same | same | same
    · exact .inl ⟨same, if_pos same⟩
    · refine .inr (.inl ⟨same, ?_⟩)
      simp only [rename, same]
      decide
    · refine .inr (.inr ⟨same, ?_⟩)
      simp only [rename, same]
      decide
  have renames : RenamesLabels rename (image.symbols.entries.map Prod.fst) := by
    constructor
    · intro name declared
      rcases spelled name declared with ⟨_, same⟩ | ⟨_, same⟩ | ⟨_, same⟩ <;> rw [same] <;> rfl
    · intro name other declared otherDeclared
      rcases spelled name declared with ⟨capital, same⟩ | ⟨capital, same⟩ | ⟨capital, same⟩ <;>
        rcases spelled other otherDeclared with ⟨capital', same'⟩ | ⟨capital', same'⟩ |
          ⟨capital', same'⟩ <;> rw [same, same', capital, capital'] <;> decide
  exact ⟨text, success, renames, assemble_renameLabels success renames⟩

end Breadboard
