import Breadboard.Proofs.Assembly.Normalization
import Breadboard.Proofs.Assembly.Passes
import Breadboard.Proofs.Assembly.Placement
import Breadboard.Proofs.Source.Reading

/-!
# Listings of interrupted passes

A second pass may stop at any line, and it may be run without labels or again. What it leaves is a
listing in any case: that of the lines above the one where it stopped, which mean a program with
the labels that the pass found (`exists_program_of_emitFrom`). So what holds of the listing of a
program holds after any passes, and not only of an assembly that has succeeded
(`listing_consistent_after_passes`).
-/

namespace Breadboard

theorem line_of_emit_error {options : AssemblyOptions} {symbols : Symbols} {address : Nat}
    {line : Line} {failure : CompileError}
    (refused : line.emit options symbols address = .error failure) :
    failure.line = line.raw.number := by
  obtain ⟨raw, content⟩ := line
  cases content with
  | blank | label => cases refused
  | instruction head operands =>
    simp only [Line.emit] at refused
    split at refused
    next =>
      cases refused
      rfl
    next =>
      split at refused
      next =>
        cases refused
        rfl
      next => cases refused

/-- **Where a second pass stops.** What it lists are the lines above, which it gets through, and
the failure that it reports is that of the first line below. -/
theorem exists_stop_of_emitFrom (options : AssemblyOptions) (symbols : Symbols) (address : Nat)
    (lines : List Line) :
    let found := emitFrom options symbols address lines
    ∃ above below, lines = above ++ below ∧
      emitFrom options symbols address above = (none, found.2) ∧
      found.1.map (·.line) = below.head?.map (·.raw.number) := by
  induction lines generalizing address with
  | nil => exact ⟨[], [], rfl, rfl, rfl⟩
  | cons line rest ih =>
    cases emitted : line.emit options symbols address with
    | error failure =>
      refine ⟨[], line :: rest, rfl, ?_, ?_⟩
      · simp only [emitFrom, emitted]
      · simp only [emitFrom, emitted]
        exact congrArg some (line_of_emit_error emitted)
    | ok entry? =>
      obtain ⟨above, below, rfl, through, stop⟩ :=
        ih (address + (listingBytes entry?.toList).length)
      refine ⟨line :: above, below, rfl, ?_, ?_⟩
      · rw [emitFrom_cons emitted, emitFrom_cons emitted, through]
      · rw [emitFrom_cons emitted, stop]

/-- **What a second pass leaves is the listing of a program**: of the one that the lines above its
stop mean, by whatever labels it was given. -/
theorem exists_program_of_emitFrom (options : AssemblyOptions) {symbols : Symbols}
    {labels : String → Nat → Prop}
    (agree : ∀ name address, symbols.get? name = some address ↔ labels (capitalized name) address)
    (lines : List Line) :
    let found := emitFrom options symbols 0 lines
    ∃ above below program, lines = above ++ below ∧ Resolves options labels above program ∧
      found.2 = listingFrom options.mode 0 above program ∧
      found.1.map (·.line) = below.head?.map (·.raw.number) := by
  intro found
  obtain ⟨above, below, split, through, stop⟩ := exists_stop_of_emitFrom options symbols 0 lines
  obtain ⟨program, resolves, _, listing⟩ :=
    (emitFrom_eq_none_iff agree 0 (Nat.zero_le _) above _).mp through
  exact ⟨above, below, program, split, resolves, listing, stop⟩

/-- An entry stands behind the bytes of the entries above it, which are as many as the opcode table
says of the lines above its own. -/
theorem Resolves.exists_line_of_listingFrom {options : AssemblyOptions}
    {labels : String → Nat → Prop} {lines : List Line} {program : List Instruction}
    (resolves : Resolves options labels lines program) {address : Nat}
    {upper lower : List ListingEntry} {entry : ListingEntry}
    (split : listingFrom options.mode address lines program = upper ++ entry :: lower) :
    ∃ above line below, lines = above ++ line :: below ∧ entry.Shows line ∧
      entry.address = address + (listingBytes upper).length ∧
      (listingBytes upper).length = totalSize options.mode above := by
  induction lines generalizing program address upper with
  | nil => exact absurd split (List.append_ne_nil_of_right_ne_nil upper (List.cons_ne_nil _ _)).symm
  | cons line lines ih =>
    obtain ⟨raw, content⟩ := line
    cases content with
    | blank =>
      obtain ⟨above, shown, below, rfl, shows, behind, size⟩ :=
        ih ((resolves_cons_of_none rfl).mp resolves) split
      refine ⟨⟨raw, .blank⟩ :: above, shown, below, rfl, shows, behind, ?_⟩
      rw [totalSize_cons, size_of_blank _ rfl, Nat.zero_add, size]
    | label name =>
      simp only [listingFrom] at split
      -- The entry is that of this line, with nothing above it, or it stands further below.
      cases upper with
      | nil =>
        cases (List.cons.inj split).1
        exact ⟨[], ⟨raw, .label name⟩, lines, rfl, ⟨rfl, rfl, rfl⟩, rfl, rfl⟩
      | cons first upper =>
        obtain ⟨rfl, splitRest⟩ := List.cons.inj split
        obtain ⟨above, shown, below, rfl, shows, behind, size⟩ :=
          ih ((resolves_cons_of_none rfl).mp resolves) splitRest
        refine ⟨⟨raw, .label name⟩ :: above, shown, below, rfl, shows, behind, ?_⟩
        rw [totalSize_cons, Line.size_eq_zero_of_none rfl, Nat.zero_add, ← size]
        rfl
    | instruction head operands =>
      obtain ⟨instruction, others, meaning, rest, rfl⟩ := (resolves_cons_of_some rfl).mp resolves
      simp only [listingFrom] at split
      cases upper with
      | nil =>
        cases (List.cons.inj split).1
        exact ⟨[], ⟨raw, .instruction head operands⟩, lines, rfl,
          ListingEntry.shows_instruction raw head operands _ _ instruction, rfl, rfl⟩
      | cons first upper =>
        obtain ⟨rfl, splitRest⟩ := List.cons.inj split
        obtain ⟨above, shown, below, rfl, shows, behind, size⟩ := ih rest splitRest
        refine ⟨⟨raw, .instruction head operands⟩ :: above, shown, below, rfl, shows, ?_, ?_⟩
        · rw [behind, listingBytes_cons, List.length_append, instruction.length_encode,
            Nat.add_assoc]
        · rw [totalSize_cons, meaning.size_eq rfl, listingBytes_cons, List.length_append,
            instruction.length_encode, size]

/-- The listing shows some lines, and its addresses are those of its own bytes. -/
structure Lists (listing : List ListingEntry) (lines : List Line) : Prop where
  shows : List.Forall₂ ListingEntry.Shows listing (listedLines lines)
  addresses : ∀ upper entry lower, listing = upper ++ entry :: lower →
    entry.address = (listingBytes upper).length

theorem Resolves.lists {options : AssemblyOptions} {labels : String → Nat → Prop}
    {lines : List Line} {program : List Instruction}
    (resolves : Resolves options labels lines program) :
    Lists (listingFrom options.mode 0 lines program) lines where
  shows := resolves.forall₂_listingFrom 0
  addresses := by
    intro upper entry lower split
    obtain ⟨_, _, _, _, _, behind, _⟩ := resolves.exists_line_of_listingFrom split
    rw [behind, Nat.zero_add]

namespace Lists

variable {listing : List ListingEntry} {lines : List Line} (lists : Lists listing lines)

include lists

theorem map_line : listing.map (·.line) = (listedLines lines).map (·.raw.number) :=
  map_eq_map_of_forall₂ (fun _ _ shows => shows.number) lists.shows

/-- Entries of ascending lines ascend. -/
theorem pairwise_line (ascending : (lines.map (·.raw.number)).Pairwise (· < ·)) :
    (listing.map (·.line)).Pairwise (· < ·) := by
  rw [lists.map_line]
  exact ascending.sublist (List.filter_sublist.map _)

theorem exists_shown {entry : ListingEntry} (member : entry ∈ listing) :
    ∃ line ∈ lines, entry.Shows line := by
  obtain ⟨index, inside, rfl⟩ := List.getElem_of_mem member
  have insideLines : index < (listedLines lines).length := by
    rw [← lists.shows.length_eq]
    exact inside
  exact ⟨_, (List.mem_filter.mp (List.getElem_mem insideLines)).1,
    lists.shows.get inside insideLines⟩

end Lists

theorem pairwise_number_of_readSource {source : String} {lines : List Line}
    (read : readSource source = .ok lines) : (lines.map (·.raw.number)).Pairwise (· < ·) := by
  rw [List.pairwise_map, List.pairwise_iff_getElem]
  intro earlier later insideEarlier insideLater before
  rw [number_of_readSource read earlier _ (List.getElem?_eq_getElem insideEarlier),
    number_of_readSource read later _ (List.getElem?_eq_getElem insideLater)]
  exact Nat.succ_lt_succ before

/-- The lines above one are those with smaller numbers. -/
theorem filter_number_lt {above below : List Line} {line : Line}
    (ascending : ((above ++ line :: below).map (·.raw.number)).Pairwise (· < ·)) :
    (above ++ line :: below).filter (·.raw.number < line.raw.number) = above := by
  rw [List.pairwise_map, List.pairwise_append] at ascending
  obtain ⟨-, lower, upper⟩ := ascending
  rw [List.filter_append, List.filter_eq_self.mpr, List.filter_eq_nil_iff.mpr, List.append_nil]
  · intro other member
    rw [decide_eq_true_eq, Nat.not_lt]
    rcases List.mem_cons.mp member with rfl | member
    · exact Nat.le_refl _
    · exact Nat.le_of_lt (List.rel_of_pairwise_cons lower member)
  · intro other member
    exact decide_eq_true (upper other member line List.mem_cons_self)

/-- The addresses that a table has for names, whichever labels it was made from. -/
def Symbols.Assigns (symbols : Symbols) (name : String) (address : Nat) : Prop :=
  symbols.get? name = some address

theorem Symbols.get?_eq_some_iff_assigns (symbols : Symbols) (name : String) (address : Nat) :
    symbols.get? name = some address ↔ symbols.Assigns (capitalized name) address := by
  rw [Assigns, get?, get?, capitalized_capitalized]

/-- The lines that a second pass gets through. -/
def linesBefore (failure? : Option CompileError) (lines : List Line) : List Line :=
  match failure? with
  | none => lines
  | some failure => lines.filter (·.raw.number < failure.line)

/-- **A second pass lists the lines that it gets through**, whatever labels it was given. -/
theorem lists_of_emitFrom (options : AssemblyOptions) (symbols : Symbols) {lines : List Line}
    (ascending : (lines.map (·.raw.number)).Pairwise (· < ·)) :
    let found := emitFrom options symbols 0 lines
    Lists found.2 (linesBefore found.1 lines) := by
  intro found
  obtain ⟨above, below, program, split, resolves, listing, stop⟩ :=
    exists_program_of_emitFrom options symbols.get?_eq_some_iff_assigns lines
  have through : linesBefore found.1 lines = above := by
    cases outcome : found.1 with
    | none =>
      rw [outcome, Option.map_none] at stop
      rw [linesBefore, split, List.head?_eq_none_iff.mp (Option.map_eq_none_iff.mp stop.symm),
        List.append_nil]
    | some failure =>
      rw [outcome, Option.map_some] at stop
      obtain ⟨line, first, number⟩ := Option.map_eq_some_iff.mp stop.symm
      obtain ⟨rest, rfl⟩ := List.head?_eq_some_iff.mp first
      rw [split] at ascending ⊢
      rw [linesBefore, ← number, filter_number_lt ascending]
  rw [through, listing]
  exact resolves.lists

/-- The image of a tidy bench has the bytes of its listing, which is filled up to the end of ROM or
not at all. -/
theorem Workbench.Tidy.filled {bench : Workbench} (tidy : bench.Tidy) :
    ∃ fill, bench.image.bytes = listingBytes bench.image.listing ++ List.replicate fill padByte ∧
      if bench.options.padded then bench.image.bytes.length = romSize else fill = 0 := by
  have fits : (listingBytes bench.listing).length ≤ romSize := by
    rw [← tidy.output]
    exact tidy.fits
  apply (filled_iff bench.options.padded fits).mp
  rw [tidy.image_eq]
  rfl

/-- **Output and listing agree after any passes**, whether they fail or not. The image then taken
has the bytes of its listing, which is filled up if that was asked for. Every entry stands behind
the bytes of the entries above it. The numbers of the lines ascend, and each entry shows its line:
with its text in normal form, without bytes for a label and with one to three for an instruction.
If there was a second pass, then the last one decides on what is listed: all the labels and
instructions of the text, each of them once, or those above the line that it failed at. -/
theorem listing_consistent_after_passes (options : AssemblyOptions) (source : String)
    (lines : List Line) (read : readSource source = .ok lines) (passes : List Pass) :
    let fresh : Workbench := { options := options, lines := lines }
    let image := (fresh.after passes).image
    (∃ fill, image.bytes = listingBytes image.listing ++ List.replicate fill padByte ∧
      if options.padded then image.bytes.length = romSize else fill = 0) ∧
    (∀ above entry below, image.listing = above ++ entry :: below →
      entry.address = (listingBytes above).length) ∧
    (image.listing.map (·.line)).Pairwise (· < ·) ∧
    (∀ entry ∈ image.listing, ∃ line ∈ lines, entry.Shows line) ∧
    (.second ∉ passes → image.listing = []) ∧
    ∀ front back, passes = front ++ .second :: back → .second ∉ back →
      List.Forall₂ ListingEntry.Shows image.listing
        (listedLines (linesBefore (fresh.after front).secondPass.1 lines)) := by
  intro fresh image
  have ascending := pairwise_number_of_readSource read
  have clear : fresh.Tidy := ⟨rfl, Nat.zero_le romSize⟩
  have filled := (clear.after passes).filled
  have sameOptions : (fresh.after passes).options = options := by
    rw [fresh.toDraft_after]
    exact (fresh.toDraft.after_source passes).1
  rw [sameOptions] at filled
  have unlisted (noSecond : .second ∉ passes) : image.listing = [] := by
    change (fresh.after passes).toDraft.listing = []
    rw [fresh.toDraft_after, Draft.after_listing_of_not_mem _ _ noSecond]
  have shown (front back : List Pass) (split : passes = front ++ .second :: back)
      (noSecond : .second ∉ back) :
      Lists image.listing (linesBefore (fresh.after front).secondPass.1 lines) := by
    obtain ⟨outcome, listing, _⟩ := fresh.secondPass_after front
    change Lists (fresh.after passes).listing _
    rw [split, fresh.listing_after_of_last front noSecond, listing, outcome]
    exact lists_of_emitFrom options _ ascending
  -- Without a second pass nothing is listed, as if it had stopped at once.
  obtain ⟨listed, among, lists⟩ : ∃ listed, listed.Sublist lines ∧ Lists image.listing listed := by
    by_cases present : .second ∈ passes
    · obtain ⟨front, back, split, noSecond⟩ := exists_last_split present
      refine ⟨_, ?_, shown front back split noSecond⟩
      unfold linesBefore
      split
      · exact List.Sublist.refl lines
      · exact List.filter_sublist
    · refine ⟨[], List.nil_sublist lines, ?_⟩
      rw [unlisted present]
      exact ⟨.nil, fun _ _ _ split => absurd split.symm (by simp)⟩
  refine ⟨filled, lists.addresses, lists.pairwise_line (ascending.sublist (among.map _)), ?_,
    unlisted, fun front back split noSecond => (shown front back split noSecond).shows⟩
  intro entry member
  obtain ⟨line, inside, shows⟩ := lists.exists_shown member
  exact ⟨line, among.subset inside, shows⟩

theorem listing_consistent_after_passes_of_undefined_label :
    let lines : List Line :=
      [⟨⟨1, 0, "ldi a,5".toList⟩, .instruction ⟨"LDI", ⟨0, 3⟩⟩ [⟨"A", ⟨4, 1⟩⟩, ⟨"5", ⟨6, 1⟩⟩]⟩,
        ⟨⟨2, 8, "on:".toList⟩, .label ⟨"ON", ⟨8, 2⟩⟩⟩,
        ⟨⟨3, 12, "jmp off".toList⟩, .instruction ⟨"JMP", ⟨12, 3⟩⟩ [⟨"OFF", ⟨16, 3⟩⟩]⟩]
    let fresh : Workbench := { options := {}, lines := lines }
    let image := (fresh.after [.first, .second, .first]).image
    readSource "ldi a,5\non:\njmp off" = .ok lines ∧
      image.listing = [⟨1, 0, [0x04, 0x05], "LDI A 5"⟩, ⟨2, 2, [], "ON:"⟩] ∧
      image.bytes = [0x04, 0x05] ∧ (image.listing.map (·.line)).Pairwise (· < ·) ∧
      (fresh.after [.first]).secondPass.1 =
        some ⟨3, "jmp off", ⟨16, 3⟩, .undefinedLabel "OFF"⟩ ∧
      List.Forall₂ ListingEntry.Shows image.listing (lines.take 2) := by
  intro lines fresh image
  have read : readSource "ldi a,5\non:\njmp off" = .ok lines := by decide +kernel
  have listing : image.listing = [⟨1, 0, [0x04, 0x05], "LDI A 5"⟩, ⟨2, 2, [], "ON:"⟩] := by
    decide +kernel
  have failed : (fresh.after [.first]).secondPass.1 =
      some ⟨3, "jmp off", ⟨16, 3⟩, .undefinedLabel "OFF"⟩ := by decide +kernel
  obtain ⟨⟨fill, bytes, noFill⟩, _, ascends, _, _, shown⟩ :=
    listing_consistent_after_passes {} _ lines read [.first, .second, .first]
  have through : listedLines (linesBefore (fresh.after [.first]).secondPass.1 lines) =
      lines.take 2 := by
    rw [failed]
    rfl
  rw [← through]
  refine ⟨read, listing, ?_, ascends, failed, shown [.first] [.first] rfl (by decide)⟩
  cases noFill
  exact bytes.trans (by rw [listing]; rfl)

end Breadboard
