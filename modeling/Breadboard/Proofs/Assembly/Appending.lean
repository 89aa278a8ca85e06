import Breadboard.Proofs.Assembly.Interruption
import Breadboard.Proofs.Source.Places

/-!
# Appended source

Source that is appended on lines of its own is placed, numbered and given addresses behind what was
there before, and the labels that it adds stand behind the earlier ones in the table. So the earlier
lines are read and laid out as they were, and they find the labels that they found before
(`emitFrom_of_more_labels`), although these are now looked up in a larger table. An image is the
front part of the image of the longer text, and a fault of the lines' form or of the first pass is
found again (`appended_source_keeps`).
-/

namespace Breadboard

theorem placeLines_append (number start : Nat) (above below : List (List Char)) :
    placeLines number start (above ++ below) =
      placeLines number start above ++
        placeLines (number + above.length) (start + linesLength above) below := by
  induction above generalizing number start with
  | nil => rfl
  | cons line above ih =>
    rw [List.cons_append, placeLines, placeLines, ih, List.cons_append, List.length_cons,
      linesLength_cons, Nat.add_assoc number, Nat.add_comm 1, Nat.add_assoc start,
      Nat.add_assoc start]

/-- **An appended text is read behind the lines above it.** -/
theorem readSource_append (front back : String) :
    readSource (front ++ "\n" ++ back) =
      let above := splitLines front.toList
      readSource front >>= fun lines =>
        (placeLines (1 + above.length) (linesLength above) (splitLines back.toList)).mapM
          Line.ofRaw >>= fun others => pure (lines ++ others) := by
  have text : (front ++ "\n" ++ back).toList = front.toList ++ '\n' :: back.toList := by
    simp
  rw [readSource, text, splitLines_append, placeLines_append, List.mapM_append, Nat.zero_add]
  rfl

/-- Whether a line is well formed does not depend on where it stands. -/
theorem Line.exists_ofRaw {raw : RawLine} {line : Line} (read : ofRaw raw = .ok line)
    (other : RawLine) (same : raw.characters = other.characters) :
    ∃ twin, ofRaw other = .ok twin := by
  obtain ⟨_, _, noFault⟩ := ofRaw_eq_ok read
  cases again : ofRaw other with
  | ok twin => exact ⟨twin, rfl⟩
  | error failure =>
    obtain ⟨_, fault⟩ := ofRaw_eq_error again
    rw [← same] at fault
    exact absurd fault (noFault failure.fault)

theorem exists_mapM_placeLines {number start : Nat} {texts : List (List Char)} {lines : List Line}
    (read : (placeLines number start texts).mapM Line.ofRaw = .ok lines)
    (otherNumber otherStart : Nat) :
    ∃ others, (placeLines otherNumber otherStart texts).mapM Line.ofRaw = .ok others := by
  induction texts generalizing number start lines otherNumber otherStart with
  | nil => exact ⟨[], rfl⟩
  | cons text texts ih =>
    rw [placeLines, List.mapM_cons] at read
    obtain ⟨line, first, rest⟩ := (bind_eq_ok_iff _ _ _).mp read
    obtain ⟨below, others, _⟩ := (bind_eq_ok_iff _ _ _).mp rest
    obtain ⟨twin, again⟩ :=
      Line.exists_ofRaw first ⟨otherNumber, otherStart, withoutReturn text⟩ rfl
    obtain ⟨twins, restAgain⟩ := ih others (otherNumber + 1) (otherStart + utf8Length text + 1)
    refine ⟨twin :: twins, ?_⟩
    rw [placeLines, List.mapM_cons, again, restAgain]
    rfl

section

variable {options : AssemblyOptions} {lines others : List Line} {few more : Symbols}

/-- A longer table knows what it knew before. -/
theorem Symbols.Assigns.mono (longer : few.entries <+: more.entries) {name : String}
    {address : Nat} (assigned : few.Assigns name address) : more.Assigns name address := by
  obtain ⟨added, entries⟩ := longer
  rw [Symbols.Assigns, Symbols.get?] at assigned ⊢
  rw [← entries, List.lookup_append, assigned, Option.some_or]

/-- **A second pass that needs no further labels does not mind them.** -/
theorem emitFrom_of_more_labels (longer : few.entries <+: more.entries)
    {entries : List ListingEntry}
    (emitted : emitFrom options few 0 lines = (none, entries)) :
    emitFrom options more 0 lines = (none, entries) := by
  obtain ⟨program, resolves, fits, listing⟩ :=
    (emitFrom_eq_none_iff few.get?_eq_some_iff_assigns 0 (Nat.zero_le _) lines entries).mp emitted
  refine (emitFrom_eq_none_iff more.get?_eq_some_iff_assigns 0 (Nat.zero_le _) lines entries).mpr
    ⟨program, ?_, fits, listing⟩
  exact resolves.mono rfl (Int.le_refl _) fun _ _ => Symbols.Assigns.mono longer

/-- The labels of further lines stand behind those of the lines above. -/
theorem prefix_of_placeFrom_append {mode : AddressMode} {table extended : Symbols}
    (placed : placeFrom mode 0 {} lines = (none, table))
    (placedAll : placeFrom mode 0 {} (lines ++ others) = (none, extended)) :
    table.entries <+: extended.entries := by
  have noneYet : ((Symbols.mk []).entries.map Prod.fst).Nodup := List.nodup_nil
  obtain ⟨_, fits, _, distinct⟩ :=
    (placeFrom_eq_none_iff (Nat.zero_le _) noneYet lines table).mp placed
  rw [placeFrom_append (Nat.zero_le _) noneYet placed] at placedAll
  obtain ⟨_, _, entries, _⟩ := (placeFrom_eq_none_iff fits distinct others extended).mp placedAll
  rw [entries]
  exact List.prefix_append _ _

end

theorem ofSource_eq_ok_iff (options : AssemblyOptions) (source : String) (draft : Draft) :
    Draft.ofSource options source = .ok draft ↔
      ∃ lines, readSource source = .ok lines ∧ { options := options, lines := lines } = draft := by
  rw [Draft.ofSource]
  cases readSource source <;> simp

theorem ofSource_eq_error_iff (options : AssemblyOptions) (source : String)
    (failure : CompileError) :
    Draft.ofSource options source = .error failure ↔ readSource source = .error failure := by
  rw [Draft.ofSource]
  cases readSource source <;> simp

/-- An image that is not filled up has the bytes of its listing. -/
theorem Draft.bytes_image {draft : Draft} (unpadded : draft.options.padded = false) :
    draft.image.bytes = listingBytes draft.listing := by
  rw [image, unpadded]
  exact List.append_nil _

/-- **Appended source changes nothing above it.** If a text and a longer one are both assembled,
the bytes, the listing and the labels of the text are the front parts of those of the longer one;
the bytes only if the image is not filled up. If a text is refused for the form of its lines or by
the first pass, so is the longer one, and for the same fault as long as the appended lines are well
formed. -/
theorem appended_source_keeps (options : AssemblyOptions) (front back : String) :
    (∀ image longer, assemble options front = .ok image →
      assemble options (front ++ "\n" ++ back) = .ok longer →
      (options.padded = false → image.bytes <+: longer.bytes) ∧
        image.listing <+: longer.listing ∧
        image.symbols.entries <+: longer.symbols.entries) ∧
    ∀ failure,
      (Draft.ofSource options front = .error failure ∨
        ∃ draft, Draft.ofSource options front = .ok draft ∧
          draft.placeLabels.1 = some failure) →
      (∃ other, assemble options (front ++ "\n" ++ back) = .error other) ∧
        ∀ below, Draft.ofSource options back = .ok below →
          assemble options (front ++ "\n" ++ back) = .error failure := by
  obtain ⟨number, start, whole⟩ : ∃ number start, readSource (front ++ "\n" ++ back) =
      readSource front >>= fun lines =>
        (placeLines number start (splitLines back.toList)).mapM Line.ofRaw >>= fun others =>
          pure (lines ++ others) := ⟨_, _, readSource_append front back⟩
  refine ⟨?_, ?_⟩
  · intro image longer success successAll
    obtain ⟨lines, table, entries, read, placed, emitted, rfl⟩ :=
      (assemble_eq_ok_iff_passes _ _ _).mp success
    obtain ⟨all, extended, entriesAll, readAll, placedAll, emittedAll, rfl⟩ :=
      (assemble_eq_ok_iff_passes _ _ _).mp successAll
    rw [whole, read] at readAll
    obtain ⟨_, ⟨⟩, readBelow⟩ := (bind_eq_ok_iff _ _ _).mp readAll
    obtain ⟨others, _, joined⟩ := (bind_eq_ok_iff _ _ _).mp readBelow
    cases joined
    have labels := prefix_of_placeFrom_append placed placedAll
    rw [emitFrom_append (emitFrom_of_more_labels labels emitted)] at emittedAll
    obtain ⟨_, rfl⟩ := Prod.mk.inj emittedAll
    refine ⟨?_, List.prefix_append _ _, labels⟩
    intro unpadded
    rw [Draft.bytes_image unpadded, Draft.bytes_image unpadded, listingBytes_append]
    exact List.prefix_append _ _
  · intro failure failed
    obtain unread | ⟨draft, placing, stopped⟩ := failed
    · rw [ofSource_eq_error_iff] at unread
      rw [unread] at whole
      have refused : assemble options (front ++ "\n" ++ back) = .error failure :=
        assemble_eq_error_of_read whole
      exact ⟨⟨failure, refused⟩, fun _ _ => refused⟩
    · obtain ⟨lines, read, rfl⟩ := (ofSource_eq_ok_iff _ _ _).mp placing
      have stoppedAll (others : List Line) :
          (placeFrom options.mode 0 {} (lines ++ others)).1 = some failure :=
        placeFrom_append_of_stopped stopped others
      rw [read] at whole
      cases readBelow : (placeLines number start (splitLines back.toList)).mapM Line.ofRaw with
      | ok others =>
        rw [readBelow] at whole
        have refused := assemble_eq_error_of_place whole (stoppedAll others)
        exact ⟨⟨failure, refused⟩, fun _ _ => refused⟩
      | error unread =>
        rw [readBelow] at whole
        refine ⟨⟨unread, assemble_eq_error_of_read whole⟩, ?_⟩
        intro below readable
        obtain ⟨others, readBack, _⟩ := (ofSource_eq_ok_iff _ _ _).mp readable
        obtain ⟨twins, readAgain⟩ := exists_mapM_placeLines readBack number start
        cases readBelow.symm.trans readAgain

theorem appended_source_keeps_of_two_labels :
    let image : Image :=
      ⟨[0x05, 0x00, 0x00], [⟨1, 0, [], "ON:"⟩, ⟨2, 0, [0x05, 0x00, 0x00], "JMP ON"⟩], ⟨[("ON", 0)]⟩⟩
    let longer : Image :=
      ⟨[0x05, 0x00, 0x00, 0x20],
        [⟨1, 0, [], "ON:"⟩, ⟨2, 0, [0x05, 0x00, 0x00], "JMP ON"⟩, ⟨3, 3, [], "OFF:"⟩,
          ⟨4, 3, [0x20], "HLT"⟩], ⟨[("ON", 0), ("OFF", 3)]⟩⟩
    let draft : Draft :=
      { options := {}
        lines := [⟨⟨1, 0, "on:".toList⟩, .label ⟨"ON", ⟨0, 2⟩⟩⟩,
          ⟨⟨2, 4, "on:".toList⟩, .label ⟨"ON", ⟨4, 2⟩⟩⟩] }
    let failure : CompileError := ⟨2, "on:", ⟨4, 2⟩, .duplicateLabel "ON" 0⟩
    let below : Draft :=
      { options := {}, lines := [⟨⟨1, 0, "hlt".toList⟩, .instruction ⟨"HLT", ⟨0, 3⟩⟩ []⟩] }
    (assemble {} "on:\njmp on" = .ok image ∧
      assemble {} ("on:\njmp on" ++ "\n" ++ "off:\nhlt") = .ok longer ∧
      image.bytes <+: longer.bytes ∧ image.listing <+: longer.listing ∧
      image.symbols.entries <+: longer.symbols.entries) ∧
    Draft.ofSource {} "on:\non:" = .ok draft ∧ draft.placeLabels.1 = some failure ∧
      Draft.ofSource {} "hlt" = .ok below ∧
      assemble {} ("on:\non:" ++ "\n" ++ "hlt") = .error failure := by
  intro image longer draft failure below
  have success : assemble {} "on:\njmp on" = .ok image := by decide +kernel
  have successAll : assemble {} ("on:\njmp on" ++ "\n" ++ "off:\nhlt") = .ok longer := by
    decide +kernel
  have placing : Draft.ofSource {} "on:\non:" = .ok draft := by decide +kernel
  have stopped : draft.placeLabels.1 = some failure := by decide +kernel
  have readable : Draft.ofSource {} "hlt" = .ok below := by decide +kernel
  obtain ⟨keeps, _⟩ := appended_source_keeps {} "on:\njmp on" "off:\nhlt"
  obtain ⟨_, fails⟩ := appended_source_keeps {} "on:\non:" "hlt"
  obtain ⟨bytes, listing, labels⟩ := keeps image longer success successAll
  obtain ⟨_, sameFailure⟩ := fails failure (.inr ⟨draft, placing, stopped⟩)
  exact ⟨⟨success, successAll, bytes rfl, listing, labels⟩, placing, stopped, readable,
    sameFailure below readable⟩

end Breadboard
