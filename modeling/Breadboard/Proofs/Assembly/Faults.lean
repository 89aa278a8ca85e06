import Breadboard.Proofs.Assembly.Correctness

/-!
# Where a pass stops

A pass that gets through the first lines of a text goes on behind them as if it started
there, so the fault of a whole text is the fault of its first faulty line. A fault of
the first pass is reported before any fault of the second. A text is refused for its form, for
a fault of the first pass or, where this one reaches the end, for a fault of the second
(`assemble_eq_error_iff`).
-/

namespace Breadboard

theorem placeFrom_append {mode : AddressMode} {address : Nat} (start : address ≤ romSize)
    {symbols table : Symbols} (distinct : (symbols.entries.map Prod.fst).Nodup)
    {front : List Line} (placed : placeFrom mode address symbols front = (none, table))
    (back : List Line) :
    placeFrom mode address symbols (front ++ back) =
      placeFrom mode (address + totalSize mode front) table back := by
  induction front generalizing address symbols with
  | nil =>
    obtain ⟨_, rfl⟩ := Prod.mk.inj placed
    rfl
  | cons line front ih =>
    rw [placeFrom] at placed
    rw [List.cons_append, placeFrom, totalSize_cons, ← Nat.add_assoc]
    split at placed
    next next extended moved =>
      obtain ⟨_, rfl, fits, _, distinctAfter⟩ :=
        (Line.place_eq_ok_iff start distinct _ _ line).mp moved
      exact ih fits distinctAfter placed
    next => cases placed

/-- Where the first pass stops, it stays. -/
theorem placeFrom_append_of_stopped {mode : AddressMode} {address : Nat} {symbols : Symbols}
    {front : List Line} {failure : CompileError}
    (stopped : (placeFrom mode address symbols front).1 = some failure) (back : List Line) :
    (placeFrom mode address symbols (front ++ back)).1 = some failure := by
  induction front generalizing address symbols with
  | nil => cases stopped
  | cons line front ih =>
    rw [placeFrom] at stopped
    rw [List.cons_append, placeFrom]
    cases moved : line.place mode address symbols with
    | error own =>
      rw [moved] at stopped
      exact stopped
    | ok state =>
      rw [moved] at stopped
      exact ih stopped

theorem listingBytes_nil : listingBytes [] = [] := rfl

theorem listingBytes_cons (entry : ListingEntry) (entries : List ListingEntry) :
    listingBytes (entry :: entries) = entry.bytes ++ listingBytes entries := rfl

theorem listingBytes_append (entries others : List ListingEntry) :
    listingBytes (entries ++ others) = listingBytes entries ++ listingBytes others :=
  List.flatMap_append

/-- Behind a line that it gets through, a second pass goes on. -/
theorem emitFrom_cons {options : AssemblyOptions} {symbols : Symbols} {address : Nat} {line : Line}
    {shown? : Option ListingEntry} (emitted : line.emit options symbols address = .ok shown?)
    (rest : List Line) :
    emitFrom options symbols address (line :: rest) =
      let found := emitFrom options symbols (address + (listingBytes shown?.toList).length) rest
      (found.1, shown?.toList ++ found.2) := by
  rw [emitFrom, emitted]
  cases shown? with
  | none => rfl
  | some entry =>
    rw [Option.toList_some, listingBytes_cons, listingBytes_nil, List.append_nil]
    rfl

theorem emitFrom_append {options : AssemblyOptions} {symbols : Symbols} {address : Nat}
    {front : List Line} {entries : List ListingEntry}
    (emitted : emitFrom options symbols address front = (none, entries)) (back : List Line) :
    emitFrom options symbols address (front ++ back) =
      let (failure?, others) :=
        emitFrom options symbols (address + (listingBytes entries).length) back
      (failure?, entries ++ others) := by
  induction front generalizing address entries with
  | nil =>
    obtain ⟨_, rfl⟩ := Prod.mk.inj emitted
    rfl
  | cons line front ih =>
    cases here : line.emit options symbols address with
    | error failure =>
      rw [emitFrom, here] at emitted
      cases emitted
    | ok entry? =>
      rw [emitFrom_cons here, Prod.mk.injEq] at emitted
      obtain ⟨through, rfl⟩ := emitted
      rw [List.cons_append, emitFrom_cons here, ih (Prod.ext through rfl), listingBytes_append,
        List.length_append, Nat.add_assoc]
      simp only [List.append_assoc]

/-- Where the second pass stops, it stays. -/
theorem emitFrom_append_of_stopped {options : AssemblyOptions} {symbols : Symbols}
    {address : Nat} {front : List Line} {failure : CompileError}
    (stopped : (emitFrom options symbols address front).1 = some failure) (back : List Line) :
    (emitFrom options symbols address (front ++ back)).1 = some failure := by
  induction front generalizing address with
  | nil => cases stopped
  | cons line front ih =>
    rw [emitFrom] at stopped
    rw [List.cons_append, emitFrom]
    cases emitted : line.emit options symbols address with
    | error own =>
      rw [emitted] at stopped
      exact stopped
    | ok entry? =>
      rw [emitted] at stopped
      cases entry? with
      | none => exact ih stopped
      | some entry => exact ih stopped

theorem assemble_eq_error_of_read {options : AssemblyOptions} {source : String}
    {failure : CompileError} (read : readSource source = .error failure) :
    assemble options source = .error failure := by
  simp only [assemble, Draft.ofSource, read]

section

variable {options : AssemblyOptions} {source : String} {lines : List Line}
  (read : readSource source = .ok lines) {failure : CompileError}

include read

theorem assemble_eq_error_of_place
    (stopped : (placeFrom options.mode 0 {} lines).1 = some failure) :
    assemble options source = .error failure := by
  cases placed : placeFrom options.mode 0 {} lines with
  | mk failure? table =>
    rw [placed] at stopped
    simp only [assemble, Draft.ofSource, read, Draft.placeLabels, placed, stopped]

theorem assemble_eq_error_of_emit {table : Symbols}
    (placed : placeFrom options.mode 0 {} lines = (none, table))
    (stopped : (emitFrom options table 0 lines).1 = some failure) :
    assemble options source = .error failure := by
  cases emitted : emitFrom options table 0 lines with
  | mk failure? entries =>
    rw [emitted] at stopped
    simp only [assemble, Draft.ofSource, read, Draft.placeLabels, placed, Draft.emitListing,
      emitted, stopped]

/-- What is refused behind a first pass was refused by the second. -/
theorem emitFrom_of_assemble_eq_error {table : Symbols}
    (placed : placeFrom options.mode 0 {} lines = (none, table))
    (failed : assemble options source = .error failure) :
    (emitFrom options table 0 lines).1 = some failure := by
  cases emitted : emitFrom options table 0 lines with
  | mk failure? entries =>
    cases failure? with
    | some other =>
      have stopped : (emitFrom options table 0 lines).1 = some other := by rw [emitted]
      rw [assemble_eq_error_of_emit read placed stopped] at failed
      cases failed
      rfl
    | none =>
      have success := (assemble_eq_ok_iff_passes options source _).mpr
        ⟨lines, table, entries, read, placed, emitted, rfl⟩
      rw [success] at failed
      cases failed

end

/-- **What a refused text was refused for**: its form, or else a fault of the first pass, or
else one of the second. -/
theorem assemble_eq_error_iff {options : AssemblyOptions} {source : String}
    {failure : CompileError} :
    assemble options source = .error failure ↔
      readSource source = .error failure ∨ ∃ lines, readSource source = .ok lines ∧
        ((placeFrom options.mode 0 {} lines).1 = some failure ∨
          ∃ table, placeFrom options.mode 0 {} lines = (none, table) ∧
            (emitFrom options table 0 lines).1 = some failure) := by
  constructor
  · intro failed
    cases read : readSource source with
    | error other =>
      rw [assemble_eq_error_of_read read] at failed
      cases failed
      exact .inl rfl
    | ok lines =>
      refine .inr ⟨lines, rfl, ?_⟩
      cases placed : placeFrom options.mode 0 {} lines with
      | mk failure? table =>
        cases failure? with
        | some other =>
          have stopped : (placeFrom options.mode 0 {} lines).1 = some other := by rw [placed]
          rw [assemble_eq_error_of_place read stopped] at failed
          cases failed
          exact .inl rfl
        | none =>
          exact .inr ⟨table, rfl, emitFrom_of_assemble_eq_error read placed failed⟩
  · intro stopped
    obtain read | ⟨lines, read, stopped | ⟨table, placed, stopped⟩⟩ := stopped
    · exact assemble_eq_error_of_read read
    · exact assemble_eq_error_of_place read stopped
    · exact assemble_eq_error_of_emit read placed stopped

theorem emitFrom_of_padded (options : AssemblyOptions) (padded : Bool) (table : Symbols)
    (address : Nat) (lines : List Line) :
    emitFrom { options with padded := padded } table address lines =
      emitFrom options table address lines := by
  induction lines generalizing address with
  | nil => rfl
  | cons line lines ih =>
    have same : line.emit { options with padded := padded } table address =
        line.emit options table address := rfl
    rw [emitFrom, emitFrom, same]
    split
    · rfl
    · exact ih address
    · rw [ih]

/-- A fault is reported whether the image is to be filled up or not. -/
theorem assemble_eq_error_iff_of_padded (options : AssemblyOptions) (padded : Bool)
    (source : String) (failure : CompileError) :
    assemble { options with padded := padded } source = .error failure ↔
      assemble options source = .error failure := by
  rw [assemble_eq_error_iff, assemble_eq_error_iff]
  simp only [emitFrom_of_padded]

/-- What the first pass reports was found at one of the lines. -/
theorem exists_of_placeFrom {mode : AddressMode} {address : Nat} {symbols : Symbols}
    {lines : List Line} {failure : CompileError}
    (stopped : (placeFrom mode address symbols lines).1 = some failure) :
    ∃ line ∈ lines, ∃ address symbols, line.place mode address symbols = .error failure := by
  induction lines generalizing address symbols with
  | nil => cases stopped
  | cons line lines ih =>
    rw [placeFrom] at stopped
    split at stopped
    next next extended placed =>
      obtain ⟨other, member, there⟩ := ih stopped
      exact ⟨other, List.mem_cons_of_mem _ member, there⟩
    next own refused =>
      cases stopped
      exact ⟨line, List.mem_cons_self, address, symbols, refused⟩

/-- What the second pass reports was found at one of the lines. -/
theorem exists_of_emitFrom {options : AssemblyOptions} {symbols : Symbols} {address : Nat}
    {lines : List Line} {failure : CompileError}
    (stopped : (emitFrom options symbols address lines).1 = some failure) :
    ∃ line ∈ lines, ∃ address, line.emit options symbols address = .error failure := by
  induction lines generalizing address with
  | nil => cases stopped
  | cons line lines ih =>
    rw [emitFrom] at stopped
    split at stopped
    next own refused =>
      cases stopped
      exact ⟨line, List.mem_cons_self, address, refused⟩
    next =>
      obtain ⟨other, member, there⟩ := ih stopped
      exact ⟨other, List.mem_cons_of_mem _ member, there⟩
    next entry shown =>
      obtain ⟨other, member, there⟩ := ih stopped
      exact ⟨other, List.mem_cons_of_mem _ member, there⟩

end Breadboard
