import Breadboard.Proofs.Assembly.Faults
import Breadboard.Proofs.Source.Places

/-!
# The places of faults

A fault is about a part of its line: a word, all words, or the line. What is refused when a
word is read is blamed on this word (`Word.Blamed`), and a pass stops at a line that it was
given. So a failure names a line of the text and marks out in it what its fault is about
(`assemble_places_fault`).
-/

namespace Breadboard

namespace Fault

/-- What the fault of a word says about the characters of this word. A relation tells which
addresses the names of labels have. -/
def IsAbout (labels : String → Nat → Prop) (marked : List Char) : Fault → Prop
  | unknownMnemonic name | invalidRegister name | malformedOperand name | undefinedLabel name
  | duplicateLabel name _ | invalidLabel name => String.ofList (capitals marked) = name
  | immediateOutOfRange value _ | ramAddressOutOfRange value => Literal.read? marked = some value
  | romAddressOutOfRange value _ =>
    Literal.read? marked = some value ∨
      ∃ address : Nat, labels (String.ofList (capitals marked)) address ∧ value = address
  | operandCount _ _ _ | programTooLarge _ => False

/-- What a fault says about the part `marked` of its line. A wrong number of operands is about
the mnemonic and all of its operands, and a program that is too large about the whole line. -/
def Marks (labels : String → Nat → Prop) (before marked after : List Char) : Fault → Prop
  | operandCount mnemonic _ found =>
    ∃ word words last, wordsOf (codeOf (before ++ marked ++ after)) = word :: words ∧
      (word :: words).getLast? = some last ∧ Encloses before marked after word last ∧
      String.ofList (capitals word) = mnemonic.text ∧ words.length = found
  | programTooLarge _ => before = [] ∧ after = []
  | fault => fault.IsAbout labels marked

variable {labels : String → Nat → Prop} {marked : List Char} {fault : Fault}

/-- It does not matter whether letters are small. -/
theorem isAbout_capitals :
    fault.IsAbout labels (capitals marked) ↔ fault.IsAbout labels marked := by
  cases fault <;> simp only [IsAbout, capitals_capitals, Literal.read?_capitals]

theorem IsAbout.marks (about : fault.IsAbout labels marked) (before after : List Char) :
    fault.Marks labels before marked after := by
  cases fault with
  | operandCount | programTooLarge => cases about
  | _ => exact about

end Fault

namespace Word

/-- A fault is blamed on a word: at its place, and about its characters. -/
def Blamed (labels : String → Nat → Prop) (word : Word) (found : Span × Fault) : Prop :=
  found.1 = word.span ∧ found.2.IsAbout labels word.text.toList

section

variable {labels : String → Nat → Prop} {word : Word}
  (inCapitals : capitalized word.text = word.text) {found : Span × Fault}

include inCapitals

theorem blamed_of_readMnemonic (failed : word.readMnemonic = .error found) :
    word.Blamed labels found := by
  unfold readMnemonic at failed
  split at failed <;> cases failed
  exact ⟨rfl, inCapitals⟩

theorem blamed_of_readRegister (failed : word.readRegister = .error found) :
    word.Blamed labels found := by
  unfold readRegister at failed
  split at failed <;> cases failed
  exact ⟨rfl, inCapitals⟩

theorem blamed_of_readNumber (failed : word.readNumber = .error found) :
    word.Blamed labels found := by
  unfold readNumber at failed
  split at failed <;> cases failed
  exact ⟨rfl, inCapitals⟩

theorem blamed_of_readImmediate {signedness : Signedness}
    (failed : word.readImmediate signedness = .error found) : word.Blamed labels found := by
  rw [readImmediate, bind_eq_error_iff] at failed
  obtain noNumber | ⟨number, read, failed⟩ := failed
  · exact blamed_of_readNumber inCapitals noNumber
  · split at failed <;> cases failed
    exact ⟨rfl, (readNumber_eq_ok_iff word number).mp read⟩

theorem blamed_of_readRamAddress (failed : word.readRamAddress = .error found) :
    word.Blamed labels found := by
  rw [readRamAddress, bind_eq_error_iff] at failed
  obtain noNumber | ⟨number, read, failed⟩ := failed
  · exact blamed_of_readNumber inCapitals noNumber
  · split at failed <;> cases failed
    exact ⟨rfl, (readNumber_eq_ok_iff word number).mp read⟩

variable {symbols : Symbols}

theorem blamed_of_readAddress (failed : word.readAddress symbols = .error found) :
    word.Blamed labels found := by
  unfold readAddress at failed
  split at failed
  next => cases failed
  next =>
    split at failed
    next =>
      split at failed <;> cases failed
      exact ⟨rfl, inCapitals⟩
    next =>
      cases failed
      exact ⟨rfl, inCapitals⟩

theorem blamed_of_readTarget
    (agree : ∀ name address, symbols.get? name = some address ↔ labels (capitalized name) address)
    {mode : AddressMode} (failed : word.readTarget mode symbols = .error found) :
    word.Blamed labels found := by
  rw [readTarget, bind_eq_error_iff] at failed
  obtain noAddress | ⟨number, read, failed⟩ := failed
  · exact blamed_of_readAddress inCapitals noAddress
  · split at failed <;> cases failed
    refine ⟨rfl, ?_⟩
    cases (readAddress_eq_ok_iff word agree number).mp read with
    | number written => exact .inl written
    | label name declared => exact .inr ⟨_, declared, rfl⟩

end

end Word

section

variable {α β γ : Type} {labels : String → Nat → Prop} {first second : Word} {found : Span × Fault}
  {reading : Reading α} {another : Reading β}

theorem blamed_of_one {build : α → γ}
    (blame : ∀ found, reading = .error found → first.Blamed labels found)
    (failed : (reading >>= fun value => pure (build value)) = .error found) :
    ∃ word ∈ [first], word.Blamed labels found := by
  obtain failed | ⟨_, _, done⟩ := (bind_eq_error_iff _ _ _).mp failed
  · exact ⟨first, List.mem_cons_self, blame found failed⟩
  · cases done

/-- Of two words, one is blamed for what is wrong with them. -/
theorem blamed_of_two {build : α → β → γ}
    (blame : ∀ found, reading = .error found → first.Blamed labels found)
    (blameSecond : ∀ found, another = .error found → second.Blamed labels found)
    (failed : (reading >>= fun left => another >>= fun right => pure (build left right)) =
      .error found) :
    ∃ word ∈ [first, second], word.Blamed labels found := by
  obtain failed | ⟨_, _, failed⟩ := (bind_eq_error_iff _ _ _).mp failed
  · exact ⟨first, List.mem_cons_self, blame found failed⟩
  · obtain ⟨word, member, blamed⟩ := blamed_of_one blameSecond failed
    exact ⟨word, List.mem_cons_of_mem _ member, blamed⟩

end

section

variable {options : AssemblyOptions} {symbols : Symbols} {labels : String → Nat → Prop}
  (agree : ∀ name address, symbols.get? name = some address ↔ labels (capitalized name) address)

include agree

/-- **What is wrong with an instruction** is the number of its operands, or is blamed on one of
them. -/
theorem blamed_of_readInstruction {head : Word} {mnemonic : Mnemonic} {operands : List Word}
    (inCapitals : ∀ word ∈ operands, capitalized word.text = word.text) {found : Span × Fault}
    (failed : readInstruction options symbols head mnemonic operands = .error found) :
    found = (head.spanThrough operands,
        .operandCount mnemonic mnemonic.shape.operandCount operands.length) ∨
      ∃ word ∈ operands, word.Blamed labels found := by
  unfold readInstruction at failed
  split at failed
  next => cases failed
  next op register =>
    have capital := inCapitals register List.mem_cons_self
    exact .inr (blamed_of_one (fun _ => register.blamed_of_readRegister capital) failed)
  next op destination source =>
    have capital := inCapitals destination List.mem_cons_self
    have capitalToo := inCapitals source (List.mem_cons_of_mem _ List.mem_cons_self)
    exact .inr (blamed_of_two (fun _ => destination.blamed_of_readRegister capital)
      (fun _ => source.blamed_of_readRegister capitalToo) failed)
  next op register constant =>
    have capital := inCapitals register List.mem_cons_self
    have capitalToo := inCapitals constant (List.mem_cons_of_mem _ List.mem_cons_self)
    exact .inr (blamed_of_two (fun _ => register.blamed_of_readRegister capital)
      (fun _ => constant.blamed_of_readImmediate capitalToo) failed)
  next op register cell =>
    have capital := inCapitals register List.mem_cons_self
    have capitalToo := inCapitals cell (List.mem_cons_of_mem _ List.mem_cons_self)
    exact .inr (blamed_of_two (fun _ => register.blamed_of_readRegister capital)
      (fun _ => cell.blamed_of_readRamAddress capitalToo) failed)
  next condition target =>
    have capital := inCapitals target List.mem_cons_self
    exact .inr (blamed_of_one (fun _ => target.blamed_of_readTarget capital agree) failed)
  next =>
    cases failed
    exact .inl rfl

end

/-- A failure that is reported for a line, at the place of what its fault is about. -/
def CompileError.Concerns (labels : String → Nat → Prop) (raw : RawLine)
    (failure : CompileError) : Prop :=
  ∃ before marked after, raw.characters = before ++ marked ++ after ∧
    failure = raw.error ⟨raw.start + utf8Length before, utf8Length marked⟩ failure.fault ∧
    failure.fault.Marks labels before marked after

section

variable {labels : String → Nat → Prop} {raw : RawLine}

theorem concerns_of_token {token : Token} {fault : Fault}
    (member : token ∈ tokenize raw.start raw.characters)
    (about : fault.IsAbout labels token.asWord.text.toList) :
    (raw.error token.span fault).Concerns labels raw := by
  obtain ⟨before, after, split, span⟩ := exists_split_of_mem_tokenize member
  refine ⟨before, token.characters, after, split, ?_, ?_⟩
  · rw [span]
    rfl
  · rw [Token.asWord, String.toList_ofList, Fault.isAbout_capitals] at about
    exact about.marks before after

/-- What a token is read as is in capitals. -/
theorem capitalized_text_asWord (token : Token) :
    capitalized token.asWord.text = token.asWord.text := by
  rw [capitalized, Token.asWord, String.toList_ofList, capitals_capitals]

theorem concerns_of_blamed {token : Token} {found : Span × Fault}
    (member : token ∈ tokenize raw.start raw.characters)
    (blamed : token.asWord.Blamed labels found) :
    (raw.error found.1 found.2).Concerns labels raw := by
  obtain ⟨place, about⟩ := blamed
  rw [place]
  exact concerns_of_token member about

/-- A program that is too large is about the whole of a line. -/
theorem concerns_of_programTooLarge (raw : RawLine) (size : Nat) :
    (raw.error raw.span (.programTooLarge size)).Concerns labels raw := by
  refine ⟨[], raw.characters, [], ?_, rfl, rfl, rfl⟩
  rw [List.nil_append, List.append_nil]

/-- A line that is not well formed is concerned by the failure. -/
theorem concerns_of_ofRaw {failure : CompileError} (failed : Line.ofRaw raw = .error failure) :
    failure.Concerns labels raw := by
  unfold Line.ofRaw at failed
  split at failed
  next => cases failed
  next span fault read =>
    cases failed
    obtain ⟨token, member, same⟩ := Content.exists_asWord_of_ofTokens_eq_error read
    cases same
    exact concerns_of_token member (capitalized_text_asWord token)

/-- A mnemonic that is none is about the first word of a line. -/
theorem concerns_of_readMnemonic {head : Word} {operands : List Word} {found : Span × Fault}
    (read : Content.ofTokens (tokenize raw.start raw.characters) =
      .ok (.instruction head operands))
    (unknown : head.readMnemonic = .error found) :
    (raw.error found.1 found.2).Concerns labels raw := by
  obtain ⟨token, member, rfl⟩ := Content.exists_asWord_of_instruction read List.mem_cons_self
  exact concerns_of_blamed member
    (Word.blamed_of_readMnemonic (capitalized_text_asWord token) unknown)

variable {line : Line}

theorem ofTokens_of_ofRaw (read : Line.ofRaw line.raw = .ok line) :
    Content.ofTokens (tokenize line.raw.start line.raw.characters) = .ok line.content := by
  unfold Line.ofRaw at read
  split at read
  next content tokens =>
    rw [tokens]
    exact congrArg (fun line => Except.ok (Line.content line)) (Except.ok.inj read)
  next => cases read

/-- **A line that cannot be placed** is concerned by the failure. -/
theorem concerns_of_place {mode : AddressMode} {address : Nat} {symbols : Symbols}
    {failure : CompileError} (read : Line.ofRaw line.raw = .ok line)
    (failed : line.place mode address symbols = .error failure) :
    failure.Concerns labels line.raw := by
  have tokens := ofTokens_of_ofRaw read
  unfold Line.place at failed
  split at failed
  next => cases failed
  next name label =>
    rw [label] at tokens
    obtain ⟨token, member, rfl⟩ := Content.exists_asWord_of_label tokens
    split at failed <;> cases failed
    exact concerns_of_token member (capitalized_text_asWord token)
  next head operands instruction =>
    rw [instruction] at tokens
    split at failed
    next span fault unknown =>
      cases failed
      exact concerns_of_readMnemonic tokens unknown
    next mnemonic known =>
      dsimp only at failed
      split at failed <;> cases failed
      exact concerns_of_programTooLarge line.raw _

/-- A wrong number of operands is about all words of the line. -/
theorem concerns_of_operandCount {head : Word} {operands : List Word} {mnemonic : Mnemonic}
    (expected : Nat)
    (read : Content.ofTokens (tokenize raw.start raw.characters) =
      .ok (.instruction head operands))
    (known : head.Names mnemonic.text) :
    (raw.error (head.spanThrough operands)
      (.operandCount mnemonic expected operands.length)).Concerns labels raw := by
  obtain ⟨before, marked, after, word, words, last, split, span, allWords, ends, encloses, text,
    count⟩ := exists_encloses_of_instruction read
  refine ⟨before, marked, after, split, ?_, word, words, last, ?_, ends, encloses, ?_, count⟩
  · rw [span]
    rfl
  · rw [← split]
    exact allWords
  · rw [← known, ← text, capitalized, String.toList_ofList, capitals_capitals]

/-- **A line that cannot be encoded** is concerned by the failure. -/
theorem concerns_of_emit {options : AssemblyOptions} {symbols : Symbols}
    (agree : ∀ name address, symbols.get? name = some address ↔ labels (capitalized name) address)
    {address : Nat} {failure : CompileError} (read : Line.ofRaw line.raw = .ok line)
    (failed : line.emit options symbols address = .error failure) :
    failure.Concerns labels line.raw := by
  have tokens := ofTokens_of_ofRaw read
  unfold Line.emit at failed
  dsimp only at failed
  split at failed
  next => cases failed
  next => cases failed
  next head operands instruction =>
    rw [instruction] at tokens
    split at failed
    next span fault refused =>
      cases failed
      obtain unknown | ⟨mnemonic, known, refused⟩ := (bind_eq_error_iff _ _ _).mp refused
      · exact concerns_of_readMnemonic tokens unknown
      · have inCapitals : ∀ word ∈ operands, capitalized word.text = word.text := by
          intro word member
          obtain ⟨token, _, rfl⟩ :=
            Content.exists_asWord_of_instruction tokens (List.mem_cons_of_mem _ member)
          exact capitalized_text_asWord token
        obtain count | ⟨word, member, blamed⟩ :=
          blamed_of_readInstruction agree inCapitals refused
        · obtain ⟨rfl, rfl⟩ := Prod.mk.inj count
          exact concerns_of_operandCount _ tokens ((Word.readMnemonic_eq_ok_iff _ _).mp known)
        · obtain ⟨token, inside, rfl⟩ :=
            Content.exists_asWord_of_instruction tokens (List.mem_cons_of_mem _ member)
          exact concerns_of_blamed inside blamed
    next =>
      split at failed <;> cases failed
      exact concerns_of_programTooLarge line.raw _

end

/-- A walk over a list that fails does so at one of its items. -/
theorem exists_of_mapM_eq_error {ε α β : Type} {f : α → Except ε β} {items : List α} {failure : ε}
    (failed : items.mapM f = .error failure) : ∃ item ∈ items, f item = .error failure := by
  induction items with
  | nil => cases failed
  | cons item items ih =>
    rw [List.mapM_cons, bind_eq_error_iff] at failed
    obtain here | ⟨_, _, failed⟩ := failed
    · exact ⟨item, List.mem_cons_self, here⟩
    · obtain there | ⟨_, _, done⟩ := (bind_eq_error_iff _ _ _).mp failed
      · obtain ⟨other, member, same⟩ := ih there
        exact ⟨other, List.mem_cons_of_mem _ member, same⟩
      · cases done

/-- The labels of a text that is read, with their addresses. -/
def DeclaredIn (mode : AddressMode) (source name : String) (address : Nat) : Prop :=
  ∃ lines, readSource source = .ok lines ∧ DeclaredAt mode lines name address

theorem declaredIn_eq {mode : AddressMode} {source : String} {lines : List Line}
    (read : readSource source = .ok lines) : DeclaredIn mode source = DeclaredAt mode lines := by
  funext name address
  apply propext
  unfold DeclaredIn
  simp only [read, Except.ok.injEq, exists_eq_left']

/-- A line that is read is written, and read from what is written. -/
theorem of_mem_readSource {source : String} {lines : List Line} {line : Line}
    (read : readSource source = .ok lines) (member : line ∈ lines) :
    line.raw ∈ writtenLines source ∧ Line.ofRaw line.raw = .ok line := by
  rw [readSource_eq_mapM] at read
  have each := forall₂_of_mapM_eq_ok read
  obtain ⟨index, inside, rfl⟩ := List.mem_iff_getElem.mp member
  have insideToo : index < (writtenLines source).length := by
    rw [each.length_eq]
    exact inside
  have here := each.get insideToo inside
  rw [List.get_eq_getElem, List.get_eq_getElem] at here
  have same := (Line.ofRaw_eq_ok here).1
  rw [same]
  exact ⟨List.getElem_mem insideToo, here⟩

/-- **A text that is refused** has a line that the failure concerns. -/
theorem exists_concerns_of_assemble {options : AssemblyOptions} {source : String}
    {failure : CompileError} (failed : assemble options source = .error failure) :
    ∃ raw ∈ writtenLines source, failure.Concerns (DeclaredIn options.mode source) raw := by
  rw [assemble_eq_error_iff] at failed
  obtain read | ⟨lines, read, stopped⟩ := failed
  · rw [readSource_eq_mapM] at read
    obtain ⟨raw, written, refused⟩ := exists_of_mapM_eq_error read
    exact ⟨raw, written, concerns_of_ofRaw refused⟩
  · rw [declaredIn_eq read]
    obtain stopped | ⟨table, placed, stopped⟩ := stopped
    · obtain ⟨line, member, _, _, refused⟩ := exists_of_placeFrom stopped
      obtain ⟨written, readLine⟩ := of_mem_readSource read member
      exact ⟨line.raw, written, concerns_of_place readLine refused⟩
    · obtain ⟨_, _, entries, distinct⟩ := (placeFrom_zero_eq_none_iff _ _ _).mp placed
      have agree := get?_eq_some_iff_declaredAt entries distinct
      obtain ⟨line, member, _, refused⟩ := exists_of_emitFrom stopped
      obtain ⟨written, readLine⟩ := of_mem_readSource read member
      exact ⟨line.raw, written, concerns_of_emit agree readLine refused⟩

/-- **A failure says where the fault is.** It has the number of a line of the text and this line
as it is written, without a carriage return at its end. Its place lies in this line, begins and
ends between characters, and marks out what the fault is about: the word that the fault names,
the numeral that stands for the value that is out of range or the label that does, the mnemonic
with all of its operands if there are too many or too few of them, or the whole line if the
program is too large. The places of all words and colons of a text, be it refused or not, mark
them out too. -/
theorem assemble_places_fault (options : AssemblyOptions) (source : String) :
    (∀ failure, assemble options source = .error failure →
      let lines := source.toList.splitOn '\n'
      let start := linesLength (lines.take (failure.line - 1))
      let text := failure.text.toList
      1 ≤ failure.line ∧ failure.line ≤ lines.length ∧
      (∀ line, lines[failure.line - 1]? = some line →
        text = if line.getLast? = some '\r' then line.dropLast else line) ∧
      Span.slice? ⟨start, utf8Length text⟩ source = some failure.text ∧
      start ≤ failure.span.start ∧ failure.span.stop ≤ start + utf8Length text ∧
      ∃ before marked after, text = before ++ marked ++ after ∧
        failure.span = ⟨start + utf8Length before, utf8Length marked⟩ ∧
        failure.span.slice? source = some (String.ofList marked) ∧
        failure.fault.Marks (DeclaredIn options.mode source) before marked after) ∧
    ∀ raw ∈ writtenLines source, ∀ token ∈ tokenize raw.start raw.characters,
      token.span.slice? source = some (String.ofList token.characters) := by
  refine ⟨?_, fun raw written token => slice?_of_mem_tokenize written⟩
  intro failure failed lines start text
  obtain ⟨raw, written, before, marked, after, split, blamed, marks⟩ :=
    exists_concerns_of_assemble failed
  obtain ⟨index, here⟩ := List.mem_iff_getElem?.mp written
  obtain ⟨line, there, place⟩ := exists_of_getElem?_placeLines here
  rw [splitLines_eq_splitOn] at there place
  have number : failure.line = index + 1 := by
    rw [blamed, RawLine.error, place, Nat.add_comm]
  have shown : failure.text = String.ofList raw.characters := by
    rw [blamed, RawLine.error, RawLine.text]
  have characters : text = raw.characters := by
    change failure.text.toList = _
    rw [shown, String.toList_ofList]
  have starts : raw.start = start := by
    change _ = linesLength (lines.take (failure.line - 1))
    rw [number, place, Nat.zero_add, Nat.add_sub_cancel]
  have span : failure.span = ⟨start + utf8Length before, utf8Length marked⟩ := by
    rw [blamed, RawLine.error, starts]
  have length : utf8Length text = utf8Length before + utf8Length marked + utf8Length after := by
    rw [characters, split, utf8Length_append, utf8Length_append]
  have slice := RawLine.slice?_eq_some written split
  have whole : raw.characters = [] ++ raw.characters ++ [] := by
    rw [List.nil_append, List.append_nil]
  have sliceWhole := RawLine.slice?_eq_some written whole
  rw [starts] at slice sliceWhole
  refine ⟨?_, ?_, ?_, ?_, ?_, ?_, before, marked, after, characters.trans split, span, ?_, marks⟩
  · rw [number]
    exact Nat.succ_pos index
  · rw [number]
    exact (List.getElem?_eq_some_iff.mp there).1
  · intro other same
    rw [number, Nat.add_sub_cancel] at same
    cases there.symm.trans same
    rw [characters, place]
    rfl
  · rw [characters, shown]
    exact sliceWhole
  · rw [span]
    exact Nat.le_add_right _ _
  · rw [span, length, Span.stop]
    dsimp only
    omega
  · rw [span]
    exact slice

/-- Letters of two bytes stand in a comment above and in the mnemonic itself. No place ends inside
of one. -/
theorem assemble_places_fault_behind_wide_letters :
    let source := "; é\r\n  nöp a,b ;x\r\n"
    assemble {} source = .error ⟨2, "  nöp a,b ;x", ⟨8, 4⟩, .unknownMnemonic "NöP"⟩ ∧
      (∃ marked, Span.slice? ⟨8, 4⟩ source = some (String.ofList marked) ∧
        String.ofList (capitals marked) = "NöP") ∧
      Span.slice? ⟨8, 2⟩ source = none := by
  intro source
  have failed : assemble {} source =
      .error ⟨2, "  nöp a,b ;x", ⟨8, 4⟩, .unknownMnemonic "NöP"⟩ := by decide +kernel
  obtain ⟨placed, _⟩ := assemble_places_fault {} source
  obtain ⟨_, _, _, _, _, _, _, marked, _, _, _, slice, names⟩ := placed _ failed
  exact ⟨failed, ⟨marked, slice, names⟩, by decide +kernel⟩

end Breadboard
