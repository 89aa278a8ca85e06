import Breadboard.Assembly.Listing
import Breadboard.Assembly.OperandReading

/-!
# Two passes over a source text

The first pass gives every label the address of what follows it, by the sizes that the
opcode table states. The second pass encodes the instructions, with the labels that the
first pass found, into a listing. Each pass starts from address zero and replaces what
an earlier run of the same pass left; a pass that fails leaves what it found before the
fault.
-/

namespace Breadboard

structure Draft where
  options : AssemblyOptions
  lines : List Line
  symbols : Symbols := {}
  listing : List ListingEntry := []
deriving DecidableEq, Repr

structure Image where
  bytes : List UInt8
  listing : List ListingEntry
  symbols : Symbols
deriving DecidableEq, Repr

namespace Line

/-- Moves past a line: the address behind it, and the labels with those that the line
declares. -/
def place (mode : AddressMode) (address : Nat) (symbols : Symbols) (line : Line) :
    Except CompileError (Nat × Symbols) :=
  match line.content with
  | .blank => .ok (address, symbols)
  | .label name =>
    match symbols.insert name.text address with
    | (none, extended) => .ok (address, extended)
    | (some earlier, _) => .error (line.error name.span (.duplicateLabel name.text earlier))
  | .instruction head _ =>
    match head.readMnemonic with
    | .error (span, fault) => .error (line.error span fault)
    | .ok mnemonic =>
      let next := address + mnemonic.size mode
      if romSize < next then .error (line.error line.raw.span (.programTooLarge next))
      else .ok (next, symbols)

/-- The entry of a line in the listing, if it has one. -/
def emit (options : AssemblyOptions) (symbols : Symbols) (address : Nat) (line : Line) :
    Except CompileError (Option ListingEntry) :=
  let entry (bytes : List UInt8) : ListingEntry := ⟨line.raw.number, address, bytes, line.text⟩
  match line.content with
  | .blank => .ok none
  | .label _ => .ok (some (entry []))
  | .instruction head operands =>
    let reading : Reading Instruction := do
      readInstruction options symbols head (← head.readMnemonic) operands
    match reading with
    | .error (span, fault) => .error (line.error span fault)
    | .ok instruction =>
      let bytes := instruction.encode options.mode
      let next := address + bytes.length
      if romSize < next then .error (line.error line.raw.span (.programTooLarge next))
      else .ok (some (entry bytes))

end Line

/-- The labels declared from an address on, and the fault that ended the search. -/
def placeFrom (mode : AddressMode) (address : Nat) (symbols : Symbols) :
    List Line → Option CompileError × Symbols
  | [] => (none, symbols)
  | line :: rest =>
    match line.place mode address symbols with
    | .ok (next, extended) => placeFrom mode next extended rest
    | .error failure => (some failure, symbols)

/-- The entries of the listing from an address on, and the fault that ended it. -/
def emitFrom (options : AssemblyOptions) (symbols : Symbols) (address : Nat) :
    List Line → Option CompileError × List ListingEntry
  | [] => (none, [])
  | line :: rest =>
    match line.emit options symbols address with
    | .error failure => (some failure, [])
    | .ok none => emitFrom options symbols address rest
    | .ok (some entry) =>
      let (failure?, entries) := emitFrom options symbols (address + entry.bytes.length) rest
      (failure?, entry :: entries)

def listingBytes (listing : List ListingEntry) : List UInt8 :=
  listing.flatMap (·.bytes)

namespace Draft

/-- Reads a source text, before either pass. -/
def ofSource (options : AssemblyOptions) (source : String) : Except CompileError Draft :=
  match readSource source with
  | .ok lines => .ok { options := options, lines := lines }
  | .error failure => .error failure

def placeLabels (draft : Draft) : Option CompileError × Draft :=
  let (failure?, symbols) := placeFrom draft.options.mode 0 {} draft.lines
  (failure?, { draft with symbols := symbols })

def emitListing (draft : Draft) : Option CompileError × Draft :=
  let (failure?, listing) := emitFrom draft.options draft.symbols 0 draft.lines
  (failure?, { draft with listing := listing })

/-- The image of what was emitted, filled up to the size of ROM if that was asked
for. -/
def image (draft : Draft) : Image :=
  let code := listingBytes draft.listing
  let padding :=
    if draft.options.padded then List.replicate (romSize - code.length) padByte else []
  ⟨code ++ padding, draft.listing, draft.symbols⟩

end Draft

/-- **Assembles a source text.** Stops at the first fault of the lines' form, else of the
first pass, else of the second. -/
def assemble (options : AssemblyOptions) (source : String) : Except CompileError Image :=
  match Draft.ofSource options source with
  | .error failure => .error failure
  | .ok draft =>
    match draft.placeLabels with
    | (some failure, _) => .error failure
    | (none, placed) =>
      match placed.emitListing with
      | (some failure, _) => .error failure
      | (none, emitted) => .ok emitted.image

end Breadboard
