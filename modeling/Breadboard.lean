import Breadboard.Assembly.Draft
import Breadboard.Assembly.Listing
import Breadboard.Assembly.OperandReading
import Breadboard.Assembly.Options
import Breadboard.Assembly.Symbols
import Breadboard.Cli.Arguments
import Breadboard.Cli.Command
import Breadboard.Cli.CommandScript
import Breadboard.Cli.Disk
import Breadboard.Cli.Panel
import Breadboard.Cli.Path
import Breadboard.Cli.RunReport
import Breadboard.Cli.Script
import Breadboard.Cli.Style
import Breadboard.Image.Disassembly
import Breadboard.Image.Inspection
import Breadboard.Isa.AddressMode
import Breadboard.Isa.Decoded
import Breadboard.Isa.Instruction
import Breadboard.Isa.Mnemonic
import Breadboard.Isa.Register
import Breadboard.Isa.Signedness
import Breadboard.Machine.Alu
import Breadboard.Machine.Cpu
import Breadboard.Machine.Execution
import Breadboard.Machine.Memory
import Breadboard.Machine.RegisterFile
import Breadboard.Machine.Run
import Breadboard.Machine.Trace
import Breadboard.Main
import Breadboard.Proofs.Assembly.Correctness
import Breadboard.Proofs.Assembly.Disassembly
import Breadboard.Proofs.Assembly.Emission
import Breadboard.Proofs.Assembly.Faults
import Breadboard.Proofs.Assembly.Layout
import Breadboard.Proofs.Assembly.Meaning
import Breadboard.Proofs.Assembly.Printed
import Breadboard.Proofs.Assembly.Reassembly
import Breadboard.Proofs.Image.Canonical
import Breadboard.Proofs.Image.Lines
import Breadboard.Proofs.Image.Printing
import Breadboard.Proofs.Image.RoundTrip
import Breadboard.Proofs.Isa.Names
import Breadboard.Proofs.Isa.Reencoding
import Breadboard.Proofs.Machine.Arithmetic
import Breadboard.Proofs.Machine.Reference
import Breadboard.Proofs.Machine.Refinement
import Breadboard.Proofs.Text.Numerals
import Breadboard.Source.Fault
import Breadboard.Source.Line
import Breadboard.Source.Literal
import Breadboard.Source.Span
import Breadboard.Source.Token
import Breadboard.Text.Blank
import Breadboard.Text.Column
import Breadboard.Text.Letters
import Breadboard.Text.Radix
import Breadboard.Proofs.Machine.Step
import Breadboard.Proofs.Machine.Lockstep
import Breadboard.Proofs.Machine.Session
import Breadboard.Proofs.Assembly.Placement
import Breadboard.Proofs.Machine.Program
import Breadboard.Proofs.Assembly.Execution
import Breadboard.Proofs.Source.Scanning
import Breadboard.Proofs.Source.Form
import Breadboard.Proofs.Source.Reading
import Breadboard.Proofs.Assembly.LayoutFaults
import Breadboard.Proofs.Assembly.OperandFaults
import Breadboard.Proofs.Assembly.Diagnosis
import Breadboard.Proofs.Source.NormalForm
import Breadboard.Proofs.Assembly.Normalization
import Breadboard.Proofs.Machine.Consistency
import Breadboard.Proofs.Assembly.Passes
import Breadboard.Proofs.Source.Spelling
import Breadboard.Proofs.Assembly.InStep
import Breadboard.Proofs.Source.Renaming
import Breadboard.Proofs.Assembly.Renaming
import Breadboard.Proofs.Cli.Scripts
import Breadboard.Proofs.Cli.Running
import Breadboard.Proofs.Image.Padding
import Breadboard.Proofs.Cli.Disassembling
import Breadboard.Proofs.Cli.Files
import Breadboard.Proofs.Cli.Paths
import Breadboard.Proofs.Cli.Compiling
import Breadboard.Proofs.Machine.Portions
import Breadboard.Proofs.Image.Partition
import Breadboard.Proofs.Cli.Agreement
import Breadboard.Proofs.Source.Places
import Breadboard.Proofs.Assembly.FaultPlaces
import Breadboard.Proofs.Source.Literals
import Breadboard.Proofs.Assembly.Interruption
import Breadboard.Proofs.Assembly.LateFaults
import Breadboard.Proofs.Assembly.Counting
import Breadboard.Proofs.Machine.Counters
import Breadboard.Proofs.Machine.Branching
import Breadboard.Proofs.Assembly.NegativeConstants
import Breadboard.Proofs.Assembly.Appending
import Breadboard.Proofs.Machine.CarryChains
import Breadboard.Proofs.Machine.Commentary
import Breadboard.Proofs.Assembly.ListingText
import Breadboard.Proofs.Cli.Tracing
import Breadboard.Proofs.Source.CursorScan
import Breadboard.Proofs.Source.MaximalMunch
import Breadboard.Proofs.Isa.OwnBytes
import Breadboard.Proofs.Assembly.Declarations
import Breadboard.Proofs.Machine.Bounded
import Breadboard.Proofs.Machine.Limits
