import LineBasic.Text.Blank
import LineBasic.Number.Decimal
import LineBasic.Token.Relational
import LineBasic.Token.Lex
import LineBasic.Fault
import LineBasic.Code.Listing
import LineBasic.Code.Parts
import LineBasic.Code.Parse
import LineBasic.Image.Decode
import LineBasic.Value.Builtin
import LineBasic.Memory
import LineBasic.Stack
import LineBasic.Session.Settings
import LineBasic.Session.Keys
import LineBasic.Session.Run
import LineBasic.Drive.Disk
import LineBasic.Terminal
import LineBasic.Main
import LineBasic.Proofs.Chars
import LineBasic.Proofs.Scan
import LineBasic.Proofs.Lines
import LineBasic.Proofs.ReadingFaults
import LineBasic.Proofs.Footprint
import LineBasic.Proofs.Moves
import LineBasic.Proofs.Stack
import LineBasic.Proofs.Subroutine
import LineBasic.Proofs.Position
import LineBasic.Proofs.Structured
import LineBasic.Proofs.Constants
import LineBasic.Proofs.Legibility
import LineBasic.Proofs.Relist
import LineBasic.Proofs.Effect
import LineBasic.Proofs.Lockstep
import LineBasic.Proofs.Reachable
import LineBasic.Proofs.Handler
import LineBasic.Proofs.Budget
import LineBasic.Proofs.Continue
import LineBasic.Proofs.Records
import LineBasic.Proofs.Blocks
import LineBasic.Proofs.Stored
import LineBasic.Proofs.Lossless
import LineBasic.Proofs.Spaced
import LineBasic.Proofs.Printed
import LineBasic.Proofs.LetterCase
import LineBasic.Proofs.CaseBlind
import LineBasic.Proofs.DataOrder
import LineBasic.Proofs.DataCache
import LineBasic.Proofs.DataReads
import LineBasic.Proofs.CellTexts
import LineBasic.Proofs.Cells
import LineBasic.Proofs.Returns
import LineBasic.Proofs.Typing
import LineBasic.Proofs.Guarded
import LineBasic.Proofs.DataRestart
import LineBasic.Proofs.Silent
import LineBasic.Proofs.Tracing
import LineBasic.Proofs.Keyboard
import LineBasic.Proofs.Waiting
import LineBasic.Proofs.DirectLines
import LineBasic.Proofs.WellFormed
import LineBasic.Proofs.Sigils
import LineBasic.Proofs.Twins
import LineBasic.Proofs.Respelled
import LineBasic.Proofs.Calls
import LineBasic.Proofs.Targets
import LineBasic.Proofs.Sound
import LineBasic.Proofs.Chained
import LineBasic.Proofs.Jumps
import LineBasic.Proofs.Nesting
import LineBasic.Proofs.Course
import LineBasic.Proofs.Whole
import LineBasic.Proofs.Counted
import LineBasic.Proofs.Unrolled
import LineBasic.Proofs.Abreast
import LineBasic.Proofs.WrittenOut
import LineBasic.Proofs.PrintZones
import LineBasic.Proofs.Confined
import LineBasic.Proofs.OpenLoops
import LineBasic.Proofs.Reopened
import LineBasic.Proofs.Positional
import LineBasic.Proofs.Numerals
import LineBasic.Proofs.ReadNumbers
import LineBasic.Proofs.BreakKey
import LineBasic.Proofs.FullMemory
import LineBasic.Proofs.Breaks
import LineBasic.Proofs.Joining
import LineBasic.Proofs.CallDepth
import LineBasic.Proofs.LoopEnds
