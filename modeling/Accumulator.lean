import Accumulator.CommandLine.FileTree
import Accumulator.Journal
import Accumulator.Main
import Accumulator.Proofs.CommandLine.Agreement
import Accumulator.Proofs.CommandLine.ExitStatus
import Accumulator.Proofs.Device.Interruptions
import Accumulator.Proofs.Device.Printout
import Accumulator.Proofs.Instruction.Columns
import Accumulator.Proofs.Machine.Atomicity
import Accumulator.Proofs.Machine.Budget
import Accumulator.Proofs.Machine.Capacity
import Accumulator.Proofs.Machine.Consumption
import Accumulator.Proofs.Machine.ControlFlow
import Accumulator.Proofs.Machine.History
import Accumulator.Proofs.Machine.Memory
import Accumulator.Proofs.Machine.Names
import Accumulator.Proofs.Machine.Printing
import Accumulator.Proofs.Machine.Progress
import Accumulator.Proofs.Machine.Range
import Accumulator.Proofs.Machine.Resumption
import Accumulator.Proofs.Machine.Targets
import Accumulator.Proofs.Machine.Verbosity
import Accumulator.Proofs.Program.Alignment
import Accumulator.Proofs.Program.Building
import Accumulator.Proofs.Program.NormalForm
import Accumulator.Proofs.Record.Restoring
import Accumulator.Proofs.Source.Locations
import Accumulator.Proofs.Source.Pieces
