import Chip8.Machine.Request
import Chip8.Main
import Chip8.Device.Parts
import Chip8.Device.Execution
import Chip8.Device.Operation
import Chip8.Proofs.Device.Parts
import Chip8.Proofs.Device.Decoding
import Chip8.Proofs.Device.Execution
import Chip8.Proofs.Device.Refinement
import Chip8.Proofs.Device.Refusal
import Chip8.Proofs.Device.Safety
import Chip8.Proofs.Machine.Hosts
import Chip8.Proofs.Machine.KeyWait
import Chip8.Proofs.Machine.Arrivals
import Chip8.Proofs.Instruction.Words
import Chip8.Proofs.Machine.Calls
import Chip8.Proofs.Machine.Faults
import Chip8.Proofs.Screen.Drawing
import Chip8.Proofs.Screen.Sprites
import Chip8.Proofs.Screen.Counting
import Chip8.Proofs.Screen.Shifting
import Chip8.Proofs.CallStack.BoundedList
import Chip8.Proofs.Machine.Timing
import Chip8.Proofs.Instruction.Forms
import Chip8.Proofs.Machine.Parts
import Chip8.Proofs.Machine.Arithmetic
import Chip8.Proofs.Machine.Drawing
import Chip8.Proofs.Machine.Histories
import Chip8.Proofs.Machine.Retiming
import Chip8.Proofs.Machine.Independence
import Chip8.Proofs.Machine.Sounding
import Chip8.Proofs.Machine.Logs
import Chip8.Proofs.Machine.Expiry
import Chip8.Proofs.Machine.Skips
import Chip8.Proofs.Machine.Loading
import Chip8.Proofs.Machine.StraightLines
import Chip8.Proofs.Machine.Restarts
import Chip8.Proofs.Machine.Randomness
import Chip8.Proofs.Machine.Addresses
import Chip8.Proofs.Machine.Provenance
import Chip8.Proofs.Machine.Transfers
import Chip8.Proofs.Machine.Indexing
import Chip8.Proofs.Machine.Digits
import Chip8.Proofs.Memory.Accessors
import Chip8.Proofs.CommandLine.Cycles
import Chip8.Proofs.CommandLine.Lines
import Chip8.Proofs.CommandLine.Outcomes
import Chip8.Proofs.CommandLine.Reading
import Chip8.Proofs.CommandLine.Recording
import Chip8.Proofs.CommandLine.Scripts
