import Armv4t.Cpu.Lemmas
import Armv4t.Monitor
import Armv4t.Proofs.Alignment
import Armv4t.Proofs.Arithmetic
import Armv4t.Proofs.ArmForm
import Armv4t.Proofs.Block
import Armv4t.Proofs.BlockAddressing
import Armv4t.Proofs.BlockExecution
import Armv4t.Proofs.BlockInverse
import Armv4t.Proofs.ByteMemory
import Armv4t.Proofs.Calls
import Armv4t.Proofs.CarryChain
import Armv4t.Proofs.Comparison
import Armv4t.Proofs.Configuration
import Armv4t.Proofs.Congruence
import Armv4t.Proofs.Cycles
import Armv4t.Proofs.DataProcessing
import Armv4t.Proofs.Effects
import Armv4t.Proofs.Encoding
import Armv4t.Proofs.Endings
import Armv4t.Proofs.Ensures
import Armv4t.Proofs.Events
import Armv4t.Proofs.ExceptionEntry
import Armv4t.Proofs.ExceptionReturn
import Armv4t.Proofs.Execution
import Armv4t.Proofs.Failure
import Armv4t.Proofs.Faults
import Armv4t.Proofs.Frame
import Armv4t.Proofs.IndexedTransfer
import Armv4t.Proofs.LoadStore
import Armv4t.Proofs.Memory
import Armv4t.Proofs.Multiplication
import Armv4t.Proofs.Opcode
import Armv4t.Proofs.PlainWrite
import Armv4t.Proofs.Program
import Armv4t.Proofs.RegisterFile
import Armv4t.Proofs.Served
import Armv4t.Proofs.Shifter
import Armv4t.Proofs.Simulation
import Armv4t.Proofs.Snapshot
import Armv4t.Proofs.SnapshotEncoding
import Armv4t.Proofs.Stack
import Armv4t.Proofs.StackedReturn
import Armv4t.Proofs.StaleStorage
import Armv4t.Proofs.StatusTransfer
import Armv4t.Proofs.Success
import Armv4t.Proofs.ThumbAsArm
import Armv4t.Proofs.Trapping.Arithmetic
import Armv4t.Proofs.Trapping.Arm
import Armv4t.Proofs.Trapping.Cells
import Armv4t.Proofs.Trapping.Datapath
import Armv4t.Proofs.Trapping.Exec
import Armv4t.Proofs.Trapping.Machine
import Armv4t.Proofs.Trapping.Run
import Armv4t.Proofs.Trapping.Status
import Armv4t.Proofs.Trapping.Text
import Armv4t.Proofs.Trapping.Thumb
import Armv4t.Proofs.Trapping.Transfer
import Armv4t.Proofs.UserContext
import Armv4t.Proofs.UserMode
import Armv4t.Proofs.Value
import Armv4t.Proofs.BlockText
import Armv4t.Proofs.ThumbText
import Armv4t.Proofs.PrintedTargets
