import BSVM.Cpu
import BSVM.HeapRelease
import BSVM.Operand
import BSVM.Flags
import BSVM.HeapWhole
import BSVM.Compare
import BSVM.Effect
import BSVM.Run
import BSVM.StackPointer
import BSVM.CodeSegment
import BSVM.ReadOnly
import BSVM.Transfer
import BSVM.Registers
import BSVM.Addressing
import BSVM.TransferModes
import BSVM.StackRefinement
import BSVM.Atomic
import BSVM.Fetch
import BSVM.RoundTrip
import BSVM.Stale
import BSVM.Image
import BSVM.Status
import BSVM.Sections
import BSVM.ControlFlow
import BSVM.BinaryFile
import BSVM.Comments
import BSVM.StatusRegister
import BSVM.Quotients
import BSVM.Requests
import BSVM.FetchSet
import BSVM.Growth
import BSVM.Names
import BSVM.LexerRuns
import BSVM.RegisterNumbers
import BSVM.UndefinedLabels
import BSVM.Unset
import BSVM.Blocks
import BSVM.Loader
import BSVM.Toolchain
import BSVM.HeldBlocks
import BSVM.FaultFree
import BSVM.Frames
import BSVM.AnySource
import BSVM.AnyFile
import BSVM.Renaming
