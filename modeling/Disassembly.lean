import Disassembly.Arm.Line
import Disassembly.Codec.Insn
import Disassembly.Handle
import Disassembly.Proofs.Arm.BuildDomain
import Disassembly.Proofs.Arm.FinishedOperands
import Disassembly.Proofs.Arm.Influence
import Disassembly.X86.Line
import Disassembly.Proofs.Arm.BuildFacts
import Disassembly.Proofs.Handle.Stream
import Disassembly.Proofs.Arm.Immediates
import Disassembly.Proofs.Arm.BranchTarget
import Disassembly.Proofs.Handle.Storage
import Disassembly.Proofs.Handle.Options
import Disassembly.Proofs.Arm.MemoryOperands
import Disassembly.Proofs.RegAccess.Summary
import Disassembly.Proofs.Arm.RegSummary
import Disassembly.Proofs.X86.OperandQueries
import Disassembly.Proofs.X86.Rendering
import Disassembly.Proofs.Arm.SlotTwins
import Disassembly.Proofs.Arm.SpareSlots
import Disassembly.Proofs.Arm.ItemLists
import Disassembly.Proofs.Arm.Labels
import Disassembly.Proofs.Arm.ItemText
import Disassembly.Proofs.Arm.LineMeaning
import Disassembly.Proofs.Arm.LineFidelity
import Disassembly.Proofs.BoundedList.Slots
import Disassembly.Proofs.BoundedList.History
import Disassembly.Proofs.Arm.Marks
import Disassembly.Proofs.Arm.FlagEffects
import Disassembly.Proofs.Arm.BaseRegisters
import Disassembly.Proofs.Arm.WriteBack
import Disassembly.Proofs.Json.Tokens
import Disassembly.Proofs.Json.RoundTrip
import Disassembly.Proofs.FlagText
import Disassembly.Proofs.Codec.Basic
import Disassembly.Proofs.Codec.Record
import Disassembly.Proofs.Codec.Arm
import Disassembly.Proofs.Codec.X86
import Disassembly.Proofs.Codec.Insn
import Disassembly.Proofs.Codec.RoundTrip
import Disassembly.Proofs.Arm.Classification
import Disassembly.Proofs.Handle.FailedDecode
import Disassembly.Proofs.Handle.PublicNumbers
import Disassembly.Proofs.Arm.Footprint
import Disassembly.Proofs.Arm.Commutation
import Disassembly.Proofs.Arm.MemoryAssembly
import Disassembly.Proofs.Arm.ShiftItems
import Disassembly.Proofs.Arm.ShownShifts
import Disassembly.Proofs.Arm.Spelling
import Disassembly.Proofs.X86.ModeIndependence
import Disassembly.Proofs.Arm.AddedOperands
import Disassembly.Proofs.Arm.VectorLists
import Disassembly.Proofs.Arm.StatusMasks
import Disassembly.Proofs.Arm.ItBlocks
import Disassembly.Proofs.X86.FlagSection
import Disassembly.Proofs.Arm.ShiftTargets
import Disassembly.Proofs.RegAccess.Calls
