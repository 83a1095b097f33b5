import LimbArith.Fault
import LimbArith.Limb
import LimbArith.Mask
import LimbArith.Alu.Basic
import LimbArith.Alu.Portable
import LimbArith.Machine
import LimbArith.Alu.Machine
import LimbArith.Digits
import LimbArith.Limbs.Basic
import LimbArith.Limbs.Add
import LimbArith.Limbs.Shift
import LimbArith.Limbs.Multiply
import LimbArith.Limbs.Square
import LimbArith.Limbs.Length
import LimbArith.Limbs.Compare
import LimbArith.Limbs.Conditional
import LimbArith.Mask.Choice
import LimbArith.Kernel.Call
import LimbArith.Kernel.Primitive
import LimbArith.Mask.Stack
import LimbArith.Text.CharacterClass
import LimbArith.Text.Quoted
import LimbArith.Text.Hex
import LimbArith.Kernel.Script
import LimbArith.Storage.Event
import LimbArith.Storage.Traced
import LimbArith.Storage.InPlace
import LimbArith.Storage.Buffer
import LimbArith.Storage.Arithmetic
import LimbArith.Storage.Bytes
import LimbArith.Storage.Display
import LimbArith.Storage.Session
import LimbArith.Proofs.Primitive.Lawful
import LimbArith.Proofs.Primitive.PortableSum
import LimbArith.Proofs.Primitive.Portable
import LimbArith.Proofs.Primitive.Implementation
import LimbArith.Proofs.Primitive.Agreement
import LimbArith.Proofs.Primitive.Comparison
import LimbArith.Proofs.Primitive.TopBit
import LimbArith.Proofs.Mask.Formula
import LimbArith.Proofs.Limbs.CarryChain
import LimbArith.Proofs.Limbs.Sum
import LimbArith.Proofs.Limbs.Product
import LimbArith.Proofs.Limbs.Accumulate
import LimbArith.Proofs.Limbs.Shift
import LimbArith.Proofs.Limbs.Square
import LimbArith.Proofs.Limbs.Length
import LimbArith.Proofs.Limbs.LengthScan
import LimbArith.Proofs.Decided
import LimbArith.Proofs.Limbs.Answers
import LimbArith.Proofs.Limbs.InPlace
import LimbArith.Proofs.Limbs.Conditional
import LimbArith.Proofs.Limbs.SumInverse
import LimbArith.Proofs.Limbs.Negation
import LimbArith.Proofs.Limbs.LimbSum
import LimbArith.Proofs.Limbs.ShiftInverse
import LimbArith.Proofs.Kernel.Contract
import LimbArith.Proofs.Kernel.InPlace
import LimbArith.Proofs.Canonical
import LimbArith.Proofs.Limbs.Order
import LimbArith.Proofs.Storage.InPlace
import LimbArith.Proofs.Storage.Buffer
import LimbArith.Proofs.Storage.Arithmetic
import LimbArith.Proofs.Packing
import LimbArith.Proofs.Storage.Bytes
import LimbArith.Proofs.Session.Plan
import LimbArith.Proofs.Session.Run
import LimbArith.Proofs.Session.Execution
import LimbArith.Proofs.Session.Atomicity
import LimbArith.Proofs.Session.Normalization
import LimbArith.Proofs.Session.Residue
import LimbArith.Proofs.Session.Safety
import LimbArith.Proofs.Session.History
import LimbArith.Proofs.Session.Ledger
import LimbArith.Proofs.Session.Simulation
import LimbArith.Proofs.Session.Noninterference
import LimbArith.Proofs.Text.Hex
import LimbArith.Proofs.Text.HexRoundTrip
import LimbArith.Proofs.Storage.BytesRoundTrip
import LimbArith.Proofs.Mask.Stack
