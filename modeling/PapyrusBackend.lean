import PapyrusBackend.Coercion
import PapyrusBackend.Container.Decode
import PapyrusBackend.Container.Encode
import PapyrusBackend.Disassembly
import PapyrusBackend.Dump
import PapyrusBackend.Lowering.Program
import PapyrusBackend.Proofs.Body.Editing
import PapyrusBackend.Proofs.Body.Numbering
import PapyrusBackend.Proofs.Container.Acceptance
import PapyrusBackend.Proofs.Container.CarriedCode
import PapyrusBackend.Proofs.Container.CarriedContent
import PapyrusBackend.Proofs.Container.CarriedType
import PapyrusBackend.Proofs.Container.Carrying
import PapyrusBackend.Proofs.Container.Coupling
import PapyrusBackend.Proofs.Container.Delimiting
import PapyrusBackend.Proofs.Container.Distinction
import PapyrusBackend.Proofs.Container.Emission
import PapyrusBackend.Proofs.Container.Encodable
import PapyrusBackend.Proofs.Container.Faults
import PapyrusBackend.Proofs.Container.Interning
import PapyrusBackend.Proofs.Container.Layout
import PapyrusBackend.Proofs.Container.Limits
import PapyrusBackend.Proofs.Container.Magic
import PapyrusBackend.Proofs.Container.NormalForm
import PapyrusBackend.Proofs.Container.Policies
import PapyrusBackend.Proofs.Container.Reencoding
import PapyrusBackend.Proofs.Container.RoundTrip
import PapyrusBackend.Proofs.Container.Running
import PapyrusBackend.Proofs.Container.Words
import PapyrusBackend.Proofs.Container.YieldedCode
import PapyrusBackend.Proofs.Container.YieldedType
import PapyrusBackend.Proofs.Container.Yielding
import PapyrusBackend.Proofs.Listing.Cleanup
import PapyrusBackend.Proofs.Listing.Labels
import PapyrusBackend.Proofs.Lowering.Agreement
import PapyrusBackend.Proofs.Lowering.Assigned
import PapyrusBackend.Proofs.Lowering.Calls
import PapyrusBackend.Proofs.Lowering.Confined
import PapyrusBackend.Proofs.Lowering.ConfinedCall
import PapyrusBackend.Proofs.Lowering.ConfinedMemory
import PapyrusBackend.Proofs.Lowering.Course
import PapyrusBackend.Proofs.Lowering.Deferred
import PapyrusBackend.Proofs.Lowering.DeferredStep
import PapyrusBackend.Proofs.Lowering.EmittedCode
import PapyrusBackend.Proofs.Lowering.EmittedStep
import PapyrusBackend.Proofs.Lowering.Evolution
import PapyrusBackend.Proofs.Lowering.Execution
import PapyrusBackend.Proofs.Lowering.Fragment
import PapyrusBackend.Proofs.Lowering.IntegerStep
import PapyrusBackend.Proofs.Lowering.Landing
import PapyrusBackend.Proofs.Lowering.Leniency
import PapyrusBackend.Proofs.Lowering.Listings
import PapyrusBackend.Proofs.Lowering.Meaning
import PapyrusBackend.Proofs.Lowering.Operands
import PapyrusBackend.Proofs.Lowering.Origin
import PapyrusBackend.Proofs.Lowering.Pending
import PapyrusBackend.Proofs.Lowering.Placement
import PapyrusBackend.Proofs.Lowering.Polarity
import PapyrusBackend.Proofs.Lowering.ResolvedProgram
import PapyrusBackend.Proofs.Lowering.Triple
import PapyrusBackend.Proofs.Lowering.Visits
import PapyrusBackend.Proofs.Lowering.WellFormed
import PapyrusBackend.Proofs.Semantics.Delegates
import PapyrusBackend.Proofs.Semantics.Interpretation
import PapyrusBackend.Proofs.Semantics.Machine
import PapyrusBackend.Proofs.Semantics.Managed
import PapyrusBackend.Proofs.Semantics.Script
import PapyrusBackend.Proofs.Semantics.Straight
import PapyrusBackend.Proofs.Sequence
import PapyrusBackend.Proofs.Lowering.LookAhead
import PapyrusBackend.Proofs.Lowering.Absorption
import PapyrusBackend.Proofs.Lowering.Flow
import PapyrusBackend.Proofs.Lowering.Underflow
import PapyrusBackend.Proofs.Lowering.Joins
import PapyrusBackend.Proofs.Lowering.BackwardFlow
import PapyrusBackend.Proofs.Lowering.Supply
import PapyrusBackend.Proofs.Lowering.SupplyStaging
import PapyrusBackend.Proofs.Lowering.SupplyStep
import PapyrusBackend.Proofs.Lowering.SupplyCall
import PapyrusBackend.Proofs.Lowering.SuppliedMethod
import PapyrusBackend.Proofs.Lowering.GeneratedNames
import PapyrusBackend.Proofs.Lowering.Temporaries
import PapyrusBackend.Proofs.Lowering.DeclaredWrites
import PapyrusBackend.Proofs.Lowering.MemberPlaces
import PapyrusBackend.Proofs.Lowering.AccessorSlots
import PapyrusBackend.Proofs.Lowering.Concatenation
import PapyrusBackend.Proofs.Lowering.Delegation
import PapyrusBackend.Proofs.Container.TableHistory
import PapyrusBackend.Proofs.Container.JumpDistances
import PapyrusBackend.Proofs.Container.Extent
import PapyrusBackend.Proofs.Container.TypeWalk
import PapyrusBackend.Proofs.Container.Payment
import PapyrusBackend.Proofs.Number.Spelling
