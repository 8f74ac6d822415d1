import CallSite.Main
import CallSite.Proofs.ClassTable.Built
import CallSite.Proofs.ClassTable.Chains
import CallSite.Proofs.ClassTable.Construction
import CallSite.Proofs.ClassTable.InterfaceSearch
import CallSite.Proofs.ClassTable.Implemented
import CallSite.Proofs.ClassTable.Distance
import CallSite.Proofs.ClassTable.Subtyping
import CallSite.Proofs.Selection.Source
import CallSite.Proofs.Selection.Fits
import CallSite.Proofs.Selection.Literal
import CallSite.Proofs.Code.Descriptor
import CallSite.Proofs.Code.Block
import CallSite.Proofs.Code.Control
import CallSite.Proofs.Code.WellFormed
import CallSite.Proofs.Code.Shape
import CallSite.Proofs.Machine.Step
import CallSite.Proofs.Machine.Fault
import CallSite.Proofs.Machine.Effect
import CallSite.Proofs.Machine.Ownership
import CallSite.Proofs.Machine.Extension
import CallSite.Proofs.Machine.Straight
import CallSite.Proofs.Machine.Reading
import CallSite.Proofs.Machine.Boxing
import CallSite.Proofs.Machine.Collecting
import CallSite.Proofs.Machine.Prefix
import CallSite.Proofs.Machine.Null
import CallSite.Proofs.Emission.Returns
import CallSite.Proofs.Emission.Conversion
import CallSite.Proofs.Emission.Call
import CallSite.Proofs.Emission.Collect
import CallSite.Proofs.Emission.Access
import CallSite.Proofs.Emission.OperandStack
import CallSite.Proofs.Emission.Slots
import CallSite.Proofs.Emission.Labels
import CallSite.Proofs.Emission.Appended
import CallSite.Proofs.Emission.Writes
import CallSite.Proofs.Emission.Fragment
import CallSite.Proofs.Emission.Member
import CallSite.Proofs.Emission.Casting
import CallSite.Proofs.Emission.ListProperty
import CallSite.Proofs.Emission.Invariant
import CallSite.Proofs.Emission.Request
import CallSite.Proofs.Emission.Restore
import CallSite.Proofs.Emission.Valued
import CallSite.Proofs.Emission.Replay
import CallSite.Proofs.Emission.Operands
import CallSite.Proofs.Fixture.Loaded
import CallSite.Proofs.Fixture.SiteLocals
import CallSite.Proofs.Emission.ElementNesting
import CallSite.Proofs.Emission.SafeNavigation
import CallSite.Proofs.Machine.Arithmetic
import CallSite.Proofs.Emission.Arithmetic
import CallSite.Proofs.TypeText.RoundTrip
import CallSite.Proofs.Machine.Congruence
import CallSite.Proofs.Emission.Mirror
import CallSite.Proofs.Emission.PowerPaths
import CallSite.Proofs.Selection.Order
import CallSite.Proofs.Machine.Accessor
import CallSite.Proofs.Emission.Bridge
import CallSite.Proofs.Machine.Getter
import CallSite.Proofs.Emission.PropertyGetter
import CallSite.Proofs.Selection.Inheritance
import CallSite.Proofs.Selection.Protected
import CallSite.Proofs.ClassTable.Nesting
import CallSite.Proofs.Selection.PrivateField
import CallSite.Proofs.Emission.Capability
import CallSite.Proofs.ClassTable.Cost
import CallSite.Proofs.ClassTable.RootLast
import CallSite.Proofs.Emission.LiveSlots
import CallSite.Proofs.Emission.Portable
import CallSite.Proofs.Machine.Embedding
import CallSite.Proofs.Emission.SafeCall
import CallSite.Proofs.Machine.Rendering
import CallSite.Proofs.Machine.Placing
import CallSite.Proofs.Machine.Circles
import CallSite.Proofs.Emission.Unboxing
import CallSite.Proofs.Fixture.Declared
import CallSite.Proofs.Fixture.Linking
import CallSite.Proofs.Fixture.Hierarchy
import CallSite.Proofs.TypeText.Brackets
import CallSite.Proofs.ClassTable.Growth
import CallSite.Proofs.Selection.Dependence
import CallSite.Proofs.Selection.ExtensionOrder
import CallSite.Proofs.Selection.Unrelated
import CallSite.Proofs.Code.SlotKinds
import CallSite.Proofs.Emission.ElementKinds
import CallSite.Proofs.Emission.Coercion
import CallSite.Proofs.Emission.Narrowing
import CallSite.Proofs.Fixture.Position
