import ClassLinking.Adjustment
import ClassLinking.Class.Basic
import ClassLinking.Class.Flags
import ClassLinking.Config
import ClassLinking.ConflictTable
import ClassLinking.DefaultSelection
import ClassLinking.Definition
import ClassLinking.Descriptor
import ClassLinking.Diagnostic
import ClassLinking.ITable.Basic
import ClassLinking.ITable.Build
import ClassLinking.ITable.Layout
import ClassLinking.Id
import ClassLinking.LinkError
import ClassLinking.Linker
import ClassLinking.Linking
import ClassLinking.Listing
import ClassLinking.Lookup
import ClassLinking.Method.Basic
import ClassLinking.Method.Declaration
import ClassLinking.Method.Flags
import ClassLinking.Miranda
import ClassLinking.Override
import ClassLinking.Proofs.Accounting
import ClassLinking.Proofs.AddedOverrides
import ClassLinking.Proofs.Adjustment
import ClassLinking.Proofs.Agreement
import ClassLinking.Proofs.Atomicity
import ClassLinking.Proofs.Batches
import ClassLinking.Proofs.Branches
import ClassLinking.Proofs.Canonicity
import ClassLinking.Proofs.Coherence
import ClassLinking.Proofs.Confinement
import ClassLinking.Proofs.ConflictHistory
import ClassLinking.Proofs.Consistency
import ClassLinking.Proofs.Currency
import ClassLinking.Proofs.DefaultSlots
import ClassLinking.Proofs.Definition
import ClassLinking.Proofs.Descriptors
import ClassLinking.Proofs.EmptySlots
import ClassLinking.Proofs.Growth
import ClassLinking.Proofs.HiddenDefaults
import ClassLinking.Proofs.Hierarchy
import ClassLinking.Proofs.ITable
import ClassLinking.Proofs.Indices
import ClassLinking.Proofs.InterfaceCalls
import ClassLinking.Proofs.InterfaceLayout
import ClassLinking.Proofs.InterfaceSelection
import ClassLinking.Proofs.InterfaceSlots
import ClassLinking.Proofs.LateAdjustment
import ClassLinking.Proofs.Layout
import ClassLinking.Proofs.Linking
import ClassLinking.Proofs.LoaderAgreement
import ClassLinking.Proofs.LoaderConflicts
import ClassLinking.Proofs.Mirandas
import ClassLinking.Proofs.Numbering
import ClassLinking.Proofs.Occupants
import ClassLinking.Proofs.Origins
import ClassLinking.Proofs.Outcome
import ClassLinking.Proofs.Overriding
import ClassLinking.Proofs.Placing
import ClassLinking.Proofs.Rebuilding
import ClassLinking.Proofs.Redefinition
import ClassLinking.Proofs.Refilling
import ClassLinking.Proofs.Registration
import ClassLinking.Proofs.Replacement
import ClassLinking.Proofs.Revisions
import ClassLinking.Proofs.Runs
import ClassLinking.Proofs.Scheduling
import ClassLinking.Proofs.Selection
import ClassLinking.Proofs.Sizing
import ClassLinking.Proofs.SlotIndices
import ClassLinking.Proofs.Slots
import ClassLinking.Proofs.Steps
import ClassLinking.Proofs.Store
import ClassLinking.Proofs.Substitution
import ClassLinking.Proofs.Subtyping
import ClassLinking.Proofs.Takeover
import ClassLinking.Proofs.Tally
import ClassLinking.Proofs.VTable
import ClassLinking.Proofs.Verification
import ClassLinking.Redefinition
import ClassLinking.Registry
import ClassLinking.Statistics
import ClassLinking.Store
import ClassLinking.Text.FlagSet
import ClassLinking.Text.Hex
import ClassLinking.Text.Lines
import ClassLinking.Text.Tenths
import ClassLinking.Token
import ClassLinking.Unloading
import ClassLinking.VTable.Basic
import ClassLinking.VTable.Build
import ClassLinking.VTable.Event
import ClassLinking.VTable.Fill
import ClassLinking.VTable.Size
import ClassLinking.VTable.Verify
