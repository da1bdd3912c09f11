import CellMachine.Call.Binding
import CellMachine.Call.Compiled
import CellMachine.Call.Graph
import CellMachine.Cell
import CellMachine.Config
import CellMachine.KeyMap
import CellMachine.Machine.Action
import CellMachine.Machine.Basic
import CellMachine.Machine.Evaluation
import CellMachine.Machine.Execution
import CellMachine.Machine.Notice
import CellMachine.Memory.Basic
import CellMachine.Memory.Building
import CellMachine.Memory.Conversion
import CellMachine.Memory.Store
import CellMachine.Module
import CellMachine.Native
import CellMachine.Opcode.Basic
import CellMachine.Opcode.Declaration
import CellMachine.Opcode.Signature
import CellMachine.Position
import CellMachine.Problem.Basic
import CellMachine.Problem.Cause
import CellMachine.Proofs.Call.Agreement
import CellMachine.Proofs.Call.Binding
import CellMachine.Proofs.Call.Nodes
import CellMachine.Proofs.Call.Reachable
import CellMachine.Proofs.KeyMap
import CellMachine.Proofs.Machine.Actions
import CellMachine.Proofs.Machine.Order
import CellMachine.Proofs.Machine.Recursion
import CellMachine.Proofs.Meaning.Activation
import CellMachine.Proofs.Meaning.Evaluator
import CellMachine.Proofs.Meaning.Heap
import CellMachine.Proofs.Memory.Growth
import CellMachine.Proofs.Registry.Comparison
import CellMachine.Proofs.Registry.Derived
import CellMachine.Proofs.Registry.Matching
import CellMachine.Proofs.Registry.Registration
import CellMachine.Proofs.Registry.Simulation
import CellMachine.Proofs.Rope.Contents
import CellMachine.Proofs.Rope.Refinement
import CellMachine.Proofs.Value
import CellMachine.Record
import CellMachine.Registry.Basic
import CellMachine.Registry.Matching
import CellMachine.Script.Basic
import CellMachine.Script.Loader
import CellMachine.Script.Run
import CellMachine.Sequence.Basic
import CellMachine.Sequence.Rope
import CellMachine.Sequence.Span
import CellMachine.Standard.Access
import CellMachine.Standard.Arithmetic
import CellMachine.Standard.Opcodes
import CellMachine.Standard.Reading
import CellMachine.Standard.Types
import CellMachine.Text.Decimal
import CellMachine.Text.Escaped
import CellMachine.Text.Quoted
import CellMachine.Ty.Basic
import CellMachine.Value
import CellMachine.Watch.Buffer
import CellMachine.Watch.Event
import CellMachine.Watch.Settings
import CellMachine.Watch.Watcher
import CellMachine.Proofs.Machine.Success
import CellMachine.Proofs.Meaning.Calls
import CellMachine.Proofs.Meaning.Completeness
import CellMachine.Proofs.Meaning.Conversion
import CellMachine.Proofs.Meaning.Runs
import CellMachine.Proofs.Registry.Written
import CellMachine.Proofs.Memory.Directory
import CellMachine.Proofs.Registry.Conflicts
import CellMachine.Proofs.Registry.Soundness
import CellMachine.Proofs.Safety.Compilation
import CellMachine.Proofs.Safety.Opcodes
import CellMachine.Proofs.Safety.Slots
import CellMachine.Proofs.Safety.Steps
import CellMachine.Proofs.Safety.Turns
import CellMachine.Proofs.Safety.Runs
import CellMachine.Proofs.Machine.Routine
import CellMachine.Proofs.Machine.Budget
import CellMachine.Proofs.Script.Eager
import CellMachine.Proofs.Registry.Verdicts
import CellMachine.Proofs.Registry.Requests
import CellMachine.Proofs.Call.Acyclic
import CellMachine.Proofs.Call.Checked
import CellMachine.Proofs.Tandem.Slots
import CellMachine.Proofs.Tandem.Opcodes
import CellMachine.Proofs.Tandem.Calls
import CellMachine.Proofs.Tandem.Steps
import CellMachine.Proofs.Tandem.Success
import CellMachine.Proofs.Tandem.Adding
import CellMachine.Proofs.Tandem.Levels
import CellMachine.Proofs.Tandem.Following
import CellMachine.Proofs.Tandem.Start
import CellMachine.Proofs.Tandem.Presets
import CellMachine.Proofs.Registry.Keys
import CellMachine.Proofs.Machine.Brackets
import CellMachine.Proofs.Script.Notices
import CellMachine.Proofs.Twins.Machines
import CellMachine.Proofs.Twins.Opcodes
import CellMachine.Proofs.Twins.Steps
import CellMachine.Proofs.Twins.Runs
import CellMachine.Proofs.Twins.Independence
import CellMachine.Proofs.Machine.Nesting
import CellMachine.Proofs.Watch.Depth
import CellMachine.Proofs.Memory.Forced
import CellMachine.Proofs.Machine.Regime
import CellMachine.Proofs.Forcing.Machines
import CellMachine.Proofs.Forcing.Steps
import CellMachine.Proofs.Forcing.Runs
import CellMachine.Proofs.Reduction.Terms
import CellMachine.Proofs.Reduction.Combining
import CellMachine.Proofs.Reduction.Strategies
import CellMachine.Proofs.Reduction.Folds
import CellMachine.Proofs.Ranking.Machines
import CellMachine.Proofs.Ranking.Activation
import CellMachine.Proofs.Ranking.Work
import CellMachine.Proofs.Ranking.Steps
import CellMachine.Proofs.Ranking.Turns
import CellMachine.Proofs.Ranking.Runs
import CellMachine.Proofs.Rope.Iteration
import CellMachine.Proofs.Memory.Conformance
import CellMachine.Proofs.Memory.Layout
import CellMachine.Proofs.Memory.Generics
import CellMachine.Proofs.Call.Exploration
import CellMachine.Proofs.Registry.Composition
import CellMachine.Proofs.Registry.Culprits
import CellMachine.Proofs.Registry.Instances
import CellMachine.Proofs.Call.Filling
import CellMachine.Proofs.Call.Consultation
import CellMachine.Proofs.Call.Generics
import CellMachine.Proofs.Registry.Parts
import CellMachine.Proofs.Registry.Termination
import CellMachine.Proofs.Registry.Untangled
import CellMachine.Proofs.Registry.History
import CellMachine.Proofs.Registry.Refusals
import CellMachine.Proofs.Opcode.Depth
import CellMachine.Proofs.Opcode.WellFormed
import CellMachine.Proofs.Standard.Validation
import CellMachine.Proofs.Standard.Slices
import CellMachine.Proofs.Script.Loaders
import CellMachine.Proofs.Machine.Origins
import CellMachine.Proofs.Script.Origins
import CellMachine.Proofs.Rope.Bounds
import CellMachine.Proofs.Watch.Newest
import CellMachine.Proofs.Memory.Updates
import CellMachine.Proofs.Assembly.Machines
import CellMachine.Proofs.Assembly.Steps
import CellMachine.Proofs.Assembly.Runs
import CellMachine.Proofs.Rope.Depth
import CellMachine.Proofs.Call.Provenance
import CellMachine.Proofs.Memory.Changes
import CellMachine.Proofs.Memory.Factories
import CellMachine.Proofs.Machine.Effects
import CellMachine.Proofs.Machine.Entries
import CellMachine.Proofs.Script.Regime
import CellMachine.Proofs.Script.Effects
import CellMachine.Proofs.Script.Indices
import CellMachine.Proofs.Script.Local
