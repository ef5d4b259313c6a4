import CellCollapse.Engine.Collapse
import CellCollapse.Graph
import CellCollapse.Grid.Address
import CellCollapse.Grid.Report
import CellCollapse.Journal
import CellCollapse.Random.Source
import CellCollapse.Rule.Symmetric
import CellCollapse.Sample
import CellCollapse.Proofs.Engine.Scan
import CellCollapse.Proofs.Engine.Termination
import CellCollapse.Proofs.Rule.Solution
import CellCollapse.Proofs.Rule.Local
import CellCollapse.Proofs.Grid.Consistency
import CellCollapse.Proofs.Grid.Chain
import CellCollapse.Proofs.Engine.Frozen
import CellCollapse.Proofs.Grid.FixedPoint
import CellCollapse.Proofs.Rule.Confluence
import CellCollapse.Proofs.Assoc
import CellCollapse.Proofs.Grid.UnitSteps
import CellCollapse.Proofs.Engine.Context
import CellCollapse.Proofs.Engine.Selection
import CellCollapse.Proofs.Engine.Work
import CellCollapse.Proofs.Rule.Observation
import CellCollapse.Proofs.Rule.Failure
import CellCollapse.Proofs.Sample.Adjacency
import CellCollapse.Proofs.Sample.Collapse
import CellCollapse.Proofs.Engine.Buffers
import CellCollapse.Proofs.Engine.Simulation
import CellCollapse.Proofs.Engine.Current
import CellCollapse.Proofs.Memory.Isolation
import CellCollapse.Proofs.Grid.Failure
import CellCollapse.Proofs.Rule.Order
import CellCollapse.Proofs.Engine.Retry
import CellCollapse.Proofs.Rule.Recovery
import CellCollapse.Proofs.Grid.Recovery
import CellCollapse.Proofs.Rule.Shrinking
import CellCollapse.Proofs.Sample.Lessons
import CellCollapse.Proofs.Sample.Window
import CellCollapse.Proofs.Grid.Steps
import CellCollapse.Proofs.Rule.Adjacencies
import CellCollapse.Proofs.Rule.Choice
import CellCollapse.Proofs.Number.Rounding
import CellCollapse.Proofs.Number.Sum
import CellCollapse.Proofs.Rule.Total
import CellCollapse.Proofs.Grid.Store
import CellCollapse.Proofs.Grid.NestedArray
import CellCollapse.Proofs.Grid.Report
import CellCollapse.Proofs.Rule.Unconstrained
import CellCollapse.Proofs.Rule.Reaction
import CellCollapse.Proofs.Grid.Lookup
import CellCollapse.Proofs.Grid.Faces
