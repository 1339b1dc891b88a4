import StoryWorld.Condition.Basic
import StoryWorld.Condition.Evaluate
import StoryWorld.Condition.Outcome
import StoryWorld.Datum.Basic
import StoryWorld.Datum.Json.Reader
import StoryWorld.Datum.Json.Writer
import StoryWorld.Datum.Rule
import StoryWorld.Datum.Toml.Document
import StoryWorld.Datum.Toml.Reader
import StoryWorld.Decimal.Layout
import StoryWorld.Decimal.Nearest
import StoryWorld.Decimal.Shortest
import StoryWorld.Distinct
import StoryWorld.Draws
import StoryWorld.Entity.Basic
import StoryWorld.Entity.Id
import StoryWorld.Entity.Prominence
import StoryWorld.Fade
import StoryWorld.Filter.Apply
import StoryWorld.Filter.Basic
import StoryWorld.Metric.Basic
import StoryWorld.Metric.Evaluate
import StoryWorld.Mutation.Basic
import StoryWorld.Mutation.Prepare
import StoryWorld.Path.Basic
import StoryWorld.Path.Walk
import StoryWorld.Proofs.Coupling
import StoryWorld.Proofs.EdgeOrder
import StoryWorld.Proofs.Filter.AsCondition
import StoryWorld.Proofs.Filter.Chain
import StoryWorld.Proofs.Isolation
import StoryWorld.Proofs.Path.Answers
import StoryWorld.Proofs.Path.Unrecognized
import StoryWorld.Proofs.World.Batch
import StoryWorld.Proofs.World.Built
import StoryWorld.Proofs.World.Calls
import StoryWorld.Proofs.World.Links
import StoryWorld.Proofs.World.Steps
import StoryWorld.Proofs.World.Swap
import StoryWorld.Relationship
import StoryWorld.RuleSet.Basic
import StoryWorld.RuleSet.Load
import StoryWorld.RuleSet.Problem
import StoryWorld.Scope
import StoryWorld.Selection.Basic
import StoryWorld.Selection.Pick
import StoryWorld.Selection.Select
import StoryWorld.Table
import StoryWorld.Text.Basic
import StoryWorld.Text.Hex
import StoryWorld.World.Basic
import StoryWorld.World.Change
import StoryWorld.World.Commit
import StoryWorld.World.Query
import StoryWorld.Proofs.Condition.Places
import StoryWorld.Proofs.Condition.Unrecognized
import StoryWorld.Proofs.World.Grounded
import StoryWorld.Proofs.Mutation.Prepared
import StoryWorld.Proofs.World.Written
import StoryWorld.Proofs.Mutation.Attained
import StoryWorld.Proofs.RuleSet.Nodes
import StoryWorld.Proofs.World.History
import StoryWorld.Proofs.RuleSet.Flaws
import StoryWorld.Proofs.Datum.Fields
import StoryWorld.Proofs.RuleSet.Written
import StoryWorld.Proofs.RuleSet.Saved
import StoryWorld.Proofs.Datum.Update
import StoryWorld.Proofs.RuleSet.Contained
import StoryWorld.Proofs.RuleSet.Listed
import StoryWorld.Proofs.World.Throttle
import StoryWorld.Proofs.Casting
import StoryWorld.Proofs.Selection.Qualified
import StoryWorld.Proofs.World.TagCap
import StoryWorld.Proofs.Selection.Picked
import StoryWorld.Proofs.Selection.Preferred
import StoryWorld.Proofs.Selection.Traced
import StoryWorld.Proofs.World.Edgewise
import StoryWorld.Proofs.World.Entitywise
import StoryWorld.Proofs.World.TagBatch
import StoryWorld.Proofs.World.Report
import StoryWorld.Proofs.Reference
import StoryWorld.Proofs.World.Directions
import StoryWorld.Proofs.Path.OneHop
import StoryWorld.Proofs.Metric.Degrees
import StoryWorld.Proofs.Metric.Shared
import StoryWorld.Proofs.Decimal.Whole
import StoryWorld.Proofs.Datum.Respelled
import StoryWorld.Proofs.World.Saved
import StoryWorld.Proofs.Selection.Shares
