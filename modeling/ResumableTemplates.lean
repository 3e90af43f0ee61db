import ResumableTemplates.Compile.Body
import ResumableTemplates.Compile.Expression
import ResumableTemplates.Compile.Fold
import ResumableTemplates.Compile.Template
import ResumableTemplates.Content
import ResumableTemplates.Context
import ResumableTemplates.Failure
import ResumableTemplates.Frame
import ResumableTemplates.Library
import ResumableTemplates.Metadata
import ResumableTemplates.Number.Binary64
import ResumableTemplates.Number.Shortest
import ResumableTemplates.Procedure
import ResumableTemplates.Render.Activation
import ResumableTemplates.Render.Resume
import ResumableTemplates.Render.Run
import ResumableTemplates.Render.State
import ResumableTemplates.Render.Step
import ResumableTemplates.Scopes
import ResumableTemplates.Sink
import ResumableTemplates.Table
import ResumableTemplates.TemplateRef
import ResumableTemplates.Tree.Expr
import ResumableTemplates.Tree.Node
import ResumableTemplates.Tree.Template
import ResumableTemplates.Tree.Walk
import ResumableTemplates.Unit
import ResumableTemplates.Value.Basic
import ResumableTemplates.Value.Equality
import ResumableTemplates.Value.Operators
import ResumableTemplates.Value.Record
import ResumableTemplates.Value.Search
import ResumableTemplates.Workspace.Basic
import ResumableTemplates.Workspace.Evaluation
import ResumableTemplates.Workspace.Outcome
import ResumableTemplates.Workspace.Render
import ResumableTemplates.Proofs.Value.Closed
import ResumableTemplates.Proofs.Compile.Listing
import ResumableTemplates.Proofs.Compile.Emits
import ResumableTemplates.Proofs.Compile.Patching
import ResumableTemplates.Proofs.Compile.Expression
import ResumableTemplates.Proofs.Compile.Admission
import ResumableTemplates.Proofs.Compile.Growth
import ResumableTemplates.Proofs.Compile.Laying
import ResumableTemplates.Proofs.Procedure.Rounds
import ResumableTemplates.Proofs.Render.Drive
import ResumableTemplates.Proofs.Render.Captures
import ResumableTemplates.Proofs.Compile.Certified
import ResumableTemplates.Proofs.Render.Schedules
import ResumableTemplates.Proofs.Render.Consistency
import ResumableTemplates.Proofs.Render.Deferred
import ResumableTemplates.Proofs.Render.Defaults
import ResumableTemplates.Proofs.Render.Fallback
import ResumableTemplates.Proofs.Render.Dropped
import ResumableTemplates.Proofs.Render.Dependencies
import ResumableTemplates.Proofs.Render.Isolation
import ResumableTemplates.Proofs.Render.Indifference
import ResumableTemplates.Proofs.Meaning.Refinement
import ResumableTemplates.Proofs.Render.Refusal
import ResumableTemplates.Proofs.Render.Throttled
import ResumableTemplates.Proofs.Render.Depth
import ResumableTemplates.Proofs.Render.Searches
import ResumableTemplates.Proofs.Render.Unforced
import ResumableTemplates.Proofs.Meaning.Joins
import ResumableTemplates.Proofs.Compile.Discipline
import ResumableTemplates.Proofs.Compile.Integers
import ResumableTemplates.Proofs.Compile.Jumps
import ResumableTemplates.Proofs.Compile.Advances
import ResumableTemplates.Proofs.Compile.WellFormed
import ResumableTemplates.Proofs.Value.Equality
import ResumableTemplates.Proofs.Value.Equivalence
import ResumableTemplates.Proofs.Render.Bindings
import ResumableTemplates.Proofs.Compile.Naming
