import TreeBuild.Child.Program
import TreeBuild.Compiler.Separate
import TreeBuild.Json.Access
import TreeBuild.Json.Commented
import TreeBuild.Logging.Fields
import TreeBuild.Main
import TreeBuild.Proofs.Coordinator.Slots
import TreeBuild.Request.Arguments
import TreeBuild.Text.Base64
import TreeBuild.Proofs.Coordinator.Delivery
import TreeBuild.Proofs.Coordinator.Fairness
import TreeBuild.Proofs.Coordinator.Shutdown
import TreeBuild.Proofs.Path.Spelling
import TreeBuild.Proofs.Tree.Edit
import TreeBuild.Proofs.Tree.Straight
import TreeBuild.Proofs.Build.CommandLine
import TreeBuild.Proofs.Session.Ends
import TreeBuild.Proofs.Project.Destinations
import TreeBuild.Proofs.Project.Discovery
import TreeBuild.Proofs.Build.Stages
import TreeBuild.Proofs.Build.Steps
import TreeBuild.Proofs.Build.Course
import TreeBuild.Proofs.Tree.Named
import TreeBuild.Proofs.Build.Containment
import TreeBuild.Proofs.Specifier.Targets
import TreeBuild.Proofs.Specifier.Among
import TreeBuild.Proofs.Specifier.Repetition
import TreeBuild.Proofs.Specifier.Rewriting
import TreeBuild.Proofs.Specifier.Grammar
import TreeBuild.Proofs.Specifier.Limits
import TreeBuild.Proofs.Specifier.Preference
import TreeBuild.Proofs.Specifier.Preservation
import TreeBuild.Proofs.Session.Jobs
import TreeBuild.Proofs.Specifier.Concurrency
import TreeBuild.Proofs.Project.Collisions
import TreeBuild.Proofs.Session.Surroundings
import TreeBuild.Proofs.Build.Targets
import TreeBuild.Proofs.Build.Products
import TreeBuild.Proofs.Output.Linkage
import TreeBuild.Proofs.Build.Results
import TreeBuild.Proofs.Glob.Descent
import TreeBuild.Proofs.Project.Everything
import TreeBuild.Proofs.Build.Full
import TreeBuild.Proofs.Build.Single
import TreeBuild.Proofs.Build.Alone
import TreeBuild.Proofs.Build.Copies
import TreeBuild.Proofs.Watch.Convergence
import TreeBuild.Proofs.Watch.Unchanged
import TreeBuild.Proofs.Watch.Reflection
import TreeBuild.Proofs.Watch.Agreement
import TreeBuild.Proofs.Watch.Endurance
import TreeBuild.Proofs.Watch.Acceptance
import TreeBuild.Proofs.Watch.Descriptor
import TreeBuild.Proofs.CommandLine.Endings
import TreeBuild.Proofs.Json.Reading
import TreeBuild.Proofs.Json.Extension
import TreeBuild.Proofs.Json.Rereading
import TreeBuild.Proofs.Json.Printed
import TreeBuild.Proofs.Json.Legible
import TreeBuild.Proofs.Json.Words
import TreeBuild.Proofs.Json.Grammar
import TreeBuild.Proofs.Json.Documents
import TreeBuild.Proofs.Json.Decoration
import TreeBuild.Proofs.Watch.Removal
import TreeBuild.Proofs.Project.Listing
import TreeBuild.Proofs.Build.Accounts
import TreeBuild.Proofs.Json.Fields
import TreeBuild.Proofs.Json.Numerals
import TreeBuild.Proofs.Number.Rounding
import TreeBuild.Proofs.Output.Declaration
import TreeBuild.Proofs.Request.Targets
import TreeBuild.Proofs.Tree.Following
import TreeBuild.Proofs.Compiler.Derivation
import TreeBuild.Proofs.Build.Compilation
import TreeBuild.Proofs.Request.Settled
import TreeBuild.Proofs.Logging.Handlers
import TreeBuild.Proofs.Build.Stylesheets
import TreeBuild.Proofs.Build.Literal
import TreeBuild.Proofs.Child.Calls
import TreeBuild.Proofs.Environment.Tolerance
