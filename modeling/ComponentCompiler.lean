import ComponentCompiler.Proofs.Annotation.Reemission
import ComponentCompiler.Proofs.Build.Isolation
import ComponentCompiler.Proofs.Bundle.PackageNames
import ComponentCompiler.Proofs.Diagnostic.History
import ComponentCompiler.Proofs.Expression.Emission
import ComponentCompiler.Proofs.Expression.Scoping
import ComponentCompiler.Proofs.Expression.Splitting
import ComponentCompiler.Proofs.Graph.Revalidation
import ComponentCompiler.Proofs.Graph.Traversal
import ComponentCompiler.Proofs.Markup.Braces
import ComponentCompiler.Proofs.Module.Provided
import ComponentCompiler.Proofs.Output.History
import ComponentCompiler.Proofs.Registry.Offers
import ComponentCompiler.Proofs.Registry.Metadata
import ComponentCompiler.Proofs.Registry.Order
import ComponentCompiler.Proofs.Rendering.Evaluation
import ComponentCompiler.Proofs.Rendering.Markup
import ComponentCompiler.Proofs.Selector.Reading
import ComponentCompiler.Proofs.Wiring.Cycles
import ComponentCompiler.Proofs.Wiring.Exclusive
import ComponentCompiler.Registry.Document
import ComponentCompiler.SourceModule.Document
