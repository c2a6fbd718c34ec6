import WideRow.Main
import WideRow.Proofs.WellFormed
import WideRow.Proofs.Columns
import WideRow.Proofs.Candidates
import WideRow.Proofs.Reconstruction
import WideRow.Proofs.Projection
import WideRow.Proofs.RoundTrip
import WideRow.Proofs.Normalisation
import WideRow.Proofs.ProjectedRow
import WideRow.Proofs.PartialInstances
import WideRow.Proofs.Unambiguous
import WideRow.Proofs.AmbiguityReport
import WideRow.Proofs.Pairs
import WideRow.Proofs.StrictGeneration
import WideRow.Proofs.DeclarationOrder
import WideRow.Proofs.Validation
import WideRow.Proofs.Java.Token
import WideRow.Proofs.Java.Syntax
import WideRow.Proofs.Java.Reading
import WideRow.Proofs.Java.Evaluation
import WideRow.Proofs.Adapter.Tokens
import WideRow.Proofs.Adapter.Statements
import WideRow.Proofs.Adapter.Names
import WideRow.Proofs.Adapter.Readability
import WideRow.Proofs.Adapter.Parts
import WideRow.Proofs.Adapter.Instantiation
import WideRow.Proofs.Adapter.Property
import WideRow.Proofs.Adapter.ColumnAgreement
import WideRow.Proofs.Adapter.Substitution
import WideRow.Proofs.Adapter.Report
import WideRow.Proofs.Files.Paths
import WideRow.Proofs.Files.Writing
import WideRow.Proofs.Loading
import WideRow.Proofs.Delivery
import WideRow.Proofs.Placement
import WideRow.Proofs.RenderedFiles
import WideRow.Proofs.Json.Determined
import WideRow.Proofs.Wire.Agreement
import WideRow.Proofs.Json.Printed
import WideRow.Proofs.Json.Brackets
import WideRow.Proofs.Wire.RoundTrip
import WideRow.Proofs.Text.ByteOrder
import WideRow.Proofs.Text.Lines
import WideRow.Proofs.Unification
import WideRow.Proofs.FieldOrder
import WideRow.Proofs.Adapter.ArgumentOrder
import WideRow.Proofs.Adapter.Members
import WideRow.Proofs.Adapter.NonNullHints
import WideRow.Proofs.Adapter.ClassLiterals
import WideRow.Proofs.Warnings
import WideRow.Proofs.TieClasses
import WideRow.Proofs.Adapter.UnbrokenLines
import WideRow.Proofs.Adapter.Alignment
import WideRow.Proofs.Wire.Lookup
import WideRow.Proofs.Wire.Rearrangement
import WideRow.Proofs.Json.Steps
import WideRow.Proofs.Json.Fronts
import WideRow.Proofs.Json.Locality
import WideRow.Proofs.Json.Completion
import WideRow.Proofs.Wire.WholeDocuments
