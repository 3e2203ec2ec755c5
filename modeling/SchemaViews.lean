import SchemaViews.Binary64
import SchemaViews.Characters
import SchemaViews.Command
import SchemaViews.CommandLine
import SchemaViews.Compilation
import SchemaViews.ComponentPointer
import SchemaViews.Declaration
import SchemaViews.DigitTable
import SchemaViews.DiscriminatorTag
import SchemaViews.Display
import SchemaViews.Document
import SchemaViews.Emission
import SchemaViews.Failure
import SchemaViews.FileTree
import SchemaViews.Flattening
import SchemaViews.Fragment
import SchemaViews.FragmentReading
import SchemaViews.IdentifierTable
import SchemaViews.JsonText
import SchemaViews.Lines
import SchemaViews.Location
import SchemaViews.Logging
import SchemaViews.Merging
import SchemaViews.Moment
import SchemaViews.Numerals
import SchemaViews.OrderedMap
import SchemaViews.Outcome
import SchemaViews.OutputWriting
import SchemaViews.Parameter
import SchemaViews.PascalCase
import SchemaViews.Pieces
import SchemaViews.PrintableTable
import SchemaViews.Resolution
import SchemaViews.Scope
import SchemaViews.Settings
import SchemaViews.ShortestDecimal
import SchemaViews.StandardEnvironment
import SchemaViews.StringLiteral
import SchemaViews.TypeExpression
import SchemaViews.TypeNaming
import SchemaViews.Value
import SchemaViews.ValueEquality
import SchemaViews.View
import SchemaViews.YamlNode
import SchemaViews.YamlPlace
import SchemaViews.YamlScalarText
import SchemaViews.YamlScalarValue
import SchemaViews.YamlText
import SchemaViews.YamlToken
import SchemaViews.Main
import SchemaViews.Proofs.OutcomeLaws
import SchemaViews.Proofs.ResolutionSteps
import SchemaViews.Proofs.MergingLaws
import SchemaViews.Proofs.SchemaPositions
import SchemaViews.Proofs.ExpansionLaws
import SchemaViews.Proofs.ReadingParts
import SchemaViews.Proofs.ProperValues
import SchemaViews.Proofs.MergedFragments
import SchemaViews.Proofs.ViewAgreement
import SchemaViews.Proofs.SchemaShapes
import SchemaViews.Proofs.WritableValues
import SchemaViews.Proofs.WellShapedReading
import SchemaViews.Proofs.AcyclicComposition
import SchemaViews.Proofs.WellShapedResolution
import SchemaViews.Proofs.ErrorSurface
import SchemaViews.Proofs.Reopening
import SchemaViews.Proofs.NestingBound
import SchemaViews.Proofs.Termination
import SchemaViews.Proofs.CompositionLeaves
import SchemaViews.Proofs.LeafSummaries
import SchemaViews.Proofs.CompositionFields
import SchemaViews.Proofs.OverlayLaws
import SchemaViews.Proofs.ReadAnnotations
import SchemaViews.Proofs.LeadingComposition
import SchemaViews.Proofs.PropertyVisibility
import SchemaViews.Proofs.PropertyTypes
import SchemaViews.Proofs.FreshNames
import SchemaViews.Proofs.HoistedTypes
import SchemaViews.Proofs.EmittedModules
import SchemaViews.Proofs.StatefulSteps
import SchemaViews.Proofs.FileTreeLaws
import SchemaViews.Proofs.LocationLaws
import SchemaViews.Proofs.WrittenFiles
import SchemaViews.Proofs.EmissionInvariants
import SchemaViews.Proofs.CommandRuns
import SchemaViews.Proofs.TypingNames
import SchemaViews.Proofs.ResolvedTypes
import SchemaViews.Proofs.SessionAnswers
import SchemaViews.Proofs.ClosedModules
import SchemaViews.Proofs.AssociativeMerging
import SchemaViews.Proofs.CanonicalTypes
import SchemaViews.Proofs.IndependentAnswers
import SchemaViews.Proofs.TaggedAlternatives
import SchemaViews.Proofs.ExpansionEnds
import SchemaViews.Proofs.FlatSchemas
import SchemaViews.Proofs.LiteralReading
import SchemaViews.Proofs.DescriptionText
import SchemaViews.Proofs.MappingTargets
import SchemaViews.Proofs.PascalWords
import SchemaViews.Proofs.UsableNames
import SchemaViews.Proofs.CapitalizedWords
import SchemaViews.Proofs.CollectedImports
import SchemaViews.Proofs.ClassKeys
import SchemaViews.Proofs.ImportLines
import SchemaViews.Proofs.DistinctTags
import SchemaViews.Proofs.LocalReferences
import SchemaViews.Proofs.NullableTypes
import SchemaViews.Proofs.MarkedReferences
import SchemaViews.Proofs.EscapedNames
import SchemaViews.Proofs.CompiledOrder
import SchemaViews.Proofs.ExportedSettings
import SchemaViews.Proofs.UnknownSettings
