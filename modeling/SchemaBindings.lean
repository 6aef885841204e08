import SchemaBindings.Artifact
import SchemaBindings.Bundle
import SchemaBindings.BundledParser
import SchemaBindings.Code.Identifier
import SchemaBindings.Code.Literal
import SchemaBindings.Code.NameScope
import SchemaBindings.Code.Writer
import SchemaBindings.CommandLine.Arguments
import SchemaBindings.CommandLine.Program
import SchemaBindings.Decimal.Binary64
import SchemaBindings.Decimal.Shortest
import SchemaBindings.Dereference
import SchemaBindings.Disk
import SchemaBindings.DocumentCache
import SchemaBindings.Error
import SchemaBindings.FileTree
import SchemaBindings.GenerateConfig
import SchemaBindings.Generation
import SchemaBindings.Json.Equality
import SchemaBindings.Json.Pointer
import SchemaBindings.Json.Printer
import SchemaBindings.Json.Reader
import SchemaBindings.Json.Value
import SchemaBindings.Lowering
import SchemaBindings.Main
import SchemaBindings.Manifest
import SchemaBindings.MetaSchema
import SchemaBindings.Naming
import SchemaBindings.Notice
import SchemaBindings.OrderedMap
import SchemaBindings.PackageFiles
import SchemaBindings.PackageLayout
import SchemaBindings.ParserModule
import SchemaBindings.Path
import SchemaBindings.Plan
import SchemaBindings.Reference
import SchemaBindings.ReferenceReach
import SchemaBindings.ResultModule
import SchemaBindings.SchemaDocument
import SchemaBindings.SchemaJudge
import SchemaBindings.Text.Alphabetic
import SchemaBindings.Text.Blank
import SchemaBindings.Text.Case
import SchemaBindings.Text.CaseIgnorable
import SchemaBindings.Text.CaseTables
import SchemaBindings.Text.CodePoints
import SchemaBindings.Text.GraphemeExtend
import SchemaBindings.Text.Lowercase
import SchemaBindings.Text.Numeric
import SchemaBindings.Text.Percent
import SchemaBindings.Text.Search
import SchemaBindings.Text.Unprintable
import SchemaBindings.Text.Uppercase
import SchemaBindings.Text.Utf8
import SchemaBindings.TypeItem
import SchemaBindings.TypeModule
import SchemaBindings.TypeSet
import SchemaBindings.Volume
import SchemaBindings.Yaml.Cursor
import SchemaBindings.Yaml.Document
import SchemaBindings.Yaml.Node
import SchemaBindings.Yaml.Scalar
import SchemaBindings.Yaml.Tag
import SchemaBindings.Yaml.Token
import SchemaBindings.Yaml.TokenReader
import SchemaBindings.Proofs.JsonNodes
import SchemaBindings.Proofs.JsonReading
import SchemaBindings.Proofs.LoweringVisit
import SchemaBindings.Proofs.LoweringParts
import SchemaBindings.Proofs.LoweringEnds
import SchemaBindings.Proofs.FreshNames
import SchemaBindings.Proofs.LoweringItems
import SchemaBindings.Proofs.Pieces
import SchemaBindings.Proofs.CaseChanges
import SchemaBindings.Proofs.WritingRuns
import SchemaBindings.Proofs.DiskWrites
import SchemaBindings.Proofs.PlacesBelow
import SchemaBindings.Proofs.Outcomes
import SchemaBindings.Proofs.PlannedPaths
import SchemaBindings.Proofs.EmittedNames
import SchemaBindings.Proofs.PointerTexts
import SchemaBindings.Proofs.BundlePlaces
import SchemaBindings.Proofs.RealTrees
import SchemaBindings.Proofs.BundleForms
import SchemaBindings.Proofs.BundleRuns
import SchemaBindings.Proofs.BundleReferences
import SchemaBindings.Proofs.LoweringBoxes
import SchemaBindings.Proofs.LoweringAliases
import SchemaBindings.Proofs.PathSteps
import SchemaBindings.Proofs.SchemaMentions
import SchemaBindings.Proofs.BundleResolution
import SchemaBindings.Proofs.Unfolding
import SchemaBindings.Proofs.DereferenceRuns
import SchemaBindings.Proofs.LoweringNames
import SchemaBindings.Proofs.BundleEnds
import SchemaBindings.Proofs.BundleSites
import SchemaBindings.Proofs.JsonAgreement
import SchemaBindings.Proofs.BundleLinks
import SchemaBindings.Proofs.MemberLinks
import SchemaBindings.Proofs.BundleAgreement
import SchemaBindings.Proofs.BundleOrder
import SchemaBindings.Proofs.DereferenceEnds
import SchemaBindings.Proofs.LeftReferences
import SchemaBindings.Proofs.WrittenLines
import SchemaBindings.Proofs.IdentifierCharacters
import SchemaBindings.Proofs.ParserRows
import SchemaBindings.Proofs.RawLiterals
import SchemaBindings.Proofs.ParserScopes
import SchemaBindings.Proofs.QuotedLiterals
import SchemaBindings.Proofs.LoweringWords
import SchemaBindings.Proofs.ModuleTypeNames
import SchemaBindings.Proofs.PointerAddresses
import SchemaBindings.Proofs.ReadmeParsers
import SchemaBindings.Proofs.WireNames
import SchemaBindings.Proofs.Merging
import SchemaBindings.Proofs.ItemConsistency
import SchemaBindings.Proofs.TypeModuleItems
import SchemaBindings.Proofs.LoweringPlaces
import SchemaBindings.Proofs.MergedProperties
import SchemaBindings.Proofs.LoneArms
import SchemaBindings.Proofs.VolumeWalks
import SchemaBindings.Proofs.VolumeWrites
import SchemaBindings.Proofs.TreeVolumes
import SchemaBindings.Proofs.GeneratedFiles
import SchemaBindings.Proofs.Regeneration
import SchemaBindings.Proofs.UntouchedSchemas
import SchemaBindings.Proofs.ReferenceCircles
import SchemaBindings.Proofs.CanonicalNames
import SchemaBindings.Proofs.UsableIdentifiers
import SchemaBindings.Proofs.DerivedNames
import SchemaBindings.Proofs.PercentEscapes
import SchemaBindings.Proofs.CachedDocuments
import SchemaBindings.Proofs.CommentLines
import SchemaBindings.Proofs.EntryOrder
import SchemaBindings.Proofs.IntegerBounds
import SchemaBindings.Proofs.ModuleDeclarations
import SchemaBindings.Proofs.DescriptionStrings
import SchemaBindings.Proofs.NameWords
import SchemaBindings.Proofs.NearestPlaces
import SchemaBindings.Proofs.ScopeRequests
