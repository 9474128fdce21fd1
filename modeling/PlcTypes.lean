import PlcTypes.Files.Store
import PlcTypes.Main
import PlcTypes.Proofs.ArrayLevels
import PlcTypes.Proofs.ArrayPattern
import PlcTypes.Proofs.ArraySize
import PlcTypes.Proofs.CanonicalType
import PlcTypes.Proofs.CheckAgreement
import PlcTypes.Proofs.CommandLine.Configuration
import PlcTypes.Proofs.CommandLine.Effects
import PlcTypes.Proofs.CommandLine.OutputDirectory
import PlcTypes.Proofs.Conversion
import PlcTypes.Proofs.Definition
import PlcTypes.Proofs.DocumentForm
import PlcTypes.Proofs.Files.Access
import PlcTypes.Proofs.Format.Beckhoff
import PlcTypes.Proofs.Format.Codesys
import PlcTypes.Proofs.Format.Escaping
import PlcTypes.Proofs.Format.LineEnding
import PlcTypes.Proofs.Format.Markup
import PlcTypes.Proofs.Format.Rockwell
import PlcTypes.Proofs.Format.RockwellDimension
import PlcTypes.Proofs.Format.RockwellMember
import PlcTypes.Proofs.Format.RockwellOutline
import PlcTypes.Proofs.Format.RockwellSize
import PlcTypes.Proofs.Format.RockwellType
import PlcTypes.Proofs.Format.Siemens
import PlcTypes.Proofs.Import
import PlcTypes.Proofs.Json.Reader
import PlcTypes.Proofs.Literal
import PlcTypes.Proofs.NormalForm
import PlcTypes.Proofs.Number.Integer
import PlcTypes.Proofs.Number.Real
import PlcTypes.Proofs.Number.Rounding
import PlcTypes.Proofs.Number.Shortest
import PlcTypes.Proofs.Pushing
import PlcTypes.Proofs.Reachable
import PlcTypes.Proofs.Reexport
import PlcTypes.Proofs.Session
import PlcTypes.Proofs.Settings
import PlcTypes.Proofs.Sound
import PlcTypes.Proofs.StateMachine.Reading
import PlcTypes.Proofs.StateMachine.Scan
import PlcTypes.Proofs.StructuredText.Body
import PlcTypes.Proofs.StructuredText.Comment
import PlcTypes.Proofs.StructuredText.Declaration
import PlcTypes.Proofs.StructuredText.DeclarationPattern
import PlcTypes.Proofs.StructuredText.DescriptionPattern
import PlcTypes.Proofs.StructuredText.Dialect
import PlcTypes.Proofs.StructuredText.InitialPattern
import PlcTypes.Proofs.StructuredText.LineEnding
import PlcTypes.Proofs.StructuredText.MemberScan
import PlcTypes.Proofs.StructuredText.Quoted
import PlcTypes.Proofs.StructuredText.QuotedCode
import PlcTypes.Proofs.StructuredText.Redeclaration
import PlcTypes.Proofs.StructuredText.TypeReading
import PlcTypes.Proofs.Success
import PlcTypes.Proofs.Text.Ascii
import PlcTypes.Proofs.Text.Keyword
import PlcTypes.Proofs.Text.LineEnding
import PlcTypes.Proofs.Text.Locality
import PlcTypes.Proofs.Text.Occurrence
import PlcTypes.Proofs.Text.Pattern
import PlcTypes.Proofs.Text.PatternScan
import PlcTypes.Proofs.Text.PatternSteps
import PlcTypes.Proofs.Text.Replacement
import PlcTypes.Proofs.Text.Search
import PlcTypes.Proofs.Text.Space
import PlcTypes.Proofs.TypeDescription
import PlcTypes.Proofs.TypeSpelling
import PlcTypes.Proofs.Universal
import PlcTypes.Proofs.Validation
import PlcTypes.Proofs.Yaml.Sound
import PlcTypes.Proofs.Yaml.Tree
import PlcTypes.Session
