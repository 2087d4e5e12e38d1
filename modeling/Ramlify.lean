import Ramlify.Unicode.Blank
import Ramlify.Unicode.Lowercase
import Ramlify.Unicode.Digit
import Ramlify.Unicode.Printable
import Ramlify.Access
import Ramlify.Json
import Ramlify.Postman.Parameters
import Ramlify.Schema.References
import Ramlify.Schema.Required
import Ramlify.Schema.Parameter
import Ramlify.Grouping
import Ramlify.Model.Project
import Ramlify.Postman.Collection
import Ramlify.Yaml.Writer
import Ramlify.Raml.Version
import Ramlify.Raml.Annotation
import Ramlify.Raml.Resource
import Ramlify.Raml.Reading
import Ramlify.Raml.Exporter
import Ramlify.Yaml.Scalar.Plain
import Ramlify.Yaml.Scalar.Quoted
import Ramlify.Yaml.Scalar.Block
import Ramlify.Main
import Ramlify.Proofs.LoweredMethods
import Ramlify.Proofs.Raml.ResourceTree
import Ramlify.Proofs.Raml.AnnotationClosure
import Ramlify.Proofs.ImportThenExport
import Ramlify.Proofs.PreservedParameters
import Ramlify.Proofs.ImportedCollection
import Ramlify.Proofs.PlacedOperations
import Ramlify.Proofs.RequestCells
import Ramlify.Proofs.Raml.Frames
import Ramlify.Proofs.Raml.MethodParts
import Ramlify.Proofs.Raml.DefinitionParts
import Ramlify.Proofs.Raml.SchemeKinds
import Ramlify.Proofs.Raml.ReferenceOrigin
import Ramlify.Proofs.Raml.SecurityReferences
import Ramlify.Proofs.Raml.Outline
import Ramlify.Proofs.Raml.MethodOutline
import Ramlify.Proofs.Raml.VersionsAgree
import Ramlify.Proofs.Raml.TraitReferences
import Ramlify.Proofs.Raml.PathParameters
import Ramlify.Proofs.ConverterRuns
import Ramlify.Proofs.Schema.TypingTwice
import Ramlify.Proofs.Schema.RequiredNames
import Ramlify.Proofs.CommandLine.Agreement
import Ramlify.Proofs.Schema.NormalForm
import Ramlify.Proofs.Raml.HoistedParameters
import Ramlify.Proofs.Raml.ParameterFields
import Ramlify.Proofs.Raml.NamedParameters
import Ramlify.Proofs.Raml.KeptParameters
import Ramlify.Proofs.Raml.RequiredParameters
import Ramlify.Proofs.Raml.ParameterWhitelist
import Ramlify.Proofs.Postman.HeaderBlock
import Ramlify.Proofs.Postman.QueryText
import Ramlify.Proofs.Raml.Includes
import Ramlify.Proofs.Raml.ShownOrder
import Ramlify.Proofs.Schema.LeftLists
import Ramlify.Proofs.Raml.ExporterRuns
import Ramlify.Proofs.Yaml.TokenFaults
import Ramlify.Proofs.Yaml.DocumentFaults
import Ramlify.Proofs.Detection
import Ramlify.Proofs.Postman.VariableSpan
import Ramlify.Proofs.StableGrouping
import Ramlify.Proofs.Json.ReadValues
import Ramlify.Proofs.Raml.FaithfulSchemas
