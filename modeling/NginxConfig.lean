import NginxConfig.Files.Memory
import NginxConfig.Main
import NginxConfig.Proofs.Tree.Access
import NginxConfig.Proofs.Tree.Layout
import NginxConfig.Proofs.Tree.Edits
import NginxConfig.Proofs.Tree.InPlace
import NginxConfig.Proofs.Tree.Links
import NginxConfig.Proofs.Tree.Forest
import NginxConfig.Proofs.Tree.Moves
import NginxConfig.Proofs.Tree.Lines
import NginxConfig.Proofs.Tree.Walks
import NginxConfig.Proofs.Tree.ReadBack
import NginxConfig.Proofs.Tree.Storage
import NginxConfig.Proofs.Builder.Scopes
import NginxConfig.Proofs.Blueprint.Compile
import NginxConfig.Proofs.Section.Outline
import NginxConfig.Proofs.Builder.Failure
import NginxConfig.Proofs.Builder.Growth
import NginxConfig.Proofs.Registry.Consistent
import NginxConfig.Proofs.Registry.Checks
import NginxConfig.Proofs.Registry.Registration
import NginxConfig.Proofs.Builder.Shape
import NginxConfig.Proofs.Builder.Sessions
import NginxConfig.Proofs.Tree.Building
import NginxConfig.Proofs.Builder.Attachments
import NginxConfig.Proofs.Blueprint.Decoding
import NginxConfig.Proofs.Blueprint.RoundTrip
import NginxConfig.Proofs.Tree.Root
import NginxConfig.Proofs.Tree.Locality
import NginxConfig.Proofs.Tree.Indentation
import NginxConfig.Proofs.Builder.Turns
import NginxConfig.Proofs.Builder.Whereabouts
import NginxConfig.Proofs.Builder.Ownership
import NginxConfig.Proofs.Builder.Agreement
import NginxConfig.Proofs.Builder.Nesting
import NginxConfig.Proofs.Builder.Openings
import NginxConfig.Proofs.Directive.NormalForm
import NginxConfig.Proofs.Builder.HostNames
import NginxConfig.Proofs.Tree.Rows
import NginxConfig.Proofs.Blueprint.Schema
import NginxConfig.Proofs.Blueprint.Parts
import NginxConfig.Proofs.Blueprint.Fields
import NginxConfig.Proofs.Blueprint.Integers
import NginxConfig.Proofs.Decimal.Encoding
import NginxConfig.Proofs.Blueprint.Refusals
import NginxConfig.Proofs.Builder.Arguments
import NginxConfig.Proofs.Tree.Options
import NginxConfig.Proofs.Document.Values
import NginxConfig.Proofs.Blueprint.Settings
import NginxConfig.Proofs.Cli.Validation
import NginxConfig.Proofs.Tree.Additions
