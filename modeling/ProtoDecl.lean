import ProtoDecl.Main
import ProtoDecl.Schema.Node
import ProtoDecl.Proofs.Grammar.Files
import ProtoDecl.Proofs.Layout.Output
import ProtoDecl.Proofs.Prefix.Parse
import ProtoDecl.Proofs.Progress
import ProtoDecl.Proofs.Scan.Render
import ProtoDecl.Proofs.Scan.Lines
import ProtoDecl.Proofs.Spans.Parse
import ProtoDecl.Proofs.Wire.Format
import ProtoDecl.Proofs.Wire.Records
import ProtoDecl.Proofs.Wire.RoundTrip
import ProtoDecl.Proofs.Wire.Determined
import ProtoDecl.Proofs.Output.Blocks
import ProtoDecl.Proofs.Output.Layout
import ProtoDecl.Proofs.Output.Members
import ProtoDecl.Proofs.WellFormed.Shape
import ProtoDecl.Proofs.WellFormed.Parse
import ProtoDecl.Proofs.Diagnostics.Found
import ProtoDecl.Proofs.Diagnostics.Points
import ProtoDecl.Proofs.Diagnostics.Drawn
import ProtoDecl.Proofs.Grammar.Words
import ProtoDecl.Proofs.Provenance.Nodes
import ProtoDecl.Proofs.Provenance.Parse
import ProtoDecl.Proofs.Provenance.Source
import ProtoDecl.Proofs.Effects
import ProtoDecl.Proofs.Fresh
import ProtoDecl.Proofs.Descriptor.Oneofs
import ProtoDecl.Proofs.Descriptor.Entries
import ProtoDecl.Proofs.Descriptor.Ranges
import ProtoDecl.Proofs.Output.Aliases
import ProtoDecl.Proofs.Grammar.OrdinaryNames
import ProtoDecl.Proofs.Output.Specifiers
import ProtoDecl.Proofs.Descriptor.Numbers
import ProtoDecl.Proofs.Descriptor.Scopes
import ProtoDecl.Proofs.Grammar.Unlabelled
import ProtoDecl.Proofs.Grammar.OptionLists
import ProtoDecl.Proofs.Mappings
import ProtoDecl.Proofs.Walk
import ProtoDecl.Proofs.Grammar.Lookahead
import ProtoDecl.Proofs.Diagnostics.Carets
