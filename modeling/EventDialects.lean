import EventDialects.Main
import EventDialects.Proofs.Equivalence.Decision
import EventDialects.Proofs.Migration
import EventDialects.Workspace
import EventDialects.Proofs.Codec.Refusal
import EventDialects.Proofs.Registry.Loading
import EventDialects.Proofs.OwnRevision
import EventDialects.Proofs.Registry.Publication
import EventDialects.Proofs.Workspace
import EventDialects.Proofs.Codec.Domain
import EventDialects.Proofs.Report
import EventDialects.Proofs.Equivalence.Laws
import EventDialects.Proofs.Equivalence.Definition
import EventDialects.Proofs.Equivalence.Migrated
import EventDialects.Proofs.Equivalence.Overlooked
import EventDialects.Proofs.Equivalence.Recognition
import EventDialects.Proofs.Registry.Decodable
import EventDialects.Proofs.CommandLine.Check
import EventDialects.Proofs.Registry.Directory
import EventDialects.Proofs.Codec.Decoding
import EventDialects.Proofs.Codec.Encoding
import EventDialects.Proofs.Narrowing
import EventDialects.Proofs.Registry.Bijection
import EventDialects.Proofs.Equivalence.Declared
import EventDialects.Proofs.Numeral.Reading
import EventDialects.Proofs.Definition.Dialect
import EventDialects.Proofs.Codec.Rendering
import EventDialects.Proofs.CommandLine.Options
import EventDialects.Proofs.Reporting.Attempt
import EventDialects.Proofs.Reporting.Dialect
import EventDialects.Proofs.Reporting.Document
import EventDialects.Proofs.Reporting.Shape
import EventDialects.Proofs.Codec.Variants
import EventDialects.Proofs.CommandLine.Listing
import EventDialects.Proofs.Value.Countable
