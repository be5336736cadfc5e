import Phrasebook.Extract.Analysis
import Phrasebook.Edit
import Phrasebook.Catalog.Status
import Phrasebook.Files.Encoding
import Phrasebook.Files.Resolve
import Phrasebook.Text.Digit
import Phrasebook.Text.Lower
import Phrasebook.Theme.Discovery
import Phrasebook.Toml.Document
import Phrasebook.Settings.Load
import Phrasebook.Theme.Basic
import Phrasebook.Command.Program
import Phrasebook.Main
import Phrasebook.Proofs.Template.Call
import Phrasebook.Proofs.Template.Reading
import Phrasebook.Proofs.Template.Tiling
import Phrasebook.Proofs.Template.Parser
import Phrasebook.Proofs.Mask.Cover
import Phrasebook.Proofs.Mask.Markers
import Phrasebook.Proofs.Markup.Runs
import Phrasebook.Proofs.Text.Lines
import Phrasebook.Proofs.Text.Resolver
import Phrasebook.Proofs.Json.Members
import Phrasebook.Proofs.Extract.Masking
import Phrasebook.Proofs.Extract.Buffer
import Phrasebook.Proofs.Extract.Walk
import Phrasebook.Proofs.Extract.Texts
import Phrasebook.Proofs.Extract.Recorded
import Phrasebook.Proofs.Extract.Faults
import Phrasebook.Proofs.Edit.Rendering
import Phrasebook.Proofs.Template.Lexeme
import Phrasebook.Proofs.Template.Relocation
import Phrasebook.Proofs.Template.Outline
import Phrasebook.Proofs.Template.Elsewhere
import Phrasebook.Proofs.Template.Spelling
import Phrasebook.Proofs.Edit.Splicing
import Phrasebook.Proofs.Edit.ReadBack
import Phrasebook.Proofs.Settings.Consumers
import Phrasebook.Proofs.Template.Grammar
import Phrasebook.Proofs.Template.Written
import Phrasebook.Proofs.Template.Printing
import Phrasebook.Proofs.Extract.Together
import Phrasebook.Proofs.Extract.Keys
import Phrasebook.Proofs.Markup.StartTag
import Phrasebook.Proofs.Catalog.RoundTrip
import Phrasebook.Proofs.Command.Failure
import Phrasebook.Proofs.Catalog.Rewriting
import Phrasebook.Proofs.Catalog.Updates
import Phrasebook.Proofs.Catalog.Convergence
import Phrasebook.Proofs.Extract.Union
import Phrasebook.Proofs.Edit.Alone
import Phrasebook.Proofs.Theme.Discovery
import Phrasebook.Proofs.Theme.Independence
import Phrasebook.Proofs.Session.Logging
import Phrasebook.Proofs.Theme.Survey
import Phrasebook.Proofs.Command.Discretion
import Phrasebook.Proofs.Extract.Collected
import Phrasebook.Proofs.Extract.Repeated
import Phrasebook.Proofs.Text.Ranges
import Phrasebook.Proofs.Markup.RawText
import Phrasebook.Proofs.Edit.AnyOrder
import Phrasebook.Proofs.Theme.Pruning
import Phrasebook.Proofs.Extract.Coordinates
import Phrasebook.Proofs.Mask.InPlace
import Phrasebook.Proofs.Template.Nesting.Trees
import Phrasebook.Proofs.Command.Rereading
