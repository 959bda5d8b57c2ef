import Linguist.Text.Blank
import Linguist.Text.Quoted
import Linguist.Bytes.Charset
import Linguist.Catalogue.Places
import Linguist.Catalogue.Elements
import Linguist.Catalogue.OfElements
import Linguist.Catalogue.Json
import Linguist.Catalogue.Rows
import Linguist.FileFormat
import Linguist.LanguageTag
import Linguist.Notices
import Linguist.Progress
import Linguist.Comparison
import Linguist.Merge
import Linguist.Audit
import Linguist.Collection
import Linguist.Main
import Linguist.Proofs.Bytes.Charset
import Linguist.Proofs.Text.Numeral
import Linguist.Proofs.Markup.Declaration
import Linguist.Proofs.Markup.Reference
import Linguist.Proofs.Markup.Tag
import Linguist.Proofs.Markup.Node
import Linguist.Proofs.Json.Layout
import Linguist.Proofs.Csv.Row
import Linguist.Proofs.Csv.Places
import Linguist.Proofs.Catalogue.Layout
import Linguist.Proofs.Catalogue.Elements
import Linguist.Proofs.Catalogue.Address
import Linguist.Proofs.Catalogue.FileForm
import Linguist.Proofs.Catalogue.Acceptance
import Linguist.Proofs.Catalogue.Table
import Linguist.Proofs.Catalogue.Untouched
import Linguist.Proofs.Catalogue.Import
import Linguist.Proofs.Catalogue.Json
import Linguist.Proofs.Merge.Conservation
import Linguist.Proofs.Merge.Idempotence
import Linguist.Proofs.Merge.Lifecycle
import Linguist.Proofs.Merge.Approval
import Linguist.Proofs.Merge.Cleanness
import Linguist.Proofs.Command.Edit
import Linguist.Proofs.Command.Failure
import Linguist.Proofs.Translation
import Linguist.Proofs.Upkeep
import Linguist.Proofs.Unambiguous
import Linguist.Proofs.Collection.Grouping
import Linguist.Proofs.Audit.Forms
import Linguist.Proofs.Catalogue.Normalization
import Linguist.Proofs.Comparison.Exactness
import Linguist.Proofs.Merge.Difference
import Linguist.Proofs.Catalogue.Sorting
import Linguist.Proofs.Code.Reading
import Linguist.Proofs.Code.Inert
import Linguist.Proofs.Code.Spelling
import Linguist.Proofs.Template
import Linguist.Proofs.Phrasebook.Counts
import Linguist.Proofs.Code.Qualifier
import Linguist.Proofs.Code.LineEnds
import Linguist.Proofs.Audit.Conflicts
import Linguist.Proofs.Path
import Linguist.Proofs.Catalogue.Padding
import Linguist.Proofs.Template.Occurrence
import Linguist.Proofs.Code.Notes
import Linguist.Proofs.Disk.Search
import Linguist.Proofs.Text.Shortened
import Linguist.Proofs.Catalogue.ToldApart
