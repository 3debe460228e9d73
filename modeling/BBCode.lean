import BBCode.Autolink
import BBCode.Box
import BBCode.Catalog
import BBCode.Command
import BBCode.Config
import BBCode.Config.Expand
import BBCode.Conversion
import BBCode.Disk
import BBCode.Document
import BBCode.FileSystem
import BBCode.FrontEnd
import BBCode.Guard
import BBCode.Html
import BBCode.Item
import BBCode.Log
import BBCode.Main
import BBCode.Options
import BBCode.Path
import BBCode.Program
import BBCode.Proofs.Alphabet
import BBCode.Proofs.Autolink.Idempotent
import BBCode.Proofs.Autolink.Spots
import BBCode.Proofs.Autolink.Tags
import BBCode.Proofs.Box.Forest
import BBCode.Proofs.Box.Names
import BBCode.Proofs.Box.Order
import BBCode.Proofs.Box.Titles
import BBCode.Proofs.Box.Weave
import BBCode.Proofs.Box.Widgets
import BBCode.Proofs.Card.Mark
import BBCode.Proofs.Card.Rules
import BBCode.Proofs.Card.Steps
import BBCode.Proofs.Card.Unique
import BBCode.Proofs.Catalog
import BBCode.Proofs.Command
import BBCode.Proofs.Config.Inert
import BBCode.Proofs.Config.Reload
import BBCode.Proofs.Config.RoundTrip
import BBCode.Proofs.Conversion.Failure
import BBCode.Proofs.Conversion.Folder
import BBCode.Proofs.Disk.Below
import BBCode.Proofs.Disk.Overwrite
import BBCode.Proofs.Disk.Run
import BBCode.Proofs.Disk.Scan
import BBCode.Proofs.Disk.Seen
import BBCode.Proofs.Disk.Tree
import BBCode.Proofs.Disk.Walk
import BBCode.Proofs.Doc.Boxes
import BBCode.Proofs.Doc.Frames
import BBCode.Proofs.Doc.Guard
import BBCode.Proofs.Doc.Items
import BBCode.Proofs.Doc.Links
import BBCode.Proofs.Doc.Page
import BBCode.Proofs.Doc.Pass
import BBCode.Proofs.Doc.Rules
import BBCode.Proofs.Doc.Stage
import BBCode.Proofs.Doc.Table
import BBCode.Proofs.Doc.Tree
import BBCode.Proofs.Flags
import BBCode.Proofs.Guard.Bodies
import BBCode.Proofs.Guard.Exact
import BBCode.Proofs.Guard.LineEnds
import BBCode.Proofs.Guard.Replace
import BBCode.Proofs.Guard.Restore
import BBCode.Proofs.Guard.Steps
import BBCode.Proofs.Guard.Substitution
import BBCode.Proofs.Guard.Whole
import BBCode.Proofs.Item.Edits
import BBCode.Proofs.Item.Flat
import BBCode.Proofs.Lasting.Pattern
import BBCode.Proofs.Lasting.Steps
import BBCode.Proofs.Path
import BBCode.Proofs.Path.Order
import BBCode.Proofs.Path.Spelling
import BBCode.Proofs.Rule.Commute
import BBCode.Proofs.Rule.Expression
import BBCode.Proofs.Rule.Nearest
import BBCode.Proofs.Session.Cache
import BBCode.Proofs.Session.Toggle
import BBCode.Proofs.Tag.Grammar
import BBCode.Proofs.Tag.Scan
import BBCode.Proofs.Template.Items
import BBCode.Proofs.Template.Links
import BBCode.Proofs.Template.Page
import BBCode.Proofs.Template.Pattern
import BBCode.Proofs.Template.Rules
import BBCode.Proofs.Template.Tags
import BBCode.Proofs.Template.Text
import BBCode.Proofs.Template.Widgets
import BBCode.Proofs.Text.Bytes
import BBCode.Proofs.Text.Core
import BBCode.Proofs.Text.Decimal
import BBCode.Proofs.Text.Ends
import BBCode.Proofs.Text.LineEnds
import BBCode.Proofs.Text.Occurs
import BBCode.Proofs.Text.Seam
import BBCode.Proofs.Text.Skip
import BBCode.Proofs.Text.Trim
import BBCode.Proofs.Token
import BBCode.Proofs.Toml.Document
import BBCode.Proofs.Toml.Quote
import BBCode.Proofs.Unclosed.Boxes
import BBCode.Proofs.Unclosed.Items
import BBCode.Proofs.Unclosed.Page
import BBCode.Regex
import BBCode.Regex.Bracket
import BBCode.Regex.Escape
import BBCode.Regex.Fault
import BBCode.Regex.Reader
import BBCode.Rule
import BBCode.Rule.Pair
import BBCode.Rule.Table
import BBCode.Session
import BBCode.Sha1
import BBCode.Source
import BBCode.Tag
import BBCode.Tally
import BBCode.Text
import BBCode.Text.Alphanumeric
import BBCode.Text.Escape
import BBCode.Text.Pattern
import BBCode.Text.Trim
import BBCode.Text.Word
import BBCode.Token
import BBCode.Toml.Printer
import BBCode.Toml.Quoted
import BBCode.Toml.Reader
import BBCode.Toml.Reading
import BBCode.Toml.Scalar
import BBCode.Toml.Value
import BBCode.WidgetId
import BBCode.WidgetMap
