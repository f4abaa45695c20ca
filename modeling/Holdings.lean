import Holdings.Calendar
import Holdings.Config
import Holdings.Coverage
import Holdings.Distinct
import Holdings.Embargo
import Holdings.Fault
import Holdings.FileTree
import Holdings.Filter
import Holdings.Filter.Decode
import Holdings.Filter.Fault
import Holdings.Filter.Setting
import Holdings.Format
import Holdings.Format.Detect
import Holdings.Format.Embargo
import Holdings.Format.Ezb
import Holdings.Format.Fault
import Holdings.Format.Google
import Holdings.Format.Kbart
import Holdings.Format.Markup
import Holdings.Format.Policy
import Holdings.Format.Reading
import Holdings.Format.Rows
import Holdings.Instant
import Holdings.Isbn
import Holdings.Issn
import Holdings.Json.Double
import Holdings.Json.Draft
import Holdings.Json.Fault
import Holdings.Json.Number
import Holdings.Json.Numeral
import Holdings.Json.Shape
import Holdings.Json.Shortest
import Holdings.Json.Token
import Holdings.Json.Value
import Holdings.Keyed
import Holdings.Licence
import Holdings.PartialDate
import Holdings.Path
import Holdings.Record
import Holdings.Record.Document
import Holdings.Registry
import Holdings.Signature
import Holdings.Signature.Json
import Holdings.Tagger
import Holdings.Text.Blank
import Holdings.Text.Lines
import Holdings.Text.Numeral
import Holdings.Text.Quoted
import Holdings.Text.Split
import Holdings.Text.Utf8
import Holdings.Text.Word
import Holdings.Timestamp
import Holdings.Xml.Attributes
import Holdings.Xml.Content
import Holdings.Xml.Element
import Holdings.Xml.Fields
import Holdings.Xml.Qualifier
import Holdings.Xml.Reference
import Holdings.Xml.Token
import Holdings.Proofs.Boundary
import Holdings.Proofs.Calendar
import Holdings.Proofs.Wall
import Holdings.Proofs.Window
import Holdings.Proofs.Registry
import Holdings.Proofs.Skipping
import Holdings.Proofs.Tree
import Holdings.Proofs.Spelling
import Holdings.Proofs.Decoding
import Holdings.Proofs.Cache
import Holdings.Proofs.Settings
import Holdings.Proofs.Nodes
import Holdings.Proofs.Identifiers
import Holdings.Proofs.Canonical
import Holdings.Proofs.Embedded
import Holdings.Proofs.Loading
import Holdings.Proofs.Requests
import Holdings.Proofs.FirstFault
import Holdings.Proofs.Reasons
import Holdings.Proofs.Rendering
import Holdings.Proofs.Verbosity
import Holdings.Proofs.Grammar
import Holdings.Proofs.Alike
import Holdings.Proofs.Columns
import Holdings.Proofs.Children
import Holdings.Proofs.Contents
import Holdings.Proofs.Outline
import Holdings.Proofs.Spans
import Holdings.Proofs.Elements
import Holdings.Proofs.Fragments
import Holdings.Proofs.Fields
import Holdings.Proofs.Embargo
import Holdings.Proofs.Interval
import Holdings.Proofs.Grain
import Holdings.Proofs.Duration
import Holdings.Proofs.Brought
import Holdings.Proofs.Agreement
import Holdings.Proofs.Mark
import Holdings.Proofs.Merging
import Holdings.Proofs.Shares
import Holdings.Proofs.Splitting
import Holdings.Proofs.Numbering
import Holdings.Proofs.Timestamp
import Holdings.Proofs.PartialDate
import Holdings.Proofs.Notations
import Holdings.Proofs.Display
import Holdings.Proofs.Detection
import Holdings.Proofs.Sources
import Holdings.Proofs.Siblings
import Holdings.Proofs.History
import Holdings.Proofs.Tagging
import Holdings.Proofs.Accounts
import Holdings.Proofs.Product
import Holdings.Proofs.Placed
import Holdings.Proofs.Values
import Holdings.Proofs.Leaves
import Holdings.Proofs.Documents
import Holdings.Proofs.Ordinal
import Holdings.Proofs.Check
import Holdings.Proofs.Narrow
import Holdings.Proofs.Occurrences
import Holdings.Proofs.ListFiles
import Holdings.Proofs.Tags
import Holdings.Proofs.Qualifiers
import Holdings.Proofs.Normal
import Holdings.Proofs.Renaming
import Holdings.Proofs.Restating
import Holdings.Proofs.Shifted
import Holdings.Proofs.CutOut
import Holdings.Proofs.Prefixes
