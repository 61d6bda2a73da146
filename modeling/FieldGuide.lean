import FieldGuide.Component.Basic
import FieldGuide.Component.Document
import FieldGuide.Event
import FieldGuide.Example.Datum
import FieldGuide.Example.Draft
import FieldGuide.Example.Tree
import FieldGuide.Field.Basic
import FieldGuide.Field.Document
import FieldGuide.Field.Edit
import FieldGuide.Inspect
import FieldGuide.Json.Basic
import FieldGuide.Json.Decode
import FieldGuide.Json.Reader
import FieldGuide.Json.Writer
import FieldGuide.Keyed
import FieldGuide.Number
import FieldGuide.Number.Binary64
import FieldGuide.Number.Decimal
import FieldGuide.Number.Shortest
import FieldGuide.Number.Style
import FieldGuide.Page
import FieldGuide.Page.Prose
import FieldGuide.Page.Reference
import FieldGuide.Page.Tabs
import FieldGuide.Page.Text
import FieldGuide.Proofs.Example.Datum
import FieldGuide.Proofs.Example.DistinctKeys
import FieldGuide.Proofs.Example.Draft
import FieldGuide.Proofs.Example.Tree
import FieldGuide.Proofs.Except
import FieldGuide.Proofs.Field.Redaction
import FieldGuide.Proofs.Keyed
import FieldGuide.Proofs.Number.Digits
import FieldGuide.Proofs.Number.Numeral
import FieldGuide.Proofs.Number.Shortest
import FieldGuide.Proofs.Number.Text
import FieldGuide.Proofs.Snippets
import FieldGuide.Proofs.View.CommonValues
import FieldGuide.Proofs.View.Composition
import FieldGuide.Proofs.View.Deprecated
import FieldGuide.Proofs.View.DistinctKeys
import FieldGuide.Proofs.View.Entries
import FieldGuide.Proofs.View.Filter
import FieldGuide.Proofs.View.Inclusion
import FieldGuide.Proofs.View.Leaves
import FieldGuide.Proofs.View.Order
import FieldGuide.Proofs.View.Position
import FieldGuide.Reference
import FieldGuide.Settings.Basic
import FieldGuide.Settings.Document
import FieldGuide.Settings.Layers
import FieldGuide.Settings.Setting
import FieldGuide.Settings.Variable
import FieldGuide.Snippets
import FieldGuide.Text.Blank
import FieldGuide.Text.Hex
import FieldGuide.Text.Lines
import FieldGuide.Text.Obscured
import FieldGuide.Text.Quoted
import FieldGuide.Text.Scan
import FieldGuide.Toml.Reader
import FieldGuide.Toml.Scalar
import FieldGuide.Toml.Table
import FieldGuide.View.Basic
import FieldGuide.View.Journal
import FieldGuide.View.Walk
import FieldGuide.Yaml.Block
import FieldGuide.Yaml.Resolve
import FieldGuide.Yaml.Scalar
import FieldGuide.Proofs.Page
import FieldGuide.Proofs.Yaml.Block
import FieldGuide.Proofs.Inspect
import FieldGuide.Proofs.Snippets.Nesting
import FieldGuide.Proofs.Text.Fences
import FieldGuide.Proofs.Yaml.Margin
import FieldGuide.Proofs.Snippets.Fences
import FieldGuide.Proofs.View.Reordering
import FieldGuide.Proofs.Yaml.Extent
import FieldGuide.Proofs.Snippets.Coincidence
import FieldGuide.Proofs.Example.Json
import FieldGuide.Proofs.Reference
import FieldGuide.Proofs.Field.Document
import FieldGuide.Proofs.Component.Document
import FieldGuide.Proofs.Field.Places
import FieldGuide.Proofs.View.Listing
import FieldGuide.Proofs.Component.Headings
import FieldGuide.Proofs.Inspect.Bodies
import FieldGuide.Proofs.Yaml.Lines
import FieldGuide.Proofs.Snippets.Blocks
import FieldGuide.Proofs.Settings.Overlay
import FieldGuide.Proofs.Text.Scan
import FieldGuide.Proofs.Settings.Variable
import FieldGuide.Proofs.Toml
import FieldGuide.Proofs.Settings.Layers
import FieldGuide.Proofs.View.Selection
import FieldGuide.Proofs.View.Flags
import FieldGuide.Proofs.Json.Covers
import FieldGuide.Proofs.Field.Canonical
import FieldGuide.Proofs.Json.Numeral
import FieldGuide.Proofs.Component.Canonical
import FieldGuide.Proofs.View.TypeKey
import FieldGuide.Proofs.Example.Collapse
import FieldGuide.Proofs.Field.Paths
import FieldGuide.Proofs.Example.Refusal
import FieldGuide.Proofs.Example.Variants
import FieldGuide.Proofs.Field.Duplicates
import FieldGuide.Proofs.Component.Check
import FieldGuide.Proofs.Text.Escapes
import FieldGuide.Proofs.Page.Options
import FieldGuide.Proofs.Page.Tabs
import FieldGuide.Proofs.View.Chains
import FieldGuide.Proofs.Page.Labels
import FieldGuide.Proofs.Page.Sections
import FieldGuide.Proofs.Yaml.Plain
import FieldGuide.Proofs.Page.Metadata
import FieldGuide.Proofs.Inspect.Passages
import FieldGuide.Proofs.Inspect.Keys
import FieldGuide.Proofs.Yaml.Entries
import FieldGuide.Proofs.Yaml.Keys
