import LayeredSettings.Calendar
import LayeredSettings.Failure
import LayeredSettings.Ini.Line
import LayeredSettings.Ini.Nesting
import LayeredSettings.Ini.Node
import LayeredSettings.Ini.Scalar
import LayeredSettings.Ini.Tree
import LayeredSettings.Json.Plain
import LayeredSettings.Json.Quote
import LayeredSettings.Json.Reader
import LayeredSettings.Json.Writer
import LayeredSettings.Log.Level
import LayeredSettings.Log.Logger
import LayeredSettings.Log.Redaction
import LayeredSettings.Members
import LayeredSettings.Number.Basic
import LayeredSettings.Number.Decimal
import LayeredSettings.Number.Reading
import LayeredSettings.Package
import LayeredSettings.Problem
import LayeredSettings.Proofs.Ini.Address
import LayeredSettings.Proofs.Ini.Building
import LayeredSettings.Proofs.Ini.Collecting
import LayeredSettings.Proofs.Ini.Decoded
import LayeredSettings.Proofs.Ini.Line
import LayeredSettings.Proofs.Ini.Moving
import LayeredSettings.Proofs.Ini.Orderly
import LayeredSettings.Proofs.Ini.Spot
import LayeredSettings.Proofs.Json.Quote
import LayeredSettings.Proofs.Json.Reading
import LayeredSettings.Proofs.Log.Level
import LayeredSettings.Proofs.Log.Lines
import LayeredSettings.Proofs.Log.Redaction
import LayeredSettings.Proofs.Log.Refusal
import LayeredSettings.Proofs.Log.Secrecy
import LayeredSettings.Proofs.Members
import LayeredSettings.Proofs.Members.Order
import LayeredSettings.Proofs.Number.Numeral
import LayeredSettings.Proofs.Number.Rounding
import LayeredSettings.Proofs.Number.Whole
import LayeredSettings.Proofs.Sectioned.Assigned
import LayeredSettings.Proofs.Sectioned.Building
import LayeredSettings.Proofs.Sectioned.Comments
import LayeredSettings.Proofs.Sectioned.Decoded
import LayeredSettings.Proofs.Sectioned.Flattening
import LayeredSettings.Proofs.Sectioned.Gathering
import LayeredSettings.Proofs.Sectioned.Independence
import LayeredSettings.Proofs.Sectioned.Layout
import LayeredSettings.Proofs.Sectioned.Loading
import LayeredSettings.Proofs.Sectioned.Nesting
import LayeredSettings.Proofs.Sectioned.Pieces
import LayeredSettings.Proofs.Sectioned.PlainForm
import LayeredSettings.Proofs.Sectioned.Quoting
import LayeredSettings.Proofs.Sectioned.Reading
import LayeredSettings.Proofs.Sectioned.Refusal
import LayeredSettings.Proofs.Sectioned.Repetition
import LayeredSettings.Proofs.Sectioned.RoundTrip
import LayeredSettings.Proofs.Sectioned.Spelling
import LayeredSettings.Proofs.Sectioned.Spots
import LayeredSettings.Proofs.Sectioned.Stretches
import LayeredSettings.Proofs.Session.Calls
import LayeredSettings.Proofs.Session.Observation
import LayeredSettings.Proofs.Session.PackageLogger
import LayeredSettings.Proofs.Setting.Absence
import LayeredSettings.Proofs.Setting.Absorption
import LayeredSettings.Proofs.Setting.Agreement
import LayeredSettings.Proofs.Setting.Layering
import LayeredSettings.Proofs.Setting.Transform
import LayeredSettings.Proofs.SettingsFile.Loading
import LayeredSettings.Proofs.SettingsFile.Lookup
import LayeredSettings.Proofs.SettingsFile.Mapping
import LayeredSettings.Proofs.SettingsFile.Search
import LayeredSettings.Proofs.SettingsFile.Switch
import LayeredSettings.Proofs.SettingsFile.Truth
import LayeredSettings.Proofs.Steps
import LayeredSettings.Proofs.Text.Case
import LayeredSettings.Proofs.Text.Lines
import LayeredSettings.Proofs.Text.Trim
import LayeredSettings.Proofs.Text.Word
import LayeredSettings.Proofs.Value.Endless
import LayeredSettings.Proofs.Value.Marks
import LayeredSettings.Proofs.Value.Path
import LayeredSettings.Proofs.Value.Shape
import LayeredSettings.Proofs.Value.Walk
import LayeredSettings.Proofs.World.Action
import LayeredSettings.Proofs.World.Calls
import LayeredSettings.Proofs.Yaml.Collections
import LayeredSettings.Proofs.Yaml.Document
import LayeredSettings.Proofs.Yaml.Node
import LayeredSettings.Proofs.Yaml.Reading
import LayeredSettings.Proofs.Yaml.Schema
import LayeredSettings.Sectioned.Document
import LayeredSettings.Sectioned.Sections
import LayeredSettings.Sectioned.Source
import LayeredSettings.Session
import LayeredSettings.Setting.Basic
import LayeredSettings.Setting.Catalog
import LayeredSettings.Setting.Key
import LayeredSettings.Setting.Resolution
import LayeredSettings.Setting.Transform
import LayeredSettings.SettingsFile.Basic
import LayeredSettings.SettingsFile.Search
import LayeredSettings.Text.Blank
import LayeredSettings.Text.Case
import LayeredSettings.Text.CaseTable
import LayeredSettings.Text.Lines
import LayeredSettings.Text.Units
import LayeredSettings.Text.Utf8
import LayeredSettings.Value.Basic
import LayeredSettings.Value.Walk
import LayeredSettings.World.Basic
import LayeredSettings.World.Environment
import LayeredSettings.World.FileTree
import LayeredSettings.World.Path
import LayeredSettings.Yaml.Cursor
import LayeredSettings.Yaml.Document
import LayeredSettings.Yaml.Fault
import LayeredSettings.Yaml.Node
import LayeredSettings.Yaml.Pairs
import LayeredSettings.Yaml.Scalar.Block
import LayeredSettings.Yaml.Scalar.Plain
import LayeredSettings.Yaml.Scalar.Quoted
import LayeredSettings.Yaml.Schema
import LayeredSettings.Yaml.Schema.Binary
import LayeredSettings.Yaml.Schema.Numeral
import LayeredSettings.Yaml.Schema.Timestamp
import LayeredSettings.Yaml.Tag
