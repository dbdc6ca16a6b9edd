import ServiceSchema.Bundled
import ServiceSchema.Check
import ServiceSchema.Command
import ServiceSchema.Definition
import ServiceSchema.DefinitionFile
import ServiceSchema.Disk.Edit
import ServiceSchema.Disk.Follow
import ServiceSchema.Disk.Node
import ServiceSchema.Disk.Walk
import ServiceSchema.Disk.Write
import ServiceSchema.Fault
import ServiceSchema.Generate
import ServiceSchema.Go.BlankLines
import ServiceSchema.Go.Bracket
import ServiceSchema.Go.Columns
import ServiceSchema.Go.Ebnf
import ServiceSchema.Go.Format
import ServiceSchema.Go.Grammar
import ServiceSchema.Go.Layout
import ServiceSchema.Go.Phrase
import ServiceSchema.Go.Program
import ServiceSchema.Go.Source
import ServiceSchema.Go.Syntax
import ServiceSchema.Go.Terminal
import ServiceSchema.Go.Token
import ServiceSchema.Main
import ServiceSchema.Models
import ServiceSchema.Name
import ServiceSchema.Options
import ServiceSchema.OptionsFile
import ServiceSchema.Parsing.Chart
import ServiceSchema.Parsing.Grammar
import ServiceSchema.Path
import ServiceSchema.Project
import ServiceSchema.Proofs.Acceptance
import ServiceSchema.Proofs.Blocks
import ServiceSchema.Proofs.BracketWords
import ServiceSchema.Proofs.Bracketing
import ServiceSchema.Proofs.ByteOrder
import ServiceSchema.Proofs.CanonicalFile
import ServiceSchema.Proofs.DeclaredModels
import ServiceSchema.Proofs.Decoding
import ServiceSchema.Proofs.DefinitionFiles
import ServiceSchema.Proofs.ExportedMembers
import ServiceSchema.Proofs.Fallible
import ServiceSchema.Proofs.FieldColumns
import ServiceSchema.Proofs.FirstFault
import ServiceSchema.Proofs.FolderWalk
import ServiceSchema.Proofs.Following
import ServiceSchema.Proofs.FormattedShape
import ServiceSchema.Proofs.Idempotence
import ServiceSchema.Proofs.InBounds
import ServiceSchema.Proofs.Indentation
import ServiceSchema.Proofs.Independence
import ServiceSchema.Proofs.Ink
import ServiceSchema.Proofs.KeptLines
import ServiceSchema.Proofs.LayoutEdits
import ServiceSchema.Proofs.LineBrackets
import ServiceSchema.Proofs.Matches
import ServiceSchema.Proofs.MildNames
import ServiceSchema.Proofs.NameClashes
import ServiceSchema.Proofs.NameGuard
import ServiceSchema.Proofs.NameSlots
import ServiceSchema.Proofs.Origins
import ServiceSchema.Proofs.Phrases
import ServiceSchema.Proofs.Pieces
import ServiceSchema.Proofs.Places
import ServiceSchema.Proofs.PlainBlocks
import ServiceSchema.Proofs.PlainFile
import ServiceSchema.Proofs.PlainLayout
import ServiceSchema.Proofs.PlainLines
import ServiceSchema.Proofs.Printer
import ServiceSchema.Proofs.ProjectRun
import ServiceSchema.Proofs.RawLines
import ServiceSchema.Proofs.Recutting
import ServiceSchema.Proofs.Regeneration
import ServiceSchema.Proofs.Relayout
import ServiceSchema.Proofs.Rescanning
import ServiceSchema.Proofs.Respacing
import ServiceSchema.Proofs.RowTokens
import ServiceSchema.Proofs.Rows
import ServiceSchema.Proofs.SourceWalk
import ServiceSchema.Proofs.SpacedLines
import ServiceSchema.Proofs.Tokens
import ServiceSchema.Proofs.TopLevelNames
import ServiceSchema.Proofs.TypeFaults
import ServiceSchema.Proofs.TypeRoundTrip
import ServiceSchema.Proofs.TypeSpelling
import ServiceSchema.Proofs.Walk
import ServiceSchema.Proofs.Writing
import ServiceSchema.Table
import ServiceSchema.Text.Blank
import ServiceSchema.Text.Identifier
import ServiceSchema.Text.Letter
import ServiceSchema.Text.Lines
import ServiceSchema.Text.Upper
import ServiceSchema.TypeExpr
import ServiceSchema.Yaml.Cursor
import ServiceSchema.Yaml.Node
import ServiceSchema.Yaml.Scalar
import ServiceSchema.Yaml.Token
import ServiceSchema.Yaml.View
