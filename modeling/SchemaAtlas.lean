import SchemaAtlas.Calendar
import SchemaAtlas.CommandLine.Command
import SchemaAtlas.CommandLine.Filter
import SchemaAtlas.CommandLine.Option
import SchemaAtlas.CommandLine.Request
import SchemaAtlas.CommandLine.Run
import SchemaAtlas.Configuration.Basic
import SchemaAtlas.Configuration.Loading
import SchemaAtlas.Configuration.Template
import SchemaAtlas.Decimal.Double
import SchemaAtlas.Decimal.Shortest
import SchemaAtlas.Diagnostics
import SchemaAtlas.Fault
import SchemaAtlas.FieldType.Basic
import SchemaAtlas.FieldType.Expression
import SchemaAtlas.FieldType.Printer
import SchemaAtlas.FieldType.Subtyping
import SchemaAtlas.FieldType.Token
import SchemaAtlas.Files.Archive
import SchemaAtlas.Files.Path
import SchemaAtlas.Files.System
import SchemaAtlas.Files.Tree
import SchemaAtlas.Json
import SchemaAtlas.Main
import SchemaAtlas.Number
import SchemaAtlas.Ordered
import SchemaAtlas.Path
import SchemaAtlas.Proofs.CommandLine.Exit
import SchemaAtlas.Proofs.CommandLine.Filter
import SchemaAtlas.Proofs.CommandLine.Job
import SchemaAtlas.Proofs.Configuration.Loading
import SchemaAtlas.Proofs.Configuration.Soundness
import SchemaAtlas.Proofs.Decimal.Range
import SchemaAtlas.Proofs.Decimal.Rounding
import SchemaAtlas.Proofs.Decimal.Shortest
import SchemaAtlas.Proofs.Decimal.Text
import SchemaAtlas.Proofs.Except
import SchemaAtlas.Proofs.FieldType.Equality
import SchemaAtlas.Proofs.FieldType.Fields
import SchemaAtlas.Proofs.FieldType.Flat
import SchemaAtlas.Proofs.FieldType.Grammar
import SchemaAtlas.Proofs.FieldType.Lexing
import SchemaAtlas.Proofs.FieldType.Normal
import SchemaAtlas.Proofs.FieldType.NumberValue
import SchemaAtlas.Proofs.FieldType.Order
import SchemaAtlas.Proofs.FieldType.Parsing
import SchemaAtlas.Proofs.FieldType.Rendering
import SchemaAtlas.Proofs.FieldType.Subtyping
import SchemaAtlas.Proofs.FieldType.TokenPattern
import SchemaAtlas.Proofs.FieldType.TokenRows
import SchemaAtlas.Proofs.FieldType.Unambiguous
import SchemaAtlas.Proofs.FieldType.Words
import SchemaAtlas.Proofs.Files.Reading
import SchemaAtlas.Proofs.Files.Writing
import SchemaAtlas.Proofs.Path
import SchemaAtlas.Proofs.Path.Joining
import SchemaAtlas.Proofs.Query.Candidates
import SchemaAtlas.Proofs.Query.Covering
import SchemaAtlas.Proofs.Query.Inequality
import SchemaAtlas.Proofs.Query.Kept
import SchemaAtlas.Proofs.Query.Matching
import SchemaAtlas.Proofs.Query.Merging
import SchemaAtlas.Proofs.Query.Narrowing
import SchemaAtlas.Proofs.Query.Ordering
import SchemaAtlas.Proofs.Query.Projection
import SchemaAtlas.Proofs.Query.Reachable
import SchemaAtlas.Proofs.Query.Selection
import SchemaAtlas.Proofs.Query.WellFormed
import SchemaAtlas.Proofs.SchemaUnion
import SchemaAtlas.Proofs.Store.Action
import SchemaAtlas.Proofs.Store.Calls
import SchemaAtlas.Proofs.Store.Clauses
import SchemaAtlas.Proofs.Store.Descent
import SchemaAtlas.Proofs.Store.Failure
import SchemaAtlas.Proofs.Store.Handles
import SchemaAtlas.Proofs.Store.Opening
import SchemaAtlas.Proofs.Store.Undeclared
import SchemaAtlas.Proofs.Text.Digits
import SchemaAtlas.Proofs.Text.Joining
import SchemaAtlas.Proofs.Text.Pattern
import SchemaAtlas.Proofs.Text.Splitting
import SchemaAtlas.Proofs.Tree.Acceptance
import SchemaAtlas.Proofs.Tree.Alternation
import SchemaAtlas.Proofs.Tree.Building
import SchemaAtlas.Proofs.Tree.DeclarationWalk
import SchemaAtlas.Proofs.Tree.FieldDeclaration
import SchemaAtlas.Proofs.Tree.FieldLookup
import SchemaAtlas.Proofs.Tree.Frontiers
import SchemaAtlas.Proofs.Tree.GroupSearch
import SchemaAtlas.Proofs.Tree.Inventory
import SchemaAtlas.Proofs.Tree.Listing
import SchemaAtlas.Proofs.Tree.Literal
import SchemaAtlas.Proofs.Tree.Members
import SchemaAtlas.Proofs.Tree.Mirror
import SchemaAtlas.Proofs.Tree.Names
import SchemaAtlas.Proofs.Tree.Schemas
import SchemaAtlas.Proofs.Tree.Walk
import SchemaAtlas.Proofs.Tree.Ways
import SchemaAtlas.Proofs.Tree.Wildcards
import SchemaAtlas.Proofs.Value.Admitted
import SchemaAtlas.Proofs.Value.Meaning
import SchemaAtlas.Proofs.Workbook.Cells
import SchemaAtlas.Proofs.Workbook.Export
import SchemaAtlas.Query.Filter
import SchemaAtlas.Query.Operator
import SchemaAtlas.Query.Predicate
import SchemaAtlas.Query.Projection
import SchemaAtlas.Schema
import SchemaAtlas.SchemaUnion
import SchemaAtlas.Store.Client
import SchemaAtlas.Store.Handle
import SchemaAtlas.Store.Lookup
import SchemaAtlas.Store.Undeclared
import SchemaAtlas.Text.Blank
import SchemaAtlas.Text.Digit
import SchemaAtlas.Text.Numeral
import SchemaAtlas.Text.Printable
import SchemaAtlas.Text.Quoted
import SchemaAtlas.Text.Similarity
import SchemaAtlas.Tree.Basic
import SchemaAtlas.Tree.CollectionGroup
import SchemaAtlas.Tree.Declaration
import SchemaAtlas.Tree.DeclarationFile
import SchemaAtlas.Tree.DeclarationText
import SchemaAtlas.Tree.Inventory
import SchemaAtlas.Tree.Listing
import SchemaAtlas.Tree.Resolution
import SchemaAtlas.Tree.Traversal
import SchemaAtlas.Value.Basic
import SchemaAtlas.Value.Declared
import SchemaAtlas.Value.Graph
import SchemaAtlas.Value.Inferred
import SchemaAtlas.Value.PathInput
import SchemaAtlas.Value.Shown
import SchemaAtlas.Workbook.Basic
import SchemaAtlas.Workbook.Export
import SchemaAtlas.Workbook.Inventory
import SchemaAtlas.Workbook.Package
import SchemaAtlas.Yaml.Lexer
import SchemaAtlas.Yaml.Node
import SchemaAtlas.Yaml.Reading
import SchemaAtlas.Yaml.Scalar
import SchemaAtlas.Yaml.Source
import SchemaAtlas.Yaml.Token
import SchemaAtlas.Yaml.Type
