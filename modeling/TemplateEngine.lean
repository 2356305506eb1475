import TemplateEngine.CommandLine.Arguments
import TemplateEngine.CommandLine.Report
import TemplateEngine.CommandLine.Run
import TemplateEngine.Dictionary
import TemplateEngine.Heap.Conversion
import TemplateEngine.Heap.Display
import TemplateEngine.Heap.Equality
import TemplateEngine.Heap.Frame
import TemplateEngine.Heap.Nesting
import TemplateEngine.Heap.Store
import TemplateEngine.Heap.Value
import TemplateEngine.Library.FileTree
import TemplateEngine.Library.Loader
import TemplateEngine.Library.Path
import TemplateEngine.Main
import TemplateEngine.Members.Accessor
import TemplateEngine.Members.Sequence
import TemplateEngine.Members.Shape
import TemplateEngine.Number.Decimal
import TemplateEngine.Number.Dyadic
import TemplateEngine.Number.Integer
import TemplateEngine.Number.Reading
import TemplateEngine.Position
import TemplateEngine.Proofs.Accessors.Kept
import TemplateEngine.Proofs.Accessors.Rules
import TemplateEngine.Proofs.Assignments.Entries
import TemplateEngine.Proofs.Assignments.OneSlot
import TemplateEngine.Proofs.Contexts.Order
import TemplateEngine.Proofs.Control.Bodies
import TemplateEngine.Proofs.Control.Exits
import TemplateEngine.Proofs.Control.Placement
import TemplateEngine.Proofs.Evaluation.Balance
import TemplateEngine.Proofs.Evaluation.Carried
import TemplateEngine.Proofs.Evaluation.Composition
import TemplateEngine.Proofs.Evaluation.Congruence
import TemplateEngine.Proofs.Evaluation.Lasting
import TemplateEngine.Proofs.Evaluation.Passages
import TemplateEngine.Proofs.Evaluation.Primitive
import TemplateEngine.Proofs.Evaluation.Termination
import TemplateEngine.Proofs.Evaluation.Unaware
import TemplateEngine.Proofs.Failures.Expressions
import TemplateEngine.Proofs.Failures.Operations
import TemplateEngine.Proofs.Failures.Regions
import TemplateEngine.Proofs.Failures.Templates
import TemplateEngine.Proofs.Fences.Actions
import TemplateEngine.Proofs.Fences.HostData
import TemplateEngine.Proofs.Fences.Operations
import TemplateEngine.Proofs.Fences.Permits
import TemplateEngine.Proofs.Fences.Primitives
import TemplateEngine.Proofs.Fences.Regions
import TemplateEngine.Proofs.Fences.Statements
import TemplateEngine.Proofs.Fences.Stores
import TemplateEngine.Proofs.Frames.Holders
import TemplateEngine.Proofs.Frames.Order
import TemplateEngine.Proofs.Frames.Reports
import TemplateEngine.Proofs.Frames.Sessions
import TemplateEngine.Proofs.Grammar.Building
import TemplateEngine.Proofs.Grammar.Expressions
import TemplateEngine.Proofs.Grammar.Lexemes
import TemplateEngine.Proofs.Grammar.Matching
import TemplateEngine.Proofs.Grammar.Meaning
import TemplateEngine.Proofs.Grammar.Phrases
import TemplateEngine.Proofs.Grammar.Refusals
import TemplateEngine.Proofs.Grammar.Sources
import TemplateEngine.Proofs.Grammar.Tags
import TemplateEngine.Proofs.Includes.Homes
import TemplateEngine.Proofs.Includes.Kept
import TemplateEngine.Proofs.Includes.Sources
import TemplateEngine.Proofs.Isolation.Cells
import TemplateEngine.Proofs.Isolation.Contexts
import TemplateEngine.Proofs.Isolation.Evaluation
import TemplateEngine.Proofs.Isolation.Growth
import TemplateEngine.Proofs.Isolation.Loading
import TemplateEngine.Proofs.Isolation.Members
import TemplateEngine.Proofs.Isolation.Operators
import TemplateEngine.Proofs.Isolation.Pairing
import TemplateEngine.Proofs.Isolation.Primitives
import TemplateEngine.Proofs.Isolation.Regions
import TemplateEngine.Proofs.Isolation.Rounds
import TemplateEngine.Proofs.Isolation.Scopes
import TemplateEngine.Proofs.Isolation.Sessions
import TemplateEngine.Proofs.Isolation.Stores
import TemplateEngine.Proofs.Isolation.Variables
import TemplateEngine.Proofs.Lexical.Actions
import TemplateEngine.Proofs.Lexical.Bodies
import TemplateEngine.Proofs.Lexical.Calls
import TemplateEngine.Proofs.Lexical.Evaluation
import TemplateEngine.Proofs.Lexical.Lockstep
import TemplateEngine.Proofs.Lexical.Names
import TemplateEngine.Proofs.Lexical.Parsing
import TemplateEngine.Proofs.Lexical.Reading
import TemplateEngine.Proofs.Lexical.Regions
import TemplateEngine.Proofs.Lexical.Rounds
import TemplateEngine.Proofs.Lexical.Values
import TemplateEngine.Proofs.Lexical.Views
import TemplateEngine.Proofs.Locks.Flags
import TemplateEngine.Proofs.Locks.Persistence
import TemplateEngine.Proofs.Loops.Budget
import TemplateEngine.Proofs.Loops.Helper
import TemplateEngine.Proofs.Loops.History
import TemplateEngine.Proofs.Loops.Items
import TemplateEngine.Proofs.MemberNames.SnakeCase
import TemplateEngine.Proofs.Nesting.Causes
import TemplateEngine.Proofs.Nesting.Flattening
import TemplateEngine.Proofs.Nesting.Reading
import TemplateEngine.Proofs.Nesting.Stages
import TemplateEngine.Proofs.Nesting.WellNested
import TemplateEngine.Proofs.Numbers.Arithmetic
import TemplateEngine.Proofs.Numbers.Conversion
import TemplateEngine.Proofs.Numbers.FloatValues
import TemplateEngine.Proofs.Numbers.Ranges
import TemplateEngine.Proofs.Numbers.Rounding
import TemplateEngine.Proofs.Output.Capturing
import TemplateEngine.Proofs.Output.Ignoring
import TemplateEngine.Proofs.Output.Nesting
import TemplateEngine.Proofs.Output.Speaking
import TemplateEngine.Proofs.Paths.Shelves
import TemplateEngine.Proofs.Paths.Walks
import TemplateEngine.Proofs.Positions.Agreement
import TemplateEngine.Proofs.Positions.Anchors
import TemplateEngine.Proofs.Positions.Blame
import TemplateEngine.Proofs.Positions.Contexts
import TemplateEngine.Proofs.Positions.Evaluation
import TemplateEngine.Proofs.Positions.Faithful
import TemplateEngine.Proofs.Positions.Nodes
import TemplateEngine.Proofs.Positions.Runs
import TemplateEngine.Proofs.Positions.Scanning
import TemplateEngine.Proofs.Positions.Sources
import TemplateEngine.Proofs.Positions.Tokens
import TemplateEngine.Proofs.Precedence.Depth
import TemplateEngine.Proofs.Precedence.Levels
import TemplateEngine.Proofs.Precedence.Sources
import TemplateEngine.Proofs.Printing.Expressions
import TemplateEngine.Proofs.Printing.Lexemes
import TemplateEngine.Proofs.Printing.Lists
import TemplateEngine.Proofs.Printing.Operands
import TemplateEngine.Proofs.Printing.Parentheses
import TemplateEngine.Proofs.Printing.Quoting
import TemplateEngine.Proofs.Printing.Scans
import TemplateEngine.Proofs.Printing.Sources
import TemplateEngine.Proofs.Printing.Trees
import TemplateEngine.Proofs.Printing.Ungrouped
import TemplateEngine.Proofs.Scoping.Rule
import TemplateEngine.Proofs.Spelling.Cursors
import TemplateEngine.Proofs.Spelling.Quotes
import TemplateEngine.Proofs.Spelling.Sources
import TemplateEngine.Proofs.Spelling.Tags
import TemplateEngine.Proofs.Suppression.Blind
import TemplateEngine.Proofs.Suppression.Outermost
import TemplateEngine.Proofs.Texts.ByteOrder
import TemplateEngine.Proofs.Texts.Sources
import TemplateEngine.Proofs.Texts.Trimming
import TemplateEngine.Proofs.Trails.Deeds
import TemplateEngine.Proofs.Trails.Sessions
import TemplateEngine.Proofs.Trails.Steps
import TemplateEngine.Proofs.Values.Display
import TemplateEngine.Proofs.Values.Equality
import TemplateEngine.Proofs.Values.Nesting
import TemplateEngine.Proofs.Values.Parts
import TemplateEngine.Proofs.Variables.ReadBack
import TemplateEngine.Proofs.Variables.Refusals
import TemplateEngine.Semantics.Builtins
import TemplateEngine.Semantics.Evaluate
import TemplateEngine.Semantics.Execute
import TemplateEngine.Semantics.Loop
import TemplateEngine.Semantics.Machine
import TemplateEngine.Semantics.Operators
import TemplateEngine.Source.Expression
import TemplateEngine.Source.Fault
import TemplateEngine.Source.Lexeme
import TemplateEngine.Source.Nesting
import TemplateEngine.Source.Parse
import TemplateEngine.Source.Piece
import TemplateEngine.Source.Precedence
import TemplateEngine.Source.Scanner
import TemplateEngine.Source.Scope
import TemplateEngine.Source.Tag
import TemplateEngine.State.Action
import TemplateEngine.State.Context
import TemplateEngine.State.Fault
import TemplateEngine.State.FramePool
import TemplateEngine.State.Output
import TemplateEngine.State.Region
import TemplateEngine.State.Scopes
import TemplateEngine.State.Stack
import TemplateEngine.State.Templates
import TemplateEngine.State.Variables
import TemplateEngine.Syntax.Expr
import TemplateEngine.Syntax.Nodes
import TemplateEngine.Syntax.Printer
import TemplateEngine.Syntax.Stmt
import TemplateEngine.Text.Blank
import TemplateEngine.Text.CaseTables
import TemplateEngine.Text.CodeRanges
import TemplateEngine.Text.LetterCase
import TemplateEngine.Text.Pattern
import TemplateEngine.Text.Printable
import TemplateEngine.Text.Quoted
import TemplateEngine.Text.SnakeCase
