import GridFormula.ArgTree.Analysis
import GridFormula.ArgTree.Basic
import GridFormula.ArgTree.Leaves
import GridFormula.ArgTree.Outline
import GridFormula.ArgTree.Parse
import GridFormula.ArgTree.Path
import GridFormula.ArgTree.Slice
import GridFormula.ArgTree.Zip
import GridFormula.Context
import GridFormula.Env
import GridFormula.Error
import GridFormula.Evaluation
import GridFormula.Expr.Basic
import GridFormula.Expr.Chain
import GridFormula.Expr.Compile
import GridFormula.Expr.Equality
import GridFormula.Expr.Fold
import GridFormula.Expr.Induction
import GridFormula.Expr.Leaf
import GridFormula.Expr.Nodes
import GridFormula.Expr.Parse
import GridFormula.Expr.Print
import GridFormula.Expr.Progress
import GridFormula.Grid
import GridFormula.Json.Basic
import GridFormula.Json.Read
import GridFormula.Json.Record
import GridFormula.Json.Write
import GridFormula.Leaf
import GridFormula.Level
import GridFormula.Lexeme
import GridFormula.Number.Arithmetic
import GridFormula.Number.Basic
import GridFormula.Number.Decimal
import GridFormula.Number.Notation
import GridFormula.Number.Reading
import GridFormula.Number.Rounding
import GridFormula.Number.Shortest
import GridFormula.Operator
import GridFormula.Proofs.Arguments
import GridFormula.Proofs.Balance
import GridFormula.Proofs.Blame
import GridFormula.Proofs.Cells
import GridFormula.Proofs.Chains
import GridFormula.Proofs.Folding
import GridFormula.Proofs.FullSplit
import GridFormula.Proofs.Grammar
import GridFormula.Proofs.Meaning
import GridFormula.Proofs.Nesting
import GridFormula.Proofs.Numerals
import GridFormula.Proofs.Openers
import GridFormula.Proofs.Outline
import GridFormula.Proofs.Phrases
import GridFormula.Proofs.Printing
import GridFormula.Proofs.Reading
import GridFormula.Proofs.RoundTrip
import GridFormula.Proofs.Shape
import GridFormula.Proofs.Spelling
import GridFormula.Proofs.Unlimited
import GridFormula.Proofs.Words
import GridFormula.Scan.Match
import GridFormula.Scan.Pieces
import GridFormula.Scan.State
import GridFormula.Span
import GridFormula.Template
import GridFormula.Text.Blank
import GridFormula.Text.CodeRange
import GridFormula.Text.Extender
import GridFormula.Text.Hidden
import GridFormula.Text.Letter
import GridFormula.Text.Numeral
import GridFormula.Text.Quoted
import GridFormula.Text.Utf8
import GridFormula.Token
import GridFormula.TokenStream
import GridFormula.Value
import GridFormula.Proofs.Constants
import GridFormula.Proofs.Settling
import GridFormula.Proofs.Joining
import GridFormula.Proofs.Gathering
import GridFormula.Proofs.Acceptance
import GridFormula.Proofs.CallArguments
import GridFormula.Proofs.Safety
import GridFormula.Proofs.Parts
import GridFormula.Proofs.Layers
import GridFormula.Proofs.Collecting
import GridFormula.Proofs.FieldNames
import GridFormula.Proofs.Members
import GridFormula.Proofs.Items
import GridFormula.Proofs.Matching
import GridFormula.Proofs.Tokenizer
import GridFormula.Proofs.Wording
import GridFormula.Proofs.Literals
import GridFormula.Proofs.Depth
import GridFormula.Proofs.JoinedTexts
import GridFormula.Proofs.Flattening
import GridFormula.Proofs.Optimizing
import GridFormula.Proofs.Slices
import GridFormula.Proofs.CellNames
import GridFormula.Proofs.TextLiterals
import GridFormula.Proofs.Templates
import GridFormula.Proofs.NestedOptions
import GridFormula.Proofs.Quotations
import GridFormula.Proofs.FlatLists
import GridFormula.Proofs.Comparisons
import GridFormula.Proofs.WordRows
import GridFormula.Proofs.Spacing
import GridFormula.Proofs.Matching
