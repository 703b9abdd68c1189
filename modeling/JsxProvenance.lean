import JsxProvenance.Annotation
import JsxProvenance.Annotation.Log
import JsxProvenance.Ast.Address
import JsxProvenance.Ast.Describe
import JsxProvenance.Ast.Node
import JsxProvenance.Ast.TagName
import JsxProvenance.Ast.Walk
import JsxProvenance.Attribute.Injection
import JsxProvenance.Attribute.Written
import JsxProvenance.CommandLine.Command
import JsxProvenance.CommandLine.Grammar
import JsxProvenance.CommandLine.Run
import JsxProvenance.Component.Discovery
import JsxProvenance.Component.Guard
import JsxProvenance.Cst.Node
import JsxProvenance.Cst.ToAst
import JsxProvenance.Decimal.Shortest
import JsxProvenance.Files.Annotate
import JsxProvenance.Files.Path
import JsxProvenance.Files.Tree
import JsxProvenance.Fragment.Aliases
import JsxProvenance.Fragment.Classify
import JsxProvenance.Log
import JsxProvenance.Main
import JsxProvenance.Options.Environment
import JsxProvenance.Options.Load
import JsxProvenance.Options.Settings
import JsxProvenance.Options.Value
import JsxProvenance.Proofs.Annotation.Attribution
import JsxProvenance.Proofs.Annotation.Counts
import JsxProvenance.Proofs.Annotation.Descent
import JsxProvenance.Proofs.Annotation.Frame
import JsxProvenance.Proofs.Annotation.FullPolicy
import JsxProvenance.Proofs.Annotation.Gains
import JsxProvenance.Proofs.Annotation.Growth
import JsxProvenance.Proofs.Annotation.Histories
import JsxProvenance.Proofs.Annotation.Idempotence
import JsxProvenance.Proofs.Annotation.IgnoreLists
import JsxProvenance.Proofs.Annotation.IgnoredComponents
import JsxProvenance.Proofs.Annotation.Ignoring
import JsxProvenance.Proofs.Annotation.LegacyPolicy
import JsxProvenance.Proofs.Annotation.Order
import JsxProvenance.Proofs.Annotation.Outline
import JsxProvenance.Proofs.Annotation.Policies
import JsxProvenance.Proofs.Annotation.PolicyAgreement
import JsxProvenance.Proofs.Annotation.Recipients
import JsxProvenance.Proofs.Annotation.Roots
import JsxProvenance.Proofs.Annotation.Runs
import JsxProvenance.Proofs.Annotation.Settled
import JsxProvenance.Proofs.Annotation.Statements
import JsxProvenance.Proofs.Annotation.Visits
import JsxProvenance.Proofs.CommandLine.InPlace
import JsxProvenance.Proofs.Component.Guard
import JsxProvenance.Proofs.Component.Placement
import JsxProvenance.Proofs.Component.RootOrder
import JsxProvenance.Proofs.Component.Roots
import JsxProvenance.Proofs.Cst.Accounting
import JsxProvenance.Proofs.Cst.Checked
import JsxProvenance.Proofs.Cst.Comments
import JsxProvenance.Proofs.Cst.Conversion
import JsxProvenance.Proofs.Cst.DottedNames
import JsxProvenance.Proofs.Cst.ElementTags
import JsxProvenance.Proofs.Cst.FileOffsets
import JsxProvenance.Proofs.Cst.Landing
import JsxProvenance.Proofs.Cst.Layout
import JsxProvenance.Proofs.Cst.Offsets
import JsxProvenance.Proofs.Cst.Orderly
import JsxProvenance.Proofs.Cst.Parentheses
import JsxProvenance.Proofs.Cst.Pipeline
import JsxProvenance.Proofs.Cst.ProgramOrder
import JsxProvenance.Proofs.Cst.Readers
import JsxProvenance.Proofs.Cst.SourceOrder
import JsxProvenance.Proofs.Cst.TypeArguments
import JsxProvenance.Proofs.Cst.Typing
import JsxProvenance.Proofs.Discovery
import JsxProvenance.Proofs.Fields.Aliases
import JsxProvenance.Proofs.Fields.AllOrNothing
import JsxProvenance.Proofs.Fields.Classify
import JsxProvenance.Proofs.Fields.Discovery
import JsxProvenance.Proofs.Fields.Injection
import JsxProvenance.Proofs.Fields.Read
import JsxProvenance.Proofs.Fields.Refusal
import JsxProvenance.Proofs.Fields.Rendering
import JsxProvenance.Proofs.Fields.Traversal
import JsxProvenance.Proofs.Files.Writing
import JsxProvenance.Proofs.Fragment.Chains
import JsxProvenance.Proofs.Options.LoadFaults
import JsxProvenance.Proofs.Options.Overrides
import JsxProvenance.Proofs.Render.AttributeText
import JsxProvenance.Proofs.Render.Lengths
import JsxProvenance.Proofs.Render.Pieces
import JsxProvenance.Proofs.Render.Reading
import JsxProvenance.Proofs.Render.Spread
import JsxProvenance.Proofs.Text.JsonString
import JsxProvenance.Proofs.Text.Positions
import JsxProvenance.Proofs.Text.SourceText
import JsxProvenance.Proofs.Text.Split
import JsxProvenance.Proofs.Tree.Elements
import JsxProvenance.Proofs.Tree.Outline
import JsxProvenance.Proofs.Tree.Preorder
import JsxProvenance.Proofs.Tree.Redraw
import JsxProvenance.Proofs.Tree.Region
import JsxProvenance.Proofs.Tree.Trail
import JsxProvenance.Proofs.Tree.Walk
import JsxProvenance.Settings
import JsxProvenance.Splice
import JsxProvenance.Text.Blank
import JsxProvenance.Text.Digit
import JsxProvenance.Text.Hex
import JsxProvenance.Text.JsonString
import JsxProvenance.Text.LetterCase
import JsxProvenance.Text.Printable
import JsxProvenance.Text.Quoted
import JsxProvenance.Text.Sorted
import JsxProvenance.Text.SourceText
import JsxProvenance.Text.Split
import JsxProvenance.Text.Utf8
import JsxProvenance.Traversal
import JsxProvenance.Tsx.Grammar.Bindings
import JsxProvenance.Tsx.Grammar.Elements
import JsxProvenance.Tsx.Grammar.Expressions
import JsxProvenance.Tsx.Grammar.Functions
import JsxProvenance.Tsx.Grammar.Modules
import JsxProvenance.Tsx.Grammar.Nonterminal
import JsxProvenance.Tsx.Grammar.Statements
import JsxProvenance.Tsx.Grammar.Types
import JsxProvenance.Tsx.Parser
import JsxProvenance.Tsx.Source
import JsxProvenance.Tsx.Text
import JsxProvenance.Yaml.Node
import JsxProvenance.Yaml.Read
import JsxProvenance.Yaml.Scalar
import JsxProvenance.Yaml.Scanner
import JsxProvenance.Yaml.Tag
import JsxProvenance.Yaml.Token
import JsxProvenance.Yaml.Tokens
