import TriangleTam.Check
import TriangleTam.Check.Basic
import TriangleTam.Check.Cmd
import TriangleTam.Check.Decl
import TriangleTam.Check.Error
import TriangleTam.Check.Expr
import TriangleTam.Check.Suggest
import TriangleTam.CommandLine
import TriangleTam.CommandLine.Command
import TriangleTam.CommandLine.Flag
import TriangleTam.CommandLine.Help
import TriangleTam.CommandLine.Request
import TriangleTam.Compilation
import TriangleTam.Data
import TriangleTam.Data.Json
import TriangleTam.Diagnostics
import TriangleTam.Environment
import TriangleTam.File
import TriangleTam.File.Directory
import TriangleTam.Generate
import TriangleTam.Generate.Expr
import TriangleTam.Generate.Fault
import TriangleTam.Machine.Instruction
import TriangleTam.Machine.Primitive
import TriangleTam.Main
import TriangleTam.Meaning
import TriangleTam.Parser
import TriangleTam.Parser.Basic
import TriangleTam.Parser.Cmd
import TriangleTam.Parser.Decl
import TriangleTam.Parser.Expr
import TriangleTam.Parser.Text
import TriangleTam.Pos
import TriangleTam.Proofs.Check.Declarations
import TriangleTam.Proofs.Check.Expressions
import TriangleTam.Proofs.Check.Scoped
import TriangleTam.Proofs.Check.Typing
import TriangleTam.Proofs.Compilation
import TriangleTam.Proofs.Generate.Evaluation
import TriangleTam.Proofs.Generate.Preservation
import TriangleTam.Proofs.Generate.Stack
import TriangleTam.Proofs.Generate.Translation
import TriangleTam.Proofs.Grammar
import TriangleTam.Proofs.Machine.Run
import TriangleTam.Proofs.Parser.Completeness
import TriangleTam.Proofs.Parser.Dispatch
import TriangleTam.Proofs.Parser.ErrorNodes
import TriangleTam.Proofs.Parser.Intact
import TriangleTam.Proofs.Parser.Lenient
import TriangleTam.Proofs.Parser.Limit
import TriangleTam.Proofs.Parser.Moves
import TriangleTam.Proofs.Parser.Quiet
import TriangleTam.Proofs.Parser.Recovery
import TriangleTam.Proofs.Parser.ReportOrder
import TriangleTam.Proofs.Parser.Sequences
import TriangleTam.Proofs.Parser.Simulation
import TriangleTam.Proofs.Parser.Soundness
import TriangleTam.Proofs.Parser.Step
import TriangleTam.Proofs.Parser.Terminals
import TriangleTam.Proofs.Parser.Termination
import TriangleTam.Proofs.Platform
import TriangleTam.Proofs.Semantics
import TriangleTam.Proofs.Text.Glyph
import TriangleTam.Proofs.Token.Lossless
import TriangleTam.Proofs.Token.Scanner
import TriangleTam.Proofs.Tree.Nodes
import TriangleTam.Proofs.Typing
import TriangleTam.Scope
import TriangleTam.Settings
import TriangleTam.Settings.Document
import TriangleTam.Settings.Load
import TriangleTam.Source
import TriangleTam.Storage
import TriangleTam.SymbolTable
import TriangleTam.Text.Base64
import TriangleTam.Text.CodePoint
import TriangleTam.Text.Decimal
import TriangleTam.Text.EditDistance
import TriangleTam.Text.Glyph
import TriangleTam.Text.Integer
import TriangleTam.Text.Letter
import TriangleTam.Text.LowerCase
import TriangleTam.Text.Printable
import TriangleTam.Text.Quoted
import TriangleTam.Text.Template
import TriangleTam.Token
import TriangleTam.Token.Scanner
import TriangleTam.Tree
import TriangleTam.Tree.Export
import TriangleTam.Tree.Format
import TriangleTam.Tree.Outline
import TriangleTam.Tree.Traverse
import TriangleTam.Tree.Value
import TriangleTam.Tree.Walk
import TriangleTam.Ty
import TriangleTam.Yaml.Cursor
import TriangleTam.Yaml.Fault
import TriangleTam.Yaml.Lexer
import TriangleTam.Yaml.Lexer.Tag
import TriangleTam.Yaml.Lexer.Text
import TriangleTam.Yaml.Node
import TriangleTam.Yaml.Scalar
import TriangleTam.Yaml.Tag
import TriangleTam.Yaml.Token
import TriangleTam.Yaml.Writer
import TriangleTam.Proofs.Check.Annotations
import TriangleTam.Proofs.Parser.Bare
import TriangleTam.Proofs.Check.Layout
import TriangleTam.Proofs.Check.Scoping
import TriangleTam.Proofs.Check.Places
import TriangleTam.Proofs.Machine.Effect
import TriangleTam.Proofs.Generate.Depth
import TriangleTam.Proofs.Generate.Discipline
import TriangleTam.Proofs.Check.Pruning
import TriangleTam.Proofs.Check.Cascade
import TriangleTam.Proofs.Check.Resolved
import TriangleTam.Proofs.Generate.Safety
import TriangleTam.Proofs.Generate.Truth
import TriangleTam.Proofs.Generate.Literals
import TriangleTam.Proofs.Generate.Relocation
import TriangleTam.Proofs.SymbolTable
import TriangleTam.Proofs.Check.Relabelled
import TriangleTam.Proofs.Generate.Relabelled
import TriangleTam.Proofs.Renaming
import TriangleTam.Proofs.Token.Respaced
import TriangleTam.Proofs.Parser.Moved
import TriangleTam.Proofs.Respacing
import TriangleTam.Proofs.Token.Lines
import TriangleTam.Proofs.Token.Classes
import TriangleTam.Proofs.Parser.WalkOrder
import TriangleTam.Proofs.Spans
import TriangleTam.Proofs.Parser.FirstTokens
import TriangleTam.Proofs.Check.Again
import TriangleTam.Proofs.Text.Order
import TriangleTam.Proofs.Text.EditDistance
import TriangleTam.Proofs.Scope
import TriangleTam.Proofs.ScopeTree
import TriangleTam.Proofs.Tree.Openers
import TriangleTam.Proofs.Check.Frames
import TriangleTam.Proofs.Visible
import TriangleTam.Proofs.Check.Suggestions
import TriangleTam.Proofs.Text.Decimal
import TriangleTam.Proofs.IntegerLiterals
import TriangleTam.Proofs.Machine.Listing
import TriangleTam.Proofs.Generate.Listing
import TriangleTam.Proofs.Tree.Export
import TriangleTam.Proofs.Export
