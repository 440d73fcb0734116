import ChainedSdk.Blueprint
import ChainedSdk.Chain.Assemble
import ChainedSdk.Chain.Candidate
import ChainedSdk.Chain.Inherit
import ChainedSdk.Chain.MethodName
import ChainedSdk.Chain.Node
import ChainedSdk.Chain.Parents
import ChainedSdk.Chain.Resolve
import ChainedSdk.Chain.WellFormed
import ChainedSdk.Command.Arguments
import ChainedSdk.Command.Run
import ChainedSdk.Config.Basic
import ChainedSdk.Config.Load
import ChainedSdk.Config.Problem
import ChainedSdk.Config.Setting
import ChainedSdk.Error
import ChainedSdk.Files.Obstacle
import ChainedSdk.Files.Path
import ChainedSdk.Files.Sources
import ChainedSdk.Files.Tree
import ChainedSdk.GraphQL.BlockText
import ChainedSdk.GraphQL.Document
import ChainedSdk.GraphQL.Lexer
import ChainedSdk.GraphQL.Parser
import ChainedSdk.GraphQL.Token
import ChainedSdk.GraphQL.TypeRef
import ChainedSdk.Json.Basic
import ChainedSdk.Json.Decimal
import ChainedSdk.Json.Reader
import ChainedSdk.Main
import ChainedSdk.Model.Basic
import ChainedSdk.Model.Extract
import ChainedSdk.Names
import ChainedSdk.Operation.Basic
import ChainedSdk.Operation.Collect
import ChainedSdk.Proofs.BestParents
import ChainedSdk.Proofs.Calls
import ChainedSdk.Proofs.ChainedValues
import ChainedSdk.Proofs.Checking
import ChainedSdk.Proofs.Conditions
import ChainedSdk.Proofs.Coverage
import ChainedSdk.Proofs.DataTypes
import ChainedSdk.Proofs.DepthBound
import ChainedSdk.Proofs.Descent
import ChainedSdk.Proofs.Documents
import ChainedSdk.Proofs.Expansion
import ChainedSdk.Proofs.Extensions
import ChainedSdk.Proofs.Extraction
import ChainedSdk.Proofs.Flattening
import ChainedSdk.Proofs.FragmentCycles
import ChainedSdk.Proofs.Generation
import ChainedSdk.Proofs.Grammar
import ChainedSdk.Proofs.Growth
import ChainedSdk.Proofs.Inheritance
import ChainedSdk.Proofs.Kinds
import ChainedSdk.Proofs.Layouts
import ChainedSdk.Proofs.Listings
import ChainedSdk.Proofs.LocalNames
import ChainedSdk.Proofs.Matching
import ChainedSdk.Proofs.Members
import ChainedSdk.Proofs.Memory
import ChainedSdk.Proofs.MethodNames
import ChainedSdk.Proofs.ModelNames
import ChainedSdk.Proofs.ModelTable
import ChainedSdk.Proofs.Operations
import ChainedSdk.Proofs.Outcomes
import ChainedSdk.Proofs.Parents
import ChainedSdk.Proofs.Placement
import ChainedSdk.Proofs.Places
import ChainedSdk.Proofs.Postorder
import ChainedSdk.Proofs.Presence
import ChainedSdk.Proofs.PrintedClasses
import ChainedSdk.Proofs.Printing
import ChainedSdk.Proofs.Readings
import ChainedSdk.Proofs.Refusals
import ChainedSdk.Proofs.Regrowth
import ChainedSdk.Proofs.Resolution
import ChainedSdk.Proofs.ResultModels
import ChainedSdk.Proofs.Retained
import ChainedSdk.Proofs.SchemaTypes
import ChainedSdk.Proofs.Sessions
import ChainedSdk.Proofs.Splits
import ChainedSdk.Proofs.Spreads
import ChainedSdk.Proofs.Tables
import ChainedSdk.Proofs.Trees
import ChainedSdk.Proofs.Visits
import ChainedSdk.Proofs.Words
import ChainedSdk.Report
import ChainedSdk.Schema.Build
import ChainedSdk.Schema.Context
import ChainedSdk.Schema.Scalar
import ChainedSdk.Schema.Type
import ChainedSdk.Sdk.Basic
import ChainedSdk.Sdk.Build
import ChainedSdk.Sdk.DataType
import ChainedSdk.Sdk.Output
import ChainedSdk.Sdk.Requester
import ChainedSdk.Sdk.Template
import ChainedSdk.Sdk.Text
import ChainedSdk.Selection.Collect
import ChainedSdk.Selection.Inline
import ChainedSdk.Table
import ChainedSdk.Text.Blank
import ChainedSdk.Text.CaseWords
import ChainedSdk.Text.Comment
import ChainedSdk.Text.ControlSequence
import ChainedSdk.Text.Escape
import ChainedSdk.Text.Letter
import ChainedSdk.Text.Letter.Alphabetic
import ChainedSdk.Text.Letter.Casing
import ChainedSdk.Text.Letter.Context
import ChainedSdk.Text.Letter.Uppercase
import ChainedSdk.Text.Numeral
import ChainedSdk.Text.Quoted
import ChainedSdk.Text.Unprintable
import ChainedSdk.Proofs.FirstParents
import ChainedSdk.Proofs.Numbering
import ChainedSdk.Proofs.Inlining
import ChainedSdk.Proofs.Acceptance
import ChainedSdk.Proofs.Provenance
import ChainedSdk.Proofs.CaseFolding
import ChainedSdk.Proofs.Collisions
import ChainedSdk.Proofs.Declarations
import ChainedSdk.Proofs.SchemaDrafts
import ChainedSdk.Proofs.SchemaClosure
import ChainedSdk.Proofs.SchemaOrder
import ChainedSdk.Proofs.Overrides
import ChainedSdk.Proofs.CommentLines
import ChainedSdk.Proofs.WordBreaks
import ChainedSdk.Proofs.TypeShapes
