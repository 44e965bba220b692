import AssemblyGate.Body.Basic
import AssemblyGate.Body.Code
import AssemblyGate.Body.Defect
import AssemblyGate.Body.Opcode
import AssemblyGate.Body.Verify
import AssemblyGate.Bytes
import AssemblyGate.Check
import AssemblyGate.Command.Answer
import AssemblyGate.Command.Arguments
import AssemblyGate.Command.Help
import AssemblyGate.Error
import AssemblyGate.Fallible
import AssemblyGate.Image.Basic
import AssemblyGate.Image.RuntimeHeader
import AssemblyGate.Json.Reading
import AssemblyGate.Json.Writing
import AssemblyGate.Main
import AssemblyGate.Metadata.Basic
import AssemblyGate.Metadata.Heap
import AssemblyGate.Metadata.Resolve
import AssemblyGate.Metadata.Root
import AssemblyGate.Number
import AssemblyGate.Policy.Access
import AssemblyGate.Policy.Basic
import AssemblyGate.Policy.Declaration
import AssemblyGate.Policy.Document
import AssemblyGate.Policy.Load
import AssemblyGate.Primitive
import AssemblyGate.Scan.Definitions
import AssemblyGate.Scan.Inheritance
import AssemblyGate.Scan.Members
import AssemblyGate.Scan.Outcome
import AssemblyGate.Scan.Schedule
import AssemblyGate.Scan.Types
import AssemblyGate.Signature.Basic
import AssemblyGate.Signature.Decode
import AssemblyGate.Table.Basic
import AssemblyGate.Table.Header
import AssemblyGate.Table.Layout
import AssemblyGate.Table.Row
import AssemblyGate.Text.Alphanumeric
import AssemblyGate.Text.Blank
import AssemblyGate.Text.CharWidth
import AssemblyGate.Text.Cluster
import AssemblyGate.Text.Columns
import AssemblyGate.Text.Emoji
import AssemblyGate.Text.Hex
import AssemblyGate.Text.Ligature
import AssemblyGate.Text.Utf8
import AssemblyGate.Text.Width
import AssemblyGate.Text.Wrap
import AssemblyGate.Token
import AssemblyGate.TypeExpr.Basic
import AssemblyGate.TypeExpr.Match
import AssemblyGate.TypeExpr.Spelling
import AssemblyGate.Violation
import AssemblyGate.Proofs.ControlFlow
import AssemblyGate.Proofs.Grants
import AssemblyGate.Proofs.Decoding
import AssemblyGate.Proofs.Display
import AssemblyGate.Proofs.Scopes
import AssemblyGate.Proofs.Resolution
import AssemblyGate.Proofs.Report
import AssemblyGate.Proofs.Definitions
import AssemblyGate.Proofs.Members
import AssemblyGate.Proofs.Inheritance
import AssemblyGate.Proofs.Verdict
import AssemblyGate.Proofs.Orders
import AssemblyGate.Proofs.Leaves
import AssemblyGate.Proofs.Mentions
import AssemblyGate.Proofs.Matching
import AssemblyGate.Proofs.Words
import AssemblyGate.Proofs.Declarations
import AssemblyGate.Proofs.Encoding
import AssemblyGate.Proofs.Tables
import AssemblyGate.Proofs.Histories
import AssemblyGate.Proofs.Mapping
import AssemblyGate.Proofs.Tokens
import AssemblyGate.Proofs.Listing
import AssemblyGate.Proofs.Agreement
import AssemblyGate.Proofs.NestedAccess
import AssemblyGate.Proofs.Nesting
import AssemblyGate.Proofs.BodyBytes
import AssemblyGate.Proofs.Compressed
import AssemblyGate.Proofs.Parts
import AssemblyGate.Proofs.Pieces
import AssemblyGate.Proofs.Tiling
import AssemblyGate.Proofs.Chains
import AssemblyGate.Proofs.Lockstep
import AssemblyGate.Proofs.Answers
import AssemblyGate.Proofs.Specifications
import AssemblyGate.Proofs.Collected
import AssemblyGate.Proofs.Ownership
import AssemblyGate.Proofs.Rows
import AssemblyGate.Proofs.Widths
import AssemblyGate.Proofs.MemberDeclarations
import AssemblyGate.Proofs.Blobs
import AssemblyGate.Proofs.Shapes
import AssemblyGate.Proofs.Bounds
import AssemblyGate.Proofs.Loading
