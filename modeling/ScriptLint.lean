import ScriptLint.Command
import ScriptLint.LogFormat
import ScriptLint.Proofs.Arena
import ScriptLint.Proofs.Findings
import ScriptLint.Proofs.Leaves
import ScriptLint.Proofs.LineBreaks
import ScriptLint.Proofs.Lines
import ScriptLint.Proofs.Nesting
import ScriptLint.Proofs.OwnName
import ScriptLint.Proofs.Partition
import ScriptLint.Proofs.Precedence
import ScriptLint.Proofs.Relayout
import ScriptLint.Proofs.Selection
import ScriptLint.Proofs.Slots
import ScriptLint.Proofs.Spans
import ScriptLint.Proofs.Independence
import ScriptLint.Proofs.Registration
import ScriptLint.Proofs.Batch
import ScriptLint.Proofs.Paths
import ScriptLint.Proofs.Routes
import ScriptLint.Proofs.Listing
import ScriptLint.Proofs.Refusal.Offset
import ScriptLint.Proofs.ScopeTree
import ScriptLint.Proofs.Grouping
import ScriptLint.Proofs.JsonText
import ScriptLint.Proofs.Lossless
import ScriptLint.Proofs.LineTable
import ScriptLint.Proofs.Discovery
import ScriptLint.Proofs.Registry
import ScriptLint.Proofs.Brackets.Lookahead
import ScriptLint.Proofs.NodeCount
