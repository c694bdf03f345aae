import Workbench.Main
import Workbench.Proofs.Wire.Resync
import Workbench.Proofs.Wire.Conversation
import Workbench.Proofs.Highlight.Lexing
import Workbench.Proofs.Wire.Sent
import Workbench.Proofs.Highlight.Slice
import Workbench.Proofs.Session.Coherence
import Workbench.Proofs.Session.Snapshot
import Workbench.Proofs.Session.Quiet
import Workbench.Proofs.Session.Account
import Workbench.Proofs.Session.Surfaces
import Workbench.Proofs.Trace.Seam
import Workbench.Proofs.Wire.Kind
import Workbench.Proofs.Wire.Cut
import Workbench.Proofs.Text.Occurrence
import Workbench.Proofs.Trace.Call
import Workbench.Proofs.Trace.Literal
import Workbench.Proofs.Console.Quote
import Workbench.Proofs.Console.Agreement
import Workbench.Proofs.Text.Replace
import Workbench.Proofs.Trace.Filling
import Workbench.Proofs.Trace.Operand
import Workbench.Proofs.Highlight.Numeral
import Workbench.Proofs.Highlight.Escape
import Workbench.Proofs.Session.Caret
import Workbench.Proofs.Trace.Comment
import Workbench.Proofs.Highlight.Cover
import Workbench.Proofs.Highlight.Progress
