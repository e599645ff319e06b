import EtherLang.Ast.Same
import EtherLang.Highlight
import EtherLang.Main
import EtherLang.Proofs.Token.Pieces
import EtherLang.Proofs.Surface.Completeness
import EtherLang.Proofs.Surface.FirstImpossible
import EtherLang.Proofs.Ast.Join
import EtherLang.Proofs.Ast.Rejection
import EtherLang.Proofs.Ast.RoundTrip
import EtherLang.Proofs.Eval.Entries
import EtherLang.Proofs.Eval.Integrity
import EtherLang.Proofs.Eval.Irrelevance
import EtherLang.Proofs.Eval.Layout
import EtherLang.Proofs.Eval.Limits
import EtherLang.Proofs.Eval.Location
import EtherLang.Proofs.Eval.Repetition
import EtherLang.Proofs.Repl.Submission
import EtherLang.Proofs.Repl.Reset
import EtherLang.Proofs.Eval.Returns
import EtherLang.Proofs.Surface.Boundaries
import EtherLang.Proofs.Surface.Levels
import EtherLang.Proofs.Eval.Display
import EtherLang.Proofs.Highlight.Columns
import EtherLang.Proofs.Eval.Mapping
import EtherLang.Proofs.Ast.Arrows
import EtherLang.Proofs.Token.Cutting
import EtherLang.Proofs.Repl.Normalizing
import EtherLang.Proofs.Eval.Arithmetic
import EtherLang.Proofs.Eval.History
import EtherLang.Proofs.Surface.Progress
import EtherLang.Proofs.Token.Respacing
import EtherLang.Proofs.Eval.Words
