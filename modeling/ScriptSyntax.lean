import ScriptSyntax.Corpus.Twister
import ScriptSyntax.Expr.Walk
import ScriptSyntax.Main
import ScriptSyntax.Source.Scanner
import ScriptSyntax.Token.Stream
import ScriptSyntax.Proofs.Expr.Canonical
import ScriptSyntax.Proofs.Expr.Climbing
import ScriptSyntax.Proofs.Token.Spelling
import ScriptSyntax.Proofs.Token.Cut
import ScriptSyntax.Proofs.Expr.Source
import ScriptSyntax.Proofs.Number.Rounding
import ScriptSyntax.Proofs.Number.ReadBack
import ScriptSyntax.Proofs.Expr.Printed
import ScriptSyntax.Proofs.Expr.Stack
import ScriptSyntax.Proofs.Expr.RoundTrip
import ScriptSyntax.Proofs.Expr.Blame
import ScriptSyntax.Proofs.Expr.Earliest
import ScriptSyntax.Proofs.Expr.Grouped
import ScriptSyntax.Proofs.Token.Fault
import ScriptSyntax.Proofs.Token.Breaks
import ScriptSyntax.Proofs.Source.Places
import ScriptSyntax.Proofs.Token.Resume
import ScriptSyntax.Proofs.Source.Moved
import ScriptSyntax.Proofs.Source.Lines
import ScriptSyntax.Proofs.Expr.Layout
import ScriptSyntax.Proofs.Expr.Dump
import ScriptSyntax.Proofs.Expr.Regrouped
import ScriptSyntax.Proofs.Expr.Written
import ScriptSyntax.Proofs.Corpus.Drawn
import ScriptSyntax.Proofs.Corpus.Accepted
import ScriptSyntax.Proofs.Source.Snippet
import ScriptSyntax.Proofs.Token.Recovery
import ScriptSyntax.Proofs.Expr.Calls
import ScriptSyntax.Proofs.Command.Request
import ScriptSyntax.Proofs.Command.Files
import ScriptSyntax.Proofs.Expr.Spine
import ScriptSyntax.Proofs.Expr.Nesting
import ScriptSyntax.Proofs.Token.CutOff
import ScriptSyntax.Proofs.Expr.Parentheses
import ScriptSyntax.Proofs.Text.Escaped
import ScriptSyntax.Proofs.Number.Numeral
import ScriptSyntax.Proofs.Source.Report
import ScriptSyntax.Proofs.Command.Listing
import ScriptSyntax.Proofs.Json
import ScriptSyntax.Proofs.Expr.Json
import ScriptSyntax.Proofs.Command.Output
import ScriptSyntax.Proofs.Source.Order
import ScriptSyntax.Proofs.Run
import ScriptSyntax.Proofs.Source.Scanner
import ScriptSyntax.Proofs.Token.Stream
import ScriptSyntax.Proofs.Source.Interning
import ScriptSyntax.Proofs.Expr.Walk
