import TwinScript.Text.Utf8
import TwinScript.Text.Blank
import TwinScript.Text.Alphanumeric
import TwinScript.Script
import TwinScript.Json
import TwinScript.Token
import TwinScript.Keyword
import TwinScript.Cursor
import TwinScript.Gap
import TwinScript.Lexeme
import TwinScript.LexError
import TwinScript.Reader
import TwinScript.Paint
import TwinScript.Failure
import TwinScript.Highlight
import TwinScript.Completion
import TwinScript.Log
import TwinScript.Log.Directive
import TwinScript.Transcript
import TwinScript.Listing
import TwinScript.Files
import TwinScript.Options
import TwinScript.Shell
import TwinScript.Program
import TwinScript.Main
import TwinScript.Proofs.Symbols
import TwinScript.Proofs.Grammar
import TwinScript.Proofs.Gaps
import TwinScript.Proofs.Lexemes
import TwinScript.Proofs.Positions
import TwinScript.Proofs.Steps
import TwinScript.Proofs.Layout
import TwinScript.Proofs.Lookahead
import TwinScript.Proofs.Runs
import TwinScript.Proofs.FirstError
import TwinScript.Proofs.Displacement
import TwinScript.Proofs.Newlines
import TwinScript.Proofs.Sessions
import TwinScript.Proofs.Tiling
import TwinScript.Proofs.Places
import TwinScript.Proofs.Convergence
import TwinScript.Proofs.Recovery
import TwinScript.Proofs.Restarting
import TwinScript.Proofs.Respelling
import TwinScript.Proofs.Spacing
import TwinScript.Proofs.Literals
import TwinScript.Proofs.Renaming
import TwinScript.Proofs.Stability
import TwinScript.Proofs.Cutting
import TwinScript.Proofs.Lines
import TwinScript.Proofs.Printing
import TwinScript.Proofs.Piping
import TwinScript.Proofs.Highlighting
import TwinScript.Proofs.Drivers
import TwinScript.Proofs.Scanning
import TwinScript.Proofs.Counting
import TwinScript.Proofs.Bounds
import TwinScript.Proofs.Framing
import TwinScript.Proofs.JsonText
import TwinScript.Proofs.JsonLines
import TwinScript.Proofs.Accepting
import TwinScript.Proofs.Answering
import TwinScript.Proofs.LogLines
import TwinScript.Proofs.Reporting
