import Abacus.Text.Basic
import Abacus.Text.Utf8
import Abacus.Text.Printable
import Abacus.Text.Quote
import Abacus.Text.Digit
import Abacus.Syntax.Token
import Abacus.Syntax.Scan
import Abacus.Syntax.Group
import Abacus.Syntax.Words
import Abacus.Program.Source
import Abacus.Fault
import Abacus.Program.Table
import Abacus.Program.Basic
import Abacus.Program.Grammar
import Abacus.Program.Samples
import Abacus.Semantics.Tree
import Abacus.Semantics.BigStep
import Abacus.Machine.Basic
import Abacus.Machine.Step
import Abacus.Machine.Session
import Abacus.Machine.Walk
import Abacus.Cli.Options
import Abacus.Cli.Files
import Abacus.Cli.Command
import Abacus.Main
import Abacus.Proofs.Lexemes
import Abacus.Proofs.Table
import Abacus.Proofs.Shape
import Abacus.Proofs.History
import Abacus.Proofs.Body
import Abacus.Proofs.Exec
import Abacus.Proofs.Simulation
import Abacus.Proofs.Adequacy
import Abacus.Proofs.Words
import Abacus.Proofs.GroupClose
import Abacus.Proofs.Settings
import Abacus.Proofs.Arrangement
import Abacus.Proofs.Samples
import Abacus.Proofs.Termination
import Abacus.Proofs.CallTrace
import Abacus.Proofs.Matching
