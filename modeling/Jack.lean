import Jack.Text.Range
import Jack.Text.Letter
import Jack.Text.Digit
import Jack.Text.Printable
import Jack.Text.Quoted
import Jack.Text.Markup
import Jack.Text.Lines
import Jack.Key
import Jack.Token.Basic
import Jack.Fault
import Jack.Token.Reading
import Jack.Token.Scanner
import Jack.Bindings
import Jack.Vm.Instr
import Jack.Names.Category
import Jack.Names.Table
import Jack.Names.Ledger
import Jack.Tree
import Jack.Token.Listing
import Jack.Compiler.Basic
import Jack.Compiler.Lookup
import Jack.Compiler.Expression
import Jack.Compiler.Statement
import Jack.Compiler.Class
import Jack.Compiler.Textual
import Jack.Files
import Jack.Command
import Jack.Main
import Jack.Proofs.Scope
import Jack.Proofs.Recognition.Class
import Jack.Proofs.Braces
import Jack.Proofs.Acceptance.Expression
import Jack.Proofs.Acceptance.Statement
import Jack.Proofs.Machine
import Jack.Proofs.Meaning
import Jack.Proofs.Declarations
import Jack.Proofs.Simulation.Expression
import Jack.Proofs.Simulation.Statement
import Jack.Proofs.Labels
import Jack.Proofs.Heights
import Jack.Proofs.Completeness
import Jack.Proofs.Nesting
import Jack.Proofs.Terminals
import Jack.Proofs.Jumps
import Jack.Proofs.Calls.Routines
import Jack.Proofs.Pairs.Basic
import Jack.Proofs.Pairs.Routines
import Jack.Proofs.History
import Jack.Proofs.Order
import Jack.Proofs.Variables
import Jack.Proofs.Locations
import Jack.Proofs.Prologues
import Jack.Proofs.Bounds
import Jack.Proofs.Undeclared
import Jack.Proofs.Callees
import Jack.Proofs.TokenInjectivity
import Jack.Proofs.CallForms
import Jack.Proofs.Legality
import Jack.Proofs.Termination.Class
import Jack.Proofs.Filing.Basic
import Jack.Proofs.Filing.Class
import Jack.Proofs.Consistency
import Jack.Proofs.OtherClasses
import Jack.Proofs.Sizes
import Jack.Proofs.StringConstants
import Jack.Proofs.Replacement
import Jack.Proofs.Escaping
import Jack.Proofs.Insertions
import Jack.Proofs.Conditions
import Jack.Proofs.Journal
import Jack.Proofs.Outputs
