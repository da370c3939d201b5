import LoxLang.CommandLine
import LoxLang.CommandLine.Arguments
import LoxLang.Diagnostic
import LoxLang.Dictionary
import LoxLang.Evaluation
import LoxLang.Files
import LoxLang.Json
import LoxLang.Machine.Basic
import LoxLang.Machine.Lines
import LoxLang.Main
import LoxLang.Number.Basic
import LoxLang.Number.Numeral
import LoxLang.Number.Rounding
import LoxLang.Number.Shortest
import LoxLang.Number.Text
import LoxLang.Proofs.Session.ControlFlow
import LoxLang.Proofs.Session.Termination
import LoxLang.Proofs.Syntax.Correctness
import LoxLang.Scope
import LoxLang.Session
import LoxLang.Store.Basic
import LoxLang.Store.Elements
import LoxLang.Store.Environment
import LoxLang.Store.Object
import LoxLang.Store.Prelude
import LoxLang.Syntax.Basic
import LoxLang.Syntax.Parsing
import LoxLang.Syntax.PrefixForm
import LoxLang.Syntax.Reference
import LoxLang.Text.Blank
import LoxLang.Text.CodePoints
import LoxLang.Text.Quoted
import LoxLang.Text.Utf8
import LoxLang.Text.Visible
import LoxLang.Token.Basic
import LoxLang.Token.Lexeme
import LoxLang.Token.Listing
import LoxLang.Value
import LoxLang.Proofs.Scope.Findings
import LoxLang.Proofs.Evaluation.Binding
import LoxLang.Proofs.Evaluation.ClassBodies
import LoxLang.Proofs.Evaluation.Methods
import LoxLang.Proofs.Evaluation.Sequel
import LoxLang.Proofs.Scope.Judgement
import LoxLang.Proofs.Session.Balance
import LoxLang.Proofs.Session.Environments
import LoxLang.Proofs.Session.Methods
import LoxLang.Proofs.Evaluation.Renaming
import LoxLang.Proofs.Scope.Renaming
import LoxLang.Proofs.Token.Joining
import LoxLang.Proofs.Session.Assignments
import LoxLang.Proofs.Session.Joining
import LoxLang.Proofs.Session.Lines
import LoxLang.Proofs.Token.Lexical
import LoxLang.Proofs.Token.Reading
import LoxLang.Proofs.Evaluation.Bracing
import LoxLang.Proofs.Session.Bracing
import LoxLang.Proofs.Session.Identities
import LoxLang.Proofs.Session.Refusal
import LoxLang.Proofs.Session.Panics
import LoxLang.Proofs.Syntax.Composition
import LoxLang.Proofs.Syntax.Omissions
import LoxLang.Proofs.Syntax.Stopping
import LoxLang.Proofs.Session.Textbook
import LoxLang.Proofs.Token.LineCounter
import LoxLang.Proofs.Token.LongestMatch
import LoxLang.Proofs.Session.Echo
import LoxLang.Proofs.Syntax.Printing
import LoxLang.Proofs.Scope.Siblings
import LoxLang.Proofs.Syntax.Gap
import LoxLang.Proofs.Session.FullSink
import LoxLang.Proofs.Token.Rescanning
import LoxLang.Proofs.Store.Nearest
import LoxLang.Proofs.Session.Arrays
import LoxLang.Proofs.Syntax.PrefixForm
import LoxLang.Proofs.Number.Listing
