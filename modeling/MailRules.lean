import MailRules.Json.Parser
import MailRules.Json.Printer
import MailRules.Decimal.Read
import MailRules.Condition.Display
import MailRules.Program.Builder
import MailRules.Report.Json
import MailRules.Session
import MailRules.Source.Basic
import MailRules.Proofs.Grammar.Basic
import MailRules.Proofs.Grammar.Words
import MailRules.Proofs.Grammar.Complete.Condition
import MailRules.Proofs.Grammar.Complete.Program
import MailRules.Proofs.Grammar.Sound.Condition
import MailRules.Proofs.Grammar.Sound.Program
import MailRules.Proofs.Grammar.Samples
import MailRules.Proofs.Grammar.Sentence
import MailRules.Proofs.Grammar.Nesting
import MailRules.Proofs.Grammar.Viable
import MailRules.Proofs.Grammar.Refusal
import MailRules.Proofs.Lockstep
import MailRules.Proofs.Grammar.Alike
import MailRules.Proofs.Grammar.Respelling
import MailRules.Proofs.Grammar.Texts
import MailRules.Proofs.Grammar.EndOfInput
import MailRules.Proofs.Lexical.Basic
import MailRules.Proofs.Lexical.Chars
import MailRules.Proofs.Lexical.Tokenize
import MailRules.Proofs.Lexical.Parts
import MailRules.Proofs.Lexical.Joining
import MailRules.Proofs.Lexical.Strings
import MailRules.Proofs.Lexical.Errors
import MailRules.Proofs.Source.Joining
import MailRules.Proofs.Source.Detection
import MailRules.Proofs.Source.Layout
import MailRules.Proofs.Text.Lower
import MailRules.Proofs.Text.Case
import MailRules.Proofs.Condition.Literal
import MailRules.Proofs.Condition.Case
import MailRules.Proofs.Routing.Run
import MailRules.Proofs.Routing.Fate
import MailRules.Proofs.Routing.Conservation
import MailRules.Proofs.Routing.Batches
import MailRules.Proofs.Routing.Resubmission
import MailRules.Proofs.Routing.Order
import MailRules.Proofs.Routing.Buckets
import MailRules.Proofs.Routing.Noninterference
import MailRules.Proofs.Routing.LastFolder
import MailRules.Proofs.Routing.Rewriting
import MailRules.Proofs.Routing.Renaming
import MailRules.Proofs.Routing.Refactoring
import MailRules.Proofs.Session.Service
import MailRules.Proofs.Json.Texts
import MailRules.Proofs.Json.Values
import MailRules.Proofs.Record.RoundTrip
import MailRules.Proofs.Schema.History
import MailRules.Proofs.Report.RoundTrip
import MailRules.Proofs.Session.History
import MailRules.Proofs.Display.Parts
import MailRules.Proofs.Display.Unambiguous
import MailRules.Proofs.Display.Reparse
import MailRules.Proofs.Display.Layered
import MailRules.Proofs.Display.Programs
import MailRules.Proofs.Program.Declared
import MailRules.Proofs.Program.Parsed
