import DiagnosticLog.Json.Printer
import DiagnosticLog.Json.Reader
import DiagnosticLog.Location.Data
import DiagnosticLog.Plain
import DiagnosticLog.Session
import DiagnosticLog.Transcript
import DiagnosticLog.Worker
import DiagnosticLog.Host
import DiagnosticLog.Proofs.Unwinding
import DiagnosticLog.Proofs.Runs
import DiagnosticLog.Proofs.Flattening
import DiagnosticLog.Proofs.Steps
import DiagnosticLog.Proofs.ErrorCount
import DiagnosticLog.Proofs.Misuse
import DiagnosticLog.Proofs.PlainView
import DiagnosticLog.Proofs.Ledger
import DiagnosticLog.Proofs.RollBack
import DiagnosticLog.Proofs.Transaction
import DiagnosticLog.Proofs.Speculation
import DiagnosticLog.Proofs.Nesting
import DiagnosticLog.Proofs.Grammar
import DiagnosticLog.Proofs.Reading
import DiagnosticLog.Proofs.Writing
import DiagnosticLog.Proofs.Arrays
import DiagnosticLog.Proofs.Escaping
import DiagnosticLog.Proofs.Compact
import DiagnosticLog.Proofs.RowData
import DiagnosticLog.Proofs.Isolation
import DiagnosticLog.Proofs.Chronology
import DiagnosticLog.Proofs.Depths
import DiagnosticLog.Proofs.Parts
import DiagnosticLog.Proofs.Transparency
import DiagnosticLog.Proofs.Echo
import DiagnosticLog.Proofs.Rebuilding
import DiagnosticLog.Proofs.Indifference
import DiagnosticLog.Proofs.Attribution
import DiagnosticLog.Proofs.Mention
import DiagnosticLog.Proofs.Lifetimes
import DiagnosticLog.Proofs.Routes
import DiagnosticLog.Proofs.Groups
import DiagnosticLog.Proofs.Removals
import DiagnosticLog.Proofs.Substitution
import DiagnosticLog.Proofs.Numbering
import DiagnosticLog.Proofs.Identity
