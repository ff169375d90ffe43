import Http1.Connection
import Http1.Handler.Stock
import Http1.Settings.Toml
import Http1.Text.Column
import Http1.Proofs.Assembling
import Http1.Proofs.Serving
import Http1.Proofs.Lines
import Http1.Proofs.RoundTrip
import Http1.Proofs.Asking
import Http1.Proofs.Interruption
import Http1.Proofs.Backpressure
import Http1.Proofs.Faults
import Http1.Proofs.Persistence
import Http1.Proofs.SelfDelimiting
import Http1.Proofs.Draining
import Http1.Proofs.Language
import Http1.Proofs.Truncation
import Http1.Proofs.HeadLines
import Http1.Proofs.LineGrammar
import Http1.Proofs.Collecting
import Http1.Proofs.Halting
import Http1.Proofs.FirstSeparator
import Http1.Proofs.OptionSet
