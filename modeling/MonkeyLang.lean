import MonkeyLang.Main
import MonkeyLang.Proofs.Parsing.Progress
import MonkeyLang.Proofs.Parsing.Reading
import MonkeyLang.Proofs.Parsing.Accounting
import MonkeyLang.Proofs.Grammar
import MonkeyLang.Proofs.Parsing.Soundness
import MonkeyLang.Proofs.Parsing.Completeness
import MonkeyLang.Proofs.Acceptance
import MonkeyLang.Proofs.Lexing
import MonkeyLang.Proofs.Rendering
import MonkeyLang.Proofs.Parsing.Building
import MonkeyLang.Proofs.RoundTrip
import MonkeyLang.Proofs.Evaluation.Outcome
import MonkeyLang.Proofs.Evaluation.ReturnFree
import MonkeyLang.Proofs.Evaluation.Signals
import MonkeyLang.Proofs.Evaluation.History
import MonkeyLang.Proofs.Evaluation.Raising
import MonkeyLang.Proofs.Evaluation.Frame
import MonkeyLang.Proofs.Evaluation.Marker
import MonkeyLang.Proofs.Evaluation.Renaming
import MonkeyLang.Proofs.Evaluation.Closed
import MonkeyLang.Proofs.Evaluation.Agreement
import MonkeyLang.Proofs.Evaluation.Equivariance
import MonkeyLang.Proofs.Evaluation.Repetition
import MonkeyLang.Proofs.Parsing.Locality
import MonkeyLang.Proofs.Recovery
import MonkeyLang.Proofs.Lexing.Stream
import MonkeyLang.Proofs.Parsing.Trace
import MonkeyLang.Proofs.Consumption
import MonkeyLang.Proofs.Diagnosis
import MonkeyLang.Scanner
import MonkeyLang.Proofs.Lexing.Bytes
import MonkeyLang.Proofs.Lexing.Scanning
import MonkeyLang.Proofs.Lossless
import MonkeyLang.Proofs.Evaluation.Edits
import MonkeyLang.Proofs.Evaluation.Lookup
import MonkeyLang.Proofs.Environments
import MonkeyLang.Proofs.Evaluation.Lockstep
import MonkeyLang.Proofs.Evaluation.Unmentioned
import MonkeyLang.Proofs.Evaluation.Nesting
import MonkeyLang.Proofs.Evaluation.Functionless
import MonkeyLang.Proofs.Tables
import MonkeyLang.Proofs.Equality
import MonkeyLang.Proofs.Sessions
import MonkeyLang.Proofs.Evaluation.Composition
import MonkeyLang.Proofs.Evaluation.Arithmetic
import MonkeyLang.Proofs.Evaluation.Hashes
import MonkeyLang.Proofs.Arrays
import MonkeyLang.Proofs.Spacing
import MonkeyLang.Proofs.Evaluation.Derivation
import MonkeyLang.Proofs.Evaluation.Calls
import MonkeyLang.Proofs.Parsing.Fragments
import MonkeyLang.Proofs.Recursion.Fibonacci
import MonkeyLang.Proofs.Recursion.Mapping
