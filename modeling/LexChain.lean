import LexChain.About
import LexChain.Category.Lookup
import LexChain.Ini.Lex
import LexChain.Sealed
import LexChain.Session.Play
import LexChain.Proofs.Comparison
import LexChain.Proofs.Tape
import LexChain.Proofs.Steps
import LexChain.Proofs.Partition
import LexChain.Proofs.Carries
import LexChain.Proofs.Ini.Grammar
import LexChain.Proofs.Ini.Calls
import LexChain.Proofs.Ini.Lexing
import LexChain.Proofs.Diagnostics
import LexChain.Proofs.Trail
import LexChain.Proofs.Loss
import LexChain.Proofs.Without
import LexChain.Proofs.Ini.Lines
import LexChain.Proofs.Ini.Ending
import LexChain.Proofs.Fuel
import LexChain.Proofs.Likeness
import LexChain.Proofs.Sequel
import LexChain.Proofs.Shift
import LexChain.Proofs.Growth
import LexChain.Proofs.AppendOnly
import LexChain.Proofs.EmissionTrace
import LexChain.Proofs.TransitionTrace
import LexChain.Proofs.Turns
import LexChain.Proofs.Log
import LexChain.Proofs.Scoping
import LexChain.Proofs.Calls
import LexChain.Proofs.Failure
import LexChain.Proofs.Wrapping
import LexChain.Proofs.Progress
import LexChain.Proofs.Locality
import LexChain.Proofs.Separation
import LexChain.Proofs.Cutting
import LexChain.Proofs.SingleSteps
import LexChain.Proofs.Expansion
import LexChain.Proofs.Lookahead
import LexChain.Proofs.OutOfRange
import LexChain.Proofs.Recovery
import LexChain.Proofs.Quotation
import LexChain.Proofs.Equality
import LexChain.Proofs.Hashing
