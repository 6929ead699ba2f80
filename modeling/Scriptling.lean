import Scriptling.Number.Text
import Scriptling.Number.Numeral
import Scriptling.Number.Arithmetic
import Scriptling.Text.Utf8
import Scriptling.Text.Casing
import Scriptling.Text.Quoted
import Scriptling.Token.Scan
import Scriptling.Token.Text
import Scriptling.Report
import Scriptling.Tree.Printer
import Scriptling.Tree.Grammar
import Scriptling.Scope
import Scriptling.Store.Property
import Scriptling.Operator
import Scriptling.Session
import Scriptling.Store.Inspect
import Scriptling.Main
import Scriptling.Proofs.Steps
import Scriptling.Proofs.Current
import Scriptling.Proofs.Utf8
import Scriptling.Proofs.Lexemes
import Scriptling.Proofs.Scanning
import Scriptling.Proofs.Uses
import Scriptling.Proofs.Phrase
import Scriptling.Proofs.ReadingSteps
import Scriptling.Proofs.Reading
import Scriptling.Proofs.Numbering
import Scriptling.Proofs.Spelling
import Scriptling.Proofs.Sites
import Scriptling.Proofs.Resolution
import Scriptling.Proofs.Visiting
import Scriptling.Proofs.TakingSteps
import Scriptling.Proofs.Taking
import Scriptling.Proofs.TakingStatements
import Scriptling.Proofs.Parsing
import Scriptling.Proofs.Renaming
import Scriptling.Proofs.World
import Scriptling.Proofs.Twin
import Scriptling.Proofs.Lockstep
import Scriptling.Proofs.LockstepSteps
import Scriptling.Proofs.LockstepForms
import Scriptling.Proofs.LockstepCalls
import Scriptling.Proofs.Watch
import Scriptling.Proofs.LockstepStatements
import Scriptling.Proofs.Runs
import Scriptling.Proofs.Watching
import Scriptling.Proofs.Sessions
import Scriptling.Proofs.References
import Scriptling.Proofs.Superclass
import Scriptling.Proofs.Shifting
import Scriptling.Proofs.Renumbering
import Scriptling.Proofs.Renumbered
import Scriptling.Proofs.Refusal
import Scriptling.Proofs.Exchange
import Scriptling.Proofs.ExchangeStatements
import Scriptling.Proofs.Alpha
import Scriptling.Proofs.Statuses
import Scriptling.Proofs.Batches
import Scriptling.Proofs.Lenient
import Scriptling.Proofs.Rounds
import Scriptling.Proofs.Unrolling
import Scriptling.Proofs.Padding
import Scriptling.Proofs.UnrolledScopes
import Scriptling.Proofs.Answers
import Scriptling.Proofs.Overlay
import Scriptling.Proofs.Tandem
import Scriptling.Proofs.TandemForms
import Scriptling.Proofs.TandemStatements
import Scriptling.Proofs.TandemPrograms
import Scriptling.Proofs.Desugaring
import Scriptling.Proofs.Echoes
import Scriptling.Proofs.Soundness
import Scriptling.Proofs.Positions
import Scriptling.Proofs.Receivers
import Scriptling.Proofs.Signals
import Scriptling.Proofs.ReadingSessions
import Scriptling.Proofs.Initializers
import Scriptling.Proofs.Arguments
import Scriptling.Proofs.Depth
import Scriptling.Proofs.Expansion
import Scriptling.Proofs.FailedWrites
import Scriptling.Proofs.Mentions
import Scriptling.Proofs.OwnInitializers
import Scriptling.Proofs.Fields
import Scriptling.Proofs.Dispatch
import Scriptling.Proofs.Chains
import Scriptling.Proofs.Alike
import Scriptling.Proofs.AlikeStatements
import Scriptling.Proofs.SideBySide
import Scriptling.Proofs.Trails
import Scriptling.Proofs.Recovery
import Scriptling.Proofs.Placement
import Scriptling.Proofs.Misplaced
import Scriptling.Proofs.Widening
import Scriptling.Proofs.Distinct
import Scriptling.Proofs.FirstBindings
import Scriptling.Proofs.Doubles
import Scriptling.Proofs.Rounding
import Scriptling.Proofs.Quotients
import Scriptling.Proofs.Numerals
import Scriptling.Proofs.ShortestDecimals
import Scriptling.Proofs.NumberTexts
import Scriptling.Proofs.Printers
import Scriptling.Proofs.NodeNumbers
