import KeyStore.Main
import KeyStore.Proofs.Failure
import KeyStore.Proofs.Expiry
import KeyStore.Proofs.Pages
import KeyStore.Proofs.Deliveries
import KeyStore.Proofs.Links
import KeyStore.Proofs.Locality
import KeyStore.Proofs.Steps
import KeyStore.Proofs.Subscriptions
import KeyStore.Proofs.Conservation
import KeyStore.Proofs.Encoding
import KeyStore.Proofs.Sessions
import KeyStore.Proofs.Kinds
import KeyStore.Proofs.Lifetimes
import KeyStore.Proofs.TimeLeft
import KeyStore.Proofs.Expirations
import KeyStore.Proofs.Frames
import KeyStore.Proofs.Cardinalities
import KeyStore.Proofs.Tallies
import KeyStore.Proofs.Rankings
import KeyStore.Proofs.Changes
import KeyStore.Proofs.Numbers
import KeyStore.Proofs.Positions
import KeyStore.Proofs.Ranges
import KeyStore.Proofs.Fields
import KeyStore.Proofs.Listings
import KeyStore.Proofs.Figures
import KeyStore.Proofs.Matching
import KeyStore.Proofs.Patterns
import KeyStore.Proofs.Renames
import KeyStore.Proofs.Algebra
import KeyStore.Proofs.Numerals
import KeyStore.Proofs.Strings
import KeyStore.Proofs.Counters
import KeyStore.Proofs.Deques
import KeyStore.Proofs.MatchAll
import KeyStore.Proofs.Clauses
import KeyStore.Proofs.Sweeps
import KeyStore.Proofs.PageCounts
import KeyStore.Proofs.Words
import KeyStore.Proofs.SmallLetters
import KeyStore.Proofs.Verbs
import KeyStore.Proofs.Settings
import KeyStore.Proofs.Holdings
import KeyStore.Proofs.Leaves
import KeyStore.Proofs.Lines
