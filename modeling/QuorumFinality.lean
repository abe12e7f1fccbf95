import QuorumFinality.Bls.Basic
import QuorumFinality.Bytes.Lemmas
import QuorumFinality.Json.Quorums
import QuorumFinality.OrderedMap.Lemmas
import QuorumFinality.Report.Lists
import QuorumFinality.Proofs.MasternodeList.Forget
import QuorumFinality.Proofs.Store.History
import QuorumFinality.Proofs.Store.Lookup
import QuorumFinality.Proofs.MasternodeList.Buckets
import QuorumFinality.Proofs.Store.Latch
import QuorumFinality.Proofs.MasternodeList.Signers
import QuorumFinality.Proofs.Lock.Acceptance
import QuorumFinality.Proofs.MasternodeList.MasternodeRoot
import QuorumFinality.Proofs.MasternodeList.QuorumRoot
import QuorumFinality.Proofs.Lock.Outcome
import QuorumFinality.Proofs.Store.Window
import QuorumFinality.Proofs.Lock.Reach
import QuorumFinality.Proofs.MasternodeList.WellFormed
import QuorumFinality.Proofs.MasternodeList.DeclaredRoot
import QuorumFinality.Proofs.Quorum.Validation
import QuorumFinality.Proofs.Store.Checked
import QuorumFinality.Proofs.Wire.Decoder
import QuorumFinality.Proofs.Wire.Canonical
import QuorumFinality.Proofs.Wire.Transaction
import QuorumFinality.Proofs.Wire.Entry
import QuorumFinality.Proofs.Wire.ListDiff
import QuorumFinality.Proofs.Wire.ReadBack
import QuorumFinality.Proofs.Wire.QuorumForms
import QuorumFinality.Proofs.Lock.Forms
import QuorumFinality.Proofs.MasternodeList.Snapshot
import QuorumFinality.Proofs.Lock.Binding
import QuorumFinality.Proofs.Store.Contiguity
import QuorumFinality.Proofs.Store.Origin
import QuorumFinality.Proofs.Store.Interleaving
import QuorumFinality.Proofs.Store.Limit
import QuorumFinality.Proofs.Wire.Truncation
import QuorumFinality.Proofs.Json.MasternodeList
import QuorumFinality.Proofs.MasternodeList.Reordering
import QuorumFinality.Proofs.MasternodeList.SigningOrder
import QuorumFinality.Proofs.MasternodeList.Members
import QuorumFinality.Proofs.Quorum.Verdict
import QuorumFinality.Proofs.Store.Blocks
import QuorumFinality.Proofs.Merkle.Depth
import QuorumFinality.Proofs.Quorum.Coverage
import QuorumFinality.Proofs.Store.Tally
import QuorumFinality.Proofs.Wire.Encoder
import QuorumFinality.Proofs.Bls.Legacy
import QuorumFinality.Proofs.Wire.CompactSize
