import Irena.Resolution.Verify
import Irena.Resolution.Expected
import Irena.Resolution.Evidence
import Irena.Resolution.Replaced
import Irena.Resolution.Demoted
import Irena.Resolution.Signers
import Irena.Resolution.Finalized
import Irena.Bornite.Monotone
import Irena.Bornite.Order
import Irena.Vote.Agreement
import Irena.Vote.Independent
import Irena.Meeting.Apart
import Irena.Meeting.Closing
import Irena.Meeting.Resumed
import Irena.Decision.Completed
import Irena.Prunella.VerifyChain
import Irena.Prunella.Merkle
import Irena.Prunella.Oracle
import Irena.Vote.Forged
import Irena.Prunella.Batch
import Irena.Prunella.StoreRuns
import Irena.Prunella.Labels
import Irena.Prunella.Strict
import Irena.Bornite.Accepts
import Irena.Resolution.Composed
import Irena.Core.Instants
import Irena.Vote.Quorum
import Irena.Core.Collections
import Irena.Vote.Offered
import Irena.Resolution.Interleaved
import Irena.Resolution.Resumed
import Irena.Resolution.Executable
import Irena.Resolution.Passing
import Irena.Resolution.Undisturbed
