import Teller.Bearer
import Teller.Settings
import Teller.Journal.Damage
import Teller.Bank.Sessions
import Teller.Bank.Workshop
import Teller.Proofs.Rounds
import Teller.Proofs.StoreSerializability
import Teller.Proofs.Journal.Layout
import Teller.Proofs.Journal.Recovery
import Teller.Proofs.Journal.Snapshots
import Teller.Proofs.Journal.Ledger
import Teller.Proofs.Fitting
import Teller.Proofs.Shortened
import Teller.Proofs.Json.TaskRows
import Teller.Proofs.WorkAlone
import Teller.Proofs.BrokerBodies
import Teller.Proofs.QueueHistory
import Teller.Proofs.SharedBroker
import Teller.Proofs.SessionHistory
import Teller.Proofs.Attempts
import Teller.Proofs.Token.Authenticity
import Teller.Proofs.Json.Faithful
import Teller.Proofs.Unseen
import Teller.Proofs.MailDelivery
import Teller.Proofs.ContendedCall
import Teller.Proofs.Answers
import Teller.Proofs.Registry
import Teller.Proofs.Returns
import Teller.Proofs.Identities
import Teller.Proofs.Fairness
import Teller.Proofs.Delays
import Teller.Proofs.CallsAlone
import Teller.Proofs.NextTask
import Teller.Proofs.Outgrown
import Teller.Proofs.Deadlines
import Teller.Proofs.LongLeases
import Teller.Proofs.Journal.Reading
import Teller.Proofs.Journal.Salvage
import Teller.Proofs.Openings
import Teller.Proofs.Polling
import Teller.Proofs.Trimming
import Teller.Proofs.ArchiveLimits
import Teller.Proofs.Checksum
import Teller.Proofs.Journal.Canonical
import Teller.Proofs.Journal.Corruption
import Teller.Proofs.Abandoned
import Teller.Proofs.Publication
import Teller.Proofs.Numbering
import Teller.Proofs.Backlogs
import Teller.Proofs.Drains
import Teller.Proofs.Headers
import Teller.Proofs.VersionHistory
