import Am437x.Prueth.Rx

/-!
# The NAPI poll (`emac_napi_poll`)

The network core calls the poll with a budget of packets. A poll that returns less than the budget has
said that it is finished, and the interrupt is enabled again.
-/

namespace Am437x.Prueth.Rx

/-- What a poll returns and leaves behind; the flag says whether `emac_finish_napi` is called. -/
structure NapiPoll where
  ret : Int
  finished : Bool
  rx : RxState

def emacNapiPoll (ethType : EthType) (cfg : RxConfig) (env : RxEnv) (polling : Port) (budget : Int)
    (host : HostQueues) (stats : Port → NetStats) : NapiPoll :=
  let (numRxPackets, rx) := emacRxPackets ethType cfg env polling budget host stats
  { ret := numRxPackets, finished := numRxPackets < budget, rx := rx }

/-! ## The contract of a poll -/

/-- The packets that `emac_rx_packet` has handled. -/
def RxState.handled (s : RxState) : Nat := s.calls.countP (·.ret = 0)

/-- The packet of the call is still at the read pointer of its queue, with its descriptor. -/
def RxCall.Kept (call : RxCall) (host : HostQueues) : Prop :=
  (host.queueDescs call.queue).rdPtr = call.bdRdPtr ∧ host.sharedRam call.bdRdPtr = call.rdBufDesc

/-- The loop over a queue is always left within its limit, with any pointers. -/
def QueueLoopsLeft (ethType : EthType) (cfg : RxConfig) (env : RxEnv) (polling : Port) (budget : Int) :
    Prop :=
  ∀ i bdWrPtr bdRdPtr s, ∃ e, queueLoop ethType cfg env polling budget i bdWrPtr bdRdPtr s = .left e

structure PollContract (budget : Int) (poll : NapiPoll) : Prop where
  nonneg : 0 ≤ poll.ret
  le_budget : poll.ret ≤ budget
  counted : poll.ret = poll.rx.handled
  finished : poll.finished = true ↔ (poll.rx.handled : Int) < budget
  kept : ∀ call ∈ poll.rx.calls, call.ret ≠ 0 → call.Kept poll.rx.host

/-- The packets that a poll handles when every socket buffer is allocated. -/
def offeredPackets (ethType : EthType) (cfg : RxConfig) (polling : Port) (budget : Int)
    (host : HostQueues) : Nat :=
  (scanPackets ethType cfg (fun _ => true) polling budget host).2.used

/-- A socket buffer is allocated for each of these. -/
def AllocsSucceed (ethType : EthType) (cfg : RxConfig) (allocOk : Nat → Bool) (polling : Port)
    (budget : Int) (host : HostQueues) : Prop :=
  ∀ k < offeredPackets ethType cfg polling budget host, allocOk k = true

instance (ethType : EthType) (cfg : RxConfig) (allocOk : Nat → Bool) (polling : Port) (budget : Int)
    (host : HostQueues) : Decidable (AllocsSucceed ethType cfg allocOk polling budget host) :=
  inferInstanceAs (Decidable (∀ _ < _, _))

end Am437x.Prueth.Rx
