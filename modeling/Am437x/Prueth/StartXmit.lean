import Am437x.Prueth.Device
import Am437x.Prueth.TxRing

/-!
# The transmit entry point (`emac_ndo_start_xmit`)

The network core passes a socket buffer to the driver. With `NETDEV_TX_BUSY` it gets the buffer back and
tries again later; with every other value the driver has consumed it.
-/

namespace Am437x.Prueth

def netdevTxOk : Int := 0x00

def netXmitDrop : Int := 0x01

def netdevTxBusy : Int := 0x10

/-! ## The port -/

/-- A transmit queue with its pointers at descriptors of the ring. -/
structure TxRing (layout : BdLayout) (txqueue : QueueInfo) extends TxQueue where
  rd_ring : ∃ r < txqueue.count layout, rdPtr = txqueue.ptr layout r
  wr_ring : ∃ w < txqueue.count layout, wrPtr = txqueue.ptr layout w

/-- The port, with the fields of `struct prueth_emac` and of its net device that the function uses. -/
structure TxPort (layout : BdLayout) (txqueues : QueueId → QueueInfo) where
  link : Bool
  txIrq : Int
  queues : (i : QueueId) → TxRing layout (txqueues i)
  /-- `netif_stop_queue` has been called. -/
  stopped : Bool
  txPackets : Nat
  txBytes : Nat
  txDropped : Nat

/-- A socket buffer, with the priority in its VLAN tag if it has one. -/
structure XmitSkb extends TxSkb where
  vlanPcp : Option (Fin 8)

variable {layout : BdLayout} {txqueues : QueueId → QueueInfo}

/-- The blocks of so many bytes are free. -/
def TxRing.HasRoom {txqueue : QueueInfo} (ring : TxRing layout txqueue) (pktlen : Nat) : Prop :=
  blocksOf pktlen ≤ freeBlocks (txqueue.count layout) (txqueue.block layout ring.wrPtr)
    (txqueue.block layout ring.rdPtr)

instance {txqueue : QueueInfo} (ring : TxRing layout txqueue) : DecidablePred ring.HasRoom := fun _ =>
  inferInstanceAs (Decidable (_ ≤ _))

theorem txUpdateBlock_lt {n : Nat} (hn : 0 < n) (w b : Nat) : txUpdateBlock n w b < n := by
  unfold txUpdateBlock
  split
  · exact Nat.mod_lt _ hn
  · omega

theorem pruethTxEnqueue_ring {txqueue : QueueInfo} (env : TxEnv) (ring : TxRing layout txqueue)
    (skb : TxSkb) :
    (pruethTxEnqueue layout txqueue env ring.toTxQueue skb).queue.rdPtr = ring.rdPtr ∧
      ∃ w < txqueue.count layout,
        (pruethTxEnqueue layout txqueue env ring.toTxQueue skb).queue.wrPtr = txqueue.ptr layout w := by
  unfold pruethTxEnqueue
  split
  · exact ⟨rfl, ring.wr_ring⟩
  dsimp only
  split
  · exact ⟨rfl, ring.wr_ring⟩
  · exact ⟨rfl, _, txUpdateBlock_lt (Nat.succ_pos _) _ _, rfl⟩

/-- The queue after a call of `prueth_tx_enqueue`. -/
def TxRing.enqueue {txqueue : QueueInfo} (env : TxEnv) (ring : TxRing layout txqueue) (skb : TxSkb) :
    TxRing layout txqueue where
  toTxQueue := (pruethTxEnqueue layout txqueue env ring.toTxQueue skb).queue
  rd_ring := by
    rw [(pruethTxEnqueue_ring env ring skb).1]
    exact ring.rd_ring
  wr_ring := (pruethTxEnqueue_ring env ring skb).2

/-! ## `emac_ndo_start_xmit` -/

def emacPcpTxPriorityQueueMap (pcp : Fin 8) : QueueId :=
  [pruethQueue4, pruethQueue4, pruethQueue3, pruethQueue3, pruethQueue2, pruethQueue2, pruethQueue1,
    pruethQueue1].get pcp

/-- The queue for the priority; HSR and PRP use only two of the queues. -/
def pruethGetTxQueueId (ethType : EthType) (vlanPcp : Option (Fin 8)) : QueueId :=
  let pcp := vlanPcp.getD 0
  emacPcpTxPriorityQueueMap (if ethType.isLre then pcp / 2 else pcp)

/-- What the function returns and leaves behind. -/
structure XmitResult (layout : BdLayout) (txqueues : QueueId → QueueInfo) where
  ret : Int
  emac : TxPort layout txqueues
  /-- The data of the socket buffer, unless `eth_skb_pad` has freed it. -/
  data : Option (List UInt8)
  /-- How often the reference of the caller has been released. -/
  released : Nat
  placed : Bool

/-- The label `fail_tx`. -/
def failTx (emac : TxPort layout txqueues) (ret : Int) : Int × TxPort layout txqueues :=
  if ret = eNobufs then (netdevTxBusy, { emac with stopped := emac.stopped || 0 < emac.txIrq })
  else (netXmitDrop, { emac with txDropped := emac.txDropped + 1 })

def emacNdoStartXmit (ethType : EthType) (env : TxEnv) (emac : TxPort layout txqueues)
    (skb : XmitSkb) : XmitResult layout txqueues :=
  if emac.link = false then
    let (ret, emac) := failTx emac 0
    { ret := ret, emac := emac, data := some skb.data, released := 0, placed := false }
  else
    let qid := pruethGetTxQueueId ethType skb.vlanPcp
    let env := { env with hsr := ethType = .hsr }
    let ring := emac.queues qid
    let result := pruethTxEnqueue layout (txqueues qid) env ring.toTxQueue skb.toTxSkb
    let emac := { emac with queues := Function.update emac.queues qid (ring.enqueue env skb.toTxSkb) }
    let freed := if result.data.isNone then 1 else 0
    if result.ret ≠ 0 then
      let (ret, emac) := failTx emac result.ret
      { ret := ret, emac := emac, data := result.data, released := freed, placed := result.placed }
    else
      { ret := netdevTxOk
        emac :=
          { emac with
            txPackets := emac.txPackets + 1
            txBytes := emac.txBytes + (result.data.getD skb.data).length }
        data := result.data
        -- `dev_kfree_skb_any`
        released := freed + 1
        placed := result.placed }

/-! ## Who owns the buffer -/

/-- A buffer that is given back is as it was, and so are the queues. One that is consumed has been
released once, and is counted when its packet has been placed in a ring. -/
structure OwnedOnce (emac : TxPort layout txqueues) (skb : XmitSkb) (r : XmitResult layout txqueues) :
    Prop where
  busy : r.ret = netdevTxBusy → r.released = 0 ∧ r.data = some skb.data ∧
    ∀ i, (r.emac.queues i).toTxQueue = (emac.queues i).toTxQueue
  consumed : r.ret ≠ netdevTxBusy → r.released = 1 ∧
    r.emac.txPackets = emac.txPackets + if r.placed then 1 else 0

/-- The link is up. The packet is long enough, or it is padded and there is room for it, or it cannot be
padded and the uninitialised variable holds no value with a meaning. -/
def XmitSafe (ethType : EthType) (env : TxEnv) (emac : TxPort layout txqueues) (skb : XmitSkb) : Prop :=
  emac.link = true ∧
    (ethZlen ≤ skb.data.length ∨
      env.padOk = true ∧ (emac.queues (pruethGetTxQueueId ethType skb.vlanPcp)).HasRoom ethZlen ∨
      env.padOk = false ∧ env.uninit ≠ 0 ∧ env.uninit ≠ eNobufs)

end Am437x.Prueth
