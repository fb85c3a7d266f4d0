import Am437x.Lib.Loops
import Am437x.Prueth.RxPacket

/-!
# The receive loops (`emac_rx_packets`)

The poll of a port takes packets from the host queues and hands each to `emac_rx_packet` with the port
that it is credited to. In EMAC mode each port has two host queues of its own. In switch mode both ports
share the four queues, and the poll of one port takes packets from all of them.
-/

namespace Am437x.Prueth.Rx

open Flat Loops

def eNoMem : Int := 12

def ethAlen : Nat := 6

def ethP8021q : Nat := 0x8100

/-- `port_id` -/
def portId : Port → Nat
  | .mii0 => 1
  | .mii1 => 2

/-! ## The device and the driver -/

/-- What else a poll depends on. -/
structure RxEnv where
  /-- Whether a socket buffer is allocated for the packet, when so many have been used. -/
  allocOk : Nat → Bool
  /-- What this socket buffer holds before the packet is copied to it. -/
  skb : Nat → Memory UInt8
  ptpRxTsEnabled : Port → Bool
  offloadFwdMark : Port → Bool
  /-- `prp_tr_mode` is `IEC62439_3_TR_REMOVE_RCT`. -/
  removeRct : Bool
  /-- Whether `prueth_hsr_ptp_ct_tx_ts_enqueue` keeps the packet, with these data and this type. -/
  ctKept : Port → List UInt8 → Nat → Bool

structure QueueDesc where
  rdPtr : Nat
  wrPtr : Nat
  overflowCnt : Nat
  deriving DecidableEq, Repr

/-- The counters of a net device. -/
structure NetStats where
  rxBytes : Nat
  rxPackets : Nat
  rxLengthErrors : Nat
  rxOverErrors : Nat
  deriving DecidableEq, Repr

/-- A packet sent up the stack by the net device of a port. -/
structure RxSkb where
  ndev : Port
  data : List UInt8
  offloadFwdMark : Bool
  hwtstamp : Option (List UInt8)
  deriving DecidableEq, Repr

/-- A call of `prueth_lre_nt_insert`. -/
structure NtInsert where
  macid : List UInt8
  port : Port
  svFrame : Bool
  /-- `LRE_PROTO_PRP` or `LRE_PROTO_HSR` -/
  proto : EthType
  deriving DecidableEq, Repr

/-- A call of `emac_rx_packet`, for the packet with this descriptor at the read pointer of a queue. -/
structure RxCall where
  queue : QueueId
  bdRdPtr : Nat
  rdBufDesc : BitVec 32
  ret : Int
  deriving DecidableEq, Repr

/-- What the device holds for the host. -/
structure HostQueues where
  ocmc : Memory UInt8
  /-- The descriptors. -/
  sharedRam : Memory (BitVec 32)
  queueDescs : QueueId → QueueDesc

structure RxState where
  host : HostQueues
  /-- The variable `emac`. -/
  emac : Port
  used : Nat
  stats : Port → NetStats
  /-- The packets passed to `emac_rx_packet` so far. -/
  passed : List (Port × PacketInfo)
  /-- The calls of `emac_rx_packet` that have returned. -/
  calls : List RxCall
  received : List RxSkb
  /-- The calls of `prueth_sw_learn_fdb`. -/
  learned : List (Port × List UInt8)
  ntInserted : List NtInsert

def RxState.start (polling : Port) (host : HostQueues) (stats : Port → NetStats) : RxState where
  host := host
  emac := polling
  used := 0
  stats := stats
  passed := []
  calls := []
  received := []
  learned := []
  ntInserted := []

def RxState.addStats (s : RxState) (p : Port) (f : NetStats → NetStats) : RxState :=
  { s with stats := Function.update s.stats p (f (s.stats p)) }

def RxState.record (s : RxState) (call : RxCall) : RxState := { s with calls := s.calls ++ [call] }

/-! ## `emac_rx_packet` -/

/-- The type field of a frame. -/
def typeField (cfg : RxConfig) (data : List UInt8) : Nat :=
  (data.getD cfg.ethTypeOffset 0).toNat * 256 + (data.getD (cfg.ethTypeOffset + 1) 0).toNat

/-- The node table is updated from the address in the frame, in HSR and PRP mode. -/
def insertNode (cfg : RxConfig) (ethType : EthType) (emac : Port) (pktInfo : PacketInfo)
    (data : List UInt8) : List NtInsert :=
  let offset := if typeField cfg data = ethP8021q then 4 else 0
  let macid (start : Nat) := (data.drop start).take icssLreTagRctSize
  if !pktInfo.lookupSuccess ∨ !cfg.rev21 then
    match ethType with
    | .prp =>
      [{ macid := macid (if pktInfo.svFrame then cfg.lreSvFrameOffset + offset else icssLreTagRctSize)
         port := emac, svFrame := pktInfo.svFrame, proto := .prp }]
    | .hsr =>
      if pktInfo.svFrame then
        [{ macid := macid (cfg.lreSvFrameOffset + offset), port := emac, svFrame := true,
           proto := .hsr }]
      else []
    | .emac | .switch => []
  else []

/-- The end of `emac_rx_packet` for a frame that is not a supervision frame. -/
def deliver (cfg : RxConfig) (env : RxEnv) (ethType : EthType) (emac : Port) (pktInfo : PacketInfo)
    (data ts : List UInt8) (s : RxState) : RxState :=
  let stamped := env.ptpRxTsEnabled emac && pktInfo.timestamp
  let s := { s with
    learned := if ethType = .switch ∧ !pktInfo.lookupSuccess then
        s.learned ++ [(emac, (data.drop ethAlen).take ethAlen)]
      else s.learned }
  if stamped ∧ ethType = .hsr ∧ env.ctKept emac data (typeField cfg data) then s
  else
    let skb : RxSkb :=
      { ndev := emac
        data := data
        offloadFwdMark := ethType = .switch ∧ env.offloadFwdMark emac
        hwtstamp := if stamped then some ts else none }
    { s with received := s.received ++ [skb] }

/-- The call for the port `emac`: what it returns, the new read pointer, and the state. -/
def emacRxPacket (cfg : RxConfig) (env : RxEnv) (ethType : EthType) (emac : Port)
    (rxqueue : QueueInfo) (pktInfo : PacketInfo) (bdRdPtr : Nat) (s : RxState) : Int × Nat × RxState :=
  let s := { s with passed := s.passed ++ [(emac, pktInfo)] }
  let update := updateRdPtr cfg rxqueue pktInfo bdRdPtr
  if env.allocOk s.used = false then (-eNoMem, update, s)
  else
    let copy := copyPacket cfg ethType rxqueue pktInfo bdRdPtr
    let data := copy.data s.host.ocmc (env.skb s.used)
    let ts := copyTimestamp cfg s.host.ocmc copy.srcAddr
    let actual := strippedPktLen ethType env.removeRct pktInfo
    let s := { s with ntInserted := s.ntInserted ++ insertNode cfg ethType emac pktInfo data }
    let s := if pktInfo.svFrame then s
      else deliver cfg env ethType emac pktInfo (data.take actual) ts s
    (0, update, s.addStats emac fun stats =>
      { stats with rxBytes := stats.rxBytes + actual, rxPackets := stats.rxPackets + 1 })

/-! ## `emac_rx_packets` -/

/-- `writel(0, shared_ram + bd_rd_ptr)` and `writew(update_rd_ptr, &queue_desc->rd_ptr)` -/
def HostQueues.advance (h : HostQueues) (i : QueueId) (bdRdPtr update : Nat) : HostQueues :=
  { h with
    sharedRam := Function.update h.sharedRam bdRdPtr 0
    queueDescs := Function.update h.queueDescs i { h.queueDescs i with rdPtr := update } }

/-- `overflow_cnt` is reset when it has been counted. -/
def HostQueues.clearOverflow (h : HostQueues) (i : QueueId) : HostQueues :=
  { h with
    queueDescs := Function.update h.queueDescs i { h.queueDescs i with overflowCnt := 0 } }

/-- Packets that the firmware has dropped are counted for the net device of `emac`. -/
def RxState.countOverflow (s : RxState) (i : QueueId) : RxState :=
  let overflowCnt := (s.host.queueDescs i).overflowCnt
  if 0 < overflowCnt then
    { s.addStats s.emac fun stats => { stats with rxOverErrors := stats.rxOverErrors + overflowCnt } with
      host := s.host.clearOverflow i }
  else s

/-- How the loop over one queue ends: with the queue empty, or with a `return`. -/
inductive QueueExit (σ : Type*) where
  | drained (s : σ)
  | returned (ret : Int) (s : σ)

/-- The end of a turn, from the clearing of the descriptor on. -/
def finishTurn (quota : Int) (i : QueueId) (bdRdPtr update : Nat) (s : RxState) :
    Turn (RxState × Nat) (QueueExit RxState) :=
  let s := { s with host := s.host.advance i bdRdPtr update }
  if quota ≤ s.used then .left (.returned s.used s) else .again (s, update)

/-- The queue of the protocol mode. -/
def RxConfig.rxqueue (cfg : RxConfig) (ethType : EthType) (i : QueueId) : QueueInfo :=
  if ethType = .switch then cfg.swQueueInfos i else cfg.queueInfos i

/-- One turn of `while (bd_rd_ptr != bd_wr_ptr)`. -/
def queueTurn (ethType : EthType) (cfg : RxConfig) (env : RxEnv) (polling : Port) (quota : Int)
    (i : QueueId) (bdWrPtr : Nat) (loopState : RxState × Nat) (_ : Unit) :
    Turn (RxState × Nat) (QueueExit RxState) :=
  let (s, bdRdPtr) := loopState
  let otherEmac := otherPort polling
  if bdRdPtr = bdWrPtr then .left (.drained s)
  else
    let rdBufDesc := s.host.sharedRam bdRdPtr
    let pktInfo := parsePacketInfo ethType cfg.layout rdBufDesc
    if BadLength cfg pktInfo then
      finishTurn quota i bdRdPtr bdWrPtr (s.addStats polling fun stats =>
        { stats with rxLengthErrors := stats.rxLengthErrors + 1 })
    else
      let emac := if ethType = .switch ∧ pktInfo.port = portId otherEmac then otherEmac else s.emac
      let (ret, update, s) := emacRxPacket cfg env ethType emac (cfg.rxqueue ethType i) pktInfo bdRdPtr
        { s with emac := emac }
      let s := s.record { queue := i, bdRdPtr := bdRdPtr, rdBufDesc := rdBufDesc, ret := ret }
      if ret ≠ 0 then .left (.returned ret s)
      else finishTurn quota i bdRdPtr update { s with used := s.used + 1 }

/-- How many turns the loop over one queue can make. -/
def turnLimit (quota : Int) (used : Nat) : Nat := (quota - used).toNat + 2

/-- The loop over one queue from a read pointer, up to the limit. -/
def queueLoop (ethType : EthType) (cfg : RxConfig) (env : RxEnv) (polling : Port) (quota : Int)
    (i : QueueId) (bdWrPtr bdRdPtr : Nat) (s : RxState) : Turn (RxState × Nat) (QueueExit RxState) :=
  loop (queueTurn ethType cfg env polling quota i bdWrPtr) (s, bdRdPtr)
    (List.replicate (turnLimit quota s.used) ())

/-- One queue. The loop is always left within the limit. -/
def rxQueue (ethType : EthType) (cfg : RxConfig) (env : RxEnv) (polling : Port) (quota : Int)
    (s : RxState) (i : QueueId) : Turn RxState (Int × RxState) :=
  let queueDesc := s.host.queueDescs i
  let s := s.countOverflow i
  match queueLoop ethType cfg env polling quota i queueDesc.wrPtr queueDesc.rdPtr s with
  | .left (.drained s) => .again s
  | .left (.returned ret s) => .left (ret, s)
  | .again (s, _) => .again s

/-- The queues from `start_queue` to `end_queue`; `prueth_netdev_init` has set those of a port. -/
def queueIds (ethType : EthType) (polling : Port) : List QueueId :=
  if ethType = .switch then [pruethQueue1, pruethQueue2, pruethQueue3, pruethQueue4]
  else
    match polling with
    | .mii0 => [pruethQueue1, pruethQueue2]
    | .mii1 => [pruethQueue3, pruethQueue4]

/-- The poll of the port `polling`: the value returned, and the state. -/
def emacRxPackets (ethType : EthType) (cfg : RxConfig) (env : RxEnv) (polling : Port) (quota : Int)
    (host : HostQueues) (stats : Port → NetStats) : Int × RxState :=
  match loop (rxQueue ethType cfg env polling quota) (.start polling host stats)
      (queueIds ethType polling) with
  | .left (ret, s) => (ret, s)
  | .again s => (s.used, s)

/-! ## The packets in the queues

Which packets a poll takes from the queues, and in which order, does not depend on their ports.
-/

structure Scan where
  host : HostQueues
  used : Nat
  taken : List PacketInfo

def Scan.start (host : HostQueues) : Scan where
  host := host
  used := 0
  taken := []

def Scan.finishTurn (quota : Int) (i : QueueId) (bdRdPtr update : Nat) (w : Scan) :
    Turn (Scan × Nat) (QueueExit Scan) :=
  let w := { w with host := w.host.advance i bdRdPtr update }
  if quota ≤ w.used then .left (.returned w.used w) else .again (w, update)

def scanTurn (ethType : EthType) (cfg : RxConfig) (allocOk : Nat → Bool) (quota : Int) (i : QueueId)
    (bdWrPtr : Nat) (loopState : Scan × Nat) (_ : Unit) : Turn (Scan × Nat) (QueueExit Scan) :=
  let (w, bdRdPtr) := loopState
  if bdRdPtr = bdWrPtr then .left (.drained w)
  else
    let pktInfo := parsePacketInfo ethType cfg.layout (w.host.sharedRam bdRdPtr)
    if BadLength cfg pktInfo then w.finishTurn quota i bdRdPtr bdWrPtr
    else
      let w := { w with taken := w.taken ++ [pktInfo] }
      if allocOk w.used = false then .left (.returned (-eNoMem) w)
      else Scan.finishTurn quota i bdRdPtr (updateRdPtr cfg (cfg.rxqueue ethType i) pktInfo bdRdPtr)
        { w with used := w.used + 1 }

def Scan.countOverflow (w : Scan) (i : QueueId) : Scan :=
  if 0 < (w.host.queueDescs i).overflowCnt then { w with host := w.host.clearOverflow i } else w

def scanQueue (ethType : EthType) (cfg : RxConfig) (allocOk : Nat → Bool) (quota : Int) (w : Scan)
    (i : QueueId) : Turn Scan (Int × Scan) :=
  let queueDesc := w.host.queueDescs i
  let w := w.countOverflow i
  match loop (scanTurn ethType cfg allocOk quota i queueDesc.wrPtr) (w, queueDesc.rdPtr)
      (List.replicate (turnLimit quota w.used) ()) with
  | .left (.drained w) => .again w
  | .left (.returned ret w) => .left (ret, w)
  | .again (w, _) => .again w

def scanPackets (ethType : EthType) (cfg : RxConfig) (allocOk : Nat → Bool) (polling : Port)
    (quota : Int) (host : HostQueues) : Int × Scan :=
  match loop (scanQueue ethType cfg allocOk quota) (.start host) (queueIds ethType polling) with
  | .left (ret, w) => (ret, w)
  | .again w => (w.used, w)

/-- The packets that a poll takes from the queues, in this order. -/
def takenPackets (ethType : EthType) (cfg : RxConfig) (allocOk : Nat → Bool) (polling : Port)
    (quota : Int) (host : HostQueues) : List PacketInfo :=
  (scanPackets ethType cfg allocOk polling quota host).2.taken

/-! ## What the reception is for -/

/-- Every packet is passed with the port that it came in at. -/
def Credited (s : RxState) : Prop := ∀ p ∈ s.passed, portId p.1 = p.2.port

/-- Every packet is from one of the two ports, and none of the polling port comes after one of the
other port. -/
def OwnFirst (polling : Port) (pkts : List PacketInfo) : Prop :=
  (∀ pktInfo ∈ pkts, ∃ p, pktInfo.port = portId p) ∧
    pkts.Pairwise fun a b => ¬ (a.port = portId (otherPort polling) ∧ b.port = portId polling)

end Am437x.Prueth.Rx
