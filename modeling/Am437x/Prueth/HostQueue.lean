import Am437x.Lib.Runs
import Am437x.Prueth.NapiPoll

/-!
# The host queues between the firmware and the polls

The firmware places packets in the host queues, and the polls of the two ports take them out. The firmware
is not part of the driver: how it places a packet is the contract that the driver has with it.

A poll is a call of `emac_napi_poll`. In HSR and PRP mode the driver registers `prueth_lre_napi_poll_hpq` and
`prueth_lre_napi_poll_lpq`, which are not in `prueth_core.c`; what is said of these modes is about
`emac_napi_poll` and `emac_rx_packets` as they are called.
-/

namespace Am437x.Prueth.Rx

open Flat

/-- A packet as the firmware places it: its descriptor, and the data that this describes. -/
structure HostPacket where
  bd : BitVec 32
  data : List UInt8
  deriving DecidableEq, Repr

variable (ethType : EthType) (cfg : RxConfig)

def HostPacket.info (p : HostPacket) : PacketInfo := parsePacketInfo ethType cfg.layout p.bd

def HostPacket.blocks (p : HostPacket) : Nat := pktBlockSize (p.info ethType cfg)

/-- The descriptor tells the length of the data, with which the packet is received. The data are not
shorter than what is removed from them. -/
def HostPacket.Proper (p : HostPacket) : Prop :=
  (p.info ethType cfg).length = p.data.length ∧ ¬ BadLength cfg (p.info ethType cfg) ∧
    startOffset ethType (p.info ethType cfg) + removedRct ethType true (p.info ethType cfg) ≤
      p.data.length

instance : DecidablePred (HostPacket.Proper ethType cfg) := fun _ =>
  inferInstanceAs (Decidable (_ ∧ _ ∧ _))

/-! ## The firmware -/

/-- The blocks from the read pointer to the write pointer. -/
def usedBlocks (i : QueueId) (h : HostQueues) : Nat :=
  let rxqueue := cfg.rxqueue ethType i
  let layout := cfg.layout.toBdLayout
  (rxqueue.block layout (h.queueDescs i).wrPtr + rxqueue.count layout -
    rxqueue.block layout (h.queueDescs i).rdPtr) % rxqueue.count layout

/-- The packet is placed behind the others in the queue. A packet that came in while the queue was busy
is left in the collision buffer. -/
def firmwareAppend (i : QueueId) (p : HostPacket) (h : HostQueues) : HostQueues :=
  let rxqueue := cfg.rxqueue ethType i
  let layout := cfg.layout.toBdLayout
  let queueDesc := h.queueDescs i
  let writeBlock := rxqueue.block layout queueDesc.wrPtr
  { ocmc :=
      if (p.info ethType cfg).shadow then store h.ocmc cfg.p0ColBufferOffset p.data
      else Ring.write h.ocmc rxqueue.bufferOffset (icssBlockSize * rxqueue.count layout)
        (icssBlockSize * writeBlock) p.data
    sharedRam := Function.update h.sharedRam queueDesc.wrPtr p.bd
    queueDescs := Function.update h.queueDescs i { queueDesc with
      wrPtr := rxqueue.ptr layout ((writeBlock + p.blocks ethType cfg) % rxqueue.count layout) } }

/-! ## The system -/

structure HostSystem where
  host : HostQueues
  stats : Port → NetStats
  /-- The packets that the firmware has placed in each queue. -/
  appended : QueueId → List HostPacket
  /-- The calls of `emac_rx_packet` of all polls. -/
  calls : List RxCall
  received : List RxSkb

/-- The packets of the queue that have not been handled. -/
def HostSystem.pending (s : HostSystem) (i : QueueId) : List HostPacket :=
  (s.appended i).drop (s.calls.countP fun call => call.queue = i ∧ call.ret = 0)

/-- The packet is proper, the queue has room for it with one block to spare, and the collision buffer is
free when the packet goes there. -/
def HostSystem.CanAppend (s : HostSystem) (i : QueueId) (p : HostPacket) : Prop :=
  p.Proper ethType cfg ∧
    usedBlocks ethType cfg i s.host + p.blocks ethType cfg <
      (cfg.rxqueue ethType i).count cfg.layout.toBdLayout ∧
    ((p.info ethType cfg).shadow = true →
      ∀ j, ∀ other ∈ s.pending j, (other.info ethType cfg).shadow = false)

instance (s : HostSystem) (i : QueueId) (p : HostPacket) :
    Decidable (s.CanAppend ethType cfg i p) :=
  inferInstanceAs (Decidable (_ ∧ _ ∧ _))

inductive HostEvent where
  /-- The firmware places a packet in a queue. -/
  | append (i : QueueId) (p : HostPacket)
  /-- The network core polls a port. -/
  | poll (polling : Port) (budget : Int) (env : RxEnv)

def hostStep (s : HostSystem) : HostEvent → Option HostSystem
  | .append i p =>
    if s.CanAppend ethType cfg i p then
      some { s with
        host := firmwareAppend ethType cfg i p s.host
        appended := Function.update s.appended i (s.appended i ++ [p]) }
    else none
  | .poll polling budget env =>
    let rx := (emacNapiPoll ethType cfg env polling budget s.host s.stats).rx
    some { s with
      host := rx.host
      stats := rx.stats
      calls := s.calls ++ rx.calls
      received := s.received ++ rx.received }

/-- Empty queues, with both pointers at some block of each, and any content of the memories. -/
def HostSystem.start (ocmc : Memory UInt8) (sharedRam : Memory (BitVec 32)) (stats : Port → NetStats)
    (block : QueueId → Nat) : HostSystem where
  host :=
    { ocmc := ocmc
      sharedRam := sharedRam
      queueDescs := fun i =>
        let rxqueue := cfg.rxqueue ethType i
        let ptr := rxqueue.ptr cfg.layout.toBdLayout
          (block i % rxqueue.count cfg.layout.toBdLayout)
        { rdPtr := ptr, wrPtr := ptr, overflowCnt := 0 } }
  stats := stats
  appended _ := []
  calls := []
  received := []

/-- The regions of the memories do not overlap. -/
structure RxConfig.Separate : Prop where
  descs : ∀ i j, i ≠ j →
    (cfg.rxqueue ethType i).bufferDescEnd < (cfg.rxqueue ethType j).bufferDescOffset ∨
      (cfg.rxqueue ethType j).bufferDescEnd < (cfg.rxqueue ethType i).bufferDescOffset
  buffers : ∀ i j, i ≠ j →
    (cfg.rxqueue ethType i).bufferOffset +
        icssBlockSize * (cfg.rxqueue ethType i).count cfg.layout.toBdLayout ≤
      (cfg.rxqueue ethType j).bufferOffset ∨
    (cfg.rxqueue ethType j).bufferOffset +
        icssBlockSize * (cfg.rxqueue ethType j).count cfg.layout.toBdLayout ≤
      (cfg.rxqueue ethType i).bufferOffset
  collision : ∀ i,
    (cfg.rxqueue ethType i).bufferOffset +
        icssBlockSize * (cfg.rxqueue ethType i).count cfg.layout.toBdLayout ≤
      cfg.p0ColBufferOffset ∨
    cfg.p0ColBufferOffset + cfg.emacMaxPktlen ≤ (cfg.rxqueue ethType i).bufferOffset

/-! ## What a poll is for -/

/-- The packets in the queues, one queue after the other. -/
def waitingIn (pending : QueueId → List HostPacket) (ids : List QueueId) : List (QueueId × HostPacket) :=
  ids.flatMap fun i => (pending i).map fun p => (i, p)

/-- The packets of the queues of a poll, in the order of its loops. -/
def waiting (polling : Port) (pending : QueueId → List HostPacket) : List (QueueId × HostPacket) :=
  waitingIn pending (queueIds ethType polling)

/-- A turn is reached for the packet behind `k` others. -/
def Reached (budget : Int) (k : Nat) : Prop := k = 0 ∨ (k : Int) < budget

instance (budget : Int) : DecidablePred (Reached budget) := fun _ => inferInstanceAs (Decidable (_ ∨ _))

/-- Such a turn is reached, and a socket buffer is allocated for the packet. -/
def Served (budget : Int) (allocOk : Nat → Bool) (k : Nat) : Prop :=
  Reached budget k ∧ allocOk k = true

instance (budget : Int) (allocOk : Nat → Bool) : DecidablePred (Served budget allocOk) := fun _ =>
  inferInstanceAs (Decidable (_ ∧ _))

/-- How many of `n` packets a poll handles: it stops at the first that is not served. -/
def pollCount (budget : Int) (allocOk : Nat → Bool) (n : Nat) : Nat :=
  ((List.range n).takeWhile (Served budget allocOk ·)).length

/-- A packet that a poll has handled, for this port. -/
structure HandledPacket where
  queue : QueueId
  packet : HostPacket
  emac : Port
  env : RxEnv

/-- The port that a packet is handled for, when the one before it was handled for `emac`. -/
def switchedTo (polling emac : Port) (pktInfo : PacketInfo) : Port :=
  if ethType = .switch ∧ pktInfo.port = portId (otherPort polling) then otherPort polling else emac

def handleAll (env : RxEnv) (polling : Port) : Port → List (QueueId × HostPacket) → List HandledPacket
  | _, [] => []
  | emac, (i, p) :: rest =>
    let emac := switchedTo ethType polling emac (p.info ethType cfg)
    { queue := i, packet := p, emac := emac, env := env } :: handleAll env polling emac rest

/-- The frame for the stack: the data without the tag in front of it and the trailer behind it. -/
def HandledPacket.frame (h : HandledPacket) : List UInt8 :=
  let data := h.packet.data.drop (startOffset ethType (h.packet.info ethType cfg))
  data.take (data.length - removedRct ethType h.env.removeRct (h.packet.info ethType cfg))

/-- The packet does not go up the stack: a supervision frame, or a frame that is kept for its time
stamp. -/
def HandledPacket.Withheld (h : HandledPacket) : Prop :=
  (h.packet.info ethType cfg).svFrame = true ∨
    h.env.ptpRxTsEnabled h.emac = true ∧ (h.packet.info ethType cfg).timestamp = true ∧
      ethType = .hsr ∧
      h.env.ctKept h.emac (h.frame ethType cfg) (typeField cfg (h.frame ethType cfg)) = true

instance : DecidablePred (HandledPacket.Withheld ethType cfg) := fun _ =>
  inferInstanceAs (Decidable (_ ∨ _ ∧ _))

def HandledPacket.delivered (h : HandledPacket) : List (Port × List UInt8) :=
  if h.Withheld ethType cfg then [] else [(h.emac, h.frame ethType cfg)]

def RxSkb.frame (skb : RxSkb) : Port × List UInt8 := (skb.ndev, skb.data)

/-- The packets handled are the first ones of each queue, each once and in order, and all of them when the
pointers of the queue are equal. The stack has got the frames of the packets handled, unless withheld, in
the order in which they were handled. -/
def HostSystem.Lossless (s : HostSystem) : Prop :=
  ∃ handled : List HandledPacket,
    (∀ i, ∃ rest, s.appended i = (handled.filter (·.queue = i)).map HandledPacket.packet ++ rest ∧
      ((s.host.queueDescs i).rdPtr = (s.host.queueDescs i).wrPtr ↔ rest = [])) ∧
    (s.calls.filter (·.ret = 0)).map (fun call => (call.queue, call.rdBufDesc)) =
      handled.map (fun h => (h.queue, h.packet.bd)) ∧
    s.received.map RxSkb.frame = handled.flatMap (HandledPacket.delivered ethType cfg)

/-- The packets that a poll handles: the first of those that wait for it. -/
def HostSystem.taken (s : HostSystem) (polling : Port) (budget : Int) (env : RxEnv) :
    List (QueueId × HostPacket) :=
  let all := waiting ethType polling s.pending
  all.take (pollCount budget env.allocOk all.length)

/-- The poll has taken these packets from the front of their queues and given their frames to the stack.
It returns their number, or an error when it stopped before the budget with packets left. -/
structure HostSystem.PollTakes (s : HostSystem) (polling : Port) (budget : Int) (env : RxEnv)
    (s' : HostSystem) : Prop where
  pending : ∀ i, s.pending i =
    ((s.taken ethType polling budget env).filter (·.1 = i)).map Prod.snd ++ s'.pending i
  received : s'.received.map RxSkb.frame = s.received.map RxSkb.frame ++
    (handleAll ethType cfg env polling polling (s.taken ethType polling budget env)).flatMap
      (HandledPacket.delivered ethType cfg)
  ret : (emacNapiPoll ethType cfg env polling budget s.host s.stats).ret =
    if (s.taken ethType polling budget env).length < (waiting ethType polling s.pending).length ∧
      Reached budget (s.taken ethType polling budget env).length then -eNoMem
    else (s.taken ethType polling budget env).length

end Am437x.Prueth.Rx
