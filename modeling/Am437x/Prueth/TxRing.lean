import Am437x.Lib.Runs
import Am437x.Prueth.Queue

/-!
# The transmit ring (`prueth_tx_enqueue`)

The driver writes a packet into the free blocks of a transmit queue, and moves the write pointer behind
it. The firmware takes packets at the read pointer until the two pointers meet.
-/

namespace Am437x.Prueth

open Flat

def eNobufs : Int := -105

def ethZlen : Nat := 60

/-- The memories and the pointers of one transmit queue. -/
structure TxQueue where
  ocmc : Memory UInt8
  /-- The descriptor RAM: DRAM in EMAC mode, the shared RAM otherwise. -/
  bd : Memory (BitVec 32)
  rdPtr : Nat
  wrPtr : Nat

/-! ## `prueth_tx_enqueue` -/

/-- The part of `struct sk_buff` that is used: the data, and `SKBTX_HW_TSTAMP` of its `tx_flags`. -/
structure TxSkb where
  data : List UInt8
  hwTstamp : Bool
  deriving DecidableEq, Repr

/-- What else a call depends on. -/
structure TxEnv where
  hsr : Bool
  tsEnabled : Bool
  /-- Whether `eth_skb_pad` gets the memory it needs. -/
  padOk : Bool
  /-- What the variable `ret` holds when nothing was stored in it. -/
  uninit : Int
  deriving DecidableEq, Repr

/-- What a call returns and leaves behind. -/
structure TxResult where
  ret : Int
  queue : TxQueue
  /-- The data of the socket buffer, unless it has been freed. -/
  data : Option (List UInt8)
  /-- Whether the packet is placed in the ring. -/
  placed : Bool
  /-- Whether `prueth_ptp_tx_ts_enqueue` is called. -/
  tsEnqueued : Bool

/-- `eth_skb_pad`: zeros up to the minimal length; `none` when it fails and frees the buffer. -/
def ethSkbPad (ok : Bool) (data : List UInt8) : Option (List UInt8) :=
  if ethZlen ≤ data.length then some data
  else if ok then some (data ++ List.replicate (ethZlen - data.length) 0)
  else none

def freeBlocks (bufferDescCount writeBlock readBlock : Nat) : Nat :=
  if readBlock < writeBlock then bufferDescCount - writeBlock + readBlock
  else if writeBlock < readBlock then readBlock - writeBlock
  else bufferDescCount

/-- The block behind a packet. -/
def txUpdateBlock (bufferDescCount writeBlock pktBlockSize : Nat) : Nat :=
  if bufferDescCount ≤ writeBlock + pktBlockSize then (writeBlock + pktBlockSize) % bufferDescCount
  else writeBlock + pktBlockSize

/-- The copy into the packet RAM, in two parts when the packet reaches the end of the ring. -/
def copyToRing (ocmc : Memory UInt8) (bufferOffset bufferDescCount writeBlock : Nat)
    (data : List UInt8) : Memory UInt8 :=
  let dstAddr : Int := bufferOffset + writeBlock * icssBlockSize
  let wrapped := bufferDescCount ≤ writeBlock + blocksOf data.length
  if wrapped then
    let bytes := min data.length ((bufferDescCount - writeBlock) * icssBlockSize)
    store (store ocmc dstAddr (data.take bytes)) bufferOffset (data.drop bytes)
  else store ocmc dstAddr data

def pruethTxEnqueue (layout : BdLayout) (txqueue : QueueInfo) (env : TxEnv) (s : TxQueue)
    (skb : TxSkb) : TxResult :=
  match ethSkbPad env.padOk skb.data with
  | none => { ret := env.uninit, queue := s, data := none, placed := false, tsEnqueued := false }
  | some data =>
    let pktlen := data.length
    let bufferDescCount := txqueue.count layout
    let writeBlock := txqueue.block layout s.wrPtr
    let readBlock := txqueue.block layout s.rdPtr
    let pktBlockSize := blocksOf pktlen
    if freeBlocks bufferDescCount writeBlock readBlock < pktBlockSize then
      { ret := eNobufs, queue := s, data := some data, placed := false, tsEnqueued := false }
    else
      let updateBlock := txUpdateBlock bufferDescCount writeBlock pktBlockSize
      { ret := 0
        queue :=
          { s with
            ocmc := copyToRing s.ocmc txqueue.bufferOffset bufferDescCount writeBlock data
            bd := Function.update s.bd s.wrPtr (layout.encode env.hsr pktlen)
            wrPtr := txqueue.ptr layout updateBlock }
        data := some data
        placed := true
        tsEnqueued := skb.hwTstamp && env.tsEnabled }

/-! ## The firmware -/

/-- The packet at the read pointer, and the queue with the read pointer behind it; `none` when the
pointers are equal. The firmware is not part of the driver: this is the contract it has with it. -/
def firmwareStep (layout : BdLayout) (txqueue : QueueInfo) (s : TxQueue) :
    Option (List UInt8 × TxQueue) :=
  if s.rdPtr = s.wrPtr then none
  else
    let count := txqueue.count layout
    let readBlock := txqueue.block layout s.rdPtr
    let pktlen := layout.length (s.bd s.rdPtr)
    some (Ring.read s.ocmc txqueue.bufferOffset (icssBlockSize * count) (icssBlockSize * readBlock) pktlen,
      { s with rdPtr := txqueue.ptr layout ((readBlock + blocksOf pktlen) % count) })

/-! ## The queue as its two ends see it -/

/-- A packet of at least the minimal length that the blocks of the ring can hold. -/
structure Packet (layout : BdLayout) (txqueue : QueueInfo) where
  skb : TxSkb
  min_le : ethZlen ≤ skb.data.length
  le_ring : skb.data.length ≤ icssBlockSize * txqueue.count layout

/-- A packet for which `prueth_tx_enqueue` returned 0, and whether it did so in HSR mode. -/
structure Accepted where
  data : List UInt8
  hsr : Bool
  deriving DecidableEq, Repr

structure TxSystem where
  queue : TxQueue
  accepted : List Accepted
  /-- The packets that the firmware took. -/
  consumed : List (List UInt8)

/-- An empty queue with both pointers at a block, and any content of the memories. -/
def TxSystem.start (layout : BdLayout) (txqueue : QueueInfo) (ocmc : Memory UInt8)
    (bd : Memory (BitVec 32)) (block : Fin (txqueue.count layout)) : TxSystem where
  queue := { ocmc := ocmc, bd := bd, rdPtr := txqueue.ptr layout block,
             wrPtr := txqueue.ptr layout block }
  accepted := []
  consumed := []

inductive TxEvent (layout : BdLayout) (txqueue : QueueInfo) where
  | enqueue (env : TxEnv) (packet : Packet layout txqueue)
  | firmware

def txStep (layout : BdLayout) (txqueue : QueueInfo) (s : TxSystem) :
    TxEvent layout txqueue → Option TxSystem
  | .enqueue env packet =>
    let result := pruethTxEnqueue layout txqueue env s.queue packet.skb
    some { s with
      queue := result.queue
      accepted :=
        if result.ret = 0 then s.accepted ++ [{ data := packet.skb.data, hsr := env.hsr }]
        else s.accepted }
  | .firmware =>
    (firmwareStep layout txqueue s.queue).map fun (data, queue) =>
      { s with queue := queue, consumed := s.consumed ++ [data] }

/-- The ring is a lossless FIFO: what was consumed is the first part of what was accepted, and all of it
when the pointers are equal. -/
structure TxSystem.Fifo (s : TxSystem) : Prop where
  pre : s.consumed <+: s.accepted.map Accepted.data
  empty : s.queue.rdPtr = s.queue.wrPtr → s.consumed = s.accepted.map Accepted.data

def dataBlocks (data : List UInt8) : Nat := blocksOf data.length

def Accepted.blocks (p : Accepted) : Nat := dataBlocks p.data

/-- The packets that were accepted and not consumed. -/
def TxSystem.pending (s : TxSystem) : List Accepted := s.accepted.drop s.consumed.length

/-- No packet is offered that fills the ring exactly, its blocks and those of the pending packets being
all blocks, and the firmware comes to no packet with a length that its descriptor does not carry. -/
structure RingSafe (layout : BdLayout) (txqueue : QueueInfo) (s : TxSystem)
    (e : TxEvent layout txqueue) (_ : TxSystem) : Prop where
  noExactFill : ∀ env packet, e = .enqueue env packet →
    Ring.total Accepted.blocks s.pending + dataBlocks packet.skb.data ≠ txqueue.count layout
  carried : e = .firmware → ∀ p, s.pending.head? = some p → layout.Carries p.hsr p.data.length

end Am437x.Prueth
