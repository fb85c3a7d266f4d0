import Am437x.Prueth.Device
import Am437x.Prueth.TxRing

/-!
# What `emac_rx_packet` copies

The driver copies a packet from the ring of a host queue into a socket buffer, without the tag that the
HSR firmware puts in front of it. Lengths are of type `unsigned int`, and block numbers of type `int`; the
latter are small, since pointers have 16 bits.
-/

namespace Am437x.Prueth.Rx

open Flat

/-- The size of the HSR tag, and of the trailer (RCT) of PRP. -/
def icssLreTagRctSize : Nat := 6

/-- The conversion of an `int` to `unsigned int`. -/
def toUnsigned (x : Int) : Nat := (x % 2 ^ 32).toNat

/-! ## Packet descriptors -/

/-- The fields of a receive descriptor, as the driver's headers define them. -/
structure RxLayout extends BdLayout where
  startFlagMask : BitVec 32
  shadowMask : BitVec 32
  portMask : BitVec 32
  portShift : Nat
  supHsrFrameMask : BitVec 32
  lookupSuccessMask : BitVec 32
  timestampMask : BitVec 32

/-- `struct prueth_packet_info`, without the flags that nothing reads. -/
structure PacketInfo where
  startOffset : Bool
  shadow : Bool
  port : Nat
  length : Nat
  svFrame : Bool
  lookupSuccess : Bool
  timestamp : Bool
  deriving DecidableEq, Repr

def parsePacketInfo (ethType : EthType) (layout : RxLayout) (bufferDescriptor : BitVec 32) :
    PacketInfo where
  startOffset := ethType.isLre && bufferDescriptor &&& layout.startFlagMask ≠ 0
  shadow := bufferDescriptor &&& layout.shadowMask ≠ 0
  port := ((bufferDescriptor &&& layout.portMask) >>> layout.portShift).toNat
  length := layout.length bufferDescriptor
  svFrame := ethType.isLre && bufferDescriptor &&& layout.supHsrFrameMask ≠ 0
  lookupSuccess := bufferDescriptor &&& layout.lookupSuccessMask ≠ 0
  timestamp := bufferDescriptor &&& layout.timestampMask ≠ 0

/-! ## The device -/

/-- Constants of the driver's headers, and what `prueth_probe` finds. -/
structure RxConfig where
  layout : RxLayout
  /-- `queue_infos[PRUETH_PORT_HOST]` -/
  queueInfos : QueueId → QueueInfo
  /-- `sw_queue_infos[PRUETH_PORT_HOST]` -/
  swQueueInfos : QueueId → QueueInfo
  /-- `EMAC_MAX_PKTLEN` -/
  emacMaxPktlen : Nat
  /-- `P0_COL_BUFFER_OFFSET` -/
  p0ColBufferOffset : Nat
  /-- The address of the packet RAM. -/
  ocmcRam : Nat
  /-- `fw_data->rev_2_1` -/
  rev21 : Bool
  /-- `PRUETH_ETH_TYPE_OFFSET` -/
  ethTypeOffset : Nat
  /-- `LRE_SV_FRAME_OFFSET` -/
  lreSvFrameOffset : Nat

/-- A packet with such a length is not passed on; the rest of the queue is discarded. -/
def BadLength (cfg : RxConfig) (pktInfo : PacketInfo) : Prop :=
  pktInfo.length = 0 ∨ cfg.emacMaxPktlen < pktInfo.length

instance (cfg : RxConfig) : DecidablePred (BadLength cfg) := fun _ =>
  inferInstanceAs (Decidable (_ ∨ _))

/-! ## Blocks -/

def pktBlockSize (pktInfo : PacketInfo) : Nat :=
  blocksOf pktInfo.length + if pktInfo.timestamp then 1 else 0

/-- `update_block`, before it is reduced when the ring wraps around. -/
def updateBlock (cfg : RxConfig) (rxqueue : QueueInfo) (pktInfo : PacketInfo) (bdRdPtr : Nat) : Nat :=
  toUnsigned (rxqueue.signedBlock cfg.layout.toBdLayout bdRdPtr + pktBlockSize pktInfo)

def BufferWrapped (cfg : RxConfig) (rxqueue : QueueInfo) (pktInfo : PacketInfo) (bdRdPtr : Nat) : Prop :=
  rxqueue.count cfg.layout.toBdLayout ≤ updateBlock cfg rxqueue pktInfo bdRdPtr

instance (cfg : RxConfig) (rxqueue : QueueInfo) (pktInfo : PacketInfo) (bdRdPtr : Nat) :
    Decidable (BufferWrapped cfg rxqueue pktInfo bdRdPtr) :=
  inferInstanceAs (Decidable (_ ≤ _))

/-- The block behind the packet: `update_block` at its second use. -/
def nextBlock (cfg : RxConfig) (rxqueue : QueueInfo) (pktInfo : PacketInfo) (bdRdPtr : Nat) : Nat :=
  if BufferWrapped cfg rxqueue pktInfo bdRdPtr then
    updateBlock cfg rxqueue pktInfo bdRdPtr % rxqueue.count cfg.layout.toBdLayout
  else updateBlock cfg rxqueue pktInfo bdRdPtr

/-- The read pointer behind the packet. -/
def updateRdPtr (cfg : RxConfig) (rxqueue : QueueInfo) (pktInfo : PacketInfo) (bdRdPtr : Nat) : Nat :=
  rxqueue.ptr cfg.layout.toBdLayout (nextBlock cfg rxqueue pktInfo bdRdPtr)

/-! ## Lengths -/

/-- In HSR mode, the tag that is left out in front of the packet. -/
def startOffset (ethType : EthType) (pktInfo : PacketInfo) : Nat :=
  if ethType = .hsr ∧ pktInfo.startOffset = true then icssLreTagRctSize else 0

/-- The bytes allocated: `actual_pkt_len` at its first use. -/
def actualPktLen (ethType : EthType) (pktInfo : PacketInfo) : Nat :=
  toUnsigned (pktInfo.length - startOffset ethType pktInfo)

/-- In PRP mode, the trailer that is left out of the packet; `removeRct` says that `prp_tr_mode` is
`IEC62439_3_TR_REMOVE_RCT`. -/
def removedRct (ethType : EthType) (removeRct : Bool) (pktInfo : PacketInfo) : Nat :=
  if ethType = .prp ∧ pktInfo.startOffset = true ∧ removeRct = true then icssLreTagRctSize else 0

/-- `actual_pkt_len` as it is passed to `skb_put`. -/
def strippedPktLen (ethType : EthType) (removeRct : Bool) (pktInfo : PacketInfo) : Nat :=
  toUnsigned (actualPktLen ethType pktInfo - removedRct ethType removeRct pktInfo)

/-! ## The copy -/

/-- A call of `memcpy`, to an offset of the socket buffer from an offset of the packet RAM. -/
structure Copy where
  dst : Int
  src : Int
  size : Nat
  deriving DecidableEq, Repr

structure PacketCopy where
  /-- The bytes allocated for the socket buffer. -/
  skbSize : Nat
  copies : List Copy
  /-- `src_addr` behind the last byte copied. -/
  srcAddr : Int
  deriving DecidableEq, Repr

/-- The variable `bytes`: what is copied from the end of the ring. -/
def bytesToEnd (cfg : RxConfig) (ethType : EthType) (rxqueue : QueueInfo) (pktInfo : PacketInfo)
    (bdRdPtr : Nat) : Int :=
  let layout := cfg.layout.toBdLayout
  let bytes := (rxqueue.count layout - rxqueue.signedBlock layout bdRdPtr) * icssBlockSize
  let bytes := if pktInfo.length < toUnsigned bytes then (pktInfo.length : Int) else bytes
  bytes - startOffset ethType pktInfo

/-- The variable `remaining`: what is copied from the start of the ring. -/
def remaining (cfg : RxConfig) (ethType : EthType) (rxqueue : QueueInfo) (pktInfo : PacketInfo)
    (bdRdPtr : Nat) : Nat :=
  toUnsigned (actualPktLen ethType pktInfo - bytesToEnd cfg ethType rxqueue pktInfo bdRdPtr)

def copyPacket (cfg : RxConfig) (ethType : EthType) (rxqueue : QueueInfo) (pktInfo : PacketInfo)
    (bdRdPtr : Nat) : PacketCopy :=
  let readBlock := rxqueue.signedBlock cfg.layout.toBdLayout bdRdPtr
  let skbSize := actualPktLen ethType pktInfo
  let srcAddr : Int :=
    if pktInfo.shadow then cfg.p0ColBufferOffset
    else rxqueue.bufferOffset + readBlock * icssBlockSize
  let srcAddr := srcAddr + startOffset ethType pktInfo
  if BufferWrapped cfg rxqueue pktInfo bdRdPtr then
    let bytes := bytesToEnd cfg ethType rxqueue pktInfo bdRdPtr
    let remaining := remaining cfg ethType rxqueue pktInfo bdRdPtr
    let rest := if pktInfo.shadow then srcAddr + bytes else rxqueue.bufferOffset
    { skbSize := skbSize
      copies := [{ dst := 0, src := srcAddr, size := toUnsigned bytes },
        { dst := bytes, src := rest, size := remaining }]
      srcAddr := rest + remaining }
  else
    { skbSize := skbSize
      copies := [{ dst := 0, src := srcAddr, size := skbSize }]
      srcAddr := srcAddr + skbSize }

/-- The socket buffer behind the copies, when it held `skb` before them. -/
def PacketCopy.fill (c : PacketCopy) (ocmc skb : Memory UInt8) : Memory UInt8 :=
  c.copies.foldl (fun skb copy => store skb copy.dst (load ocmc copy.src copy.size)) skb

/-- The bytes of the socket buffer. -/
def PacketCopy.data (c : PacketCopy) (ocmc skb : Memory UInt8) : List UInt8 :=
  load (c.fill ocmc skb) 0 c.skbSize

/-- The copies stay in the socket buffer. -/
def PacketCopy.Inside (c : PacketCopy) : Prop :=
  ∀ copy ∈ c.copies, 0 ≤ copy.dst ∧ copy.dst + copy.size ≤ c.skbSize

instance (c : PacketCopy) : Decidable c.Inside :=
  inferInstanceAs (Decidable (∀ copy ∈ c.copies, _ ∧ _))

/-- `roundup((uintptr_t)src_addr, ICSS_BLOCK_SIZE)`, as an offset of the packet RAM again. -/
def timestampAddr (cfg : RxConfig) (srcAddr : Int) : Int :=
  (cfg.ocmcRam + srcAddr + (icssBlockSize - 1)) / icssBlockSize * icssBlockSize - cfg.ocmcRam

/-- The 64-bit time stamp in the block behind the data. -/
def copyTimestamp (cfg : RxConfig) (ocmc : Memory UInt8) (srcAddr : Int) : List UInt8 :=
  load ocmc (timestampAddr cfg srcAddr) 8

/-! ## What the copy is for -/

/-- The packet is copied to a buffer of a possible size, and the time stamp from the block behind it. -/
structure OwnTimestamp (cfg : RxConfig) (ethType : EthType) (rxqueue : QueueInfo) (r : Nat)
    (pktInfo : PacketInfo) (ocmc : Memory UInt8) : Prop where
  possible : (copyPacket cfg ethType rxqueue pktInfo (rxqueue.ptr cfg.layout.toBdLayout r)).skbSize <
    2 ^ 31
  inside : (copyPacket cfg ethType rxqueue pktInfo (rxqueue.ptr cfg.layout.toBdLayout r)).Inside
  timestamp : copyTimestamp cfg ocmc
      (copyPacket cfg ethType rxqueue pktInfo (rxqueue.ptr cfg.layout.toBdLayout r)).srcAddr =
    load ocmc (rxqueue.bufferOffset +
      ((r + blocksOf pktInfo.length) % rxqueue.count cfg.layout.toBdLayout * icssBlockSize : Nat)) 8

/-- The copies of the two directions, at the block `w` of one ring: whatever the socket buffer held, it
holds the packet as it was sent, without its first bytes when they are a tag, and nothing is written
outside of it. What the packet does not take of the ring stays as it was, and the next packet is at the
same block for both. -/
structure CopiesInverse (cfg : RxConfig) (ethType : EthType) (queue : QueueInfo) (w : Nat)
    (pktInfo : PacketInfo) (packet : List UInt8) (ocmc : Memory UInt8) : Prop where
  data : ∀ skb, (copyPacket cfg ethType queue pktInfo (queue.ptr cfg.layout.toBdLayout w)).data
      (copyToRing ocmc queue.bufferOffset (queue.count cfg.layout.toBdLayout) w packet) skb =
    packet.drop (startOffset ethType pktInfo)
  inside : (copyPacket cfg ethType queue pktInfo (queue.ptr cfg.layout.toBdLayout w)).Inside
  frame : ∀ k, packet.length ≤ k → k < icssBlockSize * queue.count cfg.layout.toBdLayout →
    copyToRing ocmc queue.bufferOffset (queue.count cfg.layout.toBdLayout) w packet
        (Ring.cell queue.bufferOffset (icssBlockSize * queue.count cfg.layout.toBdLayout)
          (icssBlockSize * w + k)) =
      ocmc (Ring.cell queue.bufferOffset (icssBlockSize * queue.count cfg.layout.toBdLayout)
        (icssBlockSize * w + k))
  tx_next : txUpdateBlock (queue.count cfg.layout.toBdLayout) w (blocksOf packet.length) =
    (w + blocksOf packet.length) % queue.count cfg.layout.toBdLayout
  rx_next : nextBlock cfg queue pktInfo (queue.ptr cfg.layout.toBdLayout w) =
    (w + blocksOf packet.length) % queue.count cfg.layout.toBdLayout

/-- The lengths are the exact differences, none wraps below zero. The copies stay in the socket buffer,
and the packet is not longer than the buffer. -/
structure LengthsOk (cfg : RxConfig) (ethType : EthType) (removeRct : Bool) (rxqueue : QueueInfo)
    (pktInfo : PacketInfo) (bdRdPtr : Nat) : Prop where
  actual : (actualPktLen ethType pktInfo : Int) = pktInfo.length - startOffset ethType pktInfo
  stripped : (strippedPktLen ethType removeRct pktInfo : Int) =
    actualPktLen ethType pktInfo - removedRct ethType removeRct pktInfo
  bytes : BufferWrapped cfg rxqueue pktInfo bdRdPtr →
    0 ≤ bytesToEnd cfg ethType rxqueue pktInfo bdRdPtr
  remaining : BufferWrapped cfg rxqueue pktInfo bdRdPtr →
    (remaining cfg ethType rxqueue pktInfo bdRdPtr : Int) =
      actualPktLen ethType pktInfo - bytesToEnd cfg ethType rxqueue pktInfo bdRdPtr
  inside : (copyPacket cfg ethType rxqueue pktInfo bdRdPtr).Inside
  put : strippedPktLen ethType removeRct pktInfo ≤ actualPktLen ethType pktInfo

/-- The packet is not shorter than what is removed from it, and a packet with a tag is not at the pointer
behind the last descriptor of the queue. -/
def RemovedFits (cfg : RxConfig) (ethType : EthType) (removeRct : Bool) (rxqueue : QueueInfo)
    (pktInfo : PacketInfo) (bdRdPtr : Nat) : Prop :=
  startOffset ethType pktInfo + removedRct ethType removeRct pktInfo ≤ pktInfo.length ∧
    (startOffset ethType pktInfo = 0 ∨
      rxqueue.signedBlock cfg.layout.toBdLayout bdRdPtr ≠ rxqueue.count cfg.layout.toBdLayout)

instance (cfg : RxConfig) (ethType : EthType) (removeRct : Bool) (rxqueue : QueueInfo)
    (pktInfo : PacketInfo) (bdRdPtr : Nat) :
    Decidable (RemovedFits cfg ethType removeRct rxqueue pktInfo bdRdPtr) :=
  inferInstanceAs (Decidable (_ ∧ _))

end Am437x.Prueth.Rx
