import Am437x.Lib.Ring

/-!
# Packet queues of the PRU Ethernet driver (`prueth_core.c`)

A queue is a ring of blocks in the packet RAM (OCMC), with one buffer descriptor for each block in a data
RAM. The driver keeps its read and write pointers as offsets of buffer descriptors.
-/

namespace Am437x.Prueth

def icssBlockSize : Nat := 32

/-- `enum prueth_queue_id` -/
abbrev QueueId := Fin 4

def pruethQueue1 : QueueId := 0

def pruethQueue2 : QueueId := 1

def pruethQueue3 : QueueId := 2

def pruethQueue4 : QueueId := 3

/-- The constants `BD_SIZE` and `PRUETH_BD_*` of the driver's headers. A descriptor is a 32-bit word. -/
structure BdLayout where
  bdSize : Nat
  word_le_bdSize : 4 ≤ bdSize
  lengthMask : BitVec 32
  lengthShift : Nat
  hsrFrameShift : Nat

/-- `(pktlen << PRUETH_BD_LENGTH_SHIFT) & PRUETH_BD_LENGTH_MASK`, with the HSR bit in HSR mode. -/
def BdLayout.encode (layout : BdLayout) (hsr : Bool) (pktlen : Nat) : BitVec 32 :=
  let word := (BitVec.ofNat 32 pktlen <<< layout.lengthShift) &&& layout.lengthMask
  if hsr then word ||| (1#32 <<< layout.hsrFrameShift) else word

/-- `(buffer_descriptor & PRUETH_BD_LENGTH_MASK) >> PRUETH_BD_LENGTH_SHIFT` -/
def BdLayout.length (layout : BdLayout) (bd : BitVec 32) : Nat :=
  ((bd &&& layout.lengthMask) >>> layout.lengthShift).toNat

/-- A descriptor carries the length `pktlen`: it reads back as it was written. -/
def BdLayout.Carries (layout : BdLayout) (hsr : Bool) (pktlen : Nat) : Prop :=
  layout.length (layout.encode hsr pktlen) = pktlen

instance (layout : BdLayout) (hsr : Bool) (pktlen : Nat) : Decidable (layout.Carries hsr pktlen) :=
  inferInstanceAs (Decidable (_ = _))

/-- `struct prueth_queue_info`: 16-bit offsets into the RAMs. -/
structure QueueInfo where
  bufferOffset : Nat
  bufferDescOffset : Nat
  bufferDescEnd : Nat
  offset_le_end : bufferDescOffset ≤ bufferDescEnd
  end_lt : bufferDescEnd < 2 ^ 16

namespace QueueInfo

variable (q : QueueInfo) (layout : BdLayout)

def count : Nat := (q.bufferDescEnd - q.bufferDescOffset) / layout.bdSize + 1

/-- The pointer to the descriptor of a block, as a 16-bit register holds it. -/
def ptr (block : Nat) : Nat := (q.bufferDescOffset + block * layout.bdSize) % 2 ^ 16

/-- The block of a pointer: `(bd_ptr - buffer_desc_offset) / BD_SIZE`. -/
def block (ptr : Nat) : Nat := (ptr - q.bufferDescOffset) / layout.bdSize

/-- The same as an `int`, which is negative for a pointer below the descriptors of the queue. -/
def signedBlock (ptr : Nat) : Int := ((ptr : Int) - q.bufferDescOffset).tdiv layout.bdSize

end QueueInfo

def blocksOf (pktlen : Nat) : Nat := (pktlen + icssBlockSize - 1) / icssBlockSize

end Am437x.Prueth
