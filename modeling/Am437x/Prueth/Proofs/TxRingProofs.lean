import Am437x.Prueth.TxRing

/-!
# The transmit ring as a FIFO

The two pointers are the positions of a queue of records modulo the number of blocks. As long as fewer
blocks are in use than there are, equal pointers mean an empty queue, and the ring is a lossless FIFO. A
packet that takes exactly the free blocks is accepted, and then the full ring looks empty.
-/

namespace Am437x.Prueth

open Flat Runs Ring

variable {layout : BdLayout} {txqueue : QueueInfo}

/-! ## Blocks and pointers -/

theorem blocksOf_pos {n : Nat} (h : 0 < n) : 0 < blocksOf n := by
  unfold blocksOf icssBlockSize
  omega

theorem le_mul_blocksOf (n : Nat) : n ≤ icssBlockSize * blocksOf n := by
  unfold blocksOf icssBlockSize
  omega

namespace QueueInfo

theorem count_pos (txqueue : QueueInfo) (layout : BdLayout) : 0 < txqueue.count layout :=
  Nat.succ_pos _

theorem mod_lt_count (pos : Nat) : pos % txqueue.count layout < txqueue.count layout :=
  Nat.mod_lt _ (txqueue.count_pos layout)

theorem ptr_eq {b : Nat} (h : b < txqueue.count layout) :
    txqueue.ptr layout b = txqueue.bufferDescOffset + b * layout.bdSize := by
  have hb : b * layout.bdSize ≤ txqueue.bufferDescEnd - txqueue.bufferDescOffset :=
    calc b * layout.bdSize
        ≤ (txqueue.bufferDescEnd - txqueue.bufferDescOffset) / layout.bdSize * layout.bdSize :=
          Nat.mul_le_mul_right _ (Nat.le_of_lt_succ h)
      _ ≤ txqueue.bufferDescEnd - txqueue.bufferDescOffset := Nat.div_mul_le_self _ _
  have hle := txqueue.offset_le_end
  have hlt := txqueue.end_lt
  exact Nat.mod_eq_of_lt (by omega)

theorem block_ptr {b : Nat} (h : b < txqueue.count layout) :
    txqueue.block layout (txqueue.ptr layout b) = b := by
  have hsize : 0 < layout.bdSize := lt_of_lt_of_le (by decide) layout.word_le_bdSize
  rw [block, ptr_eq h, Nat.add_sub_cancel_left, Nat.mul_div_cancel _ hsize]

theorem ptr_inj {a b : Nat} (ha : a < txqueue.count layout) (hb : b < txqueue.count layout)
    (h : txqueue.ptr layout a = txqueue.ptr layout b) : a = b := by
  rw [← block_ptr ha, h, block_ptr hb]

/-- Pointers are equal just when they are to the same block of the ring. -/
theorem ptr_mod_inj {a b : Nat} (h : txqueue.ptr layout (a % txqueue.count layout) =
    txqueue.ptr layout (b % txqueue.count layout)) :
    a % txqueue.count layout = b % txqueue.count layout :=
  ptr_inj (mod_lt_count a) (mod_lt_count b) h

end QueueInfo

/-- With `used` blocks from the read block to the write block, and not all of them, the rest is free. -/
theorem freeBlocks_eq {n pos used : Nat} (h : used < n) :
    freeBlocks n ((pos + used) % n) (pos % n) = n - used := by
  have hpos : pos % n < n := Nat.mod_lt _ (by omega)
  have hcases := add_mod_cases pos h
  unfold freeBlocks
  split
  · omega
  split <;> omega

/-! ## One call of the driver -/

theorem ethSkbPad_of_le {ok : Bool} {data : List UInt8} (h : ethZlen ≤ data.length) :
    ethSkbPad ok data = some data := if_pos h

/-- The copy, in one part or two, is the write of a block into the ring. -/
theorem copyToRing_eq {ocmc : Memory UInt8} {bufferOffset n w : Nat} {data : List UInt8}
    (hw : w < n) :
    copyToRing ocmc bufferOffset n w data =
      Ring.write ocmc bufferOffset (icssBlockSize * n) (icssBlockSize * w) data := by
  have hmod : icssBlockSize * w % (icssBlockSize * n) = icssBlockSize * w := by
    rw [Nat.mul_mod_mul_left, Nat.mod_eq_of_lt hw]
  have hcell : cell bufferOffset (icssBlockSize * n) (icssBlockSize * w) =
      ((bufferOffset : Int) + w * icssBlockSize) := by
    rw [cell, hmod]
    push_cast
    ring
  have hroom : icssBlockSize * n - icssBlockSize * w = (n - w) * icssBlockSize := by
    rw [← Nat.mul_sub, Nat.mul_comm]
  have hlen := le_mul_blocksOf data.length
  unfold copyToRing Ring.write
  dsimp only
  rw [hmod, hcell, hroom]
  split
  · rcases Nat.le_total data.length ((n - w) * icssBlockSize) with hle | hle
    · rw [Nat.min_eq_left hle, List.take_of_length_le le_rfl, List.drop_of_length_le le_rfl,
        List.take_of_length_le hle, List.drop_of_length_le hle]
    · rw [Nat.min_eq_right hle]
  · have hle : data.length ≤ (n - w) * icssBlockSize := by
      unfold icssBlockSize at *
      omega
    rw [List.take_of_length_le hle, List.drop_of_length_le hle, store_nil]

theorem txUpdateBlock_eq {n w : Nat} (b : Nat) : txUpdateBlock n w b = (w + b) % n := by
  unfold txUpdateBlock
  split
  · rfl
  · exact (Nat.mod_eq_of_lt (by omega)).symm

/-- A packet of at least the minimal length is refused when its blocks are more than the free ones, and
else written at the write block. -/
theorem pruethTxEnqueue_eq {env : TxEnv} {s : TxQueue} {skb : TxSkb} {r w : Nat}
    (hr : r < txqueue.count layout) (hw : w < txqueue.count layout)
    (hrd : s.rdPtr = txqueue.ptr layout r) (hwr : s.wrPtr = txqueue.ptr layout w)
    (hlen : ethZlen ≤ skb.data.length) :
    pruethTxEnqueue layout txqueue env s skb =
      if freeBlocks (txqueue.count layout) w r < blocksOf skb.data.length then
        { ret := eNobufs, queue := s, data := some skb.data, placed := false, tsEnqueued := false }
      else
        { ret := 0
          queue :=
            { s with
              ocmc := Ring.write s.ocmc txqueue.bufferOffset (icssBlockSize * txqueue.count layout)
                (icssBlockSize * w) skb.data
              bd := Function.update s.bd s.wrPtr (layout.encode env.hsr skb.data.length)
              wrPtr := txqueue.ptr layout ((w + blocksOf skb.data.length) % txqueue.count layout) }
          data := some skb.data
          placed := true
          tsEnqueued := skb.hwTstamp && env.tsEnabled } := by
  have hblockR : txqueue.block layout s.rdPtr = r := by rw [hrd, QueueInfo.block_ptr hr]
  have hblockW : txqueue.block layout s.wrPtr = w := by rw [hwr, QueueInfo.block_ptr hw]
  unfold pruethTxEnqueue
  rw [ethSkbPad_of_le hlen]
  dsimp only
  rw [hblockR, hblockW, txUpdateBlock_eq, copyToRing_eq hw]

/-! ## The invariant -/

/-- The record of a packet at a position: its descriptor and its bytes. -/
def Stored (layout : BdLayout) (txqueue : QueueInfo) (s : TxQueue) (pos : Nat) (p : Accepted) : Prop :=
  0 < p.data.length ∧
  s.bd (txqueue.ptr layout (pos % txqueue.count layout)) = layout.encode p.hsr p.data.length ∧
  Ring.read s.ocmc txqueue.bufferOffset (icssBlockSize * txqueue.count layout) (icssBlockSize * pos)
    p.data.length = p.data

/-- The packets accepted and not consumed lie behind each other from the read position to the write
position, and do not fill the ring. -/
structure TxInv (layout : BdLayout) (txqueue : QueueInfo) (s : TxSystem) (pos : Nat)
    (pending : List Accepted) : Prop where
  pending_eq : s.pending = pending
  history : s.accepted.map Accepted.data = s.consumed ++ pending.map Accepted.data
  room : total Accepted.blocks pending < txqueue.count layout
  rd : s.queue.rdPtr = txqueue.ptr layout (pos % txqueue.count layout)
  wr : s.queue.wrPtr =
    txqueue.ptr layout ((pos + total Accepted.blocks pending) % txqueue.count layout)
  stored : Queued Accepted.blocks (Stored layout txqueue s.queue) pos pending

theorem txInv_start (ocmc : Memory UInt8) (bd : Memory (BitVec 32))
    (block : Fin (txqueue.count layout)) :
    TxInv layout txqueue (.start layout txqueue ocmc bd block) block [] := by
  have hblock : (block : Nat) % txqueue.count layout = block := Nat.mod_eq_of_lt block.2
  refine ⟨rfl, rfl, txqueue.count_pos layout, ?_, ?_, trivial⟩
  · rw [hblock]
    rfl
  · rw [total_nil, Nat.add_zero, hblock]
    rfl

namespace TxInv

variable {s : TxSystem} {pos : Nat} {pending : List Accepted}

/-- The pointers are equal only when no packet is pending. -/
theorem eq_nil_of_ptr_eq (hi : TxInv layout txqueue s pos pending)
    (h : s.queue.rdPtr = s.queue.wrPtr) : pending = [] := by
  rw [hi.rd, hi.wr] at h
  have hmod := QueueInfo.ptr_mod_inj h
  have hroom := hi.room
  have heq := eq_of_mod_eq (Nat.le_add_right _ _) (by omega) hmod
  cases pending with
  | nil => rfl
  | cons p rest =>
    have hdata : 0 < p.blocks := blocksOf_pos hi.stored.1.1
    rw [total_cons] at heq
    omega

theorem fifo (hi : TxInv layout txqueue s pos pending) : s.Fifo := by
  constructor
  · rw [hi.history]
    exact List.prefix_append _ _
  · intro h
    rw [hi.history, hi.eq_nil_of_ptr_eq h, List.map_nil, List.append_nil]

theorem consumed_length_le (hi : TxInv layout txqueue s pos pending) :
    s.consumed.length ≤ s.accepted.length := by
  have hlen := congrArg List.length hi.history
  rw [List.length_map, List.length_append] at hlen
  omega

end TxInv

/-! ## The firmware -/

section Firmware

variable {s s' : TxSystem} {pos : Nat} {pending : List Accepted}

/-- What the firmware takes: as many bytes from the front as the descriptor of the first packet tells. -/
theorem txStep_firmware (hi : TxInv layout txqueue s pos pending)
    (h : txStep layout txqueue s .firmware = some s') :
    ∃ first rest, pending = first :: rest ∧
      s' = { s with
        queue :=
          { s.queue with
            rdPtr := txqueue.ptr layout
              ((pos + blocksOf (layout.length (layout.encode first.hsr first.data.length))) %
                txqueue.count layout) }
        consumed := s.consumed ++ [Ring.read s.queue.ocmc txqueue.bufferOffset
          (icssBlockSize * txqueue.count layout) (icssBlockSize * pos)
          (layout.length (layout.encode first.hsr first.data.length))] } := by
  obtain ⟨⟨data, queue⟩, hstep, rfl⟩ := Option.map_eq_some_iff.mp h
  unfold firmwareStep at hstep
  split at hstep
  · cases hstep
  next hne =>
  cases pending with
  | nil =>
    refine absurd ?_ hne
    rw [hi.rd, hi.wr, total_nil, Nat.add_zero]
  | cons first rest =>
    obtain ⟨⟨-, hbd, -⟩, -⟩ := hi.stored
    have hblock : txqueue.block layout s.queue.rdPtr = pos % txqueue.count layout := by
      rw [hi.rd, QueueInfo.block_ptr (QueueInfo.mod_lt_count pos)]
    rw [← hi.rd] at hbd
    dsimp only at hstep
    rw [hbd, hblock, ← Nat.mul_mod_mul_left, read_mod, Nat.mod_add_mod] at hstep
    obtain ⟨rfl, rfl⟩ := Prod.mk.inj (Option.some.inj hstep)
    exact ⟨first, rest, rfl, rfl⟩

/-- A packet with a length that its descriptor carries is taken as it was sent. -/
theorem txInv_firmware (hi : TxInv layout txqueue s pos pending)
    (h : txStep layout txqueue s .firmware = some s')
    (hcarried : ∀ p, pending.head? = some p → layout.Carries p.hsr p.data.length) :
    ∃ pos' pending', TxInv layout txqueue s' pos' pending' := by
  obtain ⟨first, rest, rfl, rfl⟩ := txStep_firmware hi h
  obtain ⟨⟨-, -, hread⟩, hrest⟩ := hi.stored
  rw [hcarried first rfl, hread]
  have hroom := hi.room
  rw [total_cons] at hroom
  refine ⟨pos + first.blocks, rest, ?_, ?_, by omega, rfl, ?_, hrest⟩
  · have hpending : s.accepted.drop s.consumed.length = first :: rest := hi.pending_eq
    show s.accepted.drop (s.consumed ++ [first.data]).length = rest
    rw [List.length_append, ← List.drop_drop, hpending]
    rfl
  · rw [hi.history, List.append_assoc]
    rfl
  · rw [Nat.add_assoc]
    exact hi.wr

/-- Any other is taken with another length. -/
theorem carried_of_fifo (hi : TxInv layout txqueue s pos pending)
    (h : txStep layout txqueue s .firmware = some s') (hfifo : s'.Fifo) :
    ∀ p, pending.head? = some p → layout.Carries p.hsr p.data.length := by
  obtain ⟨first, rest, rfl, rfl⟩ := txStep_firmware hi h
  rintro p hp
  obtain rfl := Option.some.inj hp
  have hpre := hfifo.pre
  rw [hi.history, List.prefix_append_right_inj, List.map_cons, List.singleton_prefix_cons_iff] at hpre
  have hlen := congrArg List.length hpre
  rwa [read_length] at hlen

end Firmware

/-! ## The driver -/

section Enqueue

variable {s : TxSystem} {pos : Nat} {pending : List Accepted} {env : TxEnv}
  {packet : Packet layout txqueue}

/-- What a call does under the invariant: the packet is accepted when its blocks are at most the rest. -/
theorem enqueue_eq (hi : TxInv layout txqueue s pos pending) :
    pruethTxEnqueue layout txqueue env s.queue packet.skb =
      if txqueue.count layout < total Accepted.blocks pending + dataBlocks packet.skb.data then
        { ret := eNobufs, queue := s.queue, data := some packet.skb.data, placed := false,
          tsEnqueued := false }
      else
        { ret := 0
          queue :=
            { s.queue with
              ocmc := Ring.write s.queue.ocmc txqueue.bufferOffset
                (icssBlockSize * txqueue.count layout)
                (icssBlockSize * (pos + total Accepted.blocks pending)) packet.skb.data
              bd := Function.update s.queue.bd s.queue.wrPtr
                (layout.encode env.hsr packet.skb.data.length)
              wrPtr := txqueue.ptr layout
                ((pos + total Accepted.blocks pending + dataBlocks packet.skb.data) %
                  txqueue.count layout) }
          data := some packet.skb.data
          placed := true
          tsEnqueued := packet.skb.hwTstamp && env.tsEnabled } := by
  have hroom := hi.room
  rw [pruethTxEnqueue_eq (QueueInfo.mod_lt_count _) (QueueInfo.mod_lt_count _) hi.rd hi.wr
    packet.min_le, freeBlocks_eq hroom, ← Nat.mul_mod_mul_left, write_mod, Nat.mod_add_mod]
  refine if_congr ?_ rfl rfl
  show txqueue.count layout - total Accepted.blocks pending < dataBlocks packet.skb.data ↔ _
  omega

/-- A packet behind the pending ones: those stay as they are, and it is stored. -/
theorem queued_enqueue (hi : TxInv layout txqueue s pos pending)
    (hfit : total Accepted.blocks pending + dataBlocks packet.skb.data < txqueue.count layout)
    {wrPtr : Nat} :
    Queued Accepted.blocks (Stored layout txqueue
        { s.queue with
          ocmc := Ring.write s.queue.ocmc txqueue.bufferOffset (icssBlockSize * txqueue.count layout)
            (icssBlockSize * (pos + total Accepted.blocks pending)) packet.skb.data
          bd := Function.update s.queue.bd s.queue.wrPtr
            (layout.encode env.hsr packet.skb.data.length)
          wrPtr := wrPtr })
      pos (pending ++ [{ data := packet.skb.data, hsr := env.hsr }]) := by
  have hpacket : packet.skb.data.length ≤ icssBlockSize * dataBlocks packet.skb.data :=
    le_mul_blocksOf packet.skb.data.length
  rw [queued_append]
  constructor
  · refine hi.stored.imp fun pos' p hle hend hstored => ?_
    obtain ⟨hdata, hbd, hread⟩ := hstored
    have hblocks : 0 < p.blocks := blocksOf_pos hdata
    have hbytes : p.data.length ≤ icssBlockSize * p.blocks := le_mul_blocksOf p.data.length
    refine ⟨hdata, ?_, ?_⟩
    · -- the descriptor written is another one
      have hne : txqueue.ptr layout (pos' % txqueue.count layout) ≠ s.queue.wrPtr := by
        intro heq
        rw [hi.wr] at heq
        have hpos := eq_of_mod_eq (by omega) (by omega) (QueueInfo.ptr_mod_inj heq)
        omega
      dsimp only
      rw [Function.update_of_ne (by exact_mod_cast hne)]
      exact hbd
    · rw [read_write_older, hread]
      · unfold icssBlockSize at *
        omega
      · unfold icssBlockSize at *
        omega
  · refine ⟨⟨lt_of_lt_of_le (by decide) packet.min_le, ?_, read_write_same packet.le_ring⟩, trivial⟩
    rw [← hi.wr]
    exact Function.update_self _ _ _

theorem txInv_enqueue {s' : TxSystem} (hi : TxInv layout txqueue s pos pending)
    (h : txStep layout txqueue s (.enqueue env packet) = some s')
    (hne : total Accepted.blocks pending + dataBlocks packet.skb.data ≠ txqueue.count layout) :
    ∃ pos' pending', TxInv layout txqueue s' pos' pending' := by
  obtain rfl := Option.some.inj h
  rw [enqueue_eq hi]
  rcases Nat.lt_or_ge (txqueue.count layout)
    (total Accepted.blocks pending + dataBlocks packet.skb.data) with hlt | hge
  · -- refused
    rw [if_pos hlt]
    exact ⟨pos, pending, hi.pending_eq, hi.history, hi.room, hi.rd, hi.wr, hi.stored⟩
  · rw [if_neg (by omega)]
    have hfit : total Accepted.blocks pending + dataBlocks packet.skb.data < txqueue.count layout := by
      omega
    refine ⟨pos, pending ++ [{ data := packet.skb.data, hsr := env.hsr }], ?_, ?_, ?_, hi.rd, ?_,
      queued_enqueue hi hfit⟩
    · rw [TxSystem.pending, if_pos rfl, List.drop_append_of_le_length hi.consumed_length_le]
      exact congrArg (· ++ _) hi.pending_eq
    · rw [if_pos rfl, List.map_append, List.map_append, hi.history, List.append_assoc]
    · rw [total_append, total_cons, total_nil]
      exact hfit
    · rw [total_append, total_cons, total_nil, Nat.add_zero, Nat.add_assoc]
      rfl

/-- A packet that fills the ring exactly is accepted, and the pointers are equal with it pending. -/
theorem not_fifo_of_exact {s' : TxSystem} (hi : TxInv layout txqueue s pos pending)
    (h : txStep layout txqueue s (.enqueue env packet) = some s')
    (heq : total Accepted.blocks pending + dataBlocks packet.skb.data = txqueue.count layout) :
    ¬ s'.Fifo := by
  obtain rfl := Option.some.inj h
  rw [enqueue_eq hi, if_neg (by omega)]
  intro hfifo
  have hptr : txqueue.ptr layout (pos % txqueue.count layout) =
      txqueue.ptr layout ((pos + total Accepted.blocks pending + dataBlocks packet.skb.data) %
        txqueue.count layout) := by
    rw [Nat.add_assoc, heq, Nat.add_mod_right]
  have hall := hfifo.empty (hi.rd.trans hptr)
  rw [if_pos rfl, List.map_append, hi.history] at hall
  have hlen := congrArg List.length hall
  simp at hlen

end Enqueue

/-! ## Main result -/

/-- In a run the ring is a lossless FIFO after every step just when no packet is offered that fills it
exactly, and the firmware comes to no packet with a length that its descriptor does not carry. -/
theorem tx_ring_fifo_iff (layout : BdLayout) (txqueue : QueueInfo) (ocmc : Memory UInt8)
    (bd : Memory (BitVec 32)) (block : Fin (txqueue.count layout))
    (events : List (TxEvent layout txqueue)) :
    AllSteps (txStep layout txqueue) (fun _ _ s' => s'.Fifo)
        (.start layout txqueue ocmc bd block) events ↔
      AllSteps (txStep layout txqueue) (RingSafe layout txqueue)
        (.start layout txqueue ocmc bd block) events := by
  apply allSteps_iff_of_inv fun s => ∃ pos pending, TxInv layout txqueue s pos pending
  · rintro s e s' ⟨pos, pending, hi⟩ h
    cases e with
    | enqueue env packet =>
      constructor
      · refine fun hfifo => ⟨fun env' packet' he => ?_, fun he => (by cases he)⟩
        obtain ⟨rfl, rfl⟩ := TxEvent.enqueue.inj he
        rw [hi.pending_eq]
        intro heq
        exact not_fifo_of_exact hi h heq hfifo
      · intro hsafe
        have hne := hsafe.noExactFill env packet rfl
        rw [hi.pending_eq] at hne
        obtain ⟨pos', pending', hi'⟩ := txInv_enqueue hi h hne
        exact hi'.fifo
    | firmware =>
      constructor
      · refine fun hfifo => ⟨fun env packet he => (by cases he), fun _ => ?_⟩
        rw [hi.pending_eq]
        exact carried_of_fifo hi h hfifo
      · intro hsafe
        have hcarried := hsafe.carried rfl
        rw [hi.pending_eq] at hcarried
        obtain ⟨pos', pending', hi'⟩ := txInv_firmware hi h hcarried
        exact hi'.fifo
  · rintro s e s' ⟨pos, pending, hi⟩ h hsafe
    cases e with
    | enqueue env packet =>
      have hne := hsafe.noExactFill env packet rfl
      rw [hi.pending_eq] at hne
      exact txInv_enqueue hi h hne
    | firmware =>
      have hcarried := hsafe.carried rfl
      rw [hi.pending_eq] at hcarried
      exact txInv_firmware hi h hcarried
  · exact ⟨block, [], txInv_start ocmc bd block⟩

/-! ### A queue of four blocks -/

/-- The length in the bits 18 to 28 of a descriptor. -/
def icssBd : BdLayout where
  bdSize := 4
  word_le_bdSize := le_rfl
  lengthMask := 0x1ffc0000
  lengthShift := 18
  hsrFrameShift := 4

example : ¬ icssBd.Carries false 2048 := by decide

def fourBlocks : QueueInfo where
  bufferOffset := 0
  bufferDescOffset := 0x400
  bufferDescEnd := 0x40c
  offset_le_end := by decide
  end_lt := by decide

def minPacket : Packet icssBd fourBlocks where
  skb := { data := List.replicate 60 0, hwTstamp := false }
  min_le := by decide
  le_ring := by decide

def plainEnv : TxEnv := { hsr := false, tsEnabled := false, padOk := true, uninit := 0 }

def fourBlocksEmpty : TxSystem :=
  .start icssBd fourBlocks (fun _ => 0) (fun _ => 0) ⟨0, QueueInfo.count_pos _ _⟩

/-- Two packets of 60 bytes are accepted, and the pointers say that nothing is there to send. -/
theorem exact_fill_looks_empty :
    (run (txStep icssBd fourBlocks) fourBlocksEmpty
      [.enqueue plainEnv minPacket, .enqueue plainEnv minPacket]).map
        (fun s => (s.queue.rdPtr, s.queue.wrPtr, s.accepted.length, s.consumed.length)) =
      some (0x400, 0x400, 2, 0) ∧
    ¬ AllSteps (txStep icssBd fourBlocks) (fun _ _ s' => s'.Fifo) fourBlocksEmpty
      [.enqueue plainEnv minPacket, .enqueue plainEnv minPacket] := by
  refine ⟨by decide, fun h => ?_⟩
  have hfifo := AllSteps.of_run [TxEvent.enqueue plainEnv minPacket] h rfl rfl
  have hlen := congrArg List.length (hfifo.empty (by decide))
  exact absurd hlen (by decide)

end Am437x.Prueth
