import Am437x.Prueth.RxPacket
import Am437x.Prueth.Proofs.TxRingProofs

/-!
# What a received packet is copied from

From a block of the ring, the driver reads the packet as it lies in the ring, however it is cut at the end
of the ring. The time stamp is looked for behind the data copied last, which is not where it is when it is
the last block of the ring.
-/

namespace Am437x.Prueth.Rx

open Flat Ring

variable {cfg : RxConfig} {ethType : EthType} {removeRct : Bool} {rxqueue : QueueInfo}
  {pktInfo : PacketInfo} {bdRdPtr : Nat}

/-! ## Conversions -/

theorem toUnsigned_eq_iff {x : Int} : (toUnsigned x : Int) = x ↔ 0 ≤ x ∧ x < 2 ^ 32 := by
  unfold toUnsigned
  omega

theorem toUnsigned_natCast {n : Nat} (h : n < 2 ^ 32) : toUnsigned n = n := by
  unfold toUnsigned
  omega

/-- A negative `int` becomes a large number. -/
theorem toUnsigned_of_neg {x : Int} (h : x < 0) (hle : -2 ^ 31 ≤ x) : 2 ^ 31 ≤ toUnsigned x := by
  unfold toUnsigned
  omega

/-! ## Blocks of the ring -/

theorem signedBlock_ptr {layout : BdLayout} {b : Nat} (h : b < rxqueue.count layout) :
    rxqueue.signedBlock layout (rxqueue.ptr layout b) = b := by
  have hsize : (layout.bdSize : Int) ≠ 0 := by
    have := layout.word_le_bdSize
    omega
  have hdiff : ((rxqueue.ptr layout b : Nat) : Int) - rxqueue.bufferDescOffset = b * layout.bdSize := by
    rw [QueueInfo.ptr_eq h]
    push_cast
    ring
  rw [QueueInfo.signedBlock, hdiff, Int.mul_tdiv_cancel _ hsize]

/-- The blocks of pointers are small numbers. -/
theorem signedBlock_bounds (rxqueue : QueueInfo) (layout : BdLayout) {ptr : Nat} (h : ptr < 2 ^ 16) :
    -2 ^ 16 < rxqueue.signedBlock layout ptr ∧ rxqueue.signedBlock layout ptr < 2 ^ 16 := by
  have hle := rxqueue.offset_le_end
  have hlt := rxqueue.end_lt
  have hdiv := Int.natAbs_tdiv_le_natAbs ((ptr : Int) - rxqueue.bufferDescOffset) layout.bdSize
  unfold QueueInfo.signedBlock
  omega

theorem count_le (rxqueue : QueueInfo) (layout : BdLayout) : rxqueue.count layout ≤ 2 ^ 16 := by
  have hlt := rxqueue.end_lt
  have hdiv := Nat.div_le_self (rxqueue.bufferDescEnd - rxqueue.bufferDescOffset) layout.bdSize
  unfold QueueInfo.count
  omega

section InRing

variable {r : Nat}

theorem length_lt (hsize : pktBlockSize pktInfo ≤ rxqueue.count cfg.layout.toBdLayout) :
    pktInfo.length ≤ icssBlockSize * pktBlockSize pktInfo ∧ pktInfo.length < 2 ^ 31 := by
  have hcount := count_le rxqueue cfg.layout.toBdLayout
  have hblocks := le_mul_blocksOf pktInfo.length
  unfold pktBlockSize icssBlockSize at *
  omega

theorem updateBlock_ptr (hr : r < rxqueue.count cfg.layout.toBdLayout)
    (hsize : pktBlockSize pktInfo ≤ rxqueue.count cfg.layout.toBdLayout) :
    updateBlock cfg rxqueue pktInfo (rxqueue.ptr cfg.layout.toBdLayout r) =
      r + pktBlockSize pktInfo := by
  have hcount := count_le rxqueue cfg.layout.toBdLayout
  unfold updateBlock
  rw [signedBlock_ptr hr]
  exact_mod_cast toUnsigned_natCast (show r + pktBlockSize pktInfo < 2 ^ 32 by omega)

theorem bufferWrapped_ptr (hr : r < rxqueue.count cfg.layout.toBdLayout)
    (hsize : pktBlockSize pktInfo ≤ rxqueue.count cfg.layout.toBdLayout) :
    BufferWrapped cfg rxqueue pktInfo (rxqueue.ptr cfg.layout.toBdLayout r) ↔
      rxqueue.count cfg.layout.toBdLayout ≤ r + pktBlockSize pktInfo := by
  rw [BufferWrapped, updateBlock_ptr hr hsize]

theorem nextBlock_ptr (hr : r < rxqueue.count cfg.layout.toBdLayout)
    (hsize : pktBlockSize pktInfo ≤ rxqueue.count cfg.layout.toBdLayout) :
    nextBlock cfg rxqueue pktInfo (rxqueue.ptr cfg.layout.toBdLayout r) =
      (r + pktBlockSize pktInfo) % rxqueue.count cfg.layout.toBdLayout := by
  unfold nextBlock
  rw [updateBlock_ptr hr hsize]
  split
  case isTrue => rfl
  case isFalse hwrapped =>
    rw [bufferWrapped_ptr hr hsize] at hwrapped
    rw [Nat.mod_eq_of_lt (by omega)]

/-- What is copied from the end of the ring, with the tag. -/
def toEnd (cfg : RxConfig) (rxqueue : QueueInfo) (r : Nat) (pktInfo : PacketInfo) : Nat :=
  min pktInfo.length ((rxqueue.count cfg.layout.toBdLayout - r) * icssBlockSize)

theorem bytesToEnd_ptr (hr : r < rxqueue.count cfg.layout.toBdLayout) :
    bytesToEnd cfg ethType rxqueue pktInfo (rxqueue.ptr cfg.layout.toBdLayout r) =
      toEnd cfg rxqueue r pktInfo - startOffset ethType pktInfo := by
  have hcount := count_le rxqueue cfg.layout.toBdLayout
  unfold bytesToEnd toEnd
  dsimp only
  rw [signedBlock_ptr hr]
  generalize rxqueue.count cfg.layout.toBdLayout = n at *
  have hbytes : ((n : Int) - r) * icssBlockSize = ((n - r) * icssBlockSize : Nat) := by
    push_cast [Nat.le_of_lt hr]
    ring
  have hsmall : (n - r) * icssBlockSize < 2 ^ 32 := by
    unfold icssBlockSize
    omega
  rw [hbytes, toUnsigned_natCast hsmall]
  split <;> omega

/-! ## The copy -/

theorem startOffset_le (ethType : EthType) (pktInfo : PacketInfo) :
    startOffset ethType pktInfo ≤ icssLreTagRctSize := by
  unfold startOffset
  split
  · exact le_rfl
  · exact Nat.zero_le _

theorem actualPktLen_eq (hs : startOffset ethType pktInfo ≤ pktInfo.length)
    (hlen : pktInfo.length < 2 ^ 31) :
    actualPktLen ethType pktInfo = pktInfo.length - startOffset ethType pktInfo := by
  unfold actualPktLen
  rw [← Int.ofNat_sub hs]
  exact toUnsigned_natCast (by omega)

theorem startOffset_le_toEnd (hr : r < rxqueue.count cfg.layout.toBdLayout)
    (hs : startOffset ethType pktInfo ≤ pktInfo.length) :
    startOffset ethType pktInfo ≤ toEnd cfg rxqueue r pktInfo := by
  have htag := startOffset_le ethType pktInfo
  unfold toEnd icssBlockSize
  unfold icssLreTagRctSize at htag
  omega

/-- A packet that reaches the end of the ring is copied in two parts. -/
theorem copyPacket_wrapped (hr : r < rxqueue.count cfg.layout.toBdLayout)
    (hsize : pktBlockSize pktInfo ≤ rxqueue.count cfg.layout.toBdLayout)
    (hs : startOffset ethType pktInfo ≤ pktInfo.length) (hshadow : pktInfo.shadow = false)
    (hwrapped : rxqueue.count cfg.layout.toBdLayout ≤ r + pktBlockSize pktInfo) :
    copyPacket cfg ethType rxqueue pktInfo (rxqueue.ptr cfg.layout.toBdLayout r) =
      { skbSize := pktInfo.length - startOffset ethType pktInfo
        copies :=
          [{ dst := 0
             src := rxqueue.bufferOffset + r * icssBlockSize + startOffset ethType pktInfo
             size := toEnd cfg rxqueue r pktInfo - startOffset ethType pktInfo },
           { dst := (toEnd cfg rxqueue r pktInfo - startOffset ethType pktInfo : Nat)
             src := rxqueue.bufferOffset
             size := pktInfo.length - toEnd cfg rxqueue r pktInfo }]
        srcAddr := rxqueue.bufferOffset + (pktInfo.length - toEnd cfg rxqueue r pktInfo : Nat) } := by
  have hlen := (length_lt hsize).2
  have hstart := startOffset_le_toEnd hr hs
  have hle : toEnd cfg rxqueue r pktInfo ≤ pktInfo.length := Nat.min_le_left _ _
  have hbytes : bytesToEnd cfg ethType rxqueue pktInfo (rxqueue.ptr cfg.layout.toBdLayout r) =
      (toEnd cfg rxqueue r pktInfo - startOffset ethType pktInfo : Nat) := by
    rw [bytesToEnd_ptr hr, Int.ofNat_sub hstart]
  have hremaining : remaining cfg ethType rxqueue pktInfo (rxqueue.ptr cfg.layout.toBdLayout r) =
      pktInfo.length - toEnd cfg rxqueue r pktInfo := by
    unfold remaining
    rw [hbytes, actualPktLen_eq hs hlen, ← Int.ofNat_sub (by omega), toUnsigned_natCast (by omega)]
    omega
  unfold copyPacket
  dsimp only
  rw [if_pos ((bufferWrapped_ptr hr hsize).mpr hwrapped), hbytes, hremaining, signedBlock_ptr hr,
    actualPktLen_eq hs hlen, toUnsigned_natCast (by omega)]
  simp [hshadow]

/-- A packet that does not is copied in one part. -/
theorem copyPacket_straight (hr : r < rxqueue.count cfg.layout.toBdLayout)
    (hsize : pktBlockSize pktInfo ≤ rxqueue.count cfg.layout.toBdLayout)
    (hs : startOffset ethType pktInfo ≤ pktInfo.length) (hshadow : pktInfo.shadow = false)
    (hwrapped : r + pktBlockSize pktInfo < rxqueue.count cfg.layout.toBdLayout) :
    copyPacket cfg ethType rxqueue pktInfo (rxqueue.ptr cfg.layout.toBdLayout r) =
      { skbSize := pktInfo.length - startOffset ethType pktInfo
        copies :=
          [{ dst := 0
             src := rxqueue.bufferOffset + r * icssBlockSize + startOffset ethType pktInfo
             size := pktInfo.length - startOffset ethType pktInfo }]
        srcAddr := rxqueue.bufferOffset + (r * icssBlockSize + pktInfo.length : Nat) } := by
  have hlen := (length_lt hsize).2
  unfold copyPacket
  dsimp only
  rw [if_neg (mt (bufferWrapped_ptr hr hsize).mp (not_le.mpr hwrapped)), signedBlock_ptr hr,
    actualPktLen_eq hs hlen]
  simp only [hshadow, Bool.false_eq_true, if_false, PacketCopy.mk.injEq, true_and]
  push_cast [hs]
  ring

/-- What is copied to a buffer of its own length. -/
theorem inside_copyPacket (hr : r < rxqueue.count cfg.layout.toBdLayout)
    (hsize : pktBlockSize pktInfo ≤ rxqueue.count cfg.layout.toBdLayout)
    (hs : startOffset ethType pktInfo ≤ pktInfo.length) (hshadow : pktInfo.shadow = false) :
    (copyPacket cfg ethType rxqueue pktInfo (rxqueue.ptr cfg.layout.toBdLayout r)).Inside := by
  have hstart := startOffset_le_toEnd hr hs
  have hle : toEnd cfg rxqueue r pktInfo ≤ pktInfo.length := Nat.min_le_left _ _
  unfold PacketCopy.Inside
  rcases Nat.lt_or_ge (r + pktBlockSize pktInfo) (rxqueue.count cfg.layout.toBdLayout) with
    hwrapped | hwrapped
  · rw [copyPacket_straight hr hsize hs hshadow hwrapped]
    simp
  · rw [copyPacket_wrapped hr hsize hs hshadow hwrapped]
    simp only [List.mem_cons, List.not_mem_nil, or_false, forall_eq_or_imp, forall_eq]
    omega

theorem data_single (size : Nat) (src srcAddr : Int) (ocmc skb : Memory UInt8) :
    PacketCopy.data ⟨size, [⟨0, src, size⟩], srcAddr⟩ ocmc skb = load ocmc src size := by
  have hload := load_store_same skb 0 (load ocmc src size)
  rw [load_length] at hload
  exact hload

/-- The second copy starts where the first one stops, and fills the buffer. -/
theorem data_pair (size first rest : Nat) (src src' srcAddr : Int) (hsize : size = first + rest)
    (ocmc skb : Memory UInt8) :
    PacketCopy.data ⟨size, [⟨0, src, first⟩, ⟨first, src', rest⟩], srcAddr⟩ ocmc skb =
      load ocmc src first ++ load ocmc src' rest := by
  have hload := load_store_append skb 0 (load ocmc src first) (load ocmc src' rest)
  rw [load_length, load_length, zero_add, ← hsize] at hload
  exact hload

/-- In either case the data are those of the packet in the ring, behind the tag. -/
theorem data_ptr (hr : r < rxqueue.count cfg.layout.toBdLayout)
    (hsize : pktBlockSize pktInfo ≤ rxqueue.count cfg.layout.toBdLayout)
    (hs : startOffset ethType pktInfo ≤ pktInfo.length) (hshadow : pktInfo.shadow = false)
    (ocmc skb : Memory UInt8) :
    (copyPacket cfg ethType rxqueue pktInfo (rxqueue.ptr cfg.layout.toBdLayout r)).data ocmc skb =
      Ring.read ocmc rxqueue.bufferOffset (icssBlockSize * rxqueue.count cfg.layout.toBdLayout)
        (icssBlockSize * r + startOffset ethType pktInfo)
        (pktInfo.length - startOffset ethType pktInfo) := by
  have hstart := startOffset_le_toEnd hr hs
  have hblocks := (length_lt hsize).1
  have htag := startOffset_le ethType pktInfo
  have hcap : pktInfo.length - startOffset ethType pktInfo ≤
      icssBlockSize * rxqueue.count cfg.layout.toBdLayout := by
    unfold icssBlockSize at *
    omega
  have hpos : (icssBlockSize * r + startOffset ethType pktInfo) %
      (icssBlockSize * rxqueue.count cfg.layout.toBdLayout) =
        icssBlockSize * r + startOffset ethType pktInfo := by
    apply Nat.mod_eq_of_lt
    unfold icssBlockSize icssLreTagRctSize at *
    omega
  have hcell : cell rxqueue.bufferOffset (icssBlockSize * rxqueue.count cfg.layout.toBdLayout)
      (icssBlockSize * r + startOffset ethType pktInfo) =
        rxqueue.bufferOffset + r * icssBlockSize + startOffset ethType pktInfo := by
    rw [cell, hpos]
    push_cast
    ring
  rw [read_parts hcap, hpos, hcell]
  rcases Nat.lt_or_ge (r + pktBlockSize pktInfo) (rxqueue.count cfg.layout.toBdLayout) with
    hwrapped | hwrapped
  · have hfirst : min (pktInfo.length - startOffset ethType pktInfo)
        (icssBlockSize * rxqueue.count cfg.layout.toBdLayout -
          (icssBlockSize * r + startOffset ethType pktInfo)) =
        pktInfo.length - startOffset ethType pktInfo := by
      unfold icssBlockSize at *
      omega
    rw [copyPacket_straight hr hsize hs hshadow hwrapped, data_single, hfirst, Nat.sub_self, load_zero,
      List.append_nil]
  · have hfirst : min (pktInfo.length - startOffset ethType pktInfo)
        (icssBlockSize * rxqueue.count cfg.layout.toBdLayout -
          (icssBlockSize * r + startOffset ethType pktInfo)) =
        toEnd cfg rxqueue r pktInfo - startOffset ethType pktInfo := by
      unfold toEnd icssBlockSize
      omega
    have hrest : pktInfo.length - startOffset ethType pktInfo -
        (toEnd cfg rxqueue r pktInfo - startOffset ethType pktInfo) =
          pktInfo.length - toEnd cfg rxqueue r pktInfo := by
      omega
    have hle : toEnd cfg rxqueue r pktInfo ≤ pktInfo.length := Nat.min_le_left _ _
    rw [copyPacket_wrapped hr hsize hs hshadow hwrapped, data_pair _ _ _ _ _ _ (by omega), hfirst, hrest]

end InRing

/-! ## An example device -/

/-- The fields of the descriptors as the switch firmware has them. -/
def icssRxBd : RxLayout where
  toBdLayout := icssBd
  startFlagMask := 0x1
  portMask := 0x30000
  portShift := 16
  shadowMask := 0x4000
  supHsrFrameMask := 0x20
  lookupSuccessMask := 0x40
  timestampMask := 0x8000

def switchConfig : RxConfig where
  layout := icssRxBd
  queueInfos _ := fourBlocks
  swQueueInfos _ := fourBlocks
  emacMaxPktlen := 1522
  p0ColBufferOffset := 0xee00
  ocmcRam := 0x40300000
  rev21 := true
  ethTypeOffset := 12
  lreSvFrameOffset := 20

/-- A queue with room for the longest packet. -/
def sixtyFourBlocks : QueueInfo where
  bufferOffset := 0
  bufferDescOffset := 0x400
  bufferDescEnd := 0x4fc
  offset_le_end := by decide
  end_lt := by decide

/-! ## The two directions -/

theorem pktBlockSize_of_plain (hts : pktInfo.timestamp = false) :
    pktBlockSize pktInfo = blocksOf pktInfo.length := by
  simp [pktBlockSize, hts]

theorem blocksOf_le_count {n : Nat} (h : n ≤ icssBlockSize * rxqueue.count cfg.layout.toBdLayout) :
    blocksOf n ≤ rxqueue.count cfg.layout.toBdLayout := by
  unfold blocksOf icssBlockSize at *
  omega

/-- For every ring, content and start block, and every packet that the ring can hold: the copy of
`emac_rx_packet` inverts that of `prueth_tx_enqueue`. -/
theorem ring_copies_inverse (cfg : RxConfig) (ethType : EthType) (queue : QueueInfo)
    (ocmc : Memory UInt8) (w : Nat) (packet : List UInt8) (pktInfo : PacketInfo)
    (hw : w < queue.count cfg.layout.toBdLayout)
    (hroom : packet.length ≤ icssBlockSize * queue.count cfg.layout.toBdLayout)
    (hlen : pktInfo.length = packet.length) (hshadow : pktInfo.shadow = false)
    (hts : pktInfo.timestamp = false) (hs : startOffset ethType pktInfo ≤ packet.length) :
    CopiesInverse cfg ethType queue w pktInfo packet ocmc := by
  have hblocks : pktBlockSize pktInfo = blocksOf packet.length := by
    rw [pktBlockSize_of_plain hts, hlen]
  have hsize : pktBlockSize pktInfo ≤ queue.count cfg.layout.toBdLayout :=
    hblocks.le.trans (blocksOf_le_count hroom)
  have hs' : startOffset ethType pktInfo ≤ pktInfo.length := hs.trans hlen.ge
  constructor
  · intro skb
    rw [data_ptr hw hsize hs' hshadow, copyToRing_eq hw, hlen]
    exact read_write_drop hroom _
  · exact inside_copyPacket hw hsize hs' hshadow
  · intro k hle hlt
    rw [copyToRing_eq hw]
    exact write_beyond hle hlt
  · exact txUpdateBlock_eq _
  · rw [nextBlock_ptr hw hsize, hblocks]

/-- A frame of 60 bytes with a tag. -/
def taggedPacket : PacketInfo where
  startOffset := true
  shadow := false
  port := 1
  length := 60
  svFrame := false
  lookupSuccess := true
  timestamp := false

/-- The frame starts in the last block of the ring. -/
theorem ring_copies_inverse_tagged :
    CopiesInverse switchConfig .hsr fourBlocks 3 taggedPacket (List.replicate 60 7) fun _ => 0 :=
  ring_copies_inverse switchConfig .hsr fourBlocks (fun _ => 0) 3 _ taggedPacket (by decide) (by decide)
    rfl rfl rfl (by decide)

/-! ## The time stamp -/

theorem pktBlockSize_of_timestamp (hts : pktInfo.timestamp = true) :
    pktBlockSize pktInfo = blocksOf pktInfo.length + 1 := by
  simp [pktBlockSize, hts]

theorem timestampAddr_eq (haligned : icssBlockSize ∣ cfg.ocmcRam + rxqueue.bufferOffset) (n : Nat) :
    timestampAddr cfg (rxqueue.bufferOffset + n) =
      rxqueue.bufferOffset + (blocksOf n * icssBlockSize : Nat) := by
  obtain ⟨k, hk⟩ := haligned
  unfold timestampAddr blocksOf icssBlockSize at *
  omega

theorem skbSize_copyPacket :
    (copyPacket cfg ethType rxqueue pktInfo bdRdPtr).skbSize = actualPktLen ethType pktInfo := by
  unfold copyPacket
  dsimp only
  split <;> rfl

/-- The blocks at the start of the ring that the rest of the packet takes. -/
theorem blocksOf_rest {r : Nat} (hr : r < rxqueue.count cfg.layout.toBdLayout)
    (hwrapped : rxqueue.count cfg.layout.toBdLayout ≤ r + blocksOf pktInfo.length + 1)
    (hfit : blocksOf pktInfo.length + 1 ≤ rxqueue.count cfg.layout.toBdLayout) :
    blocksOf (pktInfo.length - toEnd cfg rxqueue r pktInfo) =
      if r + blocksOf pktInfo.length + 1 = rxqueue.count cfg.layout.toBdLayout then 0
      else (r + blocksOf pktInfo.length) % rxqueue.count cfg.layout.toBdLayout := by
  unfold toEnd
  generalize rxqueue.count cfg.layout.toBdLayout = n at *
  split
  · -- all data are before the end of the ring
    unfold blocksOf icssBlockSize at *
    omega
  · have hmod : (r + blocksOf pktInfo.length) % n = r + blocksOf pktInfo.length - n := by
      rw [Nat.mod_eq_sub_mod (by omega), Nat.mod_eq_of_lt (by omega)]
    rw [hmod]
    unfold blocksOf icssBlockSize at *
    omega

/-- The time stamp is read from the block behind the packet, unless this is the last block of the ring:
then it is read from the first block. -/
theorem timestampAddr_copyPacket {r : Nat} (hr : r < rxqueue.count cfg.layout.toBdLayout)
    (haligned : icssBlockSize ∣ cfg.ocmcRam + rxqueue.bufferOffset) (hshadow : pktInfo.shadow = false)
    (hts : pktInfo.timestamp = true) (hs : startOffset ethType pktInfo ≤ pktInfo.length)
    (hfit : blocksOf pktInfo.length + 1 ≤ rxqueue.count cfg.layout.toBdLayout) :
    timestampAddr cfg
        (copyPacket cfg ethType rxqueue pktInfo (rxqueue.ptr cfg.layout.toBdLayout r)).srcAddr =
      rxqueue.bufferOffset +
        ((if r + blocksOf pktInfo.length + 1 = rxqueue.count cfg.layout.toBdLayout then 0
          else (r + blocksOf pktInfo.length) % rxqueue.count cfg.layout.toBdLayout) *
            icssBlockSize : Nat) := by
  have hblocks := pktBlockSize_of_timestamp hts
  have hsize : pktBlockSize pktInfo ≤ rxqueue.count cfg.layout.toBdLayout := hblocks.le.trans hfit
  rcases Nat.lt_or_ge (r + pktBlockSize pktInfo) (rxqueue.count cfg.layout.toBdLayout) with
    hwrapped | hwrapped
  · have hblock : blocksOf (r * icssBlockSize + pktInfo.length) = r + blocksOf pktInfo.length := by
      unfold blocksOf icssBlockSize
      omega
    rw [copyPacket_straight hr hsize hs hshadow hwrapped, timestampAddr_eq haligned, hblock,
      if_neg (by omega), Nat.mod_eq_of_lt (by omega)]
  · rw [copyPacket_wrapped hr hsize hs hshadow hwrapped, timestampAddr_eq haligned,
      blocksOf_rest hr (by omega) hfit]

/-- For every ring, read block and packet with a time stamp: the driver copies its own time stamp,
whatever the ring holds, just when the block of the time stamp is not the last of the ring and the packet
is not shorter than its tag. -/
theorem own_timestamp_iff (cfg : RxConfig) (ethType : EthType) (rxqueue : QueueInfo) (r : Nat)
    (pktInfo : PacketInfo) (hr : r < rxqueue.count cfg.layout.toBdLayout)
    (haligned : icssBlockSize ∣ cfg.ocmcRam + rxqueue.bufferOffset) (hshadow : pktInfo.shadow = false)
    (hts : pktInfo.timestamp = true) (hpos : 1 ≤ pktInfo.length)
    (hfit : blocksOf pktInfo.length + 1 ≤ rxqueue.count cfg.layout.toBdLayout) :
    (∀ ocmc, OwnTimestamp cfg ethType rxqueue r pktInfo ocmc) ↔
      startOffset ethType pktInfo ≤ pktInfo.length ∧
        r + blocksOf pktInfo.length + 1 ≠ rxqueue.count cfg.layout.toBdLayout := by
  have hblocks := pktBlockSize_of_timestamp hts
  have hsize : pktBlockSize pktInfo ≤ rxqueue.count cfg.layout.toBdLayout := hblocks.le.trans hfit
  have hlen := (length_lt hsize).2
  constructor
  · intro h
    have hs : startOffset ethType pktInfo ≤ pktInfo.length := by
      have hpossible := (h fun _ => 0).possible
      rw [skbSize_copyPacket] at hpossible
      by_contra hlt
      have htag := startOffset_le ethType pktInfo
      unfold actualPktLen toUnsigned at hpossible
      unfold icssLreTagRctSize at htag
      omega
    refine ⟨hs, fun hlast => ?_⟩
    -- the first byte of the ring and that of its last block may differ
    let ocmc : Memory UInt8 := Function.update (fun _ => 0) (rxqueue.bufferOffset : Int) 1
    have hread := (h ocmc).timestamp
    rw [copyTimestamp, timestampAddr_copyPacket hr haligned hshadow hts hs hfit, if_pos hlast,
      Nat.mod_eq_of_lt (by omega)] at hread
    have hbyte := load_inj hread (show 0 < 8 by decide)
    have hfirst : ocmc (rxqueue.bufferOffset + (0 * icssBlockSize : Nat) + (0 : Nat)) = 1 := by
      simp [ocmc]
    have hother : ocmc (rxqueue.bufferOffset +
        ((r + blocksOf pktInfo.length) * icssBlockSize : Nat) + (0 : Nat)) = 0 := by
      apply Function.update_of_ne
      have hdata := blocksOf_pos hpos
      unfold icssBlockSize
      omega
    rw [hfirst, hother] at hbyte
    exact absurd hbyte (by decide)
  · rintro ⟨hs, hlast⟩ ocmc
    refine ⟨?_, inside_copyPacket hr hsize hs hshadow, ?_⟩
    · rw [skbSize_copyPacket, actualPktLen_eq hs hlen]
      omega
    · rw [copyTimestamp, timestampAddr_copyPacket hr haligned hshadow hts hs hfit, if_neg hlast]

/-- A descriptor of a packet of 32 bytes with a time stamp. -/
def stampedBd : BitVec 32 := 0x808000

theorem own_timestamp_iff_first_block :
    OwnTimestamp switchConfig .emac fourBlocks 0 (parsePacketInfo .emac icssRxBd stampedBd)
      fun a => if a = 32 then 1 else 0 :=
  (own_timestamp_iff switchConfig .emac fourBlocks 0 _ (by decide) (by decide) rfl rfl (by decide)
    (by decide)).mpr (by decide) _

/-- A packet in the block before the last one, with its time stamp in the last one, gets the first 8 bytes
of the ring. -/
theorem last_block_timestamp_missed :
    ¬ OwnTimestamp switchConfig .emac fourBlocks 2 (parsePacketInfo .emac icssRxBd stampedBd)
      fun a => if a = 0 then 1 else 0 := by
  intro h
  exact absurd h.timestamp (by decide)

/-! ## The lengths -/

/-- For a pointer anywhere, all of the packet is copied from the end of the ring, or the rest of the ring. -/
theorem bytesToEnd_cases (cfg : RxConfig) (ethType : EthType) (rxqueue : QueueInfo)
    (hptr : bdRdPtr < 2 ^ 16) (hlen : pktInfo.length < 2 ^ 31) :
    bytesToEnd cfg ethType rxqueue pktInfo bdRdPtr = pktInfo.length - startOffset ethType pktInfo ∨
      ∃ rest : Nat, rest = (rxqueue.count cfg.layout.toBdLayout -
          rxqueue.signedBlock cfg.layout.toBdLayout bdRdPtr) * icssBlockSize ∧
        rest ≤ pktInfo.length ∧
        bytesToEnd cfg ethType rxqueue pktInfo bdRdPtr = rest - startOffset ethType pktInfo := by
  have hcount := count_le rxqueue cfg.layout.toBdLayout
  have hblock := signedBlock_bounds rxqueue cfg.layout.toBdLayout hptr
  unfold bytesToEnd
  dsimp only
  generalize rxqueue.signedBlock cfg.layout.toBdLayout bdRdPtr = block at *
  generalize rxqueue.count cfg.layout.toBdLayout = n at *
  split
  case isTrue => exact Or.inl rfl
  case isFalse hrest =>
    have hpos : 0 ≤ ((n : Int) - block) * icssBlockSize := by
      by_contra hneg
      have hlarge := toUnsigned_of_neg (not_le.mp hneg) (by unfold icssBlockSize; omega)
      omega
    have hvalue : (toUnsigned (((n : Int) - block) * icssBlockSize) : Int) =
        ((n : Int) - block) * icssBlockSize :=
      toUnsigned_eq_iff.mpr ⟨hpos, by unfold icssBlockSize; omega⟩
    right
    exact ⟨_, hvalue, by omega, by rw [hvalue]⟩

theorem bytesToEnd_le (cfg : RxConfig) (ethType : EthType) (rxqueue : QueueInfo)
    (hptr : bdRdPtr < 2 ^ 16) (hlen : pktInfo.length < 2 ^ 31) :
    bytesToEnd cfg ethType rxqueue pktInfo bdRdPtr ≤ pktInfo.length - startOffset ethType pktInfo := by
  rcases bytesToEnd_cases cfg ethType rxqueue hptr hlen with heq | ⟨rest, -, hle, heq⟩
  · exact heq.le
  · omega

/-- The pointer behind the last descriptor leaves nothing of the ring, not even for the tag. -/
theorem bytesToEnd_at_end (hlt : pktInfo.length < 2 ^ 31)
    (hend : rxqueue.signedBlock cfg.layout.toBdLayout bdRdPtr = rxqueue.count cfg.layout.toBdLayout) :
    BufferWrapped cfg rxqueue pktInfo bdRdPtr ∧
      bytesToEnd cfg ethType rxqueue pktInfo bdRdPtr = -startOffset ethType pktInfo := by
  have hcount := count_le rxqueue cfg.layout.toBdLayout
  constructor
  · have hsize : pktBlockSize pktInfo < 2 ^ 31 := by
      unfold pktBlockSize blocksOf icssBlockSize
      split <;> omega
    unfold BufferWrapped updateBlock
    rw [hend]
    norm_cast
    rw [toUnsigned_natCast (by omega)]
    exact Nat.le_add_right _ _
  · unfold bytesToEnd
    dsimp only
    have hzero : toUnsigned 0 = 0 := rfl
    rw [hend, sub_self, zero_mul, hzero, if_neg (Nat.not_lt_zero _), zero_sub]

theorem inside_of_lengths
    (hbytes : BufferWrapped cfg rxqueue pktInfo bdRdPtr →
      0 ≤ bytesToEnd cfg ethType rxqueue pktInfo bdRdPtr)
    (hlt : bytesToEnd cfg ethType rxqueue pktInfo bdRdPtr < 2 ^ 32)
    (hremaining : BufferWrapped cfg rxqueue pktInfo bdRdPtr →
      (remaining cfg ethType rxqueue pktInfo bdRdPtr : Int) =
        actualPktLen ethType pktInfo - bytesToEnd cfg ethType rxqueue pktInfo bdRdPtr) :
    (copyPacket cfg ethType rxqueue pktInfo bdRdPtr).Inside := by
  unfold copyPacket
  dsimp only
  split
  case isTrue hwrapped =>
    have hfirst := hbytes hwrapped
    have hrest := hremaining hwrapped
    have hsize := toUnsigned_eq_iff.mpr ⟨hfirst, hlt⟩
    simp only [PacketCopy.Inside, List.mem_cons, List.not_mem_nil, or_false, forall_eq_or_imp, forall_eq]
    omega
  case isFalse =>
    simp [PacketCopy.Inside]

/-- For every mode, descriptor, read pointer, and ring with room for the longest packet: the lengths are
right just when what is removed from the packet fits. -/
theorem lengths_ok_iff (cfg : RxConfig) (ethType : EthType) (removeRct : Bool) (rxqueue : QueueInfo)
    (bd : BitVec 32) (bdRdPtr : Nat) (hptr : bdRdPtr < 2 ^ 16)
    (hlen : ¬ BadLength cfg (parsePacketInfo ethType cfg.layout bd))
    (hring : cfg.emacMaxPktlen + icssBlockSize ≤
      icssBlockSize * rxqueue.count cfg.layout.toBdLayout) :
    LengthsOk cfg ethType removeRct rxqueue (parsePacketInfo ethType cfg.layout bd) bdRdPtr ↔
      RemovedFits cfg ethType removeRct rxqueue (parsePacketInfo ethType cfg.layout bd) bdRdPtr := by
  generalize parsePacketInfo ethType cfg.layout bd = pktInfo at *
  have hcount := count_le rxqueue cfg.layout.toBdLayout
  have hlt : pktInfo.length < 2 ^ 31 := by
    unfold BadLength at hlen
    unfold icssBlockSize at hring
    omega
  constructor
  · rintro ⟨hactual, hstripped, hbytes, -, -, -⟩
    refine ⟨by omega, ?_⟩
    by_contra h
    obtain ⟨htag, hend⟩ := not_or.mp h
    obtain ⟨hwrapped, heq⟩ := bytesToEnd_at_end hlt (not_not.mp hend)
    have hnonneg := hbytes hwrapped
    rw [heq] at hnonneg
    omega
  · rintro ⟨hremoved, hend⟩
    have hs : startOffset ethType pktInfo ≤ pktInfo.length := by omega
    have hactual := actualPktLen_eq hs hlt
    have hstripped : (strippedPktLen ethType removeRct pktInfo : Int) =
        actualPktLen ethType pktInfo - removedRct ethType removeRct pktInfo :=
      toUnsigned_eq_iff.mpr (by omega)
    have hle := bytesToEnd_le cfg ethType rxqueue hptr hlt
    have hbytes : 0 ≤ bytesToEnd cfg ethType rxqueue pktInfo bdRdPtr := by
      rcases bytesToEnd_cases cfg ethType rxqueue hptr hlt with heq | ⟨rest, hrest, -, heq⟩
      · omega
      · -- a ring that is left has room for the tag
        have htag := startOffset_le ethType pktInfo
        unfold icssLreTagRctSize icssBlockSize at *
        rcases hend with hzero | hblock <;> omega
    have hremaining : (remaining cfg ethType rxqueue pktInfo bdRdPtr : Int) =
        actualPktLen ethType pktInfo - bytesToEnd cfg ethType rxqueue pktInfo bdRdPtr :=
      toUnsigned_eq_iff.mpr (by omega)
    refine ⟨by omega, hstripped, fun _ => hbytes, fun _ => hremaining, ?_, by omega⟩
    exact inside_of_lengths (fun _ => hbytes) (by omega) fun _ => hremaining

/-- A descriptor of a frame of 60 bytes with a tag. -/
def taggedBd : BitVec 32 := 0xf00001

theorem lengths_ok_iff_tagged :
    LengthsOk switchConfig .hsr false sixtyFourBlocks (parsePacketInfo .hsr icssRxBd taggedBd) 0x400 :=
  (lengths_ok_iff switchConfig .hsr false sixtyFourBlocks taggedBd 0x400 (by decide) (by decide)
    (by decide)).mpr (by decide)

/-- The length of a frame of 3 bytes with a tag is accepted, and the tag is longer. -/
theorem short_tagged_length_wraps :
    ¬ BadLength switchConfig (parsePacketInfo .hsr icssRxBd 0xc0001) ∧
    actualPktLen .hsr (parsePacketInfo .hsr icssRxBd 0xc0001) = 2 ^ 32 - 3 ∧
    ¬ LengthsOk switchConfig .hsr false sixtyFourBlocks (parsePacketInfo .hsr icssRxBd 0xc0001) 0x400 := by
  refine ⟨by decide, by decide, fun h => ?_⟩
  exact absurd h.actual (by decide)

end Am437x.Prueth.Rx
