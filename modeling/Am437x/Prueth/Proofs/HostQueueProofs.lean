import Am437x.Prueth.HostQueue
import Am437x.Prueth.Proofs.RxProofs

/-!
# What the host queues hold

A queue holds packets one behind the other from its read pointer on. A packet placed behind them, and one
taken from the front, leave the others where they are, in this queue and in the other ones. What is copied
from the front are the data of the packet there.
-/

namespace Am437x.Prueth.Rx

open Flat Ring Loops Runs

variable {ethType : EthType} {cfg : RxConfig} {rxqueue : QueueInfo} {i : QueueId}
  {h h' : HostQueues} {d : QueueDesc} {pos : Nat} {p : HostPacket} {ps : List HostPacket}

/-! ## What a queue holds -/

/-- The packet lies at the position: its descriptor, and its data in the ring or in the collision
buffer. -/
structure StoredAt (ethType : EthType) (cfg : RxConfig) (rxqueue : QueueInfo) (h : HostQueues)
    (pos : Nat) (p : HostPacket) : Prop where
  proper : p.Proper ethType cfg
  fits : p.blocks ethType cfg ≤ rxqueue.count cfg.layout.toBdLayout
  desc : h.sharedRam (rxqueue.ptr cfg.layout.toBdLayout (pos % rxqueue.count cfg.layout.toBdLayout)) =
    p.bd
  ring : (p.info ethType cfg).shadow = false →
    Ring.read h.ocmc rxqueue.bufferOffset (icssBlockSize * rxqueue.count cfg.layout.toBdLayout)
      (icssBlockSize * pos) p.data.length = p.data
  collision : (p.info ethType cfg).shadow = true →
    load h.ocmc cfg.p0ColBufferOffset p.data.length = p.data

/-- The queue with these pointers holds the packets, from a position of its ring on. -/
structure HoldsAt (ethType : EthType) (cfg : RxConfig) (rxqueue : QueueInfo) (d : QueueDesc)
    (h : HostQueues) (pos : Nat) (ps : List HostPacket) : Prop where
  rd : d.rdPtr = rxqueue.ptr cfg.layout.toBdLayout (pos % rxqueue.count cfg.layout.toBdLayout)
  wr : d.wrPtr = rxqueue.ptr cfg.layout.toBdLayout
    ((pos + total (HostPacket.blocks ethType cfg) ps) % rxqueue.count cfg.layout.toBdLayout)
  room : total (HostPacket.blocks ethType cfg) ps < rxqueue.count cfg.layout.toBdLayout
  stored : Queued (HostPacket.blocks ethType cfg) (StoredAt ethType cfg rxqueue h) pos ps

/-- Every queue holds its packets. -/
def Represents (ethType : EthType) (cfg : RxConfig) (h : HostQueues)
    (pending : QueueId → List HostPacket) : Prop :=
  ∀ i, ∃ pos, HoldsAt ethType cfg (cfg.rxqueue ethType i) (h.queueDescs i) h pos (pending i)

theorem HostPacket.Proper.data_pos (hp : p.Proper ethType cfg) : 0 < p.data.length := by
  obtain ⟨hlen, hbad, -⟩ := hp
  rw [← hlen]
  exact Nat.pos_of_ne_zero fun hzero => hbad (Or.inl hzero)

theorem HostPacket.Proper.le_maxPktlen (hp : p.Proper ethType cfg) :
    p.data.length ≤ cfg.emacMaxPktlen := by
  obtain ⟨hlen, hbad, -⟩ := hp
  rw [← hlen]
  exact not_lt.mp fun hlt => hbad (Or.inr hlt)

theorem HostPacket.Proper.le_blocks (hp : p.Proper ethType cfg) :
    p.data.length ≤ icssBlockSize * p.blocks ethType cfg := by
  have hle := le_mul_blocksOf (p.info ethType cfg).length
  have hlen := hp.1
  unfold HostPacket.blocks pktBlockSize icssBlockSize at *
  omega

theorem HostPacket.Proper.blocks_pos (hp : p.Proper ethType cfg) : 0 < p.blocks ethType cfg := by
  have hle := hp.le_blocks
  have hpos := hp.data_pos
  unfold icssBlockSize at hle
  omega

/-- The pointers are equal just when the queue holds nothing. -/
theorem HoldsAt.ptrs_eq_iff (hold : HoldsAt ethType cfg rxqueue d h pos ps) :
    d.rdPtr = d.wrPtr ↔ ps = [] := by
  rw [hold.rd, hold.wr]
  constructor
  · intro hptr
    have hroom := hold.room
    have hzero : pos = pos + total (HostPacket.blocks ethType cfg) ps :=
      eq_of_mod_eq (Nat.le_add_right _ _) (by omega) (QueueInfo.ptr_mod_inj hptr)
    cases ps with
    | nil => rfl
    | cons p ps =>
      have hpos := hold.stored.1.proper.blocks_pos
      rw [total_cons] at hzero
      omega
  · rintro rfl
    rw [total_nil, Nat.add_zero]

/-! ## Frame conditions -/

/-- The memories are the same where the queue lies. -/
structure SameQueue (cfg : RxConfig) (rxqueue : QueueInfo) (h h' : HostQueues) : Prop where
  desc : ∀ b < rxqueue.count cfg.layout.toBdLayout,
    h'.sharedRam (rxqueue.ptr cfg.layout.toBdLayout b) = h.sharedRam (rxqueue.ptr cfg.layout.toBdLayout b)
  ring : ∀ pos, h'.ocmc (cell rxqueue.bufferOffset
      (icssBlockSize * rxqueue.count cfg.layout.toBdLayout) pos) =
    h.ocmc (cell rxqueue.bufferOffset (icssBlockSize * rxqueue.count cfg.layout.toBdLayout) pos)

/-- The packets in the collision buffer are the same. -/
def SameCollision (ethType : EthType) (cfg : RxConfig) (h h' : HostQueues) (ps : List HostPacket) :
    Prop :=
  ∀ p ∈ ps, p.Proper ethType cfg → (p.info ethType cfg).shadow = true →
    load h'.ocmc cfg.p0ColBufferOffset p.data.length = load h.ocmc cfg.p0ColBufferOffset p.data.length

theorem StoredAt.congr (hst : StoredAt ethType cfg rxqueue h pos p)
    (hsame : SameQueue cfg rxqueue h h') (hcol : SameCollision ethType cfg h h' [p]) :
    StoredAt ethType cfg rxqueue h' pos p where
  proper := hst.proper
  fits := hst.fits
  desc := (hsame.desc _ (QueueInfo.mod_lt_count pos)).trans hst.desc
  ring hshadow := by
    rw [← hst.ring hshadow, read_length]
    exact List.map_congr_left fun k _ => hsame.ring _
  collision hshadow := by
    rw [hcol p (List.mem_singleton_self p) hst.proper hshadow]
    exact hst.collision hshadow

theorem queued_congr
    (hq : Queued (HostPacket.blocks ethType cfg) (StoredAt ethType cfg rxqueue h) pos ps)
    (hsame : SameQueue cfg rxqueue h h') (hcol : SameCollision ethType cfg h h' ps) :
    Queued (HostPacket.blocks ethType cfg) (StoredAt ethType cfg rxqueue h') pos ps := by
  induction ps generalizing pos with
  | nil => trivial
  | cons p ps ih =>
    obtain ⟨hp, hps⟩ := hq
    obtain ⟨hcolp, hcolps⟩ := List.forall_mem_cons.mp hcol
    exact ⟨hp.congr hsame (List.forall_mem_singleton.mpr hcolp), ih hps hcolps⟩

theorem HoldsAt.congr {d' : QueueDesc} (hold : HoldsAt ethType cfg rxqueue d h pos ps)
    (hsame : SameQueue cfg rxqueue h h') (hcol : SameCollision ethType cfg h h' ps)
    (hrd : d'.rdPtr = d.rdPtr) (hwr : d'.wrPtr = d.wrPtr) :
    HoldsAt ethType cfg rxqueue d' h' pos ps :=
  ⟨hrd.trans hold.rd, hwr.trans hold.wr, hold.room, queued_congr hold.stored hsame hcol⟩

theorem Represents.clearOverflow {pending : QueueId → List HostPacket}
    (hrep : Represents ethType cfg h pending) (i : QueueId) :
    Represents ethType cfg (h.clearOverflow i) pending := by
  intro j
  obtain ⟨pos, hold⟩ := hrep j
  have hdesc : ((h.clearOverflow i).queueDescs j).rdPtr = (h.queueDescs j).rdPtr ∧
      ((h.clearOverflow i).queueDescs j).wrPtr = (h.queueDescs j).wrPtr := by
    unfold HostQueues.clearOverflow
    rcases eq_or_ne j i with rfl | hne
    · simp
    · simp [Function.update_of_ne hne]
  exact ⟨pos, hold.congr ⟨fun _ _ => rfl, fun _ => rfl⟩ (fun _ _ _ _ => rfl) hdesc.1 hdesc.2⟩

theorem ptr_mem_descs {layout : BdLayout} {b : Nat} (hb : b < rxqueue.count layout) :
    rxqueue.bufferDescOffset ≤ rxqueue.ptr layout b ∧ rxqueue.ptr layout b ≤ rxqueue.bufferDescEnd := by
  have hle : b * layout.bdSize ≤ rxqueue.bufferDescEnd - rxqueue.bufferDescOffset :=
    (Nat.mul_le_mul_right _ (Nat.le_of_lt_succ hb)).trans (Nat.div_mul_le_self _ _)
  have hoffset := rxqueue.offset_le_end
  rw [QueueInfo.ptr_eq hb]
  omega

/-- A pointer to a descriptor of another queue. -/
theorem ptr_ne_of_separate (hsep : cfg.Separate ethType) {i j : QueueId} (hne : j ≠ i) {a b : Nat}
    (ha : a < (cfg.rxqueue ethType j).count cfg.layout.toBdLayout)
    (hb : b < (cfg.rxqueue ethType i).count cfg.layout.toBdLayout) :
    (cfg.rxqueue ethType j).ptr cfg.layout.toBdLayout a ≠
      (cfg.rxqueue ethType i).ptr cfg.layout.toBdLayout b := by
  have hja := ptr_mem_descs ha
  have hib := ptr_mem_descs hb
  rcases hsep.descs j i hne with hlt | hlt <;> omega

/-! ## The packet at the front -/

theorem HoldsAt.not_empty (hold : HoldsAt ethType cfg rxqueue d h pos (p :: ps)) :
    d.rdPtr ≠ d.wrPtr :=
  mt hold.ptrs_eq_iff.mp (List.cons_ne_nil p ps)

/-- The descriptor at the read pointer is that of the packet. -/
theorem HoldsAt.front (hold : HoldsAt ethType cfg rxqueue d h pos (p :: ps)) :
    h.sharedRam d.rdPtr = p.bd := by
  rw [hold.rd]
  exact hold.stored.1.desc

/-- The read pointer behind the packet. -/
theorem HoldsAt.updateRdPtr_eq (hold : HoldsAt ethType cfg rxqueue d h pos (p :: ps)) :
    updateRdPtr cfg rxqueue (p.info ethType cfg) d.rdPtr =
      rxqueue.ptr cfg.layout.toBdLayout
        ((pos + p.blocks ethType cfg) % rxqueue.count cfg.layout.toBdLayout) := by
  rw [updateRdPtr, hold.rd, nextBlock_ptr (QueueInfo.mod_lt_count pos) hold.stored.1.fits,
    Nat.mod_add_mod]
  rfl

/-- The packet is taken from the front of its queue. -/
theorem Represents.advance (hsep : cfg.Separate ethType) {pending : QueueId → List HostPacket}
    (hrep : Represents ethType cfg h pending) (hfront : pending i = p :: ps) {update : Nat}
    (hupdate : update = updateRdPtr cfg (cfg.rxqueue ethType i) (p.info ethType cfg)
      (h.queueDescs i).rdPtr) :
    Represents ethType cfg (h.advance i (h.queueDescs i).rdPtr update)
      (Function.update pending i ps) := by
  obtain ⟨pos, hold⟩ := hrep i
  rw [hfront] at hold
  intro j
  rcases eq_or_ne j i with rfl | hne
  · refine ⟨pos + p.blocks ethType cfg, ?_⟩
    rw [Function.update_self]
    have hroom := hold.room
    rw [total_cons] at hroom
    have hblocks := hold.stored.1.proper.blocks_pos
    refine ⟨?_, ?_, by omega, ?_⟩
    · simp only [HostQueues.advance, Function.update_self]
      rw [hupdate, hold.updateRdPtr_eq]
    · simp only [HostQueues.advance, Function.update_self]
      rw [hold.wr, total_cons, Nat.add_assoc]
    · refine hold.stored.2.imp fun q r hle hend hr => ?_
      -- the cleared descriptor is not that of a packet behind
      have hother : q % (cfg.rxqueue ethType j).count cfg.layout.toBdLayout ≠
          pos % (cfg.rxqueue ethType j).count cfg.layout.toBdLayout := by
        intro hmod
        have hsize := hr.proper.blocks_pos
        have := eq_of_mod_eq (show pos ≤ q by omega) (by omega) hmod.symm
        omega
      refine ⟨hr.proper, hr.fits, ?_, hr.ring, hr.collision⟩
      rw [← hr.desc]
      apply Function.update_of_ne
      rw [hold.rd]
      exact_mod_cast fun heq => hother (QueueInfo.ptr_mod_inj heq)
  · obtain ⟨pos', hold'⟩ := hrep j
    rw [Function.update_of_ne hne]
    refine ⟨pos', hold'.congr ⟨fun b hb => ?_, fun _ => rfl⟩ (fun _ _ _ _ => rfl) ?_ ?_⟩
    · apply Function.update_of_ne
      rw [hold.rd]
      exact_mod_cast ptr_ne_of_separate hsep hne hb (QueueInfo.mod_lt_count pos)
    · simp [HostQueues.advance, Function.update_of_ne hne]
    · simp [HostQueues.advance, Function.update_of_ne hne]

/-! ## What is copied from the front -/

/-- A packet in the collision buffer is copied from there as it lies, also in two parts. -/
theorem data_collision {pktInfo : PacketInfo} {r : Nat} (hr : r < rxqueue.count cfg.layout.toBdLayout)
    (hsize : pktBlockSize pktInfo ≤ rxqueue.count cfg.layout.toBdLayout)
    (hs : startOffset ethType pktInfo ≤ pktInfo.length) (hshadow : pktInfo.shadow = true)
    (ocmc skb : Memory UInt8) :
    (copyPacket cfg ethType rxqueue pktInfo (rxqueue.ptr cfg.layout.toBdLayout r)).data ocmc skb =
      load ocmc (cfg.p0ColBufferOffset + startOffset ethType pktInfo)
        (pktInfo.length - startOffset ethType pktInfo) := by
  have hlen := (length_lt hsize).2
  have hstart := startOffset_le_toEnd hr hs
  have hle : toEnd cfg rxqueue r pktInfo ≤ pktInfo.length := Nat.min_le_left _ _
  have hbytes : bytesToEnd cfg ethType rxqueue pktInfo (rxqueue.ptr cfg.layout.toBdLayout r) =
      (toEnd cfg rxqueue r pktInfo - startOffset ethType pktInfo : Nat) := by
    rw [bytesToEnd_ptr hr, Int.ofNat_sub hstart]
  have hremaining : remaining cfg ethType rxqueue pktInfo (rxqueue.ptr cfg.layout.toBdLayout r) =
      pktInfo.length - toEnd cfg rxqueue r pktInfo := by
    unfold remaining
    rw [hbytes, actualPktLen_eq hs hlen, ← Int.ofNat_sub (by omega), toUnsigned_natCast (by omega)]
    omega
  have hsplit : pktInfo.length - startOffset ethType pktInfo =
      (toEnd cfg rxqueue r pktInfo - startOffset ethType pktInfo) +
        (pktInfo.length - toEnd cfg rxqueue r pktInfo) := by
    omega
  unfold copyPacket
  simp only [hshadow, if_true]
  split
  · rw [hbytes, hremaining, toUnsigned_natCast (by omega), actualPktLen_eq hs hlen,
      data_pair _ _ _ _ _ _ hsplit, hsplit, load_add]
  · rw [actualPktLen_eq hs hlen, data_single]

/-- The data of the packet are copied, without the tag in front of them. -/
theorem StoredAt.data (hst : StoredAt ethType cfg rxqueue h pos p) (skb : Memory UInt8) :
    (copyPacket cfg ethType rxqueue (p.info ethType cfg) (rxqueue.ptr cfg.layout.toBdLayout
      (pos % rxqueue.count cfg.layout.toBdLayout))).data h.ocmc skb =
        p.data.drop (startOffset ethType (p.info ethType cfg)) := by
  obtain ⟨hlen, -, htag⟩ := hst.proper
  have hs : startOffset ethType (p.info ethType cfg) ≤ p.data.length := by omega
  have hsum := Nat.add_sub_cancel' hs
  rw [← hlen] at hs
  cases hshadow : (p.info ethType cfg).shadow with
  | false =>
    have hring := hst.ring hshadow
    have hpos : (icssBlockSize * (pos % rxqueue.count cfg.layout.toBdLayout) +
          startOffset ethType (p.info ethType cfg)) %
          (icssBlockSize * rxqueue.count cfg.layout.toBdLayout) =
        (icssBlockSize * pos + startOffset ethType (p.info ethType cfg)) %
          (icssBlockSize * rxqueue.count cfg.layout.toBdLayout) := by
      rw [← Nat.mul_mod_mul_left, Nat.mod_add_mod]
    rw [← hsum, read_add] at hring
    rw [data_ptr (QueueInfo.mod_lt_count pos) hst.fits hs hshadow, hlen, ← read_mod, hpos, read_mod]
    conv_rhs => rw [← hring]
    rw [List.drop_left' (read_length _)]
  | true =>
    have hcol := hst.collision hshadow
    rw [← hsum, load_add] at hcol
    rw [data_collision (QueueInfo.mod_lt_count pos) hst.fits hs hshadow, hlen]
    conv_rhs => rw [← hcol]
    rw [List.drop_left' (load_length _ _ _)]

theorem removedRct_le (ethType : EthType) (removeRct : Bool) (pktInfo : PacketInfo) :
    removedRct ethType removeRct pktInfo ≤ removedRct ethType true pktInfo := by
  unfold removedRct
  cases removeRct
  · simp
  · exact le_rfl

theorem HostPacket.Proper.strippedPktLen_eq (hp : p.Proper ethType cfg)
    (hsize : p.blocks ethType cfg ≤ rxqueue.count cfg.layout.toBdLayout) (removeRct : Bool) :
    strippedPktLen ethType removeRct (p.info ethType cfg) =
      p.data.length - startOffset ethType (p.info ethType cfg) -
        removedRct ethType removeRct (p.info ethType cfg) := by
  obtain ⟨hlen, -, htag⟩ := hp
  have hlt := (length_lt hsize).2
  have hremoved := removedRct_le ethType removeRct (p.info ethType cfg)
  have hs : startOffset ethType (p.info ethType cfg) ≤ (p.info ethType cfg).length := by omega
  unfold strippedPktLen
  rw [actualPktLen_eq hs hlt, ← Int.ofNat_sub (by omega), toUnsigned_natCast (by omega), hlen]

/-- What is sent up the stack when the packet is received. -/
theorem deliver_received {pktInfo : PacketInfo} {data ts : List UInt8} {emac : Port} {env : RxEnv}
    (s : RxState) :
    (deliver cfg env ethType emac pktInfo data ts s).received.map RxSkb.frame =
      s.received.map RxSkb.frame ++
        if env.ptpRxTsEnabled emac = true ∧ pktInfo.timestamp = true ∧ ethType = .hsr ∧
          env.ctKept emac data (typeField cfg data) = true then [] else [(emac, data)] := by
  have hstamped : ((env.ptpRxTsEnabled emac && pktInfo.timestamp) = true ∧ ethType = .hsr ∧
        env.ctKept emac data (typeField cfg data) = true) ↔
      env.ptpRxTsEnabled emac = true ∧ pktInfo.timestamp = true ∧ ethType = .hsr ∧
        env.ctKept emac data (typeField cfg data) = true := by
    rw [Bool.and_eq_true, and_assoc]
  unfold deliver
  dsimp only
  by_cases hkept : env.ptpRxTsEnabled emac = true ∧ pktInfo.timestamp = true ∧ ethType = .hsr ∧
      env.ctKept emac data (typeField cfg data) = true
  · rw [if_pos hkept, if_pos (hstamped.mpr hkept), List.append_nil]
  · rw [if_neg hkept, if_neg (mt hstamped.mp hkept), List.map_append]
    rfl

/-- The call for the packet at the front sends its frame up the stack, unless it is withheld. -/
theorem StoredAt.received (hst : StoredAt ethType cfg rxqueue h pos p) (env : RxEnv) (s : RxState)
    (hhost : s.host = h) (emac : Port) (halloc : env.allocOk s.used = true) (queue : QueueId) :
    (emacRxPacket cfg env ethType emac rxqueue (p.info ethType cfg)
        (rxqueue.ptr cfg.layout.toBdLayout (pos % rxqueue.count cfg.layout.toBdLayout))
        s).2.2.received.map RxSkb.frame =
      s.received.map RxSkb.frame ++
        HandledPacket.delivered ethType cfg ⟨queue, p, emac, env⟩ := by
  subst hhost
  have hframe : (p.data.drop (startOffset ethType (p.info ethType cfg))).take
      (strippedPktLen ethType env.removeRct (p.info ethType cfg)) =
        HandledPacket.frame ethType cfg ⟨queue, p, emac, env⟩ := by
    rw [hst.proper.strippedPktLen_eq hst.fits, HandledPacket.frame, List.length_drop]
  unfold emacRxPacket
  dsimp only
  rw [if_neg (by simp [halloc]), hst.data, hframe]
  unfold HandledPacket.delivered RxState.addStats
  by_cases hsv : (p.info ethType cfg).svFrame = true
  · have hwithheld : HandledPacket.Withheld ethType cfg ⟨queue, p, emac, env⟩ := Or.inl hsv
    rw [if_pos hsv, if_pos hwithheld, List.append_nil]
  · rw [if_neg hsv, deliver_received]
    exact congrArg _ (if_congr (or_iff_right hsv).symm rfl rfl)

/-! ## A packet placed -/

theorem HoldsAt.usedBlocks_eq (hold : HoldsAt ethType cfg (cfg.rxqueue ethType i) (h.queueDescs i) h pos ps) :
    usedBlocks ethType cfg i h = total (HostPacket.blocks ethType cfg) ps := by
  have hpos := Nat.mod_lt pos ((cfg.rxqueue ethType i).count_pos cfg.layout.toBdLayout)
  have hcases := add_mod_cases pos hold.room
  have hroom := hold.room
  unfold usedBlocks
  dsimp only
  rw [hold.rd, hold.wr, QueueInfo.block_ptr (QueueInfo.mod_lt_count _),
    QueueInfo.block_ptr (QueueInfo.mod_lt_count _)]
  generalize (cfg.rxqueue ethType i).count cfg.layout.toBdLayout = n at *
  rcases hcases with ⟨hmod, hlt⟩ | ⟨hmod, hle⟩
  · have hsum : (pos + total (HostPacket.blocks ethType cfg) ps) % n + n - pos % n =
        total (HostPacket.blocks ethType cfg) ps + n := by omega
    rw [hsum, Nat.add_mod_right, Nat.mod_eq_of_lt hroom]
  · have hsum : (pos + total (HostPacket.blocks ethType cfg) ps) % n + n - pos % n =
        total (HostPacket.blocks ethType cfg) ps := by omega
    rw [hsum, Nat.mod_eq_of_lt hroom]

/-- The packet is written at the position behind the queue. -/
theorem write_at_wrPtr {bs : List UInt8} (m : Memory UInt8) (rxqueue : QueueInfo) (n pos : Nat) :
    Ring.write m rxqueue.bufferOffset (icssBlockSize * n) (icssBlockSize * (pos % n)) bs =
      Ring.write m rxqueue.bufferOffset (icssBlockSize * n) (icssBlockSize * pos) bs := by
  rw [← Nat.mul_mod_mul_left, write_mod]

section Append

variable {pending : QueueId → List HostPacket}

/-- Nothing is written outside the ring and the collision buffer. -/
theorem firmwareAppend_ocmc (hp : p.Proper ethType cfg)
    (hroom : p.blocks ethType cfg ≤ (cfg.rxqueue ethType i).count cfg.layout.toBdLayout) {x : Int}
    (hring : x < (cfg.rxqueue ethType i).bufferOffset ∨ (cfg.rxqueue ethType i).bufferOffset +
      (icssBlockSize * (cfg.rxqueue ethType i).count cfg.layout.toBdLayout : Nat) ≤ x)
    (hcol : (p.info ethType cfg).shadow = true →
      x < cfg.p0ColBufferOffset ∨ cfg.p0ColBufferOffset + (cfg.emacMaxPktlen : Int) ≤ x) :
    (firmwareAppend ethType cfg i p h).ocmc x = h.ocmc x := by
  have hlen := hp.le_maxPktlen
  have hfit : p.data.length ≤
      icssBlockSize * (cfg.rxqueue ethType i).count cfg.layout.toBdLayout :=
    hp.le_blocks.trans (Nat.mul_le_mul_left _ hroom)
  unfold firmwareAppend
  dsimp only
  split
  case isTrue hshadow =>
    apply store_outside
    have := hcol hshadow
    omega
  case isFalse => exact write_outside hfit hring

/-- No packet of another queue is in the blocks of the ring. -/
theorem sameQueue_append (hsep : cfg.Separate ethType) {j : QueueId} (hne : j ≠ i)
    (hold : HoldsAt ethType cfg (cfg.rxqueue ethType i) (h.queueDescs i) h pos ps)
    (hp : p.Proper ethType cfg)
    (hroom : p.blocks ethType cfg ≤ (cfg.rxqueue ethType i).count cfg.layout.toBdLayout) :
    SameQueue cfg (cfg.rxqueue ethType j) h (firmwareAppend ethType cfg i p h) where
  desc b hb := by
    apply Function.update_of_ne
    rw [hold.wr]
    exact_mod_cast ptr_ne_of_separate hsep hne hb (QueueInfo.mod_lt_count _)
  ring q := by
    have hcell := cell_mem ((cfg.rxqueue ethType j).bufferOffset : Int) q
      (Nat.mul_pos (by decide : 0 < icssBlockSize)
        ((cfg.rxqueue ethType j).count_pos cfg.layout.toBdLayout))
    have hbuffers := hsep.buffers j i hne
    have hcollision := hsep.collision j
    exact firmwareAppend_ocmc hp hroom (by omega) fun _ => by omega

/-- A packet in the collision buffer stays there, since no other one is placed in it. -/
theorem sameCollision_append (hsep : cfg.Separate ethType) (hp : p.Proper ethType cfg)
    (hroom : p.blocks ethType cfg ≤ (cfg.rxqueue ethType i).count cfg.layout.toBdLayout)
    (hfree : (p.info ethType cfg).shadow = true → ∀ q ∈ ps, (q.info ethType cfg).shadow = false) :
    SameCollision ethType cfg h (firmwareAppend ethType cfg i p h) ps := by
  intro q hq hqproper hqshadow
  have hlen := hqproper.le_maxPktlen
  have hcollision := hsep.collision i
  have hplain : (p.info ethType cfg).shadow ≠ true := by
    intro hshadow
    rw [hfree hshadow q hq] at hqshadow
    cases hqshadow
  apply load_congr
  intro k hk
  exact firmwareAppend_ocmc hp hroom (by omega) fun hshadow => absurd hshadow hplain

/-- The packet lies where it is placed. -/
theorem storedAt_append (hold : HoldsAt ethType cfg (cfg.rxqueue ethType i) (h.queueDescs i) h pos ps)
    (hp : p.Proper ethType cfg)
    (hroom : p.blocks ethType cfg ≤ (cfg.rxqueue ethType i).count cfg.layout.toBdLayout) :
    StoredAt ethType cfg (cfg.rxqueue ethType i) (firmwareAppend ethType cfg i p h)
      (pos + total (HostPacket.blocks ethType cfg) ps) p where
  proper := hp
  fits := hroom
  desc := by
    show Function.update h.sharedRam _ p.bd _ = p.bd
    rw [← hold.wr]
    exact Function.update_self _ _ _
  ring hshadow := by
    have hfit : p.data.length ≤
        icssBlockSize * (cfg.rxqueue ethType i).count cfg.layout.toBdLayout :=
      hp.le_blocks.trans (Nat.mul_le_mul_left _ hroom)
    unfold firmwareAppend
    dsimp only
    rw [hshadow, if_neg Bool.false_ne_true, hold.wr, QueueInfo.block_ptr (QueueInfo.mod_lt_count _),
      write_at_wrPtr, read_write_same hfit]
  collision hshadow := by
    unfold firmwareAppend
    dsimp only
    rw [hshadow, if_pos rfl, load_store_same]

/-- A packet of the queue stays where it is when another one is placed behind the queue. -/
theorem StoredAt.append {q : Nat} {r : HostPacket}
    (hr : StoredAt ethType cfg (cfg.rxqueue ethType i) h q r)
    (hold : HoldsAt ethType cfg (cfg.rxqueue ethType i) (h.queueDescs i) h pos ps)
    (hp : p.Proper ethType cfg)
    (hroom : total (HostPacket.blocks ethType cfg) ps + p.blocks ethType cfg <
      (cfg.rxqueue ethType i).count cfg.layout.toBdLayout)
    (hle : pos ≤ q) (hend : q + r.blocks ethType cfg ≤ pos + total (HostPacket.blocks ethType cfg) ps)
    (hsep : cfg.Separate ethType)
    (hcol : SameCollision ethType cfg h (firmwareAppend ethType cfg i p h) [r]) :
    StoredAt ethType cfg (cfg.rxqueue ethType i) (firmwareAppend ethType cfg i p h) q r where
  proper := hr.proper
  fits := hr.fits
  desc := by
    have hblocks := hr.proper.blocks_pos
    rw [← hr.desc]
    apply Function.update_of_ne
    rw [hold.wr]
    norm_cast
    intro heq
    have := eq_of_mod_eq (show q ≤ _ by omega) (by omega) (QueueInfo.ptr_mod_inj heq)
    omega
  ring hshadow := by
    have hlen := hr.proper.le_blocks
    have hplen := hp.le_blocks
    have hcollision := hsep.collision i
    rw [← hr.ring hshadow, read_length]
    unfold firmwareAppend
    dsimp only
    split
    · refine List.map_congr_left fun k _ => store_outside _ _ _ _ ?_
      have hcell := cell_mem ((cfg.rxqueue ethType i).bufferOffset : Int)
        (icssBlockSize * q + k) (Nat.mul_pos (by decide : 0 < icssBlockSize)
          ((cfg.rxqueue ethType i).count_pos cfg.layout.toBdLayout))
      have := hp.le_maxPktlen
      omega
    · rw [hold.wr, QueueInfo.block_ptr (QueueInfo.mod_lt_count _), write_at_wrPtr]
      apply read_write_older
      · calc icssBlockSize * q + r.data.length
            ≤ icssBlockSize * (q + r.blocks ethType cfg) := by
              rw [Nat.mul_add]
              exact Nat.add_le_add_left hlen _
          _ ≤ icssBlockSize * (pos + total (HostPacket.blocks ethType cfg) ps) :=
              Nat.mul_le_mul_left _ hend
      · calc icssBlockSize * (pos + total (HostPacket.blocks ethType cfg) ps) + p.data.length
            ≤ icssBlockSize * (pos + total (HostPacket.blocks ethType cfg) ps + p.blocks ethType cfg) := by
              rw [Nat.mul_add icssBlockSize (pos + _)]
              exact Nat.add_le_add_left hplen _
          _ ≤ icssBlockSize * (q + (cfg.rxqueue ethType i).count cfg.layout.toBdLayout) :=
              Nat.mul_le_mul_left _ (by omega)
          _ = icssBlockSize * q +
                icssBlockSize * (cfg.rxqueue ethType i).count cfg.layout.toBdLayout := Nat.mul_add _ _ _
  collision hshadow := by
    rw [hcol r (List.mem_singleton_self r) hr.proper hshadow]
    exact hr.collision hshadow

/-- The firmware's step on the queues is that on the lists. -/
theorem Represents.append (hsep : cfg.Separate ethType) (hrep : Represents ethType cfg h pending)
    (hp : p.Proper ethType cfg)
    (hroom : usedBlocks ethType cfg i h + p.blocks ethType cfg <
      (cfg.rxqueue ethType i).count cfg.layout.toBdLayout)
    (hfree : (p.info ethType cfg).shadow = true →
      ∀ j, ∀ other ∈ pending j, (other.info ethType cfg).shadow = false) :
    Represents ethType cfg (firmwareAppend ethType cfg i p h)
      (Function.update pending i (pending i ++ [p])) := by
  obtain ⟨pos, hold⟩ := hrep i
  rw [hold.usedBlocks_eq] at hroom
  have hblocks : p.blocks ethType cfg ≤ (cfg.rxqueue ethType i).count cfg.layout.toBdLayout := by omega
  intro j
  have hcol (j : QueueId) : SameCollision ethType cfg h (firmwareAppend ethType cfg i p h) (pending j) :=
    sameCollision_append hsep hp hblocks fun hshadow => hfree hshadow j
  rcases eq_or_ne j i with rfl | hne
  · have hblock : (cfg.rxqueue ethType j).block cfg.layout.toBdLayout (h.queueDescs j).wrPtr =
        (pos + total (HostPacket.blocks ethType cfg) (pending j)) %
          (cfg.rxqueue ethType j).count cfg.layout.toBdLayout := by
      rw [hold.wr, QueueInfo.block_ptr (QueueInfo.mod_lt_count _)]
    refine ⟨pos, ?_⟩
    rw [Function.update_self]
    refine ⟨?_, ?_, ?_, queued_append.mpr ⟨?_, storedAt_append hold hp hblocks, trivial⟩⟩
    · simp only [firmwareAppend, Function.update_self]
      exact hold.rd
    · simp only [firmwareAppend, Function.update_self]
      rw [hblock, Nat.mod_add_mod, total_append, total_cons, total_nil, Nat.add_zero, Nat.add_assoc]
    · rw [total_append, total_cons, total_nil, Nat.add_zero]
      exact hroom
    · have hmem := hcol j
      have hstored := hold.stored
      have hall : ∀ r ∈ pending j, SameCollision ethType cfg h (firmwareAppend ethType cfg j p h) [r] :=
        fun r hr => List.forall_mem_singleton.mpr (hmem r hr)
      exact hstored.imp_mem fun q r hr hle hend hst => hst.append hold hp hroom hle hend hsep (hall r hr)
  · obtain ⟨pos', hold'⟩ := hrep j
    rw [Function.update_of_ne hne]
    refine ⟨pos', hold'.congr (sameQueue_append hsep hne hold hp hblocks) (hcol j) ?_ ?_⟩
    · simp [firmwareAppend, Function.update_of_ne hne]
    · simp [firmwareAppend, Function.update_of_ne hne]

end Append

end Am437x.Prueth.Rx
