import Am437x.Prueth.StartXmit
import Am437x.Prueth.Proofs.TxRingProofs

/-!
# Who owns a socket buffer after `emac_ndo_start_xmit`

`prueth_tx_enqueue` has three ends, and each leaves the buffer in another state: a packet that cannot be
padded is freed, one without room is kept, one that is placed in the ring is kept for its caller to free.
-/

namespace Am437x.Prueth

variable {layout : BdLayout} {txqueues : QueueId → QueueInfo} {ethType : EthType} {env : TxEnv}

variable {emac : TxPort layout txqueues} {skb : XmitSkb} {data : List UInt8}

/-! ## The ends of `prueth_tx_enqueue` -/

/-- What the call of `prueth_tx_enqueue` returns and leaves behind. -/
def enqueued (ethType : EthType) (env : TxEnv) (emac : TxPort layout txqueues) (skb : XmitSkb) :
    TxResult :=
  pruethTxEnqueue layout (txqueues (pruethGetTxQueueId ethType skb.vlanPcp))
    { env with hsr := ethType = .hsr }
    (emac.queues (pruethGetTxQueueId ethType skb.vlanPcp)).toTxQueue skb.toTxSkb

theorem enqueued_padFailed (h : ethSkbPad env.padOk skb.data = none) :
    enqueued ethType env emac skb =
      { ret := env.uninit
        queue := (emac.queues (pruethGetTxQueueId ethType skb.vlanPcp)).toTxQueue
        data := none
        placed := false
        tsEnqueued := false } := by
  unfold enqueued pruethTxEnqueue
  dsimp only
  rw [h]

theorem enqueued_full (h : ethSkbPad env.padOk skb.data = some data)
    (hroom : ¬ (emac.queues (pruethGetTxQueueId ethType skb.vlanPcp)).HasRoom data.length) :
    enqueued ethType env emac skb =
      { ret := eNobufs
        queue := (emac.queues (pruethGetTxQueueId ethType skb.vlanPcp)).toTxQueue
        data := some data
        placed := false
        tsEnqueued := false } := by
  unfold enqueued pruethTxEnqueue
  dsimp only
  rw [h]
  exact if_pos (not_le.mp hroom)

theorem enqueued_placed (h : ethSkbPad env.padOk skb.data = some data)
    (hroom : (emac.queues (pruethGetTxQueueId ethType skb.vlanPcp)).HasRoom data.length) :
    (enqueued ethType env emac skb).ret = 0 ∧ (enqueued ethType env emac skb).data = some data ∧
      (enqueued ethType env emac skb).placed = true := by
  unfold enqueued pruethTxEnqueue
  dsimp only
  rw [h]
  dsimp only
  rw [if_neg (not_lt.mpr hroom)]
  exact ⟨rfl, rfl, rfl⟩

/-! ## The ends of `emac_ndo_start_xmit` -/

theorem eNobufs_ne_zero : eNobufs ≠ 0 := by decide

theorem netdevTxOk_ne_busy : netdevTxOk ≠ netdevTxBusy := by decide

theorem netXmitDrop_ne_busy : netXmitDrop ≠ netdevTxBusy := by decide

/-- Without a link the buffer is neither released nor given back. -/
theorem not_ownedOnce_of_link (hlink : emac.link = false) :
    ¬ OwnedOnce emac skb (emacNdoStartXmit ethType env emac skb) := by
  intro h
  have hret : (emacNdoStartXmit ethType env emac skb).ret = netXmitDrop := by
    rw [emacNdoStartXmit, if_pos hlink]
    rfl
  have hreleased : (emacNdoStartXmit ethType env emac skb).released = 0 := by
    rw [emacNdoStartXmit, if_pos hlink]
  have hbusy : (emacNdoStartXmit ethType env emac skb).ret ≠ netdevTxBusy := by
    rw [hret]
    exact netXmitDrop_ne_busy
  have hone := (h.consumed hbusy).1
  rw [hreleased] at hone
  cases hone

/-- The port behind the call of `prueth_tx_enqueue`. -/
def afterEnqueue (ethType : EthType) (env : TxEnv) (emac : TxPort layout txqueues) (skb : XmitSkb) :
    TxPort layout txqueues :=
  { emac with
    queues := Function.update emac.queues (pruethGetTxQueueId ethType skb.vlanPcp)
      ((emac.queues (pruethGetTxQueueId ethType skb.vlanPcp)).enqueue
        { env with hsr := ethType = .hsr } skb.toTxSkb) }

/-- A queue that the call leaves as it was leaves all queues as they were. -/
theorem queues_afterEnqueue
    (h : (enqueued ethType env emac skb).queue =
      (emac.queues (pruethGetTxQueueId ethType skb.vlanPcp)).toTxQueue) (i : QueueId) :
    ((afterEnqueue ethType env emac skb).queues i).toTxQueue = (emac.queues i).toTxQueue := by
  unfold afterEnqueue
  dsimp only
  by_cases hi : i = pruethGetTxQueueId ethType skb.vlanPcp
  · subst hi
    rw [Function.update_self]
    exact h
  · rw [Function.update_of_ne hi]

theorem startXmit_failed (hlink : emac.link = true) (hret : (enqueued ethType env emac skb).ret ≠ 0) :
    emacNdoStartXmit ethType env emac skb =
      { ret := (failTx (afterEnqueue ethType env emac skb) (enqueued ethType env emac skb).ret).1
        emac := (failTx (afterEnqueue ethType env emac skb) (enqueued ethType env emac skb).ret).2
        data := (enqueued ethType env emac skb).data
        released := if (enqueued ethType env emac skb).data.isNone then 1 else 0
        placed := (enqueued ethType env emac skb).placed } := by
  have hup : ¬ emac.link = false := by simp [hlink]
  unfold emacNdoStartXmit
  rw [if_neg hup]
  exact if_pos hret

theorem startXmit_sent (hlink : emac.link = true) (hret : (enqueued ethType env emac skb).ret = 0) :
    OwnedOnce emac skb (emacNdoStartXmit ethType env emac skb) ↔
      (enqueued ethType env emac skb).data ≠ none ∧ (enqueued ethType env emac skb).placed = true := by
  have hup : ¬ emac.link = false := by simp [hlink]
  have heq : emacNdoStartXmit ethType env emac skb =
      { ret := netdevTxOk
        emac :=
          { afterEnqueue ethType env emac skb with
            txPackets := emac.txPackets + 1
            txBytes := emac.txBytes + ((enqueued ethType env emac skb).data.getD skb.data).length }
        data := (enqueued ethType env emac skb).data
        released := (if (enqueued ethType env emac skb).data.isNone then 1 else 0) + 1
        placed := (enqueued ethType env emac skb).placed } := by
    unfold emacNdoStartXmit
    rw [if_neg hup]
    exact if_neg (not_not.mpr hret)
  rw [heq]
  constructor
  · intro h
    obtain ⟨hreleased, hcount⟩ := h.consumed netdevTxOk_ne_busy
    constructor
    · intro hnone
      simp [hnone] at hreleased
    · by_contra hplaced
      simp [hplaced] at hcount
  · rintro ⟨hdata, hplaced⟩
    constructor
    · intro hbusy
      exact absurd hbusy netdevTxOk_ne_busy
    · intro _
      simp [Option.isNone_iff_eq_none, hdata, hplaced]

theorem startXmit_busy (hlink : emac.link = true) (hret : (enqueued ethType env emac skb).ret = eNobufs)
    (hqueue : (enqueued ethType env emac skb).queue =
      (emac.queues (pruethGetTxQueueId ethType skb.vlanPcp)).toTxQueue) :
    OwnedOnce emac skb (emacNdoStartXmit ethType env emac skb) ↔
      (enqueued ethType env emac skb).data = some skb.data := by
  have hne : (enqueued ethType env emac skb).ret ≠ 0 := by
    rw [hret]
    exact eNobufs_ne_zero
  rw [startXmit_failed hlink hne, hret, failTx, if_pos rfl]
  constructor
  · intro h
    exact (h.busy rfl).2.1
  · intro hdata
    constructor
    · intro _
      refine ⟨?_, hdata, queues_afterEnqueue hqueue⟩
      simp [hdata]
    · intro hbusy
      exact absurd rfl hbusy

theorem startXmit_dropped (hlink : emac.link = true) (hret : (enqueued ethType env emac skb).ret ≠ 0)
    (hnobufs : (enqueued ethType env emac skb).ret ≠ eNobufs)
    (hplaced : (enqueued ethType env emac skb).placed = false)
    (hdata : (enqueued ethType env emac skb).data = none) :
    OwnedOnce emac skb (emacNdoStartXmit ethType env emac skb) := by
  rw [startXmit_failed hlink hret, failTx, if_neg hnobufs]
  constructor
  · intro hbusy
    exact absurd hbusy netXmitDrop_ne_busy
  · intro _
    simp [hdata, hplaced, afterEnqueue]

/-! ## Main result -/

theorem ethSkbPad_eq_none {ok : Bool} {data : List UInt8} (h : ethSkbPad ok data = none) :
    data.length < ethZlen ∧ ok = false := by
  unfold ethSkbPad at h
  split at h
  · cases h
  next hshort =>
    split at h
    · cases h
    next hok => exact ⟨not_le.mp hshort, eq_false_of_ne_true hok⟩

theorem ethSkbPad_eq_some {ok : Bool} {data padded : List UInt8} (h : ethSkbPad ok data = some padded) :
    ethZlen ≤ data.length ∧ padded = data ∨
      data.length < ethZlen ∧ ok = true ∧ padded.length = ethZlen := by
  unfold ethSkbPad at h
  split at h
  next hlong => exact Or.inl ⟨hlong, (Option.some.inj h).symm⟩
  next hshort =>
    split at h
    next hok =>
      obtain rfl := Option.some.inj h
      refine Or.inr ⟨not_le.mp hshort, hok, ?_⟩
      rw [List.length_append, List.length_replicate]
      omega
    · cases h

/-- For every mode, port, state of its queues, packet and value of the uninitialised variable: the buffer
has one owner just when the call does not run into a missing release or the uninitialised variable. -/
theorem start_xmit_owned_once_iff (ethType : EthType) (env : TxEnv) (emac : TxPort layout txqueues)
    (skb : XmitSkb) :
    OwnedOnce emac skb (emacNdoStartXmit ethType env emac skb) ↔ XmitSafe ethType env emac skb := by
  by_cases hlink : emac.link = true
  swap
  · exact iff_of_false (not_ownedOnce_of_link (eq_false_of_ne_true hlink)) fun h => hlink h.1
  cases hpad : ethSkbPad env.padOk skb.data with
  | none =>
    -- the buffer has been freed, and `ret` is what the variable held
    obtain ⟨hshort, hfailed⟩ := ethSkbPad_eq_none hpad
    have hresult : enqueued ethType env emac skb = _ := enqueued_padFailed hpad
    have hnotSafe (h : ¬ (env.uninit ≠ 0 ∧ env.uninit ≠ eNobufs)) :
        ¬ XmitSafe ethType env emac skb := by
      rintro ⟨-, hlong | ⟨hok, -⟩ | ⟨-, huninit⟩⟩
      · exact not_lt.mpr hlong hshort
      · exact Bool.noConfusion (hok.symm.trans hfailed)
      · exact h huninit
    by_cases hzero : env.uninit = 0
    · refine iff_of_false ?_ (hnotSafe fun h => h.1 hzero)
      rw [startXmit_sent hlink (by rw [hresult, ← hzero]), hresult]
      exact fun h => h.1 rfl
    by_cases hnobufs : env.uninit = eNobufs
    · refine iff_of_false ?_ (hnotSafe fun h => h.2 hnobufs)
      rw [startXmit_busy hlink (by rw [hresult, ← hnobufs]) (by rw [hresult]), hresult]
      exact (Option.some_ne_none skb.data).symm
    · refine iff_of_true ?_ ⟨hlink, Or.inr (Or.inr ⟨hfailed, hzero, hnobufs⟩)⟩
      apply startXmit_dropped hlink
      · rw [hresult]
        exact hzero
      · rw [hresult]
        exact hnobufs
      · rw [hresult]
      · rw [hresult]
  | some data =>
    by_cases hroom : (emac.queues (pruethGetTxQueueId ethType skb.vlanPcp)).HasRoom data.length
    · obtain ⟨hret, hdata, hplaced⟩ := enqueued_placed hpad hroom
      refine iff_of_true ((startXmit_sent hlink hret).mpr ⟨?_, hplaced⟩) ⟨hlink, ?_⟩
      · rw [hdata]
        exact Option.some_ne_none data
      · rcases ethSkbPad_eq_some hpad with ⟨hlong, -⟩ | ⟨-, hok, hlen⟩
        · exact Or.inl hlong
        · exact Or.inr (Or.inl ⟨hok, hlen ▸ hroom⟩)
    · have hresult := enqueued_full hpad hroom
      rw [startXmit_busy hlink (by rw [hresult]) (by rw [hresult]), hresult]
      rcases ethSkbPad_eq_some hpad with ⟨hlong, rfl⟩ | ⟨hshort, hok, hlen⟩
      · exact iff_of_true rfl ⟨hlink, Or.inl hlong⟩
      · -- the buffer is given back with the padding
        refine iff_of_false ?_ ?_
        · intro hdata
          obtain rfl := Option.some.inj hdata
          omega
        · rintro ⟨-, hlong | ⟨-, hpadded⟩ | ⟨hfailed, -⟩⟩
          · exact not_lt.mpr hlong hshort
          · exact hroom (hlen ▸ hpadded)
          · exact Bool.noConfusion (hok.symm.trans hfailed)

/-- A port without a link, its queues empty. -/
def downPort : TxPort icssBd fun _ => fourBlocks where
  link := false
  txIrq := 0
  queues _ :=
    { ocmc := fun _ => 0
      bd := fun _ => 0
      rdPtr := 0x400
      wrPtr := 0x400
      rd_ring := ⟨0, by decide, rfl⟩
      wr_ring := ⟨0, by decide, rfl⟩ }
  stopped := false
  txPackets := 0
  txBytes := 0
  txDropped := 0

/-- The buffer is reported as consumed and nobody releases it. -/
theorem link_down_leaks_buffer :
    (emacNdoStartXmit .emac plainEnv downPort ⟨minPacket.skb, none⟩).ret = netXmitDrop ∧
    (emacNdoStartXmit .emac plainEnv downPort ⟨minPacket.skb, none⟩).released = 0 ∧
    ¬ OwnedOnce downPort ⟨minPacket.skb, none⟩
      (emacNdoStartXmit .emac plainEnv downPort ⟨minPacket.skb, none⟩) :=
  ⟨rfl, rfl, not_ownedOnce_of_link rfl⟩

end Am437x.Prueth
