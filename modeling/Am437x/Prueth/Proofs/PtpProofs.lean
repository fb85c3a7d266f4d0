import Am437x.Prueth.Ptp

/-!
# When the waiting packets are counted exactly

Every function but one keeps the ledger exact: its references are those of the slots. A frame stored for
the other port to send is the exception. The slot takes a reference and `emac_rx_packet` keeps the one it
has, and the packet that is displaced is not the one released.
-/

namespace Am437x.Prueth.Ptp

open Runs RefCount

variable {s s' : State}

/-- The references owned are those of the waiting packets. -/
def Inv (s : State) : Prop := Exact s.ledger s.slot

theorem inv_start (hsr : Bool) : Inv (.start hsr) where
  overReleased := rfl
  owned := (held_of_empty fun _ => rfl).symm

/-! ## Stopping the ports -/

namespace State

@[simp] theorem flushSlot_ledger (s : State) (i : Slot) :
    (s.flushSlot i).ledger = s.ledger.releaseOpt (s.slot i) := by
  unfold flushSlot
  cases s.slot i <;> rfl

@[simp] theorem flushSlot_slot (s : State) (i : Slot) :
    (s.flushSlot i).slot = Function.update s.slot i none := by
  unfold flushSlot
  cases h : s.slot i with
  | none =>
    rw [← h, Function.update_eq_self, h]
    rfl
  | some skb => rfl

theorem foldl_flushSlot_slot (is : List Slot) (s : State) (j : Slot) :
    (is.foldl flushSlot s).slot j = if j ∈ is then none else s.slot j := by
  induction is generalizing s with
  | nil => rfl
  | cons i is ih =>
    rw [List.foldl_cons, ih, flushSlot_slot]
    by_cases hj : j = i
    · subst hj
      simp
    · simp [hj]

/-- What the clearing of one slot keeps, the stop of a port keeps. -/
theorem stop_kept {R : Ledger Skb → (Slot → Option Skb) → Prop}
    (hclear : ∀ l slot i, R l slot → R (l.releaseOpt (slot i)) (Function.update slot i none))
    {s : State} (h : R s.ledger s.slot) (p : Port) :
    R (s.emacNdoStop p).ledger (s.emacNdoStop p).slot := by
  have hfold : ∀ (is : List Slot) (s : State), R s.ledger s.slot →
      R (is.foldl flushSlot s).ledger (is.foldl flushSlot s).slot := by
    intro is
    induction is with
    | nil => exact fun _ h => h
    | cons i is ih =>
      intro s h
      refine ih (s.flushSlot i) ?_
      rw [flushSlot_ledger, flushSlot_slot]
      exact hclear _ _ i h
  exact hfold (slotsOf p) _ h

theorem stop_exact (h : Exact s.ledger s.slot) (p : Port) :
    Exact (s.emacNdoStop p).ledger (s.emacNdoStop p).slot :=
  stop_kept (fun _ _ i h => h.clear i) h p

theorem stop_excess {k : Nat} (h : Excess k s.ledger s.slot) (p : Port) :
    Excess k (s.emacNdoStop p).ledger (s.emacNdoStop p).slot :=
  stop_kept (fun _ _ i h => h.clear i) h p

theorem mem_slotsOf (i : Slot) : i ∈ slotsOf i.1 := by
  obtain ⟨p, kind, event⟩ := i
  cases kind <;> cases event <;> simp [slotsOf]

theorem stop_stop_slot (s : State) (p : Port) (i : Slot) :
    ((s.emacNdoStop p).emacNdoStop (otherPort p)).slot i = none := by
  have hmem := mem_slotsOf i
  rw [emacNdoStop, foldl_flushSlot_slot]
  split
  · rfl
  · next hother =>
    show (emacNdoStop s p).slot i = none
    rw [emacNdoStop, foldl_flushSlot_slot]
    rcases eq_or_eq_otherPort p i.1 with hp | hp
    · rw [if_pos (hp ▸ hmem)]
    · exact absurd (hp ▸ hmem) hother

end State

/-! ## Exact and inexact ledgers -/

theorem counted_of_inv (hi : Inv s) : s.Counted where
  sound := hi.sound
  not_twice := hi.overReleased
  none_left p := by
    have hstop := State.stop_exact (State.stop_exact hi p) (otherPort p)
    have howned := hstop.owned
    rw [held_of_empty (State.stop_stop_slot s p)] at howned
    have hover := hstop.overReleased
    generalize ((s.emacNdoStop p).emacNdoStop (otherPort p)).ledger = l at howned hover
    cases l
    cases howned
    cases hover
    rfl

theorem not_counted_of_excess (h : Excess 1 s.ledger s.slot) : ¬ s.Counted := by
  intro hcounted
  have hstop := State.stop_excess (State.stop_excess h .mii0) (otherPort .mii0)
  refine hstop.owned_ne_zero ?_ ?_
  · rw [hcounted.none_left .mii0]
    rfl
  · rw [hcounted.none_left .mii0]
    rfl

/-! ## The functions -/

theorem inv_ptpTxTsEnqueue (hi : Inv s) (p : Port) (skb : Skb) (ptpType : PtpType) :
    Inv (s.pruethPtpTxTsEnqueue p skb ptpType).2 := by
  unfold State.pruethPtpTxTsEnqueue
  split
  · exact hi
  · next event _ =>
    have hreplace := hi.replace (p, .ptpSkb, event) skb
    dsimp only
    cases hslot : s.slot (p, .ptpSkb, event) with
    | none =>
      rw [hslot] at hreplace
      exact hreplace
    | some old =>
      rw [hslot] at hreplace
      exact hreplace

theorem inv_ptpTxTsGet (hi : Inv s) (p : Port) (event : PtpEvent) :
    Inv (s.pruethPtpTxTsGet p event) := by
  unfold State.pruethPtpTxTsGet
  split
  · next skb hslot =>
    have hclear := hi.clear (p, .ptpSkb, event)
    rw [hslot] at hclear
    exact hclear
  · split
    · next skb hslot =>
      have hclear := hi.clear (p, .ptpCtSkb, event)
      rw [hslot] at hclear
      exact hclear
    · exact hi

theorem tsEventType_of_cutThrough {ptpType : PtpType}
    (h : ptpType = ptpSyncMsgId ∨ ptpType = ptpDlyReqMsgId) :
    ∃ event, pruethPtpTsEventType ptpType = some event := by
  rcases h with rfl | rfl
  · exact ⟨.sync, rfl⟩
  · exact ⟨.dlyReq, rfl⟩

section CutThrough

variable {p : Port} {skb : Skb} {ptpType : PtpType}

/-- A frame that the other port does not cut through, or has sent already, is not stored. -/
theorem ctEnqueue_of_not_awaits (h : ¬ s.AwaitsCutThrough p ptpType) :
    (s.pruethHsrPtpCtTxTsEnqueue p skb ptpType).1 = 0 ∧
      (s.pruethHsrPtpCtTxTsEnqueue p skb ptpType).2.ledger = s.ledger ∧
      (s.pruethHsrPtpCtTxTsEnqueue p skb ptpType).2.slot = s.slot := by
  unfold State.pruethHsrPtpCtTxTsEnqueue
  dsimp only
  split
  · exact ⟨rfl, rfl, rfl⟩
  next htype =>
  have htype : ptpType = ptpSyncMsgId ∨ ptpType = ptpDlyReqMsgId := by
    by_contra hne
    exact htype (not_or.mp hne)
  split
  · exact ⟨rfl, rfl, rfl⟩
  next event hevent =>
  split
  · exact ⟨rfl, rfl, rfl⟩
  next hns =>
  obtain ⟨hzero, hlink⟩ := not_or.mp hns
  have hlink : s.link (otherPort p) = true := by
    change ¬ (!s.link (otherPort p)) = true at hlink
    simpa using hlink
  refine absurd ⟨htype, fun event' hevent' => ?_, hlink⟩ h
  obtain rfl : event = event' := Option.some.inj (hevent.symm.trans hevent')
  exact not_not.mp hzero

/-- Storing a frame: the packet displaced is in the one array, the packet released in the other. -/
theorem ctEnqueue_of_awaits (h : s.AwaitsCutThrough p ptpType) :
    (s.pruethHsrPtpCtTxTsEnqueue p skb ptpType).1 = eAgain ∧ ∃ event,
      (s.pruethHsrPtpCtTxTsEnqueue p skb ptpType).2.ledger =
        (if (s.slot (otherPort p, .ptpCtSkb, event)).isSome then
          s.ledger.releaseOpt (s.slot (otherPort p, .ptpSkb, event))
        else s.ledger).take skb ∧
      (s.pruethHsrPtpCtTxTsEnqueue p skb ptpType).2.slot =
        Function.update s.slot (otherPort p, .ptpCtSkb, event) (some skb) := by
  obtain ⟨htype, hts, hlink⟩ := h
  obtain ⟨event, hevent⟩ := tsEventType_of_cutThrough htype
  have hgo : ¬ (ptpType ≠ ptpSyncMsgId ∧ ptpType ≠ ptpDlyReqMsgId) := by
    rintro ⟨h1, h2⟩
    exact htype.elim h1 h2
  have hns : ¬ (s.ts (otherPort p) event ≠ 0 ∨ !s.link (otherPort p)) := by
    rw [hts event hevent, hlink]
    decide
  unfold State.pruethHsrPtpCtTxTsEnqueue
  dsimp only
  rw [if_neg hgo, hevent]
  dsimp only
  split
  · next hsent => exact absurd hsent hns
  refine ⟨rfl, event, ?_, ?_⟩
  · show (if (s.slot _).isSome then _ else _ : State).ledger.take skb = _
    split <;> rfl
  · show Function.update (if (s.slot _).isSome then _ else _ : State).slot _ _ = _
    split <;> rfl

end CutThrough

theorem inv_rxPacket {p : Port} {frame : Frame} (hi : Inv s) (h : ¬ s.Stores p frame) :
    Inv (s.emacRxPacket p frame).2 := by
  unfold State.emacRxPacket
  split
  · exact hi
  next halloc =>
  have hback : Inv { s with
      ledger := (s.ledger.take (.received s.allocated)).release (.received s.allocated)
      allocated := s.allocated + 1 } := by
    rw [Ledger.release_take]
    exact hi
  dsimp only
  split
  · exact hback
  next hsv =>
  split
  · next hrx =>
    have hnot : ¬ State.AwaitsCutThrough { s with
        ledger := s.ledger.take (.received s.allocated)
        allocated := s.allocated + 1 } p frame.ptpType := by
      intro hawaits
      exact h ⟨⟨by simpa using halloc, by simpa using hsv⟩, hrx, hawaits⟩
    obtain ⟨hret, hledger, hslot⟩ := @ctEnqueue_of_not_awaits _ p (.received s.allocated) _ hnot
    rw [hret, if_neg (by decide)]
    unfold Inv State.netifReceiveSkb at *
    dsimp only
    rw [hledger, hslot]
    exact hback
  · exact hback

theorem excess_rxPacket {p : Port} {frame : Frame} (hi : Inv s) (h : s.Stores p frame) :
    Excess 1 (s.emacRxPacket p frame).2.ledger (s.emacRxPacket p frame).2.slot := by
  obtain ⟨⟨halloc, hsv⟩, hrx, hawaits⟩ := h
  have hawaits' : State.AwaitsCutThrough { s with
      ledger := s.ledger.take (.received s.allocated)
      allocated := s.allocated + 1 } p frame.ptpType := hawaits
  obtain ⟨hret, event, hledger, hslot⟩ :=
    @ctEnqueue_of_awaits _ p (.received s.allocated) _ hawaits'
  unfold State.emacRxPacket
  rw [halloc, hsv]
  dsimp only
  rw [if_neg (by decide), if_neg (by decide), if_pos hrx, hret, if_pos rfl]
  dsimp only at hledger hslot ⊢
  rw [hledger, hslot]
  -- the reference of `emac_rx_packet` itself
  have hown := (Excess.of_exact hi).take (.received s.allocated)
  cases hct : s.slot (otherPort p, .ptpCtSkb, event) with
  | none => exact hown.put hct _
  | some old => exact (hown.releaseOpt (s.slot (otherPort p, .ptpSkb, event))).overwrite hct _

/-! ## Main result -/

theorem counted_iff {e : Event} (hi : Inv s) (h : step s e = some s') :
    (s'.Counted ↔ NoFrameStored s e s') ∧ (NoFrameStored s e s' → Inv s') := by
  have hfree : ∀ {e : Event}, (∀ p frame, e ≠ .rxPacket p frame) → NoFrameStored s e s' := by
    intro e he p frame heq
    exact absurd heq (he p frame)
  have hkept : ∀ {e : Event}, (∀ p frame, e ≠ .rxPacket p frame) → Inv s' →
      (s'.Counted ↔ NoFrameStored s e s') ∧ (NoFrameStored s e s' → Inv s') := by
    intro e he hi'
    exact ⟨iff_of_true (counted_of_inv hi') (hfree he), fun _ => hi'⟩
  cases e with
  | rxPacket p frame =>
    obtain rfl := Option.some.inj h
    have hno : NoFrameStored s (.rxPacket p frame) (s.emacRxPacket p frame).2 ↔
        ¬ s.Stores p frame := by
      constructor
      · intro hall
        exact hall p frame rfl
      · rintro hnot p' frame' he
        cases he
        exact hnot
    rw [hno]
    constructor
    · constructor
      · intro hcounted hstores
        exact not_counted_of_excess (excess_rxPacket hi hstores) hcounted
      · intro hnot
        exact counted_of_inv (inv_rxPacket hi hnot)
    · exact inv_rxPacket hi
  | ptpTxTsEnqueue p n ptpType =>
    obtain rfl := Option.some.inj h
    exact hkept (by simp) (inv_ptpTxTsEnqueue hi p (.sent n) ptpType)
  | ptpTxTsGet p event =>
    obtain rfl := Option.some.inj h
    exact hkept (by simp) (inv_ptpTxTsGet hi p event)
  | ndoStop p =>
    obtain rfl := Option.some.inj h
    exact hkept (by simp) (State.stop_exact hi p)
  | stamp p event ns =>
    obtain rfl := Option.some.inj h
    exact hkept (by simp) hi
  | link p up =>
    obtain rfl := Option.some.inj h
    exact hkept (by simp) hi
  | hwtstamp p tx rx =>
    obtain rfl := Option.some.inj h
    exact hkept (by simp) hi

/-- In a run the references are counted exactly after every step just when no frame is stored for the
other port to send. -/
theorem refs_counted_iff (hsr : Bool) (events : List Event) :
    AllSteps step (fun _ _ s' => s'.Counted) (.start hsr) events ↔
      AllSteps step NoFrameStored (.start hsr) events := by
  apply allSteps_iff_of_inv Inv
  · intro s e s' hi h
    exact (counted_iff hi h).1
  · intro s e s' hi h
    exact (counted_iff hi h).2
  · exact inv_start hsr

def syncFrame : Frame :=
  { svFrame := false, timestamp := true, ptpType := ptpSyncMsgId, allocOk := true }

/-- A Sync packet was sent on the second port, and two Sync frames come in on the first one. The second
of these has the reference of the packet sent released, while that packet still waits; and a reference of
each frame is left when both ports are stopped. -/
theorem second_sync_releases_other_packet :
    (run step (.start true)
      [.link .mii1 true, .hwtstamp .mii0 false true, .ptpTxTsEnqueue .mii1 0 ptpSyncMsgId,
        .rxPacket .mii0 syncFrame, .rxPacket .mii0 syncFrame]).map
        (fun s => (s.slot (.mii1, .ptpSkb, .sync), decide (Skb.sent 0 ∈ s.ledger.owned),
          ((s.emacNdoStop .mii0).emacNdoStop .mii1).ledger.owned)) =
      some (some (.sent 0), false, {.received 0, .received 0, .received 1}) ∧
    ¬ AllSteps step (fun _ _ s' => s'.Counted) (.start true)
      [.link .mii1 true, .hwtstamp .mii0 false true, .ptpTxTsEnqueue .mii1 0 ptpSyncMsgId,
        .rxPacket .mii0 syncFrame, .rxPacket .mii0 syncFrame] := by
  refine ⟨by decide, fun h => ?_⟩
  have hcounted := AllSteps.of_run
    [Event.link .mii1 true, Event.hwtstamp .mii0 false true,
      Event.ptpTxTsEnqueue .mii1 0 ptpSyncMsgId, Event.rxPacket .mii0 syncFrame] h rfl rfl
  have howned := congrArg Ledger.owned (hcounted.none_left .mii0)
  exact absurd howned (by decide)

end Am437x.Prueth.Ptp
