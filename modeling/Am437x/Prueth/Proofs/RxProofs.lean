import Am437x.Prueth.Rx
import Am437x.Prueth.Proofs.RxPacketProofs

/-!
# When received packets are credited to their ports

The variable `emac` is the polling port until the first packet of the other port, and the other port from
there on: the driver never switches back.
-/

namespace Am437x.Prueth.Rx

open Flat Loops

variable {ethType : EthType} {cfg : RxConfig} {env : RxEnv} {polling : Port} {quota : Int}
  {i : QueueId}

/-! ## The port that a packet is credited to -/

theorem portId_inj {p q : Port} : portId p = portId q ↔ p = q := by
  cases p <;> cases q <;> simp [portId]

/-- The variable `emac` after the packets. -/
def carried (polling : Port) (pkts : List PacketInfo) : Port :=
  if ∃ pktInfo ∈ pkts, pktInfo.port = portId (otherPort polling) then otherPort polling else polling

theorem carried_nil : carried polling [] = polling := if_neg (by simp)

theorem carried_append_singleton (pkts : List PacketInfo) (pktInfo : PacketInfo) :
    carried polling (pkts ++ [pktInfo]) =
      if pktInfo.port = portId (otherPort polling) then otherPort polling else carried polling pkts := by
  unfold carried
  by_cases hport : pktInfo.port = portId (otherPort polling)
  · rw [if_pos hport]
    exact if_pos ⟨pktInfo, List.mem_append_right _ (List.mem_singleton_self _), hport⟩
  · simp [hport, or_and_right, exists_or]

/-- The packet is credited to its own port just when it may come where it does. -/
theorem portId_carried_iff (pkts : List PacketInfo) (pktInfo : PacketInfo) :
    portId (carried polling (pkts ++ [pktInfo])) = pktInfo.port ↔
      (∃ p, pktInfo.port = portId p) ∧
        ∀ a ∈ pkts, ¬ (a.port = portId (otherPort polling) ∧ pktInfo.port = portId polling) := by
  rw [carried_append_singleton]
  by_cases hother : pktInfo.port = portId (otherPort polling)
  · rw [if_pos hother]
    refine iff_of_true hother.symm ⟨⟨_, hother⟩, fun a _ h => ?_⟩
    exact otherPort_ne polling (portId_inj.mp (hother.symm.trans h.2))
  · rw [if_neg hother]
    by_cases hseen : ∃ a ∈ pkts, a.port = portId (otherPort polling)
    · have hcarried : carried polling pkts = otherPort polling := if_pos hseen
      rw [hcarried]
      refine iff_of_false (Ne.symm hother) ?_
      rintro ⟨⟨p, hp⟩, hnone⟩
      obtain ⟨a, ha, haport⟩ := hseen
      rcases eq_or_eq_otherPort polling p with rfl | rfl
      · exact hnone a ha ⟨haport, hp⟩
      · exact hother hp
    · have hcarried : carried polling pkts = polling := if_neg hseen
      rw [hcarried]
      constructor
      · intro h
        exact ⟨⟨polling, h.symm⟩, fun a ha hport => hseen ⟨a, ha, hport.1⟩⟩
      · rintro ⟨⟨p, hp⟩, -⟩
        rcases eq_or_eq_otherPort polling p with rfl | rfl
        · exact hp.symm
        · exact absurd hp hother

theorem ownFirst_append_singleton (pkts : List PacketInfo) (pktInfo : PacketInfo) :
    OwnFirst polling (pkts ++ [pktInfo]) ↔
      OwnFirst polling pkts ∧ portId (carried polling (pkts ++ [pktInfo])) = pktInfo.port := by
  rw [portId_carried_iff, OwnFirst, OwnFirst, List.forall_mem_append, List.pairwise_append]
  simp only [List.pairwise_singleton, List.mem_singleton, forall_eq, true_and]
  tauto

/-! ## What one turn does

There are four cases: the queue is empty, its next packet has a bad length, no socket buffer is allocated
for the packet, or it is received.
-/

/-- The packet has been passed to `emac_rx_packet` for the port `p`. -/
structure Passed (s : RxState) (p : Port) (pktInfo : PacketInfo) (t : RxState) : Prop where
  host : t.host = s.host
  used : t.used = s.used
  emac : t.emac = p
  passed : t.passed = s.passed ++ [(p, pktInfo)]
  calls : t.calls = s.calls

theorem Passed.deliver {s t : RxState} {p emac : Port} {pktInfo info : PacketInfo}
    (h : Passed s p pktInfo t) (data ts : List UInt8) :
    Passed s p pktInfo (deliver cfg env ethType emac info data ts t) := by
  unfold Rx.deliver
  dsimp only
  split
  · exact ⟨h.host, h.used, h.emac, h.passed, h.calls⟩
  · exact ⟨h.host, h.used, h.emac, h.passed, h.calls⟩

theorem Passed.addStats {s t : RxState} {p : Port} {pktInfo : PacketInfo} (h : Passed s p pktInfo t)
    (q : Port) (f : NetStats → NetStats) : Passed s p pktInfo (t.addStats q f) :=
  ⟨h.host, h.used, h.emac, h.passed, h.calls⟩

theorem emacRxPacket_eq (cfg : RxConfig) (env : RxEnv) (ethType : EthType) (emac : Port)
    (rxqueue : QueueInfo) (pktInfo : PacketInfo) (bdRdPtr : Nat) (s : RxState) :
    ∃ t, emacRxPacket cfg env ethType emac rxqueue pktInfo bdRdPtr { s with emac := emac } =
        (if env.allocOk s.used = false then -eNoMem else 0, updateRdPtr cfg rxqueue pktInfo bdRdPtr, t) ∧
      Passed s emac pktInfo t := by
  unfold emacRxPacket
  dsimp only
  split
  case isTrue => exact ⟨_, rfl, rfl, rfl, rfl, rfl, rfl⟩
  case isFalse =>
    refine ⟨_, rfl, Passed.addStats ?_ _ _⟩
    split
    · exact ⟨rfl, rfl, rfl, rfl, rfl⟩
    · apply Passed.deliver
      exact ⟨rfl, rfl, rfl, rfl, rfl⟩

/-- The variable `emac` when the packet is passed. -/
def nextEmac (ethType : EthType) (polling : Port) (s : RxState) (pktInfo : PacketInfo) : Port :=
  if ethType = .switch ∧ pktInfo.port = portId (otherPort polling) then otherPort polling else s.emac

section Turns

variable {s : RxState} {w : Scan} {bdRdPtr bdWrPtr : Nat} {pktInfo : PacketInfo}

theorem queueTurn_drained (h : bdRdPtr = bdWrPtr) :
    queueTurn ethType cfg env polling quota i bdWrPtr (s, bdRdPtr) () = .left (.drained s) :=
  if_pos h

theorem queueTurn_badLength (hptr : bdRdPtr ≠ bdWrPtr)
    (hpkt : parsePacketInfo ethType cfg.layout (s.host.sharedRam bdRdPtr) = pktInfo)
    (hbad : BadLength cfg pktInfo) :
    queueTurn ethType cfg env polling quota i bdWrPtr (s, bdRdPtr) () =
      finishTurn quota i bdRdPtr bdWrPtr (s.addStats polling fun stats =>
        { stats with rxLengthErrors := stats.rxLengthErrors + 1 }) := by
  unfold queueTurn
  dsimp only
  rw [if_neg hptr, hpkt, if_pos hbad]

theorem queueTurn_passed (hptr : bdRdPtr ≠ bdWrPtr)
    (hpkt : parsePacketInfo ethType cfg.layout (s.host.sharedRam bdRdPtr) = pktInfo)
    (hbad : ¬ BadLength cfg pktInfo) :
    ∃ t, Passed s (nextEmac ethType polling s pktInfo) pktInfo t ∧
      queueTurn ethType cfg env polling quota i bdWrPtr (s, bdRdPtr) () =
        if env.allocOk s.used = false then
          .left (.returned (-eNoMem) (t.record ⟨i, bdRdPtr, s.host.sharedRam bdRdPtr, -eNoMem⟩))
        else finishTurn quota i bdRdPtr (updateRdPtr cfg (cfg.rxqueue ethType i) pktInfo bdRdPtr)
          { t.record ⟨i, bdRdPtr, s.host.sharedRam bdRdPtr, 0⟩ with used := t.used + 1 } := by
  obtain ⟨t, hcall, hpassed⟩ := emacRxPacket_eq cfg env ethType (nextEmac ethType polling s pktInfo)
    (cfg.rxqueue ethType i) pktInfo bdRdPtr s
  refine ⟨t, hpassed, ?_⟩
  unfold queueTurn
  dsimp only
  rw [if_neg hptr, hpkt, if_neg hbad]
  rw [nextEmac] at hcall
  rw [hcall]
  by_cases halloc : env.allocOk s.used = false
  · rw [if_pos halloc, if_pos halloc]
    rfl
  · rw [if_neg halloc, if_neg halloc]
    rfl

theorem scanTurn_drained {allocOk : Nat → Bool} (h : bdRdPtr = bdWrPtr) :
    scanTurn ethType cfg allocOk quota i bdWrPtr (w, bdRdPtr) () = .left (.drained w) :=
  if_pos h

theorem scanTurn_badLength {allocOk : Nat → Bool} (hptr : bdRdPtr ≠ bdWrPtr)
    (hpkt : parsePacketInfo ethType cfg.layout (w.host.sharedRam bdRdPtr) = pktInfo)
    (hbad : BadLength cfg pktInfo) :
    scanTurn ethType cfg allocOk quota i bdWrPtr (w, bdRdPtr) () =
      w.finishTurn quota i bdRdPtr bdWrPtr := by
  unfold scanTurn
  dsimp only
  rw [if_neg hptr, hpkt, if_pos hbad]

theorem scanTurn_passed {allocOk : Nat → Bool} (hptr : bdRdPtr ≠ bdWrPtr)
    (hpkt : parsePacketInfo ethType cfg.layout (w.host.sharedRam bdRdPtr) = pktInfo)
    (hbad : ¬ BadLength cfg pktInfo) :
    scanTurn ethType cfg allocOk quota i bdWrPtr (w, bdRdPtr) () =
      if allocOk w.used = false then
        .left (.returned (-eNoMem) { w with taken := w.taken ++ [pktInfo] })
      else Scan.finishTurn quota i bdRdPtr (updateRdPtr cfg (cfg.rxqueue ethType i) pktInfo bdRdPtr)
        { w with taken := w.taken ++ [pktInfo], used := w.used + 1 } := by
  unfold scanTurn
  dsimp only
  rw [if_neg hptr, hpkt, if_neg hbad]

end Turns

/-! ## The driver and the scan -/

/-- The driver has passed the packets that the scan has taken; in switch mode each with the port carried
there. -/
structure Follows (ethType : EthType) (polling : Port) (s : RxState) (w : Scan) : Prop where
  host : s.host = w.host
  used : s.used = w.used
  emac : ethType = .switch → s.emac = carried polling w.taken
  passed : s.passed.map Prod.snd = w.taken
  credited : ethType = .switch → (Credited s ↔ OwnFirst polling w.taken)

inductive ExitFollows (ethType : EthType) (polling : Port) : QueueExit RxState → QueueExit Scan → Prop where
  | drained {s : RxState} {w : Scan} (h : Follows ethType polling s w) :
    ExitFollows ethType polling (.drained s) (.drained w)
  | returned {ret ret' : Int} {s : RxState} {w : Scan} (hret : ret = ret') (h : Follows ethType polling s w) :
    ExitFollows ethType polling (.returned ret s) (.returned ret' w)

/-- The states of the loop over one queue, with the read pointer. -/
def LoopFollows (ethType : EthType) (polling : Port) (s : RxState × Nat) (w : Scan × Nat) : Prop :=
  Follows ethType polling s.1 w.1 ∧ s.2 = w.2

theorem follows_start (host : HostQueues) (stats : Port → NetStats) :
    Follows ethType polling (.start polling host stats) (.start host) where
  host := rfl
  used := rfl
  emac _ := carried_nil.symm
  passed := rfl
  credited _ := by simp [Credited, OwnFirst, RxState.start, Scan.start]

variable {s : RxState} {w : Scan}

theorem Follows.addStats (h : Follows ethType polling s w) (p : Port) (f : NetStats → NetStats) :
    Follows ethType polling (s.addStats p f) w :=
  ⟨h.host, h.used, h.emac, h.passed, h.credited⟩

theorem Follows.finishTurn (h : Follows ethType polling s w) (bdRdPtr update : Nat) :
    TurnRel (LoopFollows ethType polling) (ExitFollows ethType polling) (finishTurn quota i bdRdPtr update s)
      (w.finishTurn quota i bdRdPtr update) := by
  have hnext : Follows ethType polling { s with host := s.host.advance i bdRdPtr update }
      { w with host := w.host.advance i bdRdPtr update } :=
    ⟨by rw [h.host], h.used, h.emac, h.passed, h.credited⟩
  have hused : (s.used : Int) = w.used := by rw [h.used]
  by_cases hquota : quota ≤ (w.used : Int)
  · have hleft : Rx.finishTurn quota i bdRdPtr update s = .left (.returned s.used _) :=
      if_pos (hused ▸ hquota)
    have hleft' : w.finishTurn quota i bdRdPtr update = .left (.returned w.used _) := if_pos hquota
    rw [hleft, hleft']
    exact .left (.returned hused hnext)
  · have hagain : Rx.finishTurn quota i bdRdPtr update s = .again (_, update) :=
      if_neg (hused ▸ hquota)
    have hagain' : w.finishTurn quota i bdRdPtr update = .again (_, update) := if_neg hquota
    rw [hagain, hagain']
    exact .again ⟨hnext, rfl⟩

theorem Follows.record (h : Follows ethType polling s w) (call : RxCall) :
    Follows ethType polling (s.record call) w :=
  ⟨h.host, h.used, h.emac, h.passed, h.credited⟩

/-- The packet that the scan takes is passed, in switch mode with the port carried there. -/
theorem Follows.pass (h : Follows ethType polling s w) {pktInfo : PacketInfo} {t : RxState}
    (ht : Passed s (nextEmac ethType polling s pktInfo) pktInfo t) :
    Follows ethType polling t { w with taken := w.taken ++ [pktInfo] } := by
  have hemac : ethType = .switch →
      nextEmac ethType polling s pktInfo = carried polling (w.taken ++ [pktInfo]) := by
    intro hswitch
    rw [carried_append_singleton, ← h.emac hswitch, nextEmac]
    simp only [hswitch, true_and]
  constructor
  · exact ht.host.trans h.host
  · exact ht.used.trans h.used
  · exact fun hswitch => ht.emac.trans (hemac hswitch)
  · rw [ht.passed, List.map_append, h.passed]
    rfl
  · intro hswitch
    rw [ownFirst_append_singleton, ← h.credited hswitch, ← hemac hswitch, Credited, ht.passed]
    simp [Credited, or_imp, forall_and]

theorem queueTurn_follows {s : RxState × Nat} {w : Scan × Nat} (bdWrPtr : Nat)
    (h : LoopFollows ethType polling s w) :
    TurnRel (LoopFollows ethType polling) (ExitFollows ethType polling)
      (queueTurn ethType cfg env polling quota i bdWrPtr s ())
      (scanTurn ethType cfg env.allocOk quota i bdWrPtr w ()) := by
  obtain ⟨s, bdRdPtr⟩ := s
  obtain ⟨w, ptr⟩ := w
  obtain ⟨h, rfl⟩ : Follows ethType polling s w ∧ bdRdPtr = ptr := h
  by_cases hptr : bdRdPtr = bdWrPtr
  · rw [queueTurn_drained hptr, scanTurn_drained hptr]
    exact .left (.drained h)
  generalize hpkt : parsePacketInfo ethType cfg.layout (w.host.sharedRam bdRdPtr) = pktInfo
  have hpkt' : parsePacketInfo ethType cfg.layout (s.host.sharedRam bdRdPtr) = pktInfo := by
    rw [h.host]
    exact hpkt
  by_cases hbad : BadLength cfg pktInfo
  · rw [queueTurn_badLength hptr hpkt' hbad, scanTurn_badLength hptr hpkt hbad]
    exact (h.addStats polling _).finishTurn bdRdPtr bdWrPtr
  · obtain ⟨t, hpassed, hturn⟩ := queueTurn_passed hptr hpkt' hbad
    have ht := h.pass hpassed
    rw [hturn, scanTurn_passed hptr hpkt hbad, h.used]
    by_cases halloc : env.allocOk w.used = false
    · rw [if_pos halloc, if_pos halloc]
      exact .left (.returned rfl (ht.record _))
    · rw [if_neg halloc, if_neg halloc]
      have hnext (call : RxCall) : Follows ethType polling { t.record call with used := t.used + 1 }
          { w with taken := w.taken ++ [pktInfo], used := w.used + 1 } :=
        ⟨ht.host, congrArg (· + 1) ht.used, ht.emac, ht.passed, ht.credited⟩
      exact (hnext _).finishTurn bdRdPtr _

/-! ## One queue -/

theorem finishTurn_again {s t : RxState} {bdRdPtr next update : Nat}
    (h : finishTurn quota i bdRdPtr next s = .again (t, update)) :
    t.used = s.used ∧ update = next ∧ (t.used : Int) < quota := by
  unfold finishTurn at h
  dsimp only at h
  split at h
  · cases h
  next hquota =>
    obtain ⟨rfl, rfl⟩ := Prod.mk.inj (Turn.again.inj h)
    exact ⟨rfl, rfl, not_le.mp hquota⟩

/-- A turn that goes on has moved the pointer to the end of the queue or used up some of the quota. -/
theorem queueTurn_again {s t : RxState} {bdRdPtr bdWrPtr update : Nat}
    (h : queueTurn ethType cfg env polling quota i bdWrPtr (s, bdRdPtr) () = .again (t, update)) :
    bdRdPtr ≠ bdWrPtr ∧ (update = bdWrPtr ∧ t.used = s.used ∨ t.used = s.used + 1) ∧
      (t.used : Int) < quota := by
  by_cases hptr : bdRdPtr = bdWrPtr
  · rw [queueTurn_drained hptr] at h
    cases h
  refine ⟨hptr, ?_⟩
  generalize hpkt : parsePacketInfo ethType cfg.layout (s.host.sharedRam bdRdPtr) = pktInfo
  by_cases hbad : BadLength cfg pktInfo
  · rw [queueTurn_badLength hptr hpkt hbad] at h
    obtain ⟨hused, hupdate, hlt⟩ := finishTurn_again h
    exact ⟨Or.inl ⟨hupdate, hused⟩, hlt⟩
  · obtain ⟨u, hpassed, hturn⟩ := queueTurn_passed hptr hpkt hbad
    rw [hturn] at h
    split at h
    · cases h
    · obtain ⟨hused, -, hlt⟩ := finishTurn_again h
      exact ⟨Or.inr (by rw [hused, ← hpassed.used]), hlt⟩

/-- The loop over one queue is left within so many turns. -/
theorem loop_queueTurn_left (cfg : RxConfig) (env : RxEnv) (polling : Port) (i : QueueId)
    {bdRdPtr bdWrPtr n : Nat} {s : RxState}
    (hn : (quota - s.used).toNat + (if bdRdPtr = bdWrPtr then 1 else 2) ≤ n) :
    ∃ e, loop (queueTurn ethType cfg env polling quota i bdWrPtr) (s, bdRdPtr) (List.replicate n ()) =
      .left e := by
  induction n generalizing s bdRdPtr with
  | zero =>
    split at hn <;> omega
  | succ n ih =>
    rw [List.replicate_succ]
    cases hturn : queueTurn ethType cfg env polling quota i bdWrPtr (s, bdRdPtr) () with
    | left e => exact ⟨e, loop_cons_left hturn _⟩
    | again next =>
      obtain ⟨t, update⟩ := next
      obtain ⟨hptr, hmoved, hlt⟩ := queueTurn_again hturn
      rw [if_neg hptr] at hn
      rw [loop_cons_again hturn]
      apply ih
      rcases hmoved with ⟨hupdate, hused⟩ | hused
      · rw [if_pos hupdate, hused]
        omega
      · split <;> omega

/-- The loop over one queue is left within the limit. -/
theorem queueLoop_left (ethType : EthType) (cfg : RxConfig) (env : RxEnv) (polling : Port) (quota : Int)
    (i : QueueId) (bdWrPtr bdRdPtr : Nat) (s : RxState) :
    ∃ e, queueLoop ethType cfg env polling quota i bdWrPtr bdRdPtr s = .left e := by
  apply loop_queueTurn_left
  unfold turnLimit
  split <;> omega

/-- What a poll returns, and its state. -/
def ReturnFollows (ethType : EthType) (polling : Port) (r : Int × RxState) (r' : Int × Scan) : Prop :=
  r.1 = r'.1 ∧ Follows ethType polling r.2 r'.2

theorem Follows.countOverflow (h : Follows ethType polling s w) (i : QueueId) :
    Follows ethType polling (s.countOverflow i) (w.countOverflow i) := by
  unfold RxState.countOverflow Scan.countOverflow
  dsimp only
  rw [h.host]
  split
  · exact ⟨rfl, h.used, h.emac, h.passed, h.credited⟩
  · exact h

theorem rxQueue_follows (h : Follows ethType polling s w) (i : QueueId) :
    TurnRel (Follows ethType polling) (ReturnFollows ethType polling)
      (rxQueue ethType cfg env polling quota s i) (scanQueue ethType cfg env.allocOk quota w i) := by
  have hcounted := h.countOverflow i
  have hdesc : s.host.queueDescs i = w.host.queueDescs i := by rw [h.host]
  unfold rxQueue scanQueue
  dsimp only
  rw [hdesc, ← hcounted.used]
  generalize w.host.queueDescs i = queueDesc
  obtain ⟨e, hleft⟩ := queueLoop_left ethType cfg env polling quota i queueDesc.wrPtr queueDesc.rdPtr
    (s.countOverflow i)
  have hloop : TurnRel (LoopFollows ethType polling) (ExitFollows ethType polling)
      (queueLoop ethType cfg env polling quota i queueDesc.wrPtr queueDesc.rdPtr (s.countOverflow i))
      (loop (scanTurn ethType cfg env.allocOk quota i queueDesc.wrPtr)
        (w.countOverflow i, queueDesc.rdPtr)
        (List.replicate (turnLimit quota (s.countOverflow i).used) ())) :=
    loop_sim (fun _ _ _ h => queueTurn_follows queueDesc.wrPtr h) ⟨hcounted, rfl⟩ _
  rw [hleft] at hloop ⊢
  generalize loop (scanTurn ethType cfg env.allocOk quota i queueDesc.wrPtr)
    (w.countOverflow i, queueDesc.rdPtr) _ = scanned at hloop ⊢
  cases hloop with
  | left he =>
    cases he with
    | drained h => exact .again h
    | returned hret h => exact .left ⟨hret, h⟩

/-! ## Main result -/

/-- A poll does what the scan does, and returns the same. -/
theorem emacRxPackets_follows (ethType : EthType) (cfg : RxConfig) (env : RxEnv) (polling : Port)
    (quota : Int) (host : HostQueues) (stats : Port → NetStats) :
    ReturnFollows ethType polling (emacRxPackets ethType cfg env polling quota host stats)
      (scanPackets ethType cfg env.allocOk polling quota host) := by
  have hloop : TurnRel (Follows ethType polling) (ReturnFollows ethType polling)
      (loop (rxQueue ethType cfg env polling quota) (.start polling host stats)
        (queueIds ethType polling))
      (loop (scanQueue ethType cfg env.allocOk quota) (.start host) (queueIds ethType polling)) :=
    loop_sim (fun _ _ i h => rxQueue_follows h i) (follows_start host stats) _
  unfold emacRxPackets scanPackets
  generalize loop (rxQueue ethType cfg env polling quota) _ _ = polled at hloop ⊢
  generalize loop (scanQueue ethType cfg env.allocOk quota) _ _ = scanned at hloop ⊢
  cases hloop with
  | again h => exact ⟨congrArg Int.ofNat h.used, h⟩
  | left h => exact h

/-- In switch mode every packet of a poll is credited to the port that it came in at just when, in the
order of the queues, no packet of the polling port comes after one of the other port. -/
theorem rx_credited_iff (cfg : RxConfig) (env : RxEnv) (polling : Port) (quota : Int)
    (host : HostQueues) (stats : Port → NetStats) :
    Credited (emacRxPackets .switch cfg env polling quota host stats).2 ↔
      OwnFirst polling (takenPackets .switch cfg env.allocOk polling quota host) :=
  (emacRxPackets_follows .switch cfg env polling quota host stats).2.credited rfl

def plainRxEnv : RxEnv where
  allocOk _ := true
  skb _ _ := 0
  ptpRxTsEnabled _ := false
  offloadFwdMark _ := false
  removeRct := false
  ctKept _ _ _ := false

/-- In the first queue, a packet of the second port and one of the first port, of 32 bytes each. -/
def mixedQueue : HostQueues where
  ocmc _ := 0
  sharedRam a := if a = 0x400 then 0x820000 else if a = 0x404 then 0x810000 else 0
  queueDescs i :=
    if i.val = 0 then { rdPtr := 0x400, wrPtr := 0x408, overflowCnt := 0 }
    else { rdPtr := 0x400, wrPtr := 0x400, overflowCnt := 0 }

def noStats : Port → NetStats := fun _ =>
  { rxBytes := 0, rxPackets := 0, rxLengthErrors := 0, rxOverErrors := 0 }

/-- The poll of the first port credits both packets to the second port. -/
theorem own_packet_miscredited :
    (emacRxPackets .switch switchConfig plainRxEnv .mii0 64 mixedQueue noStats).2.passed.map
      (fun p => (p.1, p.2.port)) = [(.mii1, 2), (.mii1, 1)] ∧
    ¬ Credited (emacRxPackets .switch switchConfig plainRxEnv .mii0 64 mixedQueue noStats).2 := by
  have hpassed : (emacRxPackets .switch switchConfig plainRxEnv .mii0 64 mixedQueue noStats).2.passed.map
      (fun p => (p.1, p.2.port)) = [(.mii1, 2), (.mii1, 1)] := by decide +kernel
  refine ⟨hpassed, fun hcredited => ?_⟩
  have hmem : (Port.mii1, 1) ∈ (emacRxPackets .switch switchConfig plainRxEnv .mii0 64 mixedQueue
      noStats).2.passed.map (fun p => (p.1, p.2.port)) := by
    rw [hpassed]
    decide
  obtain ⟨p, hp, heq⟩ := List.mem_map.mp hmem
  have hport := hcredited p hp
  obtain ⟨hemac, hfield⟩ := Prod.mk.inj heq
  rw [hemac, hfield] at hport
  exact absurd hport (by decide)

end Am437x.Prueth.Rx
