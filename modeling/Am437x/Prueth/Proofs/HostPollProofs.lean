import Am437x.Prueth.Proofs.HostQueueProofs

/-!
# The host queues lose no packet

A poll takes packets from the front of the queues, whatever its budget is and wherever an allocation fails,
and leaves the others in their places.
-/

namespace Am437x.Prueth.Rx

open Flat Ring Loops Runs

variable {ethType : EthType} {cfg : RxConfig} {i : QueueId} {h : HostQueues} {p : HostPacket}
  {ps : List HostPacket}

/-! ## The packets handled -/

variable {env : RxEnv} {polling : Port} {budget : Int}

/-- The variable `emac` after the packets. -/
def lastEmac (ethType : EthType) (cfg : RxConfig) (polling emac : Port)
    (done : List (QueueId × HostPacket)) : Port :=
  done.foldl (fun emac x => switchedTo ethType polling emac (x.2.info ethType cfg)) emac

theorem lastEmac_append_singleton (emac : Port) (done : List (QueueId × HostPacket))
    (x : QueueId × HostPacket) :
    lastEmac ethType cfg polling emac (done ++ [x]) =
      switchedTo ethType polling (lastEmac ethType cfg polling emac done) (x.2.info ethType cfg) := by
  simp [lastEmac]

theorem handleAll_append_singleton (emac : Port) (done : List (QueueId × HostPacket)) (i : QueueId)
    (p : HostPacket) :
    handleAll ethType cfg env polling emac (done ++ [(i, p)]) =
      handleAll ethType cfg env polling emac done ++
        [⟨i, p, switchedTo ethType polling (lastEmac ethType cfg polling emac done) (p.info ethType cfg),
          env⟩] := by
  induction done generalizing emac with
  | nil => rfl
  | cons x done ih =>
    obtain ⟨j, q⟩ := x
    rw [List.cons_append, handleAll, handleAll, ih]
    rfl

theorem handleAll_queues (ethType : EthType) (cfg : RxConfig) (env : RxEnv) (polling emac : Port)
    (done : List (QueueId × HostPacket)) :
    (handleAll ethType cfg env polling emac done).map (fun h => (h.queue, h.packet)) = done := by
  induction done generalizing emac with
  | nil => rfl
  | cons x done ih =>
    obtain ⟨j, q⟩ := x
    rw [handleAll, List.map_cons, ih]

theorem waitingIn_cons (pending : QueueId → List HostPacket) (i : QueueId) (ids : List QueueId) :
    waitingIn pending (i :: ids) = (pending i).map (fun p => (i, p)) ++ waitingIn pending ids := by
  rfl

theorem waitingIn_update {pending : QueueId → List HostPacket} {ids : List QueueId} (hi : i ∉ ids) :
    waitingIn (Function.update pending i ps) ids = waitingIn pending ids := by
  unfold waitingIn
  rw [List.flatMap_congr]
  intro j hj
  rw [Function.update_of_ne (ne_of_mem_of_not_mem hj hi)]

/-- The number of packets that a poll handles is where it stops. -/
theorem pollCount_eq {allocOk : Nat → Bool} {k n : Nat} (hle : k ≤ n)
    (hserved : ∀ j < k, Served budget allocOk j) (hstop : k = n ∨ ¬ Served budget allocOk k) :
    pollCount budget allocOk n = k := by
  obtain ⟨m, rfl⟩ := Nat.exists_eq_add_of_le hle
  have hfirst : ∀ j ∈ List.range k, decide (Served budget allocOk j) = true := fun j hj =>
    decide_eq_true (hserved j (List.mem_range.mp hj))
  unfold pollCount
  rw [List.range_add, List.takeWhile_append_of_pos hfirst]
  cases m with
  | zero => simp
  | succ m =>
    have hnot : ¬ Served budget allocOk k := hstop.resolve_left (by omega)
    rw [List.range_succ_eq_map, List.map_cons, List.takeWhile_cons]
    simp [hnot]

/-- What a poll has done when it has handled these packets, with `ids` the queues that it has not left. -/
structure Polled (ethType : EthType) (cfg : RxConfig) (env : RxEnv) (polling : Port) (budget : Int)
    (all : List (QueueId × HostPacket)) (before : QueueId → List HostPacket) (ids : List QueueId)
    (s : RxState) (pending : QueueId → List HostPacket) (done : List (QueueId × HostPacket)) : Prop where
  represents : Represents ethType cfg s.host pending
  order : all = done ++ waitingIn pending ids
  own : ∀ j, before j = (done.filter (·.1 = j)).map Prod.snd ++ pending j
  used : s.used = done.length
  served : ∀ k < done.length, Served budget env.allocOk k
  calls : (s.calls.filter (·.ret = 0)).map (fun call => (call.queue, call.rdBufDesc)) =
    done.map fun x => (x.1, x.2.bd)
  received : s.received.map RxSkb.frame =
    (handleAll ethType cfg env polling polling done).flatMap (HandledPacket.delivered ethType cfg)

section Turns

variable {all done : List (QueueId × HostPacket)} {before pending : QueueId → List HostPacket}
  {ids : List QueueId} {s : RxState}

theorem polled_start (env : RxEnv) (polling : Port) (budget : Int)
    (hrep : Represents ethType cfg h before) (stats : Port → NetStats) :
    Polled ethType cfg env polling budget (waiting ethType polling before) before
      (queueIds ethType polling) (.start polling h stats) before [] where
  represents := hrep
  order := rfl
  own _ := rfl
  used := rfl
  served _ hk := absurd hk (Nat.not_lt_zero _)
  calls := rfl
  received := rfl

theorem Polled.countOverflow
    (hs : Polled ethType cfg env polling budget all before ids s pending done) (i : QueueId) :
    Polled ethType cfg env polling budget all before ids (s.countOverflow i) pending done := by
  unfold RxState.countOverflow
  dsimp only
  split
  · exact ⟨hs.represents.clearOverflow i, hs.order, hs.own, hs.used, hs.served, hs.calls,
      hs.received⟩
  · exact hs

/-- A queue that holds nothing is left. -/
theorem Polled.drained
    (hs : Polled ethType cfg env polling budget all before (i :: ids) s pending done)
    (hnil : pending i = []) : Polled ethType cfg env polling budget all before ids s pending done := by
  refine ⟨hs.represents, ?_, hs.own, hs.used, hs.served, hs.calls, hs.received⟩
  rw [hs.order, waitingIn_cons, hnil]
  rfl

/-- A call that fails changes nothing of this. -/
theorem Polled.failed {t : RxState} {emac : Port} {pktInfo : PacketInfo} {call : RxCall}
    (hs : Polled ethType cfg env polling budget all before ids s pending done)
    (ht : Passed s emac pktInfo t) (hreceived : t.received = s.received) (hret : call.ret ≠ 0) :
    Polled ethType cfg env polling budget all before ids (t.record call) pending done := by
  refine ⟨?_, hs.order, hs.own, ?_, hs.served, ?_, ?_⟩
  · rw [RxState.record, ht.host]
    exact hs.represents
  · rw [RxState.record, ht.used]
    exact hs.used
  · rw [RxState.record, ht.calls, List.filter_append]
    simp [hret, hs.calls]
  · rw [RxState.record, hreceived]
    exact hs.received

/-- The state when the packet at the front of a queue is received. -/
def afterPacket (ethType : EthType) (cfg : RxConfig) (env : RxEnv) (polling : Port) (i : QueueId)
    (p : HostPacket) (s : RxState) : RxState :=
  let emac := switchedTo ethType polling s.emac (p.info ethType cfg)
  let t := (emacRxPacket cfg env ethType emac (cfg.rxqueue ethType i) (p.info ethType cfg)
    (s.host.queueDescs i).rdPtr { s with emac := emac }).2.2
  { t.record ⟨i, (s.host.queueDescs i).rdPtr, p.bd, 0⟩ with used := t.used + 1 }

theorem afterPacket_passed (ethType : EthType) (cfg : RxConfig) (env : RxEnv) (polling : Port)
    (s : RxState) (i : QueueId) (p : HostPacket) :
    Passed s (switchedTo ethType polling s.emac (p.info ethType cfg)) (p.info ethType cfg)
      (emacRxPacket cfg env ethType (switchedTo ethType polling s.emac (p.info ethType cfg))
        (cfg.rxqueue ethType i) (p.info ethType cfg) (s.host.queueDescs i).rdPtr
        { s with emac := switchedTo ethType polling s.emac (p.info ethType cfg) }).2.2 := by
  obtain ⟨t, hcall, hpassed⟩ := emacRxPacket_eq cfg env ethType
    (switchedTo ethType polling s.emac (p.info ethType cfg)) (cfg.rxqueue ethType i)
    (p.info ethType cfg) (s.host.queueDescs i).rdPtr s
  rw [hcall]
  exact hpassed

/-- A turn that receives the packet at the front of the queue takes it from there. -/
theorem Polled.handled (hsep : cfg.Separate ethType) (hi : i ∉ ids)
    (hs : Polled ethType cfg env polling budget all before (i :: ids) s pending done)
    (hemac : s.emac = lastEmac ethType cfg polling polling done) (hfront : pending i = p :: ps)
    (hserved : Served budget env.allocOk done.length) :
    Polled ethType cfg env polling budget all before (i :: ids)
      { afterPacket ethType cfg env polling i p s with
        host := s.host.advance i (s.host.queueDescs i).rdPtr
          (updateRdPtr cfg (cfg.rxqueue ethType i) (p.info ethType cfg) (s.host.queueDescs i).rdPtr) }
      (Function.update pending i ps) (done ++ [(i, p)]) := by
  have hpassed := afterPacket_passed ethType cfg env polling s i p
  obtain ⟨pos, hold⟩ := hs.represents i
  rw [hfront] at hold
  have halloc : env.allocOk s.used = true := by
    rw [hs.used]
    exact hserved.2
  refine ⟨hs.represents.advance hsep hfront rfl, ?_, fun j => ?_, ?_, fun k hk => ?_, ?_, ?_⟩
  · rw [hs.order, waitingIn_cons, waitingIn_cons, waitingIn_update hi, Function.update_self, hfront]
    simp
  · rw [hs.own j, List.filter_append]
    rcases eq_or_ne j i with rfl | hne
    · simp [hfront]
    · simp [Function.update_of_ne hne, hne.symm]
  · show (emacRxPacket _ _ _ _ _ _ _ _).2.2.used + 1 = _
    rw [hpassed.used, hs.used, List.length_append]
    rfl
  · rw [List.length_append, List.length_singleton] at hk
    rcases Nat.lt_succ_iff_lt_or_eq.mp hk with hlt | rfl
    · exact hs.served k hlt
    · exact hserved
  · show (((emacRxPacket _ _ _ _ _ _ _ _).2.2.calls ++ [_]).filter _).map _ = _
    rw [hpassed.calls, List.filter_append, List.map_append, hs.calls]
    simp
  · have hreceived := StoredAt.received hold.stored.1 env
      { s with emac := switchedTo ethType polling s.emac (p.info ethType cfg) } rfl
      (switchedTo ethType polling s.emac (p.info ethType cfg)) halloc i
    rw [← hold.rd, hs.received, hemac] at hreceived
    rw [handleAll_append_singleton, List.flatMap_append, List.flatMap_singleton, ← hreceived, ← hemac]
    rfl

theorem Polled.length_eq (hs : Polled ethType cfg env polling budget all before ids s pending done) :
    all.length = done.length + (waitingIn pending ids).length := by
  rw [hs.order, List.length_append]

/-! ## The loops -/

/-- The poll goes on with the queues `ids`. -/
def GoesOn (ethType : EthType) (cfg : RxConfig) (env : RxEnv) (polling : Port) (budget : Int)
    (all : List (QueueId × HostPacket)) (before : QueueId → List HostPacket) (ids : List QueueId)
    (s : RxState) : Prop :=
  ∃ pending done, Polled ethType cfg env polling budget all before ids s pending done ∧
    s.emac = lastEmac ethType cfg polling polling done ∧ Reached budget done.length

/-- The poll is over. -/
def Over (ethType : EthType) (cfg : RxConfig) (env : RxEnv) (polling : Port) (budget : Int)
    (all : List (QueueId × HostPacket)) (before : QueueId → List HostPacket) (ret : Int) (s : RxState) :
    Prop :=
  ∃ ids pending done, Polled ethType cfg env polling budget all before ids s pending done ∧
    (done.length = all.length ∨ ¬ Served budget env.allocOk done.length) ∧
    ret = if done.length < all.length ∧ Reached budget done.length then -eNoMem else done.length

/-- The state of the loop over a queue, at its read pointer. -/
def QueueGoesOn (ethType : EthType) (cfg : RxConfig) (env : RxEnv) (polling : Port) (budget : Int)
    (all : List (QueueId × HostPacket)) (before : QueueId → List HostPacket) (i : QueueId)
    (ids : List QueueId) (bdWrPtr : Nat) (x : RxState × Nat) : Prop :=
  GoesOn ethType cfg env polling budget all before (i :: ids) x.1 ∧
    (x.1.host.queueDescs i).rdPtr = x.2 ∧ (x.1.host.queueDescs i).wrPtr = bdWrPtr

def QueueOver (ethType : EthType) (cfg : RxConfig) (env : RxEnv) (polling : Port) (budget : Int)
    (all : List (QueueId × HostPacket)) (before : QueueId → List HostPacket) (ids : List QueueId) :
    QueueExit RxState → Prop
  | .drained s => GoesOn ethType cfg env polling budget all before ids s
  | .returned ret s => Over ethType cfg env polling budget all before ret s

/-- The turn for a packet. -/
theorem queueTurn_front {bdWrPtr : Nat} (hptr : (s.host.queueDescs i).rdPtr ≠ bdWrPtr)
    (hdesc : s.host.sharedRam (s.host.queueDescs i).rdPtr = p.bd) (hp : p.Proper ethType cfg)
    (halloc : env.allocOk s.used = true) :
    queueTurn ethType cfg env polling budget i bdWrPtr (s, (s.host.queueDescs i).rdPtr) () =
      finishTurn budget i (s.host.queueDescs i).rdPtr
        (updateRdPtr cfg (cfg.rxqueue ethType i) (p.info ethType cfg) (s.host.queueDescs i).rdPtr)
        (afterPacket ethType cfg env polling i p s) := by
  have hpkt : parsePacketInfo ethType cfg.layout (s.host.sharedRam (s.host.queueDescs i).rdPtr) =
      p.info ethType cfg := by rw [hdesc, HostPacket.info]
  obtain ⟨t, hcall, -⟩ := emacRxPacket_eq cfg env ethType
    (switchedTo ethType polling s.emac (p.info ethType cfg)) (cfg.rxqueue ethType i)
    (p.info ethType cfg) (s.host.queueDescs i).rdPtr s
  unfold queueTurn afterPacket
  dsimp only
  rw [if_neg hptr, hpkt, if_neg hp.2.1, hdesc]
  rw [if_neg (by simp [halloc])] at hcall
  have hswitch : (if ethType = .switch ∧ (p.info ethType cfg).port = portId (otherPort polling) then
      otherPort polling else s.emac) = switchedTo ethType polling s.emac (p.info ethType cfg) := rfl
  rw [hswitch, hcall]
  rfl

/-- The turn for a packet for which no socket buffer is allocated. -/
theorem queueTurn_failed (polling : Port) (budget : Int) {bdWrPtr : Nat}
    (hptr : (s.host.queueDescs i).rdPtr ≠ bdWrPtr)
    (hdesc : s.host.sharedRam (s.host.queueDescs i).rdPtr = p.bd) (hp : p.Proper ethType cfg)
    (halloc : env.allocOk s.used = false) :
    ∃ t, Passed s (switchedTo ethType polling s.emac (p.info ethType cfg)) (p.info ethType cfg) t ∧
      t.received = s.received ∧
      queueTurn ethType cfg env polling budget i bdWrPtr (s, (s.host.queueDescs i).rdPtr) () =
        .left (.returned (-eNoMem) (t.record ⟨i, (s.host.queueDescs i).rdPtr, p.bd, -eNoMem⟩)) := by
  have hpkt : parsePacketInfo ethType cfg.layout (s.host.sharedRam (s.host.queueDescs i).rdPtr) =
      p.info ethType cfg := by rw [hdesc, HostPacket.info]
  refine ⟨{ s with
    emac := switchedTo ethType polling s.emac (p.info ethType cfg)
    passed := s.passed ++ [(switchedTo ethType polling s.emac (p.info ethType cfg), p.info ethType cfg)] },
    ⟨rfl, rfl, rfl, rfl, rfl⟩, rfl, ?_⟩
  unfold queueTurn emacRxPacket
  dsimp only
  rw [if_neg hptr, hpkt, if_neg hp.2.1, hdesc, if_pos halloc]
  rfl

/-- One turn: it ends at the empty queue, fails for the packet at the front, or takes it. -/
theorem queueTurn_goesOn (hsep : cfg.Separate ethType) (hi : i ∉ ids) (bdWrPtr : Nat)
    {x : RxState × Nat}
    (hx : QueueGoesOn ethType cfg env polling budget all before i ids bdWrPtr x) :
    (queueTurn ethType cfg env polling budget i bdWrPtr x ()).Holds
      (QueueGoesOn ethType cfg env polling budget all before i ids bdWrPtr)
      (QueueOver ethType cfg env polling budget all before ids) := by
  obtain ⟨s, bdRdPtr⟩ := x
  obtain ⟨⟨pending, done, hs, hemac, hreached⟩, hrd, hwr⟩ := hx
  dsimp only at hs hemac hrd hwr
  subst hrd hwr
  obtain ⟨pos, hold⟩ := hs.represents i
  cases hfront : pending i with
  | nil =>
    rw [queueTurn_drained (hold.ptrs_eq_iff.mpr hfront)]
    exact ⟨pending, done, hs.drained hfront, hemac, hreached⟩
  | cons p ps =>
    rw [hfront] at hold
    have hmore : done.length < all.length := by
      rw [hs.length_eq, waitingIn_cons, hfront]
      simp
    have hproper := hold.stored.1.proper
    by_cases halloc : env.allocOk s.used = true
    · have hserved : Served budget env.allocOk done.length := ⟨hreached, hs.used ▸ halloc⟩
      have hnext := hs.handled hsep hi hemac hfront hserved
      have hpassed := afterPacket_passed ethType cfg env polling s i p
      have hhost : (afterPacket ethType cfg env polling i p s).host = s.host := hpassed.host
      have hused : (afterPacket ethType cfg env polling i p s).used = (done ++ [(i, p)]).length :=
        hnext.used
      have hemac' : (afterPacket ethType cfg env polling i p s).emac =
          lastEmac ethType cfg polling polling (done ++ [(i, p)]) := by
        rw [lastEmac_append_singleton, ← hemac]
        exact hpassed.emac
      rw [queueTurn_front hold.not_empty hold.front hproper halloc]
      unfold finishTurn
      dsimp only
      rw [hhost]
      split
      case isTrue hbudget =>
        rw [hused] at hbudget
        have hend : ¬ Reached budget (done ++ [(i, p)]).length := by
          rintro (hzero | hlt)
          · simp at hzero
          · omega
        refine ⟨i :: ids, _, _, hnext, Or.inr fun hserved => hend hserved.1, ?_⟩
        rw [if_neg fun h => hend h.2, hused]
      case isFalse hbudget =>
        rw [hused] at hbudget
        refine ⟨⟨_, _, hnext, hemac', Or.inr (by omega)⟩, ?_, ?_⟩
        · simp [HostQueues.advance]
        · simp [HostQueues.advance]
    · obtain ⟨t, hpassed, hreceived, hturn⟩ := queueTurn_failed polling budget
        hold.not_empty hold.front hproper (eq_false_of_ne_true halloc)
      have hfail : (-eNoMem : Int) ≠ 0 := by decide
      rw [hturn]
      refine ⟨i :: ids, pending, done, hs.failed hpassed hreceived hfail, Or.inr fun hserved => ?_, ?_⟩
      · rw [hs.used] at halloc
        exact halloc hserved.2
      · rw [if_pos ⟨hmore, hreached⟩]

/-- One queue. -/
theorem rxQueue_goesOn (hsep : cfg.Separate ethType) (hi : i ∉ ids)
    (hs : GoesOn ethType cfg env polling budget all before (i :: ids) s) :
    (rxQueue ethType cfg env polling budget s i).Holds
      (GoesOn ethType cfg env polling budget all before ids)
      (fun r => Over ethType cfg env polling budget all before r.1 r.2) := by
  obtain ⟨pending, done, hpolled, hemac, hreached⟩ := hs
  have hcounted := hpolled.countOverflow i
  have hsame : (s.countOverflow i).emac = s.emac ∧
      ((s.countOverflow i).host.queueDescs i).rdPtr = (s.host.queueDescs i).rdPtr ∧
      ((s.countOverflow i).host.queueDescs i).wrPtr = (s.host.queueDescs i).wrPtr := by
    unfold RxState.countOverflow
    dsimp only
    split
    · simp [HostQueues.clearOverflow, RxState.addStats]
    · exact ⟨rfl, rfl, rfl⟩
  obtain ⟨hemac', hrd, hwr⟩ := hsame
  obtain ⟨e, hleft⟩ := queueLoop_left ethType cfg env polling budget i (s.host.queueDescs i).wrPtr
    (s.host.queueDescs i).rdPtr (s.countOverflow i)
  have hloop : (queueLoop ethType cfg env polling budget i (s.host.queueDescs i).wrPtr
      (s.host.queueDescs i).rdPtr (s.countOverflow i)).Holds
      (QueueGoesOn ethType cfg env polling budget all before i ids (s.host.queueDescs i).wrPtr)
      (QueueOver ethType cfg env polling budget all before ids) :=
    loop_holds (fun x _ hx => queueTurn_goesOn hsep hi _ hx)
      ⟨⟨pending, done, hcounted, hemac'.trans hemac, hreached⟩, hrd, hwr⟩ _
  unfold rxQueue
  dsimp only
  rw [hleft] at hloop ⊢
  cases e with
  | drained t => exact hloop
  | returned ret t => exact hloop

/-- All queues. -/
theorem rxQueues_goesOn (hsep : cfg.Separate ethType) (hids : ids.Nodup)
    (hs : GoesOn ethType cfg env polling budget all before ids s) :
    (loop (rxQueue ethType cfg env polling budget) s ids).Holds
      (GoesOn ethType cfg env polling budget all before [])
      (fun r => Over ethType cfg env polling budget all before r.1 r.2) := by
  induction ids generalizing s with
  | nil => exact hs
  | cons i ids ih =>
    obtain ⟨hi, hids⟩ := List.nodup_cons.mp hids
    have hqueue := rxQueue_goesOn hsep hi hs
    cases hr : rxQueue ethType cfg env polling budget s i with
    | again t =>
      rw [hr] at hqueue
      rw [loop_cons_again hr]
      exact ih hids hqueue
    | left r =>
      rw [hr] at hqueue
      rw [loop_cons_left hr]
      exact hqueue

theorem queueIds_nodup (ethType : EthType) (polling : Port) : (queueIds ethType polling).Nodup := by
  unfold queueIds
  split
  · decide
  · cases polling <;> decide

/-- A poll is over when it returns. -/
theorem emacRxPackets_over (env : RxEnv) (polling : Port) (budget : Int)
    (hsep : cfg.Separate ethType) (hrep : Represents ethType cfg h before)
    (stats : Port → NetStats) :
    Over ethType cfg env polling budget (waiting ethType polling before) before
      (emacRxPackets ethType cfg env polling budget h stats).1
      (emacRxPackets ethType cfg env polling budget h stats).2 := by
  have hloop := rxQueues_goesOn hsep (queueIds_nodup ethType polling)
    ⟨before, [], polled_start env polling budget hrep stats, rfl, Or.inl rfl⟩
  unfold emacRxPackets
  cases hl : loop (rxQueue ethType cfg env polling budget) (.start polling h stats)
      (queueIds ethType polling) with
  | left r =>
    rw [hl] at hloop
    exact hloop
  | again t =>
    rw [hl] at hloop
    obtain ⟨pending, done, hs, -, -⟩ := hloop
    have hlen : done.length = (waiting ethType polling before).length := by
      rw [hs.length_eq]
      rfl
    refine ⟨[], pending, done, hs, Or.inl hlen, ?_⟩
    rw [if_neg fun hlt => absurd hlen hlt.1.ne]
    exact congrArg Int.ofNat hs.used

theorem Over.done_eq {ret : Int} (hs : Over ethType cfg env polling budget all before ret s) :
    ∃ pending ids, Polled ethType cfg env polling budget all before ids s pending
      (all.take (pollCount budget env.allocOk all.length)) ∧
      pollCount budget env.allocOk all.length ≤ all.length ∧
      ret = if pollCount budget env.allocOk all.length < all.length ∧
        Reached budget (pollCount budget env.allocOk all.length) then -eNoMem
      else pollCount budget env.allocOk all.length := by
  obtain ⟨ids, pending, done, hpolled, hstop, hret⟩ := hs
  have hle : done.length ≤ all.length := by
    rw [hpolled.length_eq]
    exact Nat.le_add_right _ _
  have hcount := pollCount_eq hle hpolled.served hstop
  have htake : all.take done.length = done := by
    rw [hpolled.order, List.take_left]
  rw [hcount, htake]
  exact ⟨pending, ids, hpolled, hle, hret⟩

end Turns

/-! ## Runs -/

variable {s s' : HostSystem}

/-- The packets handled so far, and those in the queues. -/
structure HostInv (ethType : EthType) (cfg : RxConfig) (s : HostSystem) (handled : List HandledPacket)
    (pending : QueueId → List HostPacket) : Prop where
  represents : Represents ethType cfg s.host pending
  own : ∀ i, s.appended i = (handled.filter (·.queue = i)).map HandledPacket.packet ++ pending i
  calls : (s.calls.filter (·.ret = 0)).map (fun call => (call.queue, call.rdBufDesc)) =
    handled.map fun h => (h.queue, h.packet.bd)
  received : s.received.map RxSkb.frame = handled.flatMap (HandledPacket.delivered ethType cfg)

theorem HostInv.pending_eq {handled : List HandledPacket} {pending : QueueId → List HostPacket}
    (hs : HostInv ethType cfg s handled pending) : s.pending = pending := by
  funext i
  have hcount : s.calls.countP (fun call => call.queue = i ∧ call.ret = 0) =
      ((handled.filter (·.queue = i)).map HandledPacket.packet).length := by
    have hmap := congrArg (List.countP fun x => decide (x.1 = i)) hs.calls
    rw [List.countP_map, List.countP_map, List.countP_filter] at hmap
    rw [List.length_map, ← List.countP_eq_length_filter]
    simpa [Function.comp_def] using hmap
  rw [HostSystem.pending, hs.own i, hcount, List.drop_left]

theorem HostInv.lossless {handled : List HandledPacket} {pending : QueueId → List HostPacket}
    (hs : HostInv ethType cfg s handled pending) : s.Lossless ethType cfg := by
  refine ⟨handled, fun i => ⟨pending i, hs.own i, ?_⟩, hs.calls, hs.received⟩
  obtain ⟨pos, hold⟩ := hs.represents i
  exact hold.ptrs_eq_iff

theorem hostInv_start (ocmc : Memory UInt8) (sharedRam : Memory (BitVec 32)) (stats : Port → NetStats)
    (block : QueueId → Nat) :
    HostInv ethType cfg (.start ethType cfg ocmc sharedRam stats block) [] fun _ => [] where
  represents i := ⟨block i, rfl, rfl, (cfg.rxqueue ethType i).count_pos _, trivial⟩
  own _ := rfl
  calls := rfl
  received := rfl

theorem handleAll_own (done : List (QueueId × HostPacket)) (i : QueueId) :
    ((handleAll ethType cfg env polling polling done).filter (·.queue = i)).map HandledPacket.packet =
      (done.filter (·.1 = i)).map Prod.snd := by
  have hqueues := handleAll_queues ethType cfg env polling polling done
  conv_rhs => rw [← hqueues, List.filter_map, List.map_map]
  rfl

theorem handleAll_calls (done : List (QueueId × HostPacket)) :
    (handleAll ethType cfg env polling polling done).map (fun h => (h.queue, h.packet.bd)) =
      done.map fun x => (x.1, x.2.bd) := by
  have hqueues := handleAll_queues ethType cfg env polling polling done
  conv_rhs => rw [← hqueues, List.map_map]
  rfl

section Step

variable {handled : List HandledPacket} {pending : QueueId → List HostPacket}

theorem hostInv_append (hsep : cfg.Separate ethType) (hs : HostInv ethType cfg s handled pending)
    (h : hostStep ethType cfg s (.append i p) = some s') :
    HostInv ethType cfg s' handled (Function.update pending i (pending i ++ [p])) := by
  rw [hostStep] at h
  split at h
  case isTrue hcan =>
    obtain rfl := Option.some.inj h
    obtain ⟨hp, hroom, hfree⟩ := hcan
    rw [hs.pending_eq] at hfree
    refine ⟨hs.represents.append hsep hp hroom hfree, fun j => ?_, hs.calls, hs.received⟩
    rcases eq_or_ne j i with rfl | hne
    · simp [hs.own]
    · simp [Function.update_of_ne hne, hs.own]
  case isFalse => cases h

theorem HostInv.taken_eq (hs : HostInv ethType cfg s handled pending) :
    s.taken ethType polling budget env = (waiting ethType polling pending).take
      (pollCount budget env.allocOk (waiting ethType polling pending).length) := by
  rw [HostSystem.taken, hs.pending_eq]

/-- A poll handles the first of the packets that wait for it. -/
theorem hostInv_poll (hsep : cfg.Separate ethType) (hs : HostInv ethType cfg s handled pending)
    (h : hostStep ethType cfg s (.poll polling budget env) = some s') :
    ∃ pending', HostInv ethType cfg s' (handled ++ handleAll ethType cfg env polling polling
        (s.taken ethType polling budget env)) pending' := by
  obtain rfl := Option.some.inj h
  obtain ⟨pending', ids, hpolled, -, -⟩ := (emacRxPackets_over env polling budget
    hsep hs.represents s.stats).done_eq
  rw [hs.taken_eq]
  refine ⟨pending', hpolled.represents, fun i => ?_, ?_, ?_⟩
  · rw [List.filter_append, List.map_append, handleAll_own, List.append_assoc, ← hpolled.own i]
    exact hs.own i
  · show ((s.calls ++ _).filter _).map _ = _
    rw [List.filter_append, List.map_append, hs.calls, List.map_append, handleAll_calls]
    exact congrArg _ hpolled.calls
  · show (s.received ++ _).map _ = _
    rw [List.map_append, List.flatMap_append, hs.received]
    exact congrArg _ hpolled.received

theorem hostInv_step (hsep : cfg.Separate ethType) {e : HostEvent}
    (hs : ∃ handled pending, HostInv ethType cfg s handled pending)
    (h : hostStep ethType cfg s e = some s') : ∃ handled pending, HostInv ethType cfg s' handled pending := by
  obtain ⟨handled, pending, hs⟩ := hs
  cases e with
  | append i p => exact ⟨_, _, hostInv_append hsep hs h⟩
  | poll polling budget env =>
    obtain ⟨pending', hs'⟩ := hostInv_poll hsep hs h
    exact ⟨_, pending', hs'⟩

theorem pollTakes_of_inv (hsep : cfg.Separate ethType) (hs : HostInv ethType cfg s handled pending)
    (h : hostStep ethType cfg s (.poll polling budget env) = some s') :
    s.PollTakes ethType cfg polling budget env s' := by
  obtain ⟨pending', hs'⟩ := hostInv_poll hsep hs h
  obtain ⟨_, _, -, hle, hret⟩ := (emacRxPackets_over env polling budget
    hsep hs.represents s.stats).done_eq
  have hsame : s'.appended = s.appended := by
    obtain rfl := Option.some.inj h
    rfl
  refine ⟨fun i => ?_, ?_, ?_⟩
  · have hown := hs'.own i
    rw [hsame, hs.own i, List.filter_append, List.map_append, handleAll_own, List.append_assoc] at hown
    rw [hs.pending_eq, hs'.pending_eq]
    exact List.append_cancel_left hown
  · rw [hs'.received, hs.received, List.flatMap_append]
  · rw [hs.taken_eq, hs.pending_eq, List.length_take, Nat.min_eq_left hle]
    exact hret

end Step

/-! ## Main results -/

/-- In every state that such a run reaches, a poll does what it does on the lists of the packets in the
queues: it goes through the queues in their order, and handles packets until the budget is used up or an
allocation fails. -/
theorem poll_takes_first (ethType : EthType) (cfg : RxConfig) (hsep : cfg.Separate ethType)
    (ocmc : Memory UInt8) (sharedRam : Memory (BitVec 32)) (stats : Port → NetStats)
    (block : QueueId → Nat) (events : List HostEvent) :
    AllSteps (hostStep ethType cfg)
      (fun s e s' => ∀ polling budget env, e = .poll polling budget env →
        s.PollTakes ethType cfg polling budget env s')
      (.start ethType cfg ocmc sharedRam stats block) events := by
  apply allSteps_of_inv fun s => ∃ handled pending, HostInv ethType cfg s handled pending
  · intro s e s' hs h
    refine ⟨?_, hostInv_step hsep hs h⟩
    rintro polling budget env rfl
    obtain ⟨handled, pending, hinv⟩ := hs
    exact pollTakes_of_inv hsep hinv h
  · exact ⟨[], _, hostInv_start ocmc sharedRam stats block⟩

/-! ### Four queues of four blocks -/

def hostQueue (i : QueueId) : QueueInfo where
  bufferOffset := 128 * i
  bufferDescOffset := 0x400 + 16 * i
  bufferDescEnd := 0x40c + 16 * i
  offset_le_end := by omega
  end_lt := by omega

def hostConfig : RxConfig :=
  { switchConfig with queueInfos := hostQueue, swQueueInfos := hostQueue }

theorem count_hostQueue (i : QueueId) : (hostQueue i).count icssBd = 4 := by
  simp only [QueueInfo.count, hostQueue, icssBd]
  omega

theorem hostConfig_separate (ethType : EthType) : hostConfig.Separate ethType := by
  have hqueue (i : QueueId) : hostConfig.rxqueue ethType i = hostQueue i := by
    unfold RxConfig.rxqueue
    split <;> rfl
  have hlayout : hostConfig.layout.toBdLayout = icssBd := rfl
  constructor
  · intro i j hne
    have hval := Fin.val_ne_of_ne hne
    rw [hqueue, hqueue]
    simp only [hostQueue]
    omega
  · intro i j hne
    have hval := Fin.val_ne_of_ne hne
    rw [hqueue, hqueue, hlayout, count_hostQueue, count_hostQueue]
    simp only [hostQueue, icssBlockSize]
    omega
  · intro i
    rw [hqueue, hlayout, count_hostQueue]
    simp only [hostQueue, icssBlockSize, hostConfig, switchConfig]
    omega

/-- A packet of 60 bytes from the second port. -/
def hostPacket : HostPacket where
  bd := 0xf20000
  data := List.replicate 60 7

def hostEmpty : HostSystem :=
  .start .switch hostConfig (fun _ => 0) (fun _ => 0) noStats fun _ => 0

/-- The events of a run: the second poll finds no socket buffer, and the third handles the packet. -/
def hostEvents : List HostEvent :=
  [.poll .mii0 64 plainRxEnv, .append pruethQueue2 hostPacket,
    .poll .mii0 64 { plainRxEnv with allocOk := fun _ => false }, .poll .mii1 64 plainRxEnv]

theorem poll_takes_first_retry :
    AllSteps (hostStep .switch hostConfig)
      (fun s e s' => ∀ polling budget env, e = .poll polling budget env →
        s.PollTakes .switch hostConfig polling budget env s') hostEmpty hostEvents :=
  poll_takes_first .switch hostConfig (hostConfig_separate .switch) _ _ _ _ _

example : (run (hostStep .switch hostConfig) hostEmpty hostEvents).map (·.received.map RxSkb.frame) =
    some [(.mii1, List.replicate 60 7)] := by
  decide +kernel

end Am437x.Prueth.Rx
