import Am437x.Prueth.NapiPoll
import Am437x.Prueth.Proofs.RxProofs

/-!
# When the NAPI poll keeps its contract

A poll counts the packets it has handled, and stops at the budget. The one exit that does not return the
count is the one without memory for a socket buffer.
-/

namespace Am437x.Prueth.Rx

open Flat Loops

variable {ethType : EthType} {cfg : RxConfig} {env : RxEnv} {polling : Port} {quota : Int}
  {i : QueueId} {s : RxState}

/-! ## The count -/

/-- Every call so far has handled its packet, with a socket buffer, and was counted. -/
structure Handled (env : RxEnv) (s : RxState) : Prop where
  ret : ∀ call ∈ s.calls, call.ret = 0
  used : s.calls.length = s.used
  alloc : ∀ k < s.used, env.allocOk k = true

theorem Handled.handled_eq (h : Handled env s) : s.handled = s.used := by
  unfold RxState.handled
  rw [← h.used, List.countP_eq_length]
  intro call hcall
  exact decide_eq_true (h.ret call hcall)

theorem handled_start (host : HostQueues) (stats : Port → NetStats) :
    Handled env (.start polling host stats) where
  ret _ h := absurd h List.not_mem_nil
  used := rfl
  alloc _ h := absurd h (Nat.not_lt_zero _)

theorem Handled.countOverflow (h : Handled env s) (i : QueueId) :
    Handled env (s.countOverflow i) := by
  unfold RxState.countOverflow
  dsimp only
  split
  · exact ⟨h.ret, h.used, h.alloc⟩
  · exact h

theorem used_countOverflow (s : RxState) (i : QueueId) : (s.countOverflow i).used = s.used := by
  unfold RxState.countOverflow
  dsimp only
  split <;> rfl

theorem rdPtr_countOverflow (s : RxState) (i : QueueId) :
    ((s.countOverflow i).host.queueDescs i).rdPtr = (s.host.queueDescs i).rdPtr := by
  unfold RxState.countOverflow
  dsimp only
  split
  · simp [HostQueues.clearOverflow]
  · rfl

/-! ## How a poll ends -/

/-- It returns the count, within the budget, or it had no memory for the next packet. -/
structure PollEnd (env : RxEnv) (quota : Int) (r : Int × RxState) : Prop where
  handled : r.2.handled = r.2.used
  kept : ∀ call ∈ r.2.calls, call.ret ≠ 0 → call.Kept r.2.host
  alloc : ∀ k < r.2.used, env.allocOk k = true
  ret : r.1 = -eNoMem ∧ env.allocOk r.2.used = false ∨
    r.1 = r.2.used ∧ (r.2.used : Int) ≤ quota

theorem Handled.pollEnd (h : Handled env s) (hle : (s.used : Int) ≤ quota) :
    PollEnd env quota (s.used, s) where
  handled := h.handled_eq
  alloc := h.alloc
  kept call hcall hret := absurd (h.ret call hcall) hret
  ret := Or.inr ⟨rfl, hle⟩

/-- A poll that goes on. -/
def Going (env : RxEnv) (quota : Int) (s : RxState) : Prop :=
  Handled env s ∧ (s.used : Int) < quota

/-- The loop over one queue keeps the read pointer of the queue. -/
def QueueGoing (env : RxEnv) (quota : Int) (i : QueueId) (s : RxState × Nat) : Prop :=
  Going env quota s.1 ∧ (s.1.host.queueDescs i).rdPtr = s.2

def QueueEnd (env : RxEnv) (quota : Int) : QueueExit RxState → Prop
  | .drained s => Going env quota s
  | .returned ret s => PollEnd env quota (ret, s)

theorem finishTurn_holds (h : Handled env s) (hle : (s.used : Int) ≤ quota) (bdRdPtr update : Nat) :
    (finishTurn quota i bdRdPtr update s).Holds (QueueGoing env quota i) (QueueEnd env quota) := by
  have hnext : Handled env { s with host := s.host.advance i bdRdPtr update } := ⟨h.ret, h.used, h.alloc⟩
  unfold finishTurn
  dsimp only
  split
  case isTrue => exact hnext.pollEnd hle
  case isFalse hquota =>
    refine ⟨⟨hnext, not_le.mp hquota⟩, ?_⟩
    simp [HostQueues.advance]

theorem queueTurn_holds (bdWrPtr : Nat) {s : RxState × Nat} (h : QueueGoing env quota i s) :
    (queueTurn ethType cfg env polling quota i bdWrPtr s ()).Holds (QueueGoing env quota i)
      (QueueEnd env quota) := by
  obtain ⟨s, bdRdPtr⟩ := s
  obtain ⟨⟨hhandled, hlt⟩, hrdPtr⟩ :
      (Handled env s ∧ (s.used : Int) < quota) ∧ (s.host.queueDescs i).rdPtr = bdRdPtr := h
  by_cases hptr : bdRdPtr = bdWrPtr
  · rw [queueTurn_drained hptr]
    exact ⟨hhandled, hlt⟩
  generalize hpkt : parsePacketInfo ethType cfg.layout (s.host.sharedRam bdRdPtr) = pktInfo
  by_cases hbad : BadLength cfg pktInfo
  · rw [queueTurn_badLength hptr hpkt hbad]
    have hcounted (f : NetStats → NetStats) : Handled env (s.addStats polling f) :=
      ⟨hhandled.ret, hhandled.used, hhandled.alloc⟩
    exact finishTurn_holds (hcounted _) hlt.le bdRdPtr bdWrPtr
  obtain ⟨t, hpassed, hturn⟩ := queueTurn_passed hptr hpkt hbad
  rw [hturn]
  by_cases halloc : env.allocOk s.used = false
  · -- the packet stays where it is
    rw [if_pos halloc]
    constructor
    · show List.countP _ (t.calls ++ _) = t.used
      rw [hpassed.calls, hpassed.used, List.countP_append, ← hhandled.handled_eq]
      rfl
    · intro call hcall hret
      rcases List.mem_append.mp hcall with hbefore | hlast
      · rw [hpassed.calls] at hbefore
        exact absurd (hhandled.ret call hbefore) hret
      · obtain rfl := List.mem_singleton.mp hlast
        show (t.host.queueDescs i).rdPtr = bdRdPtr ∧ t.host.sharedRam bdRdPtr = s.host.sharedRam bdRdPtr
        rw [hpassed.host]
        exact ⟨hrdPtr, rfl⟩
    · show ∀ k < t.used, env.allocOk k = true
      rw [hpassed.used]
      exact hhandled.alloc
    · left
      refine ⟨rfl, ?_⟩
      show env.allocOk t.used = false
      rw [hpassed.used]
      exact halloc
  · rw [if_neg halloc]
    apply finishTurn_holds
    · constructor
      · intro call hcall
        rcases List.mem_append.mp hcall with hbefore | hlast
        · rw [hpassed.calls] at hbefore
          exact hhandled.ret call hbefore
        · obtain rfl := List.mem_singleton.mp hlast
          rfl
      · show (t.calls ++ [_]).length = t.used + 1
        rw [List.length_append, hpassed.calls, hpassed.used, hhandled.used]
        rfl
      · intro k hk
        have hk : k < t.used + 1 := hk
        rw [hpassed.used] at hk
        rcases Nat.lt_succ_iff_lt_or_eq.mp hk with hbefore | rfl
        · exact hhandled.alloc k hbefore
        · exact eq_true_of_ne_false halloc
    · show ((t.used + 1 : Nat) : Int) ≤ quota
      rw [hpassed.used]
      omega

theorem rxQueue_holds (h : Going env quota s) (i : QueueId) :
    (rxQueue ethType cfg env polling quota s i).Holds (Going env quota) (PollEnd env quota) := by
  have hstart : QueueGoing env quota i (s.countOverflow i, (s.host.queueDescs i).rdPtr) := by
    refine ⟨⟨h.1.countOverflow i, ?_⟩, rdPtr_countOverflow s i⟩
    rw [used_countOverflow]
    exact h.2
  have hloop : (loop (queueTurn ethType cfg env polling quota i (s.host.queueDescs i).wrPtr)
      (s.countOverflow i, (s.host.queueDescs i).rdPtr)
      (List.replicate (turnLimit quota (s.countOverflow i).used) ())).Holds (QueueGoing env quota i)
        (QueueEnd env quota) :=
    loop_holds (fun _ _ hgoing => queueTurn_holds _ hgoing) hstart _
  unfold rxQueue queueLoop
  dsimp only
  generalize loop (queueTurn ethType cfg env polling quota i _) _ _ = turn at hloop ⊢
  cases turn with
  | again t => exact hloop.1
  | left e =>
    cases e with
    | drained t => exact hloop
    | returned ret t => exact hloop

/-- With a budget, every poll ends so. -/
theorem emacRxPackets_end (ethType : EthType) (cfg : RxConfig) (env : RxEnv) (polling : Port)
    (hquota : 1 ≤ quota) (host : HostQueues) (stats : Port → NetStats) :
    PollEnd env quota (emacRxPackets ethType cfg env polling quota host stats) := by
  have hstart : Going env quota (.start polling host stats) :=
    ⟨handled_start host stats, by show ((0 : Nat) : Int) < quota; omega⟩
  have hloop : (loop (rxQueue ethType cfg env polling quota) (.start polling host stats)
      (queueIds ethType polling)).Holds (Going env quota) (PollEnd env quota) :=
    loop_holds (fun _ i hgoing => rxQueue_holds hgoing i) hstart _
  unfold emacRxPackets
  generalize loop (rxQueue ethType cfg env polling quota) _ _ = turn at hloop ⊢
  cases turn with
  | again s => exact hloop.1.pollEnd hloop.2.le
  | left r => exact hloop

/-! ## Polls with and without failures -/

/-- The scan has gone past a packet without a socket buffer. -/
def PastFailure (allocOk : Nat → Bool) (w : Scan) : Prop := ∃ k < w.used, allocOk k = false

def ExitPastFailure (allocOk : Nat → Bool) : QueueExit Scan → Prop
  | .drained w => PastFailure allocOk w
  | .returned _ w => PastFailure allocOk w

def ExitFailed : QueueExit Scan → Prop
  | .drained _ => False
  | .returned ret _ => ret = -eNoMem

variable {allocOk allocOk' : Nat → Bool} {w : Scan}

theorem PastFailure.succ (h : PastFailure allocOk w) {v : Scan} (hused : v.used = w.used + 1) :
    PastFailure allocOk v := by
  obtain ⟨k, hk, hfail⟩ := h
  exact ⟨k, by omega, hfail⟩

theorem not_all_of_pastFailure (h : PastFailure allocOk w) : ¬ ∀ k < w.used, allocOk k = true := by
  obtain ⟨k, hk, hfail⟩ := h
  intro hall
  exact Bool.noConfusion (hfail.symm.trans (hall k hk))

theorem scanFinishTurn_pastFailure (h : PastFailure allocOk w) (bdRdPtr update : Nat) :
    (w.finishTurn quota i bdRdPtr update).Holds (fun v => PastFailure allocOk v.1)
      (ExitPastFailure allocOk) := by
  unfold Scan.finishTurn
  dsimp only
  split
  · exact h
  · exact h

theorem scanTurn_pastFailure (bdWrPtr : Nat) {w : Scan × Nat} (h : PastFailure allocOk w.1) :
    (scanTurn ethType cfg allocOk' quota i bdWrPtr w ()).Holds (fun v => PastFailure allocOk v.1)
      (ExitPastFailure allocOk) := by
  obtain ⟨w, bdRdPtr⟩ := w
  by_cases hptr : bdRdPtr = bdWrPtr
  · rw [scanTurn_drained hptr]
    exact h
  generalize hpkt : parsePacketInfo ethType cfg.layout (w.host.sharedRam bdRdPtr) = pktInfo
  by_cases hbad : BadLength cfg pktInfo
  · rw [scanTurn_badLength hptr hpkt hbad]
    exact scanFinishTurn_pastFailure h bdRdPtr bdWrPtr
  rw [scanTurn_passed hptr hpkt hbad]
  split
  · exact h
  · exact scanFinishTurn_pastFailure (h.succ rfl) bdRdPtr _

/-- A turn fails for want of memory, or does what it does with memory. -/
theorem scanTurn_cut (bdWrPtr : Nat) (w : Scan × Nat) :
    Cut ExitFailed (fun v => PastFailure allocOk v.1) (ExitPastFailure allocOk)
      (scanTurn ethType cfg allocOk quota i bdWrPtr w ())
      (scanTurn ethType cfg (fun _ => true) quota i bdWrPtr w ()) := by
  obtain ⟨w, bdRdPtr⟩ := w
  by_cases hptr : bdRdPtr = bdWrPtr
  · left
    rw [scanTurn_drained hptr, scanTurn_drained hptr]
  generalize hpkt : parsePacketInfo ethType cfg.layout (w.host.sharedRam bdRdPtr) = pktInfo
  by_cases hbad : BadLength cfg pktInfo
  · left
    rw [scanTurn_badLength hptr hpkt hbad, scanTurn_badLength hptr hpkt hbad]
  have htrue : ¬ true = false := by decide
  rw [scanTurn_passed hptr hpkt hbad, scanTurn_passed hptr hpkt hbad, if_neg htrue]
  by_cases halloc : allocOk w.used = false
  · right
    rw [if_pos halloc]
    refine ⟨⟨_, rfl, rfl⟩, scanFinishTurn_pastFailure ?_ bdRdPtr _⟩
    exact ⟨w.used, Nat.lt_succ_self w.used, halloc⟩
  · left
    rw [if_neg halloc]

theorem used_scanCountOverflow (w : Scan) (i : QueueId) : (w.countOverflow i).used = w.used := by
  unfold Scan.countOverflow
  split <;> rfl

theorem scanQueue_pastFailure (h : PastFailure allocOk w) (i : QueueId) :
    (scanQueue ethType cfg allocOk' quota w i).Holds (PastFailure allocOk)
      (fun r => PastFailure allocOk r.2) := by
  have hstart : PastFailure allocOk (w.countOverflow i) := by
    unfold PastFailure
    rw [used_scanCountOverflow]
    exact h
  have hloop : (loop (scanTurn ethType cfg allocOk' quota i (w.host.queueDescs i).wrPtr)
      (w.countOverflow i, (w.host.queueDescs i).rdPtr)
      (List.replicate (turnLimit quota (w.countOverflow i).used) ())).Holds
        (fun v => PastFailure allocOk v.1) (ExitPastFailure allocOk) :=
    loop_holds (fun _ _ hpast => scanTurn_pastFailure _ hpast) hstart _
  unfold scanQueue
  dsimp only
  generalize loop (scanTurn ethType cfg allocOk' quota i _) _ _ = turn at hloop ⊢
  cases turn with
  | again v => exact hloop
  | left e =>
    cases e with
    | drained v => exact hloop
    | returned ret v => exact hloop

theorem scanQueue_cut (w : Scan) (i : QueueId) :
    Cut (fun r => r.1 = -eNoMem) (PastFailure allocOk) (fun r => PastFailure allocOk r.2)
      (scanQueue ethType cfg allocOk quota w i) (scanQueue ethType cfg (fun _ => true) quota w i) := by
  have hcut : Cut ExitFailed (fun v => PastFailure allocOk v.1) (ExitPastFailure allocOk)
      (loop (scanTurn ethType cfg allocOk quota i (w.host.queueDescs i).wrPtr)
        (w.countOverflow i, (w.host.queueDescs i).rdPtr)
        (List.replicate (turnLimit quota (w.countOverflow i).used) ()))
      (loop (scanTurn ethType cfg (fun _ => true) quota i (w.host.queueDescs i).wrPtr)
        (w.countOverflow i, (w.host.queueDescs i).rdPtr)
        (List.replicate (turnLimit quota (w.countOverflow i).used) ())) :=
    loop_cut (fun v _ => scanTurn_cut _ v) (fun _ _ hpast => scanTurn_pastFailure _ hpast) _ _
  unfold scanQueue
  dsimp only
  generalize loop (scanTurn ethType cfg (fun _ => true) quota i _) _ _ = turn' at hcut ⊢
  generalize loop (scanTurn ethType cfg allocOk quota i _) _ _ = turn at hcut ⊢
  rcases hcut with rfl | ⟨⟨e, rfl, hfailed⟩, hpast⟩
  · exact Or.inl rfl
  right
  constructor
  · cases e with
    | drained v => exact hfailed.elim
    | returned ret v => exact ⟨(ret, v), rfl, hfailed⟩
  · cases turn' with
    | again v => exact hpast
    | left e =>
      cases e with
      | drained v => exact hpast
      | returned ret v => exact hpast

/-- A scan fails for want of memory before a packet that it would take, or it is the scan with memory. -/
theorem scanPackets_cut (ethType : EthType) (cfg : RxConfig) (allocOk : Nat → Bool) (polling : Port)
    (quota : Int) (host : HostQueues) :
    scanPackets ethType cfg allocOk polling quota host =
        scanPackets ethType cfg (fun _ => true) polling quota host ∨
      (scanPackets ethType cfg allocOk polling quota host).1 = -eNoMem ∧
        ¬ AllocsSucceed ethType cfg allocOk polling quota host := by
  have hcut : Cut (fun r => r.1 = -eNoMem) (PastFailure allocOk) (fun r => PastFailure allocOk r.2)
      (loop (scanQueue ethType cfg allocOk quota) (.start host) (queueIds ethType polling))
      (loop (scanQueue ethType cfg (fun _ => true) quota) (.start host) (queueIds ethType polling)) :=
    loop_cut (fun v i => scanQueue_cut v i) (fun _ i hpast => scanQueue_pastFailure hpast i) _ _
  unfold AllocsSucceed offeredPackets scanPackets
  generalize loop (scanQueue ethType cfg (fun _ => true) quota) _ _ = turn' at hcut ⊢
  generalize loop (scanQueue ethType cfg allocOk quota) _ _ = turn at hcut ⊢
  rcases hcut with rfl | ⟨⟨r, rfl, hfailed⟩, hpast⟩
  · exact Or.inl rfl
  refine Or.inr ⟨hfailed, fun hsucceed => ?_⟩
  cases turn' with
  | again v => exact not_all_of_pastFailure hpast hsucceed
  | left r' => exact not_all_of_pastFailure hpast hsucceed

/-! ## Main result -/

/-- With memory, a scan returns a count. -/
theorem scanPackets_nonneg (ethType : EthType) (cfg : RxConfig) (polling : Port) (hquota : 1 ≤ quota)
    (host : HostQueues) : 0 ≤ (scanPackets ethType cfg (fun _ => true) polling quota host).1 := by
  have hend := emacRxPackets_end ethType cfg plainRxEnv polling hquota host noStats
  have hfollows := emacRxPackets_follows ethType cfg plainRxEnv polling quota host noStats
  have hret : (emacRxPackets ethType cfg plainRxEnv polling quota host noStats).1 =
      (scanPackets ethType cfg (fun _ => true) polling quota host).1 := hfollows.1
  rw [← hret]
  rcases hend.ret with ⟨-, hfail⟩ | ⟨hused, -⟩
  · exact Bool.noConfusion hfail
  · rw [hused]
    exact Int.natCast_nonneg _

/-- A poll that returns the count keeps its contract. -/
theorem PollEnd.contract {env : RxEnv} {host : HostQueues} {stats : Port → NetStats}
    (hend : PollEnd env quota (emacRxPackets ethType cfg env polling quota host stats))
    (hnonneg : 0 ≤ (emacRxPackets ethType cfg env polling quota host stats).1) :
    PollContract quota (emacNapiPoll ethType cfg env polling quota host stats) := by
  obtain ⟨hret, hle⟩ : (emacRxPackets ethType cfg env polling quota host stats).1 =
      (emacRxPackets ethType cfg env polling quota host stats).2.used ∧
        ((emacRxPackets ethType cfg env polling quota host stats).2.used : Int) ≤ quota := by
    rcases hend.ret with ⟨hfailed, -⟩ | hcount
    · rw [hfailed] at hnonneg
      exact absurd hnonneg (by decide)
    · exact hcount
  constructor
  · exact hnonneg
  · exact hret.le.trans hle
  · exact hret.trans (congrArg Int.ofNat hend.handled.symm)
  · show decide ((emacRxPackets ethType cfg env polling quota host stats).1 < quota) = true ↔
      ((emacRxPackets ethType cfg env polling quota host stats).2.handled : Int) < quota
    rw [decide_eq_true_iff, hret, ← hend.handled]
  · exact hend.kept

/-- There is memory for the first packet only. -/
def lowMemory : RxEnv := { plainRxEnv with allocOk := fun k => k = 0 }

end Am437x.Prueth.Rx
