import Mathlib.Data.List.GetD
import Am437x.Tcp.Shutdown

/-!
# When the shutdown waits for the children

As long as the loop goes on, every call has reaped a child. The loop condition ends it at the first call
that finds none to reap, since `waitpid` then returns 0.
-/

namespace Am437x.Echo

open Loops

variable {sch : Schedule} {s : Waiting}

/-- After `calls` calls, each of which reaped a child. -/
structure WaitInv (sch : Schedule) (s : Waiting) : Prop where
  perm : (s.reaped ++ s.live).Perm sch.children
  length : s.reaped.length = s.calls
  exited : ∀ pid ∈ s.reaped, sch.exited s.calls pid = true
  no_error : ∀ earlier < s.calls, sch.errno earlier = none
  busy : ∀ earlier < s.calls, earlier < sch.exitedBy earlier

theorem exited_mono {call later : Nat} (h : call ≤ later) {pid : Pid}
    (hpid : sch.exited call pid = true) : sch.exited later pid = true := by
  unfold Schedule.exited at *
  cases hexit : sch.exitsBy pid with
  | none => simp [hexit] at hpid
  | some t =>
    simp only [hexit, Option.any_some, decide_eq_true_eq] at hpid ⊢
    omega

namespace WaitInv

theorem start (sch : Schedule) :
    WaitInv sch { calls := 0, live := sch.children, reaped := [] } where
  perm := List.Perm.refl _
  length := rfl
  exited pid h := by cases h
  no_error earlier h := by cases h
  busy earlier h := by cases h

theorem reaped_nodup (hi : WaitInv sch s) : s.reaped.Nodup :=
  (List.nodup_append.mp (hi.perm.nodup_iff.mpr sch.nodup)).1

theorem mem_children (hi : WaitInv sch s) {pid : Pid} :
    pid ∈ sch.children ↔ pid ∈ s.reaped ∨ pid ∈ s.live := by
  rw [← hi.perm.mem_iff, List.mem_append]

theorem length_children (hi : WaitInv sch s) : sch.children.length = s.calls + s.live.length := by
  rw [← hi.perm.length_eq, List.length_append, hi.length]

/-- The children that have exited are those reaped and those to be reaped. -/
theorem exitedBy_eq (hi : WaitInv sch s) :
    sch.exitedBy s.calls = s.calls + (s.live.filter (sch.exited s.calls ·)).length := by
  have hreaped : s.reaped.countP (sch.exited s.calls ·) = s.reaped.length :=
    List.countP_eq_length.mpr hi.exited
  rw [Schedule.exitedBy, ← hi.perm.countP_eq, List.countP_append, hreaped, hi.length,
    List.countP_eq_length_filter]

/-- The first idle call, when it is this one. -/
theorem neverIdle_iff (hi : WaitInv sch s) (herr : sch.errno s.calls = none)
    (hidle : s.live.filter (sch.exited s.calls ·) = []) :
    sch.NeverIdle ↔ s.live = [] ∨ shutdownTimeout < sch.clock s.calls := by
  have hby : sch.exitedBy s.calls = s.calls := by
    rw [hi.exitedBy_eq, hidle]
    rfl
  have hlen := hi.length_children
  constructor
  · intro h
    rcases h s.calls hby.le hi.busy with ⟨earlier, hle, herror⟩ | hnone | htime
    · have hnoerr : sch.errno earlier = none := by
        rcases Nat.lt_or_eq_of_le hle with hlt | rfl
        · exact hi.no_error earlier hlt
        · exact herr
      rw [hnoerr] at herror
      cases herror
    · left
      exact List.length_eq_zero_iff.mp (by omega)
    · exact Or.inr htime
  · intro h call hcall hbusy
    obtain rfl : call = s.calls := by
      rcases Nat.lt_trichotomy call s.calls with hlt | heq | hgt
      · have hearlier := hi.busy call hlt
        omega
      · exact heq
      · have hearlier := hbusy s.calls hgt
        omega
    rcases h with hnil | htime
    · right
      left
      rw [hlen, hnil]
      exact le_rfl
    · exact Or.inr (Or.inr htime)

theorem neverIdle_of_error (hi : WaitInv sch s) {errno : Int} (herr : sch.errno s.calls = some errno) :
    sch.NeverIdle := by
  intro call hcall hbusy
  left
  refine ⟨s.calls, ?_, by rw [herr]; rfl⟩
  by_contra hlt
  have hearlier := hi.busy call (by omega)
  omega

/-- A call that reaps one of the children that have exited. -/
theorem reap (hi : WaitInv sch s) (herr : sch.errno s.calls = none) {pid : Pid}
    (hpid : pid ∈ s.live.filter (sch.exited s.calls ·)) :
    WaitInv sch { calls := s.calls + 1, live := s.live.erase pid, reaped := s.reaped ++ [pid] } := by
  obtain ⟨hlive, hexited⟩ := List.mem_filter.mp hpid
  constructor
  · have hperm := (List.perm_cons_erase hlive).symm
    have happ : (s.reaped ++ [pid] ++ s.live.erase pid).Perm (s.reaped ++ s.live) := by
      rw [List.append_assoc]
      exact hperm.append_left s.reaped
    exact happ.trans hi.perm
  · simp [hi.length]
  · intro p hp
    rcases List.mem_append.mp hp with hp | hp
    · exact exited_mono (Nat.le_succ _) (hi.exited p hp)
    · rw [List.mem_singleton.mp hp]
      exact exited_mono (Nat.le_succ _) hexited
  · intro earlier hlt
    rcases Nat.lt_succ_iff_lt_or_eq.mp hlt with hlt | rfl
    · exact hi.no_error earlier hlt
    · exact herr
  · intro earlier hlt
    rcases Nat.lt_succ_iff_lt_or_eq.mp hlt with hlt | rfl
    · exact hi.busy earlier hlt
    · have hpos := List.length_pos_of_mem hpid
      have hby := hi.exitedBy_eq
      omega

end WaitInv

/-! ## The calls of `waitpid` -/

theorem waitpid_error {errno : Int} (herr : sch.errno s.calls = some errno) :
    waitpid sch s = (.error errno, { s with calls := s.calls + 1 }) := by
  rw [waitpid, herr]

theorem waitpid_idle (herr : sch.errno s.calls = none)
    (hidle : s.live.filter (sch.exited s.calls ·) = []) :
    waitpid sch s =
      (if s.live = [] then .error eChild else .zero, { s with calls := s.calls + 1 }) := by
  rw [waitpid, herr, hidle]

theorem waitpid_reap (herr : sch.errno s.calls = none)
    (hbusy : s.live.filter (sch.exited s.calls ·) ≠ []) :
    ∃ pid ∈ s.live.filter (sch.exited s.calls ·), waitpid sch s =
      (.child pid, { calls := s.calls + 1, live := s.live.erase pid, reaped := s.reaped ++ [pid] }) := by
  cases hfilter : s.live.filter (sch.exited s.calls ·) with
  | nil => exact absurd hfilter hbusy
  | cons p ps =>
    have hlt : sch.pick s.calls % (ps.length + 1) < (p :: ps).length := Nat.mod_lt _ (Nat.succ_pos _)
    refine ⟨(p :: ps).getD (sch.pick s.calls % (ps.length + 1)) p, ?_, ?_⟩
    · rw [List.getD_eq_getElem _ _ hlt]
      exact List.getElem_mem hlt
    · rw [waitpid, herr, hfilter]

/-! ## The turns of the loop -/

theorem body_error {errno : Int} (herr : sch.errno s.calls = some errno) :
    waitForChildrenBody sch s () =
      .left { reason := .failed, call := s.calls, reaped := s.reaped } := by
  have hne : errno ≠ eChild := by
    rintro rfl
    exact sch.errno_ne s.calls herr
  simp [waitForChildrenBody, waitpid_error herr, hne]

theorem body_idle (herr : sch.errno s.calls = none)
    (hidle : s.live.filter (sch.exited s.calls ·) = []) :
    waitForChildrenBody sch s () =
      .left { reason := if s.live = [] then .noChildren else .condition,
              call := s.calls, reaped := s.reaped } := by
  by_cases hlive : s.live = []
  · simp [waitForChildrenBody, waitpid_idle herr hidle, hlive]
  · simp [waitForChildrenBody, waitpid_idle herr hidle, hlive]

theorem body_reap (herr : sch.errno s.calls = none)
    (hbusy : s.live.filter (sch.exited s.calls ·) ≠ []) :
    ∃ pid ∈ s.live.filter (sch.exited s.calls ·), waitForChildrenBody sch s () =
      .again { calls := s.calls + 1, live := s.live.erase pid, reaped := s.reaped ++ [pid] } := by
  obtain ⟨pid, hpid, hwait⟩ := waitpid_reap herr hbusy
  exact ⟨pid, hpid, by simp [waitForChildrenBody, hwait]⟩

namespace WaitInv

/-- An error counts as a graceful end, whatever is left. -/
theorem graceful_failed (hi : WaitInv sch s) :
    Graceful sch { reason := .failed, call := s.calls, reaped := s.reaped } where
  waited := Or.inr (Or.inl rfl)
  nodup := hi.reaped_nodup
  reaped pid h := ⟨hi.mem_children.mpr (Or.inl h), hi.exited pid h⟩
  all_reaped h := absurd rfl h

/-- An idle call ends the loop gracefully when no child is left or the time is over. -/
theorem graceful_idle_iff (hi : WaitInv sch s)
    (hidle : s.live.filter (sch.exited s.calls ·) = []) :
    Graceful sch { reason := if s.live = [] then .noChildren else .condition,
                   call := s.calls, reaped := s.reaped } ↔
      s.live = [] ∨ shutdownTimeout < sch.clock s.calls := by
  constructor
  · intro h
    by_cases hlive : s.live = []
    · exact Or.inl hlive
    · right
      simpa [hlive] using h.waited
  · intro h
    constructor
    · by_cases hlive : s.live = []
      · left
        refine ⟨if_pos hlive, fun pid hpid => ?_⟩
        simpa [hlive] using hi.mem_children.mp hpid
      · exact Or.inr (Or.inr (h.resolve_left hlive))
    · exact hi.reaped_nodup
    · intro pid hpid
      exact ⟨hi.mem_children.mpr (Or.inl hpid), hi.exited pid hpid⟩
    · rintro - pid hpid hexited
      rcases hi.mem_children.mp hpid with hreaped | hlive
      · exact hreaped
      · have hmem : pid ∈ s.live.filter (sch.exited s.calls ·) :=
          List.mem_filter.mpr ⟨hlive, hexited⟩
        rw [hidle] at hmem
        cases hmem

end WaitInv

/-- The call that ends the loop. -/
theorem waitLoop_end (hi : WaitInv sch s)
    (hend : sch.errno s.calls ≠ none ∨ s.live.filter (sch.exited s.calls ·) = []) (n : Nat) :
    ∃ out, loop (waitForChildrenBody sch) s (List.replicate (n + 1) ()) = .left out ∧
      (Graceful sch out ↔ sch.NeverIdle) := by
  rw [List.replicate_succ]
  cases herr : sch.errno s.calls with
  | some errno =>
    refine ⟨_, loop_cons_left (body_error herr) _, ?_⟩
    exact iff_of_true hi.graceful_failed (hi.neverIdle_of_error herr)
  | none =>
    have hidle := hend.resolve_left fun h => h herr
    refine ⟨_, loop_cons_left (body_idle herr hidle) _, ?_⟩
    rw [hi.graceful_idle_iff hidle, hi.neverIdle_iff herr hidle]

/-- The loop ends with the calls for the children that are left, and the outcome is graceful just when
it was never idle. -/
theorem waitLoop (hi : WaitInv sch s) :
    ∃ out, loop (waitForChildrenBody sch) s (List.replicate (s.live.length + 1) ()) = .left out ∧
      (Graceful sch out ↔ sch.NeverIdle) := by
  induction hn : s.live.length generalizing s with
  | zero =>
    have hidle : s.live.filter (sch.exited s.calls ·) = [] := by
      rw [List.length_eq_zero_iff.mp hn]
      rfl
    exact waitLoop_end hi (Or.inr hidle) 0
  | succ n ih =>
    by_cases hend : sch.errno s.calls ≠ none ∨ s.live.filter (sch.exited s.calls ·) = []
    · exact waitLoop_end hi hend (n + 1)
    · push Not at hend
      obtain ⟨herr, hbusy⟩ := hend
      obtain ⟨pid, hpid, hbody⟩ := body_reap herr hbusy
      have hlen : (s.live.erase pid).length = n := by
        rw [List.length_erase_of_mem (List.mem_of_mem_filter hpid), hn]
        rfl
      obtain ⟨out, hloop, hgraceful⟩ := ih (hi.reap herr hpid) hlen
      refine ⟨out, ?_, hgraceful⟩
      rw [List.replicate_succ, loop_cons_again hbody]
      exact hloop

/-! ## Main result -/

/-- The shutdown ends, and it is graceful just when no call was idle before the time was over. -/
theorem wait_for_children_graceful_iff (sch : Schedule) :
    ∃ out, waitForChildren sch = .left out ∧ (Graceful sch out ↔ sch.NeverIdle) :=
  waitLoop (.start sch)

/-- One child, which is still running. -/
def runningChild : Schedule where
  children := [1]
  nodup := List.nodup_singleton 1
  exitsBy _ := none
  clock call := call
  errno _ := none
  errno_ne _ := by simp
  pick _ := 0

/-- The first call of `waitpid` ends the loop, at once: the child is not reaped and the branch that waits
for it is behind the loop condition. -/
theorem running_child_abandoned :
    waitForChildren runningChild = .left { reason := .condition, call := 0, reaped := [] } ∧
      ¬ Graceful runningChild { reason := .condition, call := 0, reaped := [] } := by
  refine ⟨by decide, fun h => ?_⟩
  rcases h.waited with ⟨hreason, _⟩ | hreason | htime
  · cases hreason
  · cases hreason
  · exact absurd htime (by decide)

end Am437x.Echo
