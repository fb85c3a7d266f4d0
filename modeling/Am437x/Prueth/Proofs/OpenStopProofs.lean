import Am437x.Prueth.EthMode
import Am437x.Prueth.OpenStop

/-!
# When the ports hold what they need, and nothing else

An open that fails gives back what it has taken, in whatever order. The one exception frees the line
`tx_irq` of a port that has none.
-/

namespace Am437x.Prueth.OpenStop

open RefCount Runs

variable {board : Board} {s : Device} {p : Port} {io : OpenIo} {l : Ledger Resource}

/-! ## The interrupt lines -/

/-- The PTP line is requested for a port without a `tx_irq`, and refused. -/
def PtpRefused (board : Board) (p : Port) (io : OpenIo) : Prop :=
  io.rxIrq = 0 ∧ board.txIrq p ≤ 0 ∧ board.emacPtpTxIrq p ≠ 0 ∧ io.ptpTxIrq ≠ 0

theorem requestIrqs_ptpRefused (h : PtpRefused board p io) :
    emacRequestIrqs board p io l = (io.ptpTxIrq, l.release (.txIrq p)) := by
  obtain ⟨hrx, htx, hptp, hrefused⟩ := h
  have habsent : ¬ 0 < board.txIrq p := not_lt.mpr htx
  unfold emacRequestIrqs
  rw [if_neg (not_not.mpr hrx)]
  dsimp only
  rw [if_neg (fun h => habsent h.1), if_neg habsent, if_neg hptp, if_pos hrefused, Ledger.release_take]

/-- Otherwise a request that fails takes back the lines that were granted before it. -/
theorem requestIrqs_failed (hret : (emacRequestIrqs board p io l).1 ≠ 0)
    (hpresent : ¬ PtpRefused board p io) : (emacRequestIrqs board p io l).2 = l := by
  unfold emacRequestIrqs at hret ⊢
  by_cases hrx : io.rxIrq ≠ 0
  · rw [if_pos hrx]
  rw [if_neg hrx] at hret ⊢
  dsimp only at hret ⊢
  by_cases htx : 0 < board.txIrq p ∧ io.txIrq ≠ 0
  · rw [if_pos htx]
    exact Ledger.release_take l _
  rw [if_neg htx] at hret ⊢
  by_cases hptp : board.emacPtpTxIrq p = 0
  · rw [if_pos hptp] at hret
    exact absurd rfl hret
  rw [if_neg hptp] at hret ⊢
  by_cases hrefused : io.ptpTxIrq ≠ 0
  · have hline : 0 < board.txIrq p := by
      by_contra habsent
      exact hpresent ⟨not_not.mp hrx, not_lt.mp habsent, hptp, hrefused⟩
    rw [if_pos hrefused, if_pos hline, Ledger.take_comm, Ledger.release_take]
    exact Ledger.release_take l _
  · rw [if_neg hrefused] at hret
    exact absurd rfl hret

/-- With all requests granted the port has its lines. -/
theorem requestIrqs_granted {P : Resource → Prop} (hret : (emacRequestIrqs board p io l).1 = 0)
    (hl : Holds l P) (hrx : ¬ P (.rxIrq p)) (htx : ¬ P (.txIrq p)) (hptp : ¬ P (.ptpTxIrq p)) :
    Holds (emacRequestIrqs board p io l).2 fun y =>
      (board.emacPtpTxIrq p ≠ 0 ∧ y = .ptpTxIrq p) ∨ (0 < board.txIrq p ∧ y = .txIrq p) ∨
        y = .rxIrq p ∨ P y := by
  have hlines : Holds (if 0 < board.txIrq p then (l.take (.rxIrq p)).take (.txIrq p)
      else l.take (.rxIrq p)) fun y => (0 < board.txIrq p ∧ y = .txIrq p) ∨ y = .rxIrq p ∨ P y := by
    refine (hl.take hrx).take_if fun _ => ?_
    simp [htx]
  unfold emacRequestIrqs at hret ⊢
  by_cases hrxRet : io.rxIrq ≠ 0
  · rw [if_pos hrxRet] at hret
    exact absurd hret hrxRet
  rw [if_neg hrxRet] at hret ⊢
  dsimp only at hret ⊢
  by_cases htxRet : 0 < board.txIrq p ∧ io.txIrq ≠ 0
  · rw [if_pos htxRet] at hret
    exact absurd hret htxRet.2
  rw [if_neg htxRet] at hret ⊢
  by_cases hline : board.emacPtpTxIrq p = 0
  · rw [if_pos hline]
    refine hlines.congr fun y => ?_
    simp [hline]
  rw [if_neg hline] at hret ⊢
  by_cases hrefused : io.ptpTxIrq ≠ 0
  · rw [if_pos hrefused] at hret
    exact absurd hret hrefused
  · rw [if_neg hrefused]
    refine (hlines.take ?_).congr fun y => ?_
    · simp [hptp]
    · simp [hline]

/-! ## One call of `emac_ndo_open` -/

/-- The ledger when the IEP is initialised. -/
def iepInit (s : Device) : Ledger Resource :=
  if s.emacConfigured then s.ledger else s.ledger.take .iep

theorem iepExit_iepInit (s : Device) : iepExit s (iepInit s) = s.ledger := by
  unfold iepExit iepInit
  split
  · rfl
  · exact Ledger.release_take s.ledger _

theorem overReleased_iepExit (h : l.overReleased = true) : (iepExit s l).overReleased = true := by
  unfold iepExit
  split
  · exact h
  · exact Ledger.overReleased_release h _

theorem freesAbsentLine_iff (hsanitize : io.sanitize = 0)
    (hiep : s.emacConfigured ∨ io.icssIepInit = 0) (hboot : emacSetBootPru io = 0) :
    FreesAbsentLine board s p io ↔ PtpRefused board p io := by
  unfold FreesAbsentLine PtpRefused
  simp only [hsanitize, hiep, hboot, true_and]

/-- An open fails and leaves the device as it was, or it frees an absent line, or it succeeds. -/
theorem emacNdoOpen_cases (board : Board) (s : Device) (p : Port) (io : OpenIo) :
    (¬ FreesAbsentLine board s p io ∧ ∃ ret, ret ≠ 0 ∧ emacNdoOpen board s p io = (ret, s)) ∨
    (FreesAbsentLine board s p io ∧
      emacNdoOpen board s p io = (io.ptpTxIrq, { s with
        ledger := iepExit s ((((iepInit s).take (.pru p)).release (.txIrq p)).release (.pru p)) })) ∨
    (¬ FreesAbsentLine board s p io ∧
      (emacRequestIrqs board p io ((iepInit s).take (.pru p))).1 = 0 ∧
      emacNdoOpen board s p io = (0, {
        configured := Function.update s.configured p true
        ledger := (emacRequestIrqs board p io ((iepInit s).take (.pru p))).2.take (.napi p) })) := by
  unfold emacNdoOpen
  by_cases hsanitize : io.sanitize ≠ 0
  · left
    rw [if_pos hsanitize]
    exact ⟨fun h => hsanitize h.1, _, hsanitize, rfl⟩
  rw [if_neg hsanitize]
  by_cases hiep : ¬ s.emacConfigured ∧ io.icssIepInit ≠ 0
  · left
    rw [if_pos hiep]
    refine ⟨fun h => ?_, _, hiep.2, rfl⟩
    rcases h.2.1 with hconfigured | hzero
    · exact hiep.1 hconfigured
    · exact hiep.2 hzero
  rw [if_neg hiep]
  by_cases hboot : emacSetBootPru io ≠ 0
  · left
    dsimp only
    rw [if_pos hboot]
    refine ⟨fun h => hboot h.2.2.1, _, hboot, ?_⟩
    exact congrArg (fun l => (_, { s with ledger := l })) (iepExit_iepInit s)
  have hiepOk : s.emacConfigured ∨ io.icssIepInit = 0 := by tauto
  have hfrees : FreesAbsentLine board s p io ↔ PtpRefused board p io :=
    freesAbsentLine_iff (not_not.mp hsanitize) hiepOk (not_not.mp hboot)
  have hinit : (if s.emacConfigured then s.ledger else s.ledger.take .iep) = iepInit s := rfl
  dsimp only
  rw [if_neg hboot, hinit, hfrees]
  by_cases hptp : PtpRefused board p io
  · right
    left
    rw [requestIrqs_ptpRefused hptp, if_pos hptp.2.2.2]
    exact ⟨hptp, rfl⟩
  by_cases hirqs : (emacRequestIrqs board p io ((iepInit s).take (.pru p))).1 ≠ 0
  · left
    rw [if_pos hirqs, requestIrqs_failed hirqs hptp, Ledger.release_take, iepExit_iepInit]
    exact ⟨hptp, _, hirqs, rfl⟩
  · right
    right
    rw [if_neg hirqs]
    exact ⟨hptp, not_not.mp hirqs, rfl⟩

/-! ## The model of the modes -/

theorem requestIrqs_ret (board : Board) (p : Port) (io : OpenIo) (l l' : Ledger Resource) :
    (emacRequestIrqs board p io l).1 = (emacRequestIrqs board p io l').1 := by
  unfold emacRequestIrqs
  split
  · rfl
  dsimp only
  split
  · rfl
  split
  · rfl
  split <;> rfl

/-- The open returns the first error of its calls. -/
theorem ndoOpen_ret (board : Board) (s : Device) (p : Port) (io : OpenIo) :
    (emacNdoOpen board s p io).1 = EthMode.firstError
      [io.sanitize, if s.emacConfigured then 0 else io.icssIepInit, emacSetBootPru io,
        (emacRequestIrqs board p io s.ledger).1] := by
  rw [requestIrqs_ret board p io s.ledger ((iepInit s).take (.pru p))]
  have hinit : (if s.emacConfigured then s.ledger else s.ledger.take .iep) = iepInit s := rfl
  unfold emacNdoOpen
  dsimp only [EthMode.firstError]
  rw [hinit]
  by_cases hsanitize : io.sanitize ≠ 0
  · rw [if_pos hsanitize, if_pos hsanitize]
  rw [if_neg hsanitize, if_neg hsanitize]
  by_cases hiep : ¬ s.emacConfigured ∧ io.icssIepInit ≠ 0
  · rw [if_pos hiep, if_neg hiep.1, if_pos hiep.2]
  have hok : ¬ (if s.emacConfigured then 0 else io.icssIepInit) ≠ 0 := by
    split
    · exact not_not.mpr rfl
    next hnone => exact fun h => hiep ⟨hnone, h⟩
  rw [if_neg hiep, if_neg hok]
  by_cases hboot : emacSetBootPru io ≠ 0
  · rw [if_pos hboot, if_pos hboot]
  rw [if_neg hboot, if_neg hboot]
  by_cases hirqs : (emacRequestIrqs board p io ((iepInit s).take (.pru p))).1 ≠ 0
  · rw [if_pos hirqs, if_pos hirqs]
  · rw [if_neg hirqs, if_neg hirqs]

/-- The port is configured when the open succeeds. -/
theorem ndoOpen_configured (board : Board) (s : Device) (p : Port) (io : OpenIo) :
    (emacNdoOpen board s p io).2.configured =
      if (emacNdoOpen board s p io).1 ≠ 0 then s.configured
      else Function.update s.configured p true := by
  rcases emacNdoOpen_cases board s p io with ⟨-, ret, hret, heq⟩ | ⟨hfrees, heq⟩ | ⟨-, -, heq⟩
  · rw [heq, if_pos hret]
  · rw [heq, if_pos hfrees.2.2.2.2.2.2]
  · rw [heq]
    rfl

/-- In EMAC mode, this open returns what the open of the model of the modes returns, and configures the
same ports. -/
theorem ndoOpen_refines_mode (bits : EthMode.OffloadBits) (d : EthMode.Device) (hmode : d.ethType = .emac)
    (hconfigured : d.configured = s.configured)
    (hsanitize : EthMode.emacSanitizeFeatureFlags bits d.ethType (d.features p) = io.sanitize)
    (calls : EthMode.OpenIo) (hiep : calls.icssIepInit = io.icssIepInit)
    (hboot : calls.bootPru = emacSetBootPru io)
    (hirqs : calls.requestIrqs = (emacRequestIrqs board p io s.ledger).1) :
    (emacNdoOpen board s p io).1 = (EthMode.emacNdoOpen bits d p calls).1 ∧
      (emacNdoOpen board s p io).2.configured = (EthMode.emacNdoOpen bits d p calls).2.configured := by
  have hany : (d.configured .mii0 || d.configured .mii1) = true ↔ s.emacConfigured := by
    rw [hconfigured, Bool.or_eq_true]
    constructor
    · rintro (h | h)
      · exact ⟨_, h⟩
      · exact ⟨_, h⟩
    · rintro ⟨q, hq⟩
      cases q with
      | mii0 => exact Or.inl hq
      | mii1 => exact Or.inr hq
  have hstages : EthMode.firstError (EthMode.openStages bits d p calls) =
      (emacNdoOpen board s p io).1 := by
    rw [hmode] at hsanitize
    rw [ndoOpen_ret, EthMode.openStages]
    simp only [hsanitize, hmode, hany, hiep, hboot, hirqs, if_true]
    rfl
  rw [ndoOpen_configured, EthMode.emacNdoOpen, hstages]
  split
  · exact ⟨rfl, hconfigured.symm⟩
  next hret => exact ⟨not_not.mp hret, by rw [hconfigured]⟩

/-! ## What is due -/

theorem update_true_iff {configured : Port → Bool} {q : Port} :
    Function.update configured p true q = true ↔ q = p ∨ configured q = true := by
  rw [Function.update_apply]
  split <;> simp [*]

theorem update_false_iff {configured : Port → Bool} {q : Port} :
    Function.update configured p false q = true ↔ q ≠ p ∧ configured q = true := by
  rw [Function.update_apply]
  split <;> simp [*]

/-- What a port has from an open, beside what was due. -/
theorem due_opened_iff (configured : Port → Bool) (p : Port) (y : Resource) :
    Due board (Function.update configured p true) y ↔
      y = .napi p ∨ (board.emacPtpTxIrq p ≠ 0 ∧ y = .ptpTxIrq p) ∨
        (0 < board.txIrq p ∧ y = .txIrq p) ∨ y = .rxIrq p ∨ y = .pru p ∨
        (¬ (∃ q, configured q = true) ∧ y = .iep) ∨ Due board configured y := by
  cases y with
  | iep =>
    have hsome : ∃ q, Function.update configured p true q = true := ⟨p, Function.update_self _ _ _⟩
    refine iff_of_true hsome ?_
    by_cases hconfigured : ∃ q, configured q = true
    · simp [Due, hconfigured]
    · simp [hconfigured]
  | pru q => simp [Due, update_true_iff]
  | napi q => simp [Due, update_true_iff]
  | rxIrq q => simp [Due, update_true_iff]
  | txIrq q =>
    by_cases hq : q = p
    · simp [Due, hq, and_comm]
    · simp [Due, hq]
  | ptpTxIrq q =>
    by_cases hq : q = p
    · simp [Due, hq, and_comm]
    · simp [Due, hq]

/-- What is left of it after a stop. -/
theorem due_stopped_iff (configured : Port → Bool) (p : Port) (y : Resource) :
    Due board (Function.update configured p false) y ↔
      ¬ (board.emacPtpTxIrq p ≠ 0 ∧ y = .ptpTxIrq p) ∧ y ≠ .rxIrq p ∧
        ¬ (0 < board.txIrq p ∧ y = .txIrq p) ∧
        ¬ (¬ (∃ q, Function.update configured p false q = true) ∧ y = .iep) ∧ y ≠ .pru p ∧
        y ≠ .napi p ∧ Due board configured y := by
  cases y with
  | iep =>
    by_cases hrest : ∃ q, Function.update configured p false q = true
    · obtain ⟨q, hq⟩ := hrest
      have hbefore : ∃ q, configured q = true := ⟨q, (update_false_iff.mp hq).2⟩
      have hafter : ∃ q, Function.update configured p false q = true := ⟨q, hq⟩
      simp [Due, hbefore, hafter]
    · simp [Due, hrest]
  | pru q => simp [Due, update_false_iff]
  | napi q => simp [Due, update_false_iff]
  | rxIrq q => simp [Due, update_false_iff]
  | txIrq q =>
    by_cases hq : q = p
    · simp +contextual [Due, hq]
    · simp [Due, hq]
  | ptpTxIrq q =>
    by_cases hq : q = p
    · simp +contextual [Due, hq]
    · simp [Due, hq]

/-- What is held on a closed port while it is opened. -/
theorem holds_booted (h : Balanced board s) (hclosed : s.configured p = false) :
    Holds ((iepInit s).take (.pru p)) fun y =>
      y = .pru p ∨ (¬ s.emacConfigured ∧ y = .iep) ∨ Due board s.configured y := by
  have hiep : Holds (iepInit s) fun y =>
      (¬ s.emacConfigured ∧ y = .iep) ∨ Due board s.configured y := by
    unfold iepInit
    rw [← ite_not]
    exact Holds.take_if h fun hnone hdue => hnone hdue
  refine hiep.take ?_
  simp [Due, hclosed]

theorem balanced_opened (h : Balanced board s) (hclosed : s.configured p = false)
    (hret : (emacRequestIrqs board p io ((iepInit s).take (.pru p))).1 = 0) :
    Balanced board {
      configured := Function.update s.configured p true
      ledger := (emacRequestIrqs board p io ((iepInit s).take (.pru p))).2.take (.napi p) } := by
  have hlines := requestIrqs_granted hret (holds_booted h hclosed) (by simp [Due, hclosed])
    (by simp [Due, hclosed]) (by simp [Due, hclosed])
  have hnapi := hlines.take (x := .napi p) (by simp [Due, hclosed])
  exact hnapi.congr fun y => (due_opened_iff s.configured p y).symm

/-- The line that is freed was not held. -/
theorem overReleased_absent (h : Balanced board s) (hclosed : s.configured p = false) :
    (iepExit s ((((iepInit s).take (.pru p)).release (.txIrq p)).release (.pru p))).overReleased =
      true := by
  have hfreed := (holds_booted h hclosed).release_of_not (x := .txIrq p) (by simp [Due, hclosed])
  exact overReleased_iepExit (Ledger.overReleased_release hfreed _)

/-- A port that is stopped gives back what it holds. -/
theorem balanced_stop (h : Balanced board s) (hopen : s.configured p = true) :
    Balanced board (emacNdoStop board s p) := by
  have hnapi : Holds (s.ledger.release (.napi p)) fun y => y ≠ .napi p ∧ Due board s.configured y :=
    Holds.release h hopen
  have hpru : Holds ((s.ledger.release (.napi p)).release (.pru p)) fun y =>
      y ≠ .pru p ∧ y ≠ .napi p ∧ Due board s.configured y := by
    apply hnapi.release
    simp [Due, hopen]
  have hiep : Holds (iepExit { s with configured := Function.update s.configured p false }
      ((s.ledger.release (.napi p)).release (.pru p))) fun y =>
        ¬ (¬ (∃ q, Function.update s.configured p false q = true) ∧ y = .iep) ∧ y ≠ .pru p ∧
          y ≠ .napi p ∧ Due board s.configured y := by
    unfold iepExit
    rw [← ite_not]
    exact hpru.release_if fun _ => ⟨by simp, by simp, p, hopen⟩
  have htx := hiep.release_if (c := 0 < board.txIrq p) (x := .txIrq p) fun hline => by
    simp [Due, hopen, hline]
  have hrx := htx.release (x := .rxIrq p) (by simp [Due, hopen])
  have hptp := hrx.release_if (c := board.emacPtpTxIrq p ≠ 0) (x := .ptpTxIrq p) fun hline => by
    simp [Due, hopen, hline]
  exact hptp.congr fun y => (due_stopped_iff s.configured p y).symm

/-! ## Main result -/

/-- The ports that the network core has opened are configured, and what is due is held. -/
structure Inv (board : Board) (s : State) : Prop where
  running : s.running = s.device.configured
  balanced : Balanced board s.device

theorem Inv.configured {s : State} (hi : Inv board s) (p : Port) :
    s.device.configured p = s.running p := by
  rw [hi.running]

theorem inv_closed (board : Board) : Inv board .closed where
  running := rfl
  balanced := by
    refine Holds.empty.congr fun y => ?_
    cases y <;> simp [Due, State.closed]

theorem step_ndoOpen {s s' : State} (h : step board s (.ndoOpen p io) = some s') :
    s.running p = false ∧
      s' = { device := (emacNdoOpen board s.device p io).2
             running := Function.update s.running p ((emacNdoOpen board s.device p io).1 = 0) } := by
  by_cases hrunning : s.running p = true
  · rw [step, if_pos hrunning] at h
    cases h
  · rw [step, if_neg hrunning] at h
    exact ⟨eq_false_of_ne_true hrunning, (Option.some.inj h).symm⟩

theorem step_ndoStop {s s' : State} (h : step board s (.ndoStop p) = some s') :
    s.running p = true ∧
      s' = { device := emacNdoStop board s.device p
             running := Function.update s.running p false } := by
  by_cases hrunning : s.running p = true
  · rw [step, if_pos hrunning] at h
    exact ⟨hrunning, (Option.some.inj h).symm⟩
  · rw [step, if_neg hrunning] at h
    cases h

/-- An open that frees no absent line keeps the invariant. -/
theorem inv_open {s s' : State} (hi : Inv board s) (h : step board s (.ndoOpen p io) = some s')
    (hpresent : ¬ FreesAbsentLine board s.device p io) : Inv board s' := by
  obtain ⟨hrunning, rfl⟩ := step_ndoOpen h
  have hclosed := (hi.configured p).trans hrunning
  rcases emacNdoOpen_cases board s.device p io with ⟨-, ret, hret, heq⟩ | ⟨hfrees, -⟩ |
    ⟨-, hirqs, heq⟩
  · rw [heq]
    refine ⟨?_, hi.balanced⟩
    rw [decide_eq_false hret, Function.update_eq_self_iff.mpr hrunning.symm]
    exact hi.running
  · exact absurd hfrees hpresent
  · rw [heq]
    refine ⟨?_, balanced_opened hi.balanced hclosed hirqs⟩
    show Function.update s.running p true = Function.update s.device.configured p true
    rw [hi.running]

/-- An open that does breaks the balance. -/
theorem not_balanced_of_frees {s s' : State} (hi : Inv board s)
    (h : step board s (.ndoOpen p io) = some s') (hfrees : FreesAbsentLine board s.device p io) :
    ¬ Balanced board s'.device := by
  obtain ⟨hrunning, rfl⟩ := step_ndoOpen h
  have hclosed := (hi.configured p).trans hrunning
  rcases emacNdoOpen_cases board s.device p io with ⟨hno, -⟩ | ⟨-, heq⟩ | ⟨hno, -⟩
  · exact absurd hfrees hno
  · rw [heq]
    intro hbalanced
    have hover := overReleased_absent hi.balanced hclosed
    exact Bool.noConfusion (hover.symm.trans hbalanced.overReleased)
  · exact absurd hfrees hno

theorem inv_stop {s s' : State} (hi : Inv board s) (h : step board s (.ndoStop p) = some s') :
    Inv board s' := by
  obtain ⟨hrunning, rfl⟩ := step_ndoStop h
  have hopen := (hi.configured p).trans hrunning
  refine ⟨?_, balanced_stop hi.balanced hopen⟩
  show Function.update s.running p false = Function.update s.device.configured p false
  rw [hi.running]

/-- In a run of opens and stops everything is balanced after every call just when no open of the run
frees an absent line. -/
theorem open_stop_balanced_iff (board : Board) (events : List Event) :
    AllSteps (step board) (fun _ _ s' => Balanced board s'.device) .closed events ↔
      AllSteps (step board) (LinesPresent board) .closed events := by
  apply allSteps_iff_of_inv (Inv board)
  · intro s e s' hi h
    cases e with
    | ndoOpen p io =>
      by_cases hfrees : FreesAbsentLine board s.device p io
      · exact iff_of_false (not_balanced_of_frees hi h hfrees) fun hpresent => hpresent p io rfl hfrees
      · refine iff_of_true (inv_open hi h hfrees).balanced ?_
        rintro p' io' heq
        obtain ⟨rfl, rfl⟩ := Event.ndoOpen.inj heq
        exact hfrees
    | ndoStop p => exact iff_of_true (inv_stop hi h).balanced fun _ _ heq => by cases heq
  · intro s e s' hi h hpresent
    cases e with
    | ndoOpen p io => exact inv_open hi h (hpresent p io rfl)
    | ndoStop p => exact inv_stop hi h
  · exact inv_closed board

/-- A board whose first port has a PTP line and no `tx_irq`. -/
def noTxIrq : Board where
  txIrq _ := -22
  emacPtpTxIrq p := if p = .mii0 then 7 else 0

/-- All calls succeed, but for the request of the PTP line. -/
def ptpLineBusy : OpenIo where
  sanitize := 0
  icssIepInit := 0
  fwName := true
  setFirmware := 0
  boot := 0
  rxIrq := 0
  txIrq := 0
  ptpTxIrq := -16

/-- The first open of a run frees a line that the port does not have. -/
theorem absent_line_freed :
    (run (step noTxIrq) .closed [.ndoOpen .mii0 ptpLineBusy]).map
      (fun s => (s.device.ledger.overReleased, s.running .mii0)) = some (true, false) ∧
    ¬ AllSteps (step noTxIrq) (fun _ _ s' => Balanced noTxIrq s'.device) .closed
      [.ndoOpen .mii0 ptpLineBusy] := by
  have hrun : (run (step noTxIrq) .closed [.ndoOpen .mii0 ptpLineBusy]).map
      (fun s => (s.device.ledger.overReleased, s.running .mii0)) = some (true, false) := by
    decide +kernel
  refine ⟨hrun, fun h => ?_⟩
  obtain ⟨s, hs, heq⟩ := Option.map_eq_some_iff.mp hrun
  obtain ⟨t, ht, hrest⟩ := Option.bind_eq_some_iff.mp hs
  obtain rfl := Option.some.inj hrest
  have hbalanced := (h t ht).1
  have hover := congrArg Prod.fst heq
  exact Bool.noConfusion (hover.symm.trans hbalanced.overReleased)

end Am437x.Prueth.OpenStop
