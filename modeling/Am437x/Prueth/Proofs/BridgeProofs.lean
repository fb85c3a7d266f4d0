import Am437x.Lib.Runs
import Am437x.Prueth.Bridge
import Am437x.Prueth.Proofs.EthModeProofs

/-!
# When bridge events are handled safely

With both ports present every event keeps the membership, the bridge and the marks consistent. The loop
over the marks dereferences both pointers, so a device with one port does not survive its first event.
-/

namespace Am437x.Prueth.Bridge

open EthMode Loops Runs

section

variable {β : Type*} {bits : OffloadBits} {io : Port → OpenIo} {d : PruethState β}

/-! ## The change of the mode -/

/-- The ports are there, and the two devices differ in the mode only. -/
structure SameMembers (d d' : PruethState β) : Prop where
  present : ∀ p, d'.emac p ≠ none
  emac : d'.emac = d.emac
  brMembers : d'.brMembers = d.brMembers
  hwBridgeDev : d'.hwBridgeDev = d.hwBridgeDev

/-- A function that has a result, on such a device. -/
def Survives (d : PruethState β) (r : Option (PruethState β)) : Prop := ∃ d', r = some d' ∧ SameMembers d d'

theorem SameMembers.refl (h : ∀ p, d.emac p ≠ none) : SameMembers d d := ⟨h, rfl, rfl, rfl⟩

theorem SameMembers.setMode {t : PruethState β} (h : SameMembers d t) (mode : EthMode.Device) :
    SameMembers d { t with mode := mode } := ⟨h.present, h.emac, h.brMembers, h.hwBridgeDev⟩

theorem stopPort_holds {t : PruethState β} (h : SameMembers d t) (p : Port) :
    (stopPort t p).Holds (SameMembers d) (Survives d) := by
  unfold stopPort
  split
  next hnone => exact absurd hnone (h.present p)
  split
  · exact h.setMode _
  · exact h

theorem startPort_holds (portstatus : Port → Bool) {t : PruethState β} (h : SameMembers d t) (p : Port) :
    (startPort bits io portstatus t p).Holds (SameMembers d) (Survives d) := by
  unfold startPort
  split
  next hnone => exact absurd hnone (h.present p)
  split
  · dsimp only
    split
    · exact ⟨_, rfl, h.setMode _⟩
    · exact h.setMode _
  · exact h

theorem afterLoop_survives {turn : Turn (PruethState β) (Option (PruethState β))}
    {f : PruethState β → Option (PruethState β)} (hturn : turn.Holds (SameMembers d) (Survives d))
    (hf : ∀ t, SameMembers d t → Survives d (f t)) : Survives d (afterLoop turn f) := by
  cases turn with
  | again t => exact hf t hturn
  | left r => exact hturn

/-- The change of the mode of a device with both ports. -/
theorem changeMode_survives (bits : OffloadBits) (io : Port → OpenIo) (ethType : EthType)
    {t : PruethState β} (h : SameMembers d t) : Survives d (changeMode bits io ethType t) := by
  apply afterLoop_survives
  · exact loop_holds (fun _ p hsame => stopPort_holds hsame p) h ports
  · intro u hu
    apply afterLoop_survives
    · exact loop_holds (fun _ p hsame => startPort_holds _ hsame p) (hu.setMode _) ports
    · exact fun v hv => ⟨v, rfl, hv⟩

/-! ## The marks -/

/-- All marks are set to the value. -/
def marked (setVal : Nat) (d : PruethState β) : PruethState β :=
  { d with emac := fun _ => some { offloadFwdMark := setVal } }

/-- The mark of one port is set. -/
def markPort (setVal : Nat) (d : PruethState β) (p : Port) : PruethState β :=
  { d with emac := Function.update d.emac p (some { offloadFwdMark := setVal }) }

theorem setMark_present (setVal : Nat) {p : Port} (h : d.emac p ≠ none) :
    setMark setVal d p = .again (markPort setVal d p) := by
  obtain ⟨emac, hemac⟩ := Option.ne_none_iff_exists'.mp h
  rw [setMark, hemac]
  rfl

theorem setMark_absent (setVal : Nat) {p : Port} (h : d.emac p = none) :
    setMark setVal d p = .left none := by
  rw [setMark, h]

theorem emac_markPort_of_ne (setVal : Nat) {p q : Port} (h : q ≠ p) :
    (markPort setVal d p).emac q = d.emac q := Function.update_of_ne h _ _

theorem emac_markPort_self (setVal : Nat) (p : Port) :
    (markPort setVal d p).emac p = some { offloadFwdMark := setVal } := Function.update_self _ _ _

theorem loop_setMark (setVal : Nat) (h : ∀ p, d.emac p ≠ none) :
    loop (setMark setVal) d ports = .again (marked setVal d) := by
  have hsecond : (markPort setVal d .mii0).emac .mii1 ≠ none := by
    rw [emac_markPort_of_ne setVal (by decide)]
    exact h .mii1
  have hemac : (markPort setVal (markPort setVal d .mii0) .mii1).emac = (marked setVal d).emac := by
    funext p
    cases p with
    | mii0 =>
      rw [emac_markPort_of_ne setVal (by decide), emac_markPort_self]
      rfl
    | mii1 =>
      rw [emac_markPort_self]
      rfl
  rw [ports, loop_cons_again (setMark_present setVal (h .mii0)),
    loop_cons_again (setMark_present setVal hsecond), loop]
  exact congrArg (fun emac => Turn.again { d with emac := emac }) hemac

/-- The loop over both ports does not look whether they are there. -/
theorem loop_setMark_absent (setVal : Nat) {p : Port} (h : d.emac p = none) :
    loop (setMark setVal) d ports = .left none := by
  by_cases hfirst : d.emac .mii0 = none
  · exact loop_cons_left (setMark_absent setVal hfirst) _
  have hsecond : (markPort setVal d .mii0).emac .mii1 = none := by
    rw [emac_markPort_of_ne setVal (by decide)]
    cases p with
    | mii0 => exact absurd h hfirst
    | mii1 => exact h
  rw [ports, loop_cons_again (setMark_present setVal hfirst)]
  exact loop_cons_left (setMark_absent setVal hsecond) _

/-- The mark for the members. -/
def markOf (d : PruethState β) : Nat := if d.AllMembers then 1 else 0

theorem survives_ite {c : Prop} [Decidable c] {r r' : Option (PruethState β)} (h : Survives d r)
    (h' : Survives d r') : Survives d (if c then r else r') := by
  split
  · exact h
  · exact h'

theorem survives_bind {r : Option (PruethState β)} {f : PruethState β → Option (PruethState β)}
    (h : Survives d r) (hf : ∀ t, SameMembers d t → Survives d (f t)) : Survives d (r.bind f) := by
  obtain ⟨t, rfl, hsame⟩ := h
  exact hf t hsame

/-- With both ports the marks are set, and the mode is changed where it has to be. -/
theorem markUpdate_survives (bits : OffloadBits) (io : Port → OpenIo) (h : ∀ p, d.emac p ≠ none) :
    Survives (marked (markOf d) d) (pruethPortOffloadFwdMarkUpdate bits io d) := by
  have hstart : SameMembers (marked (markOf d) d) (marked (markOf d) d) :=
    SameMembers.refl fun _ => Option.some_ne_none _
  unfold pruethPortOffloadFwdMarkUpdate
  dsimp only
  rw [loop_setMark _ h]
  apply survives_bind
  · exact survives_ite (changeMode_survives bits io .switch hstart) ⟨_, rfl, hstart⟩
  · intro t hsame
    exact survives_ite (changeMode_survives bits io .emac hsame) ⟨_, rfl, hsame⟩

/-- With one port NULL is dereferenced. -/
theorem markUpdate_absent (bits : OffloadBits) (io : Port → OpenIo) {p : Port} (h : d.emac p = none) :
    pruethPortOffloadFwdMarkUpdate bits io d = none := by
  unfold pruethPortOffloadFwdMarkUpdate
  dsimp only
  rw [loop_setMark_absent _ h]
  rfl

end

/-! ## One event -/

variable {nodes : Nodes} {β : Type*} {bits : OffloadBits} {io : Port → OpenIo} {d : PruethState β}

/-- Both ports are there, with the mark of the members, and there is a bridge just when there are
members. -/
structure Inv (d : PruethState β) : Prop where
  emac : ∀ p, d.emac p = some { offloadFwdMark := markOf d }
  bridge : d.hwBridgeDev.isSome = true ↔ d.HasMembers

theorem Inv.present (h : Inv d) (p : Port) : d.emac p ≠ none := by
  rw [h.emac p]
  exact Option.some_ne_none _

theorem markOf_eq_one_iff : markOf d = 1 ↔ d.AllMembers := by
  unfold markOf
  split
  · simp [*]
  · simp [*]

theorem Inv.consistent (h : Inv d) : d.Consistent where
  bridge := h.bridge
  mark := by
    rw [← markOf_eq_one_iff]
    constructor
    · intro hmarks
      exact hmarks .mii0 _ (h.emac .mii0)
    · intro hone p emac hemac
      obtain rfl := Option.some.inj ((h.emac p).symm.trans hemac)
      exact hone

/-- The device after the marks are updated for its members. -/
theorem markUpdate_spec (bits : OffloadBits) (io : Port → OpenIo) (h : ∀ p, d.emac p ≠ none) :
    ∃ d', pruethPortOffloadFwdMarkUpdate bits io d = some d' ∧
      (∀ p, d'.emac p = some { offloadFwdMark := markOf d' }) ∧ (d'.HasMembers ↔ d.HasMembers) ∧
      d'.hwBridgeDev = d.hwBridgeDev := by
  obtain ⟨d', hd', hsame⟩ := markUpdate_survives bits io h
  have hall : d'.AllMembers ↔ d.AllMembers := by
    unfold PruethState.AllMembers
    rw [hsame.brMembers]
    rfl
  have hmark : markOf d' = markOf d := if_congr hall rfl rfl
  refine ⟨d', hd', fun p => ?_, ?_, hsame.hwBridgeDev⟩
  · rw [hsame.emac, hmark]
    rfl
  · unfold PruethState.HasMembers
    rw [hsame.brMembers]
    rfl

/-- A link that is not refused. -/
theorem link_eq [DecidableEq β] (bits : OffloadBits) (io : Port → OpenIo) (p : Port) {br : β}
    (hbridge : ¬ d.SecondBridge br) :
    pruethNdevPortLink bits io d p br =
      (pruethPortOffloadFwdMarkUpdate bits io { d with
        hwBridgeDev := some br, brMembers := Function.update d.brMembers p true }).map
        fun d => (notifyDone, d) := by
  have hlinked : (if d.HasMembers then d else { d with hwBridgeDev := some br }) =
      { d with hwBridgeDev := some br } := by
    split
    next hmembers =>
      have hsame : d.hwBridgeDev = some br := by
        by_contra hne
        exact hbridge ⟨hmembers, hne⟩
      rw [← hsame]
    · rfl
  have hnot : ¬ (d.HasMembers ∧ d.hwBridgeDev ≠ some br) := hbridge
  unfold pruethNdevPortLink
  rw [if_neg hnot, hlinked]

theorem inv_link [DecidableEq β] (bits : OffloadBits) (io : Port → OpenIo) (hi : Inv d) (p : Port)
    {br : β} (hbridge : ¬ d.SecondBridge br) :
    ∃ d', pruethNdevPortLink bits io d p br = some (notifyDone, d') ∧ Inv d' := by
  obtain ⟨d', hd', hemac, hmembers, hdev⟩ := markUpdate_spec bits io (d := { d with
    hwBridgeDev := some br, brMembers := Function.update d.brMembers p true }) hi.present
  rw [link_eq bits io p hbridge, hd']
  refine ⟨d', rfl, hemac, ?_⟩
  rw [hdev, hmembers]
  exact iff_of_true rfl ⟨p, Function.update_self _ _ _⟩

theorem link_refused [DecidableEq β] (bits : OffloadBits) (io : Port → OpenIo) (d : PruethState β) (p : Port)
    {br : β} (hbridge : d.SecondBridge br) :
    pruethNdevPortLink bits io d p br = some (eOpnotsupp, d) := if_pos hbridge

theorem inv_unlink (bits : OffloadBits) (io : Port → OpenIo) (hi : Inv d) (p : Port) :
    ∃ d', pruethNdevPortUnlink bits io d p = some d' ∧ Inv d' := by
  obtain ⟨d', hd', hemac, hmembers, hdev⟩ := markUpdate_spec bits io (d := { d with
    brMembers := Function.update d.brMembers p false }) hi.present
  unfold pruethNdevPortUnlink
  dsimp only
  rw [hd', Option.map_some]
  refine ⟨_, rfl, ?_⟩
  split
  next hsome =>
    refine ⟨hemac, iff_of_true ?_ hsome⟩
    -- a port that is left was a member before
    obtain ⟨q, hq⟩ : ∃ q, Function.update d.brMembers p false q = true := hmembers.mp hsome
    have hne : q ≠ p := by
      rintro rfl
      rw [Function.update_self] at hq
      cases hq
    rw [Function.update_of_ne hne] at hq
    rw [hdev]
    exact hi.bridge.mpr ⟨q, hq⟩
  next hnone => exact ⟨hemac, iff_of_false Bool.false_ne_true hnone⟩

theorem link_absent [DecidableEq β] (bits : OffloadBits) (io : Port → OpenIo) {p : Port}
    (h : d.emac p = none) (q : Port) {br : β} (hbridge : ¬ d.SecondBridge br) :
    pruethNdevPortLink bits io d q br = none := by
  have hupdate := markUpdate_absent bits io (d := { d with
    hwBridgeDev := some br, brMembers := Function.update d.brMembers q true }) h
  rw [link_eq bits io q hbridge, hupdate]
  rfl

theorem unlink_absent (bits : OffloadBits) (io : Port → OpenIo) {p : Port} (h : d.emac p = none)
    (q : Port) : pruethNdevPortUnlink bits io d q = none := by
  have hupdate := markUpdate_absent bits io (d := { d with
    brMembers := Function.update d.brMembers q false }) h
  unfold pruethNdevPortUnlink
  dsimp only
  rw [hupdate]
  rfl

/-! ## Main result -/

theorem inv_probed (mode : EthMode.Device) (h : ∀ p, nodes.present p = true) :
    Inv (.probed nodes mode : PruethState β) where
  emac p := if_pos (h p)
  bridge := by simp [PruethState.probed, PruethState.HasMembers]

/-- Every event on a device with both ports. -/
theorem event_ok [DecidableEq β] (bits : OffloadBits) (e : Event nodes β) (hi : Inv d) :
    ∃ d', step bits (some d) e = some (some d') ∧ Inv d' ∧ EventOk bits (some d) e (some d') := by
  cases e with
  | link p br io =>
    by_cases hbridge : d.SecondBridge br
    · have hrefused := link_refused bits io d p hbridge
      have hstep : step bits (some d) (.link p br io) = some (some d) := by
        show some ((pruethNdevPortLink bits io d p br).map Prod.snd) = _
        rw [hrefused]
        rfl
      refine ⟨d, hstep, hi, ⟨d, rfl, hi.consistent⟩, ?_⟩
      rintro d' p' br' io' hd he -
      obtain rfl := Option.some.inj hd
      obtain ⟨rfl, rfl, rfl⟩ := Event.link.inj he
      exact ⟨hrefused, rfl⟩
    · obtain ⟨d', hd', hi'⟩ := inv_link bits io hi p hbridge
      have hstep : step bits (some d) (.link p br io) = some (some d') := by
        show some ((pruethNdevPortLink bits io d p br).map Prod.snd) = _
        rw [hd']
        rfl
      refine ⟨d', hstep, hi', ⟨d', rfl, hi'.consistent⟩, ?_⟩
      rintro d'' p' br' io' hd he hbridge'
      obtain rfl := Option.some.inj hd
      obtain ⟨rfl, rfl, rfl⟩ := Event.link.inj he
      exact absurd hbridge' hbridge
  | unlink p io =>
    obtain ⟨d', hd', hi'⟩ := inv_unlink bits io hi p
    have hstep : step bits (some d) (.unlink p io) = some (some d') := congrArg some hd'
    exact ⟨d', hstep, hi', ⟨d', rfl, hi'.consistent⟩, fun _ _ _ _ _ he => by cases he⟩

/-- The first event of a device with one port. -/
theorem event_absent [DecidableEq β] (bits : OffloadBits) (mode : EthMode.Device) {p : Port}
    (h : nodes.present p = false) (e : Event nodes β) :
    step bits (some (.probed nodes mode)) e = some none := by
  have hnull : (PruethState.probed nodes mode : PruethState β).emac p = none := by
    simp [PruethState.probed, h]
  cases e with
  | link q br io =>
    have hfirst : ¬ (PruethState.probed nodes mode : PruethState β).SecondBridge br := by
      simp [PruethState.SecondBridge, PruethState.HasMembers, PruethState.probed]
    exact congrArg (fun r => some (r.map Prod.snd)) (link_absent bits io hnull q hfirst)
  | unlink q io => exact congrArg some (unlink_absent bits io hnull q)

/-- In a run of events every event is handled safely just when both ports are present, or there is no
event. -/
theorem bridge_events_ok_iff [DecidableEq β] (bits : OffloadBits) (nodes : Nodes) (mode : EthMode.Device)
    (events : List (Event nodes β)) :
    AllSteps (step bits) (EventOk bits) (some (.probed nodes mode)) events ↔
      (∀ p, nodes.present p = true) ∨ events = [] := by
  constructor
  · intro h
    cases events with
    | nil => exact Or.inr rfl
    | cons e events =>
      left
      intro p
      by_contra habsent
      have hnull := event_absent bits mode (eq_false_of_ne_true habsent) e
      obtain ⟨d', hd', -⟩ := (h none hnull).1.consistent
      cases hd'
  · rintro (hboth | rfl)
    · apply allSteps_of_inv fun s => ∃ d, s = some d ∧ Inv d
      · rintro s e s' ⟨d, rfl, hi⟩ h
        obtain ⟨d', hstep, hi', hok⟩ := event_ok bits e hi
        obtain rfl := Option.some.inj (hstep.symm.trans h)
        exact ⟨hok, d', rfl, hi'⟩
      · exact ⟨_, rfl, inv_probed mode hboth⟩
    · trivial

/-- A device with the first port only. -/
def singlePort : Nodes where
  present p := p = .mii0
  accepted := ⟨.mii0, rfl⟩

/-- Feature flags of which none is set, on ports that are down. -/
def emacMode : EthMode.Device where
  ethType := .emac
  features _ := 0
  running _ := false
  configured _ := false

def firstLink : Event singlePort Unit := .link ⟨.mii0, rfl⟩ () fun _ => noErrors

/-- The first link dereferences the pointer of the second port. -/
theorem single_port_dereferences_null :
    step lowBits (some (.probed singlePort emacMode)) firstLink = some none ∧
    ¬ AllSteps (step lowBits) (EventOk lowBits) (some (.probed singlePort emacMode)) [firstLink] := by
  have habsent : singlePort.present .mii1 = false := rfl
  have hstep : step lowBits (some (.probed singlePort emacMode)) firstLink = some none :=
    event_absent lowBits emacMode habsent firstLink
  refine ⟨hstep, fun h => ?_⟩
  obtain ⟨d', hd', -⟩ := (h none hstep).1.consistent
  cases hd'

end Am437x.Prueth.Bridge
