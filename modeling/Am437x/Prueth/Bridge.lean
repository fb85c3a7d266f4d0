import Am437x.Lib.Loops
import Am437x.Prueth.EthMode

/-!
# Bridge membership (`prueth_ndev_port_link` and `prueth_ndev_port_unlink`)

The driver keeps which ports are members of a bridge, and of which bridge. With both ports as members it
changes to switch mode, and without members back to EMAC mode.
-/

namespace Am437x.Prueth.Bridge

open EthMode Loops

def notifyDone : Int := 0

def eOpnotsupp : Int := -95

/-! ## The device -/

/-- The Ethernet nodes of the device tree. `prueth_probe` fails when there is none. -/
structure Nodes where
  present : Port → Bool
  accepted : ∃ p, present p = true

/-- The field of `struct prueth_emac` that is used. -/
structure Emac where
  offloadFwdMark : Nat
  deriving DecidableEq, Repr

/-- `struct prueth`; a pointer `emac[i]` that is NULL is `none`. -/
structure PruethState (β : Type*) where
  emac : Port → Option Emac
  /-- The bits of `br_members`. -/
  brMembers : Port → Bool
  hwBridgeDev : Option β
  mode : EthMode.Device

/-- The ports in the order of the loops over them. -/
def ports : List Port := [.mii0, .mii1]

section

variable {β : Type*}

/-- `br_members` is not zero. -/
def PruethState.HasMembers (d : PruethState β) : Prop := ∃ p, d.brMembers p = true

/-- `br_members` is the mask of both ports. -/
def PruethState.AllMembers (d : PruethState β) : Prop := ∀ p, d.brMembers p = true

instance (d : PruethState β) : Decidable d.HasMembers := inferInstanceAs (Decidable (∃ _, _))

instance (d : PruethState β) : Decidable d.AllMembers := inferInstanceAs (Decidable (∀ _, _))

/-! ## The change of the mode

A function that dereferences NULL has no result.
-/

/-- One turn of the loop that stops the ports. -/
def stopPort (d : PruethState β) (p : Port) : Turn (PruethState β) (Option (PruethState β)) :=
  match d.emac p with
  | none => .left none
  | some _ =>
    if d.mode.running p then
      let (ret, mode) := emacNdoStop d.mode p
      if ret < 0 then .left (some { d with mode := mode }) else .again { d with mode := mode }
    else .again d

/-- One turn of the loop that starts those again that were running. -/
def startPort (bits : OffloadBits) (io : Port → OpenIo) (portstatus : Port → Bool) (d : PruethState β)
    (p : Port) : Turn (PruethState β) (Option (PruethState β)) :=
  match d.emac p with
  | none => .left none
  | some _ =>
    if portstatus p then
      let (ret, mode) := emacNdoOpen bits d.mode p (io p)
      if ret < 0 then .left (some { d with mode := mode }) else .again { d with mode := mode }
    else .again d

/-- The end of a loop that may return. -/
def afterLoop (turn : Turn (PruethState β) (Option (PruethState β)))
    (f : PruethState β → Option (PruethState β)) : Option (PruethState β) :=
  match turn with
  | .again d => f d
  | .left r => r

def changeMode (bits : OffloadBits) (io : Port → OpenIo) (ethType : EthType) (d : PruethState β) :
    Option (PruethState β) :=
  -- the calls of `ndo_stop` leave `netif_running` as it is
  let portstatus := d.mode.running
  afterLoop (loop stopPort d ports) fun d =>
    let d := { d with mode := { d.mode with ethType := ethType } }
    afterLoop (loop (startPort bits io portstatus) d ports) some

def pruethChangeToSwitchMode (bits : OffloadBits) (io : Port → OpenIo) (d : PruethState β) :
    Option (PruethState β) :=
  changeMode bits io .switch d

def pruethChangeToEmacMode (bits : OffloadBits) (io : Port → OpenIo) (d : PruethState β) :
    Option (PruethState β) :=
  changeMode bits io .emac d

/-! ## Membership -/

/-- One turn of the loop that stores the mark. -/
def setMark (setVal : Nat) (d : PruethState β) (p : Port) :
    Turn (PruethState β) (Option (PruethState β)) :=
  match d.emac p with
  | none => .left none
  | some emac =>
    .again { d with emac := Function.update d.emac p (some { emac with offloadFwdMark := setVal }) }

def pruethPortOffloadFwdMarkUpdate (bits : OffloadBits) (io : Port → OpenIo) (d : PruethState β) :
    Option (PruethState β) :=
  let setVal := if d.AllMembers then 1 else 0
  afterLoop (loop (setMark setVal) d ports) fun d =>
    let switched :=
      if setVal ≠ 0 ∧ d.mode.ethType ≠ .switch then pruethChangeToSwitchMode bits io d else some d
    switched.bind fun d =>
      if ¬ d.HasMembers ∧ d.mode.ethType ≠ .emac then pruethChangeToEmacMode bits io d else some d

/-- The port `p` is linked to the bridge `br`. -/
def pruethNdevPortLink [DecidableEq β] (bits : OffloadBits) (io : Port → OpenIo) (d : PruethState β)
    (p : Port) (br : β) : Option (Int × PruethState β) :=
  if d.HasMembers ∧ d.hwBridgeDev ≠ some br then some (eOpnotsupp, d)
  else
    let d := if d.HasMembers then d else { d with hwBridgeDev := some br }
    let d := { d with brMembers := Function.update d.brMembers p true }
    (pruethPortOffloadFwdMarkUpdate bits io d).map fun d => (notifyDone, d)

def pruethNdevPortUnlink (bits : OffloadBits) (io : Port → OpenIo) (d : PruethState β) (p : Port) :
    Option (PruethState β) :=
  let d := { d with brMembers := Function.update d.brMembers p false }
  (pruethPortOffloadFwdMarkUpdate bits io d).map fun d =>
    if d.HasMembers then d else { d with hwBridgeDev := none }

end

/-! ## The device in use -/

/-- An event of a port that is present; `io` is what the calls return that a change of the mode makes. -/
inductive Event (nodes : Nodes) (β : Type*) where
  | link (p : { p // nodes.present p = true }) (br : β) (io : Port → OpenIo)
  | unlink (p : { p // nodes.present p = true }) (io : Port → OpenIo)

variable {nodes : Nodes} {β : Type*}

/-- After `prueth_probe`, in any mode. -/
def PruethState.probed (nodes : Nodes) (mode : EthMode.Device) : PruethState β where
  emac p := if nodes.present p then some { offloadFwdMark := 0 } else none
  brMembers _ := false
  hwBridgeDev := none
  mode := mode

/-- The state after an event is `none` when NULL has been dereferenced. Then nothing follows. -/
def step [DecidableEq β] (bits : OffloadBits) (s : Option (PruethState β)) (e : Event nodes β) :
    Option (Option (PruethState β)) :=
  s.map fun d =>
    match e with
    | .link p br io => (pruethNdevPortLink bits io d p br).map Prod.snd
    | .unlink p io => pruethNdevPortUnlink bits io d p

/-! ## What the membership is for -/

/-- There is a bridge just when there are members, and the marks are set just when both ports are. -/
structure PruethState.Consistent (d : PruethState β) : Prop where
  bridge : d.hwBridgeDev.isSome = true ↔ d.HasMembers
  mark : (∀ p emac, d.emac p = some emac → emac.offloadFwdMark = 1) ↔ d.AllMembers

/-- The ports are members of another bridge. -/
def PruethState.SecondBridge (d : PruethState β) (br : β) : Prop := d.HasMembers ∧ d.hwBridgeDev ≠ some br

/-- No event dereferences NULL or leaves the device inconsistent, and a link to a second bridge is refused
and leaves the device as it was. -/
structure EventOk [DecidableEq β] (bits : OffloadBits) (s : Option (PruethState β)) (e : Event nodes β)
    (s' : Option (PruethState β)) : Prop where
  consistent : ∃ d', s' = some d' ∧ d'.Consistent
  refused : ∀ d p br io, s = some d → e = .link p br io → d.SecondBridge br →
    pruethNdevPortLink bits io d p br = some (eOpnotsupp, d) ∧ s' = some d

end Am437x.Prueth.Bridge
