import Am437x.Lib.RefCount
import Am437x.Lib.Runs
import Am437x.Prueth.Device

/-!
# What the ports hold (`emac_ndo_open` and `emac_ndo_stop`)

In EMAC mode each port has a PRU, a NAPI context and interrupt lines of its own; the IEP belongs to both.
A port that is opened takes what it needs step by step, and gives back what it has when a step fails.
-/

namespace Am437x.Prueth.OpenStop

open RefCount

/-! ## Resources -/

inductive Resource where
  | iep
  | pru (p : Port)
  | napi (p : Port)
  | rxIrq (p : Port)
  | txIrq (p : Port)
  | ptpTxIrq (p : Port)
  deriving DecidableEq, Repr

/-- The interrupt lines that `prueth_netdev_init` has found: no line is a `tx_irq` of at most 0 and an
`emac_ptp_tx_irq` of 0. -/
structure Board where
  txIrq : Port → Int
  emacPtpTxIrq : Port → Int

/-- The device. -/
structure Device where
  /-- The bits of `emac_configured`. -/
  configured : Port → Bool
  ledger : Ledger Resource

def Device.emacConfigured (s : Device) : Prop := ∃ p, s.configured p = true

instance (s : Device) : Decidable s.emacConfigured := inferInstanceAs (Decidable (∃ _, _))

/-- What the calls made by `emac_ndo_open` return; 0 is success. -/
structure OpenIo where
  /-- `emac_sanitize_feature_flags` -/
  sanitize : Int
  icssIepInit : Int
  /-- Whether there is a firmware for the mode. -/
  fwName : Bool
  /-- `rproc_set_firmware` -/
  setFirmware : Int
  /-- `rproc_boot` -/
  boot : Int
  /-- `request_irq`, for each of the lines -/
  rxIrq : Int
  txIrq : Int
  ptpTxIrq : Int
  deriving DecidableEq, Repr

/-! ## `emac_ndo_open` -/

def eNodev : Int := -19

def emacSetBootPru (io : OpenIo) : Int :=
  if io.fwName = false then eNodev
  else if io.setFirmware ≠ 0 then io.setFirmware
  else io.boot

def emacRequestIrqs (board : Board) (p : Port) (io : OpenIo) (l : Ledger Resource) :
    Int × Ledger Resource :=
  if io.rxIrq ≠ 0 then (io.rxIrq, l)
  else
    let l := l.take (.rxIrq p)
    if 0 < board.txIrq p ∧ io.txIrq ≠ 0 then (io.txIrq, l.release (.rxIrq p))
    else
      let l := if 0 < board.txIrq p then l.take (.txIrq p) else l
      if board.emacPtpTxIrq p = 0 then (0, l)
      else if io.ptpTxIrq ≠ 0 then (io.ptpTxIrq, (l.release (.rxIrq p)).release (.txIrq p))
      else (0, l.take (.ptpTxIrq p))

/-- The label `iep_exit`. -/
def iepExit (s : Device) (l : Ledger Resource) : Ledger Resource :=
  if s.emacConfigured then l else l.release .iep

def emacNdoOpen (board : Board) (s : Device) (p : Port) (io : OpenIo) : Int × Device :=
  if io.sanitize ≠ 0 then (io.sanitize, s)
  else if ¬ s.emacConfigured ∧ io.icssIepInit ≠ 0 then (io.icssIepInit, s)
  else
    let l := if s.emacConfigured then s.ledger else s.ledger.take .iep
    let ret := emacSetBootPru io
    if ret ≠ 0 then (ret, { s with ledger := iepExit s l })
    else
      let l := l.take (.pru p)
      let (ret, l) := emacRequestIrqs board p io l
      -- the label `rproc_shutdown`
      if ret ≠ 0 then (ret, { s with ledger := iepExit s (l.release (.pru p)) })
      else
        (0, { configured := Function.update s.configured p true, ledger := l.take (.napi p) })

/-! ## `emac_ndo_stop` -/

def emacNdoStop (board : Board) (s : Device) (p : Port) : Device :=
  let s := { s with configured := Function.update s.configured p false }
  let l := s.ledger.release (.napi p)
  let l := l.release (.pru p)
  let l := iepExit s l
  let l := if 0 < board.txIrq p then l.release (.txIrq p) else l
  let l := l.release (.rxIrq p)
  let l := if board.emacPtpTxIrq p ≠ 0 then l.release (.ptpTxIrq p) else l
  { s with ledger := l }

/-! ## The device in use -/

structure State where
  device : Device
  /-- The ports that are open for the network core. -/
  running : Port → Bool

def State.closed : State where
  device := { configured := fun _ => false, ledger := .empty }
  running := fun _ => false

inductive Event where
  | ndoOpen (p : Port) (io : OpenIo)
  | ndoStop (p : Port)
  deriving DecidableEq, Repr

/-- The network core opens closed ports and stops open ones. -/
def step (board : Board) (s : State) : Event → Option State
  | .ndoOpen p io =>
    if s.running p then none
    else
      let (ret, device) := emacNdoOpen board s.device p io
      some { device := device, running := Function.update s.running p (ret = 0) }
  | .ndoStop p =>
    if s.running p then
      some { device := emacNdoStop board s.device p, running := Function.update s.running p false }
    else none

/-- What is to be held for the ports that are configured. -/
def Due (board : Board) (configured : Port → Bool) : Resource → Prop
  | .iep => ∃ p, configured p = true
  | .pru p | .napi p | .rxIrq p => configured p = true
  | .txIrq p => configured p = true ∧ 0 < board.txIrq p
  | .ptpTxIrq p => configured p = true ∧ board.emacPtpTxIrq p ≠ 0

/-- This and nothing else is held, and nothing was released that was not held. -/
def Balanced (board : Board) (s : Device) : Prop := Holds s.ledger (Due board s.configured)

/-- The call gets to the request of the PTP line, and the request fails on a port without a `tx_irq`. -/
def FreesAbsentLine (board : Board) (s : Device) (p : Port) (io : OpenIo) : Prop :=
  io.sanitize = 0 ∧ (s.emacConfigured ∨ io.icssIepInit = 0) ∧ emacSetBootPru io = 0 ∧
    io.rxIrq = 0 ∧ board.txIrq p ≤ 0 ∧ board.emacPtpTxIrq p ≠ 0 ∧ io.ptpTxIrq ≠ 0

/-- No absent line is freed. -/
def LinesPresent (board : Board) (s : State) (e : Event) (_ : State) : Prop :=
  ∀ p io, e = .ndoOpen p io → ¬ FreesAbsentLine board s.device p io

end Am437x.Prueth.OpenStop
