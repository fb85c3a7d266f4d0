import Am437x.Lib.BitFlags
import Am437x.Lib.Runs
import Am437x.Prueth.Device

/-!
# The protocol mode and the offload flags (`emac_ndo_set_features`)

The mode `eth_type` is one field of the device; the HSR and PRP flags that select it are kept for each
port. `emac_ndo_open` checks the flags of the port it opens against the mode.
-/

namespace Am437x.Prueth.EthMode

/-- The positions of the `NETIF_F_HW_*` flags in a feature word. -/
structure OffloadBits where
  hsrRxOffload : Fin 64
  prpRxOffload : Fin 64
  l2fwDoffload : Fin 64
  distinct : [hsrRxOffload, prpRxOffload, l2fwDoffload].Nodup

namespace OffloadBits

variable (bits : OffloadBits)

def hsr : BitVec 64 := BitVec.twoPow 64 bits.hsrRxOffload

def prp : BitVec 64 := BitVec.twoPow 64 bits.prpRxOffload

def l2fw : BitVec 64 := BitVec.twoPow 64 bits.l2fwDoffload

/-- `features & (NETIF_F_HW_HSR_RX_OFFLOAD | NETIF_F_HW_PRP_RX_OFFLOAD)` -/
def lreFlags (features : BitVec 64) : BitVec 64 := features &&& (bits.hsr ||| bits.prp)

end OffloadBits

def eBusy : Int := -16

def eInval : Int := -22

/-- What `struct prueth` and the two net devices hold of the mode. -/
structure Device where
  ethType : EthType
  features : Port → BitVec 64
  running : Port → Bool
  configured : Port → Bool

/-! ## `emac_ndo_open` and `emac_ndo_stop` -/

def emacSanitizeFeatureFlags (bits : OffloadBits) (ethType : EthType) (features : BitVec 64) : Int :=
  match ethType with
  | .hsr => if features &&& bits.hsr = 0 then eInval else 0
  | .prp => if features &&& bits.prp = 0 then eInval else 0
  | .emac | .switch => if bits.lreFlags features ≠ 0 then eInval else 0

structure OpenIo where
  /-- `prueth_sw_emac_config`, which sets up the port in all modes but EMAC. -/
  swEmacConfig : Int
  /-- `prueth_sw_init_fdb_table` or `prueth_lre_init_node_table` -/
  initTables : Int
  icssIepInit : Int
  /-- `prueth_sw_boot_prus` or `emac_set_boot_pru` -/
  bootPru : Int
  /-- `emac_request_irqs` or `prueth_lre_request_irqs` -/
  requestIrqs : Int
  deriving DecidableEq, Repr

/-- The first error of a sequence of calls, each made when those before it return 0. -/
def firstError : List Int → Int
  | [] => 0
  | ret :: rets => if ret ≠ 0 then ret else firstError rets

/-- What the calls that can fail return, in their order. -/
def openStages (bits : OffloadBits) (s : Device) (p : Port) (io : OpenIo) : List Int :=
  let configured := s.configured .mii0 || s.configured .mii1
  [emacSanitizeFeatureFlags bits s.ethType (s.features p),
    if s.ethType = .emac then 0 else io.swEmacConfig,
    if s.ethType = .emac then 0 else io.initTables,
    if configured then 0 else io.icssIepInit,
    io.bootPru,
    io.requestIrqs]

def emacNdoOpen (bits : OffloadBits) (s : Device) (p : Port) (io : OpenIo) : Int × Device :=
  let ret := firstError (openStages bits s p io)
  if ret ≠ 0 then (ret, s)
  else (0, { s with configured := Function.update s.configured p true })

def emacNdoStop (s : Device) (p : Port) : Int × Device :=
  (0, { s with configured := Function.update s.configured p false })

/-! ## `emac_ndo_set_features` -/

/-- The mode selected by the flags, HSR before PRP. -/
def ethTypeOf (bits : OffloadBits) (features : BitVec 64) : EthType :=
  if features &&& bits.hsr ≠ 0 then .hsr
  else if features &&& bits.prp ≠ 0 then .prp
  else .emac

/-- The features of the port in the mode selected by the flags `features`. -/
def offloadFeatures (bits : OffloadBits) (ndevFeatures features : BitVec 64) : BitVec 64 :=
  match ethTypeOf bits features with
  | .hsr => (ndevFeatures &&& ~~~bits.prp) ||| (bits.hsr ||| bits.l2fw)
  | .prp => ((ndevFeatures &&& ~~~bits.hsr) ||| bits.prp) &&& ~~~bits.l2fw
  | .emac | .switch => (ndevFeatures ||| bits.l2fw) &&& ~~~(bits.hsr ||| bits.prp)

def emacNdoSetFeatures (bits : OffloadBits) (supportLre : Bool) (s : Device) (p : Port)
    (features : BitVec 64) : Int × Device :=
  let wanted := bits.lreFlags features
  let have_ := bits.lreFlags (s.features p)
  let changeRequest := wanted ^^^ have_ ≠ 0
  if !supportLre then (0, s)
  else if s.ethType = .switch then (eInval, s)
  else if s.running p ∧ changeRequest then (eBusy, s)
  else if s.running (otherPort p) ∧ changeRequest then (eBusy, s)
  else
    (0, { s with
      ethType := ethTypeOf bits features
      features := Function.update s.features p (offloadFeatures bits (s.features p) features) })

/-! ## The device in use -/

/-- After `prueth_probe`: EMAC mode, and no HSR or PRP flag among the features of the ports. -/
def Device.probed (bits : OffloadBits) (features : Port → BitVec 64) : Device where
  ethType := .emac
  features := fun p => (features p &&& ~~~(bits.hsr ||| bits.prp)) ||| bits.l2fw
  running := fun _ => false
  configured := fun _ => false

inductive Event where
  | ndoOpen (p : Port) (io : OpenIo)
  | ndoStop (p : Port)
  | setFeatures (p : Port) (features : BitVec 64)
  deriving DecidableEq, Repr

/-- A call on a device with LRE support. The network core opens a port that is down, which then runs if
the call succeeds, and stops a port that runs. -/
def step (bits : OffloadBits) (s : Device) : Event → Option Device
  | .ndoOpen p io =>
    if s.running p then none
    else
      let (ret, s') := emacNdoOpen bits s p io
      some { s' with running := Function.update s'.running p (ret = 0) }
  | .ndoStop p =>
    if s.running p then
      let (_, s') := emacNdoStop s p
      some { s' with running := Function.update s'.running p false }
    else none
  | .setFeatures p features => some (emacNdoSetFeatures bits true s p features).2

def ModeKept (s : Device) (e : Event) (s' : Device) : Prop :=
  ∀ p features, e = .setFeatures p features → (∃ q, s.running q = true) → s'.ethType = s.ethType

/-- A call that leaves the flags of its stopped port as they are, while the other port runs, finds the
same flags on both ports. -/
def FlagsAgree (bits : OffloadBits) (s : Device) (e : Event) (_ : Device) : Prop :=
  ∀ p features, e = .setFeatures p features →
    s.running p = false → s.running (otherPort p) = true →
    bits.lreFlags features = bits.lreFlags (s.features p) →
    bits.lreFlags (s.features p) = bits.lreFlags (s.features (otherPort p))

end Am437x.Prueth.EthMode
