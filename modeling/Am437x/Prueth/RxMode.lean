import Am437x.Lib.Runs
import Am437x.Lib.Writes
import Am437x.Prueth.Device

/-!
# The multicast filter (`emac_ndo_set_rx_mode`)

The firmware admits a multicast frame when the filter bin of its address is set to allowed. In EMAC and
switch mode each port has a filter in its own data RAM; in HSR and PRP mode both ports use the one in
DRAM1.
-/

namespace Am437x.Prueth.RxMode

open Writes

/-- A MAC address, or the mask of the hash. -/
abbrev Mac := Vector UInt8 6

/-- The constants `ICSS_EMAC_FW_MULTICAST_*` and `EMAC_P*_PROMISCUOUS_BIT` of the firmware headers. A
filter has a bin for every hash, and a cleared bin is not allowed. -/
structure FilterConst where
  ctrlEnabled : UInt8
  ctrlDisabled : UInt8
  hostRcvAllowed : UInt8
  allowed_ne_zero : hostRcvAllowed ≠ 0
  tableSizeBytes : Nat
  hashes_le_tableSize : 256 ≤ tableSizeBytes
  promiscuousBit : Port → BitVec 32

structure Filter where
  ctrl : UInt8
  mask : Mac
  bins : UInt8 → UInt8

inductive Dram where
  | dram0
  | dram1
  deriving DecidableEq, Repr

structure State where
  ethType : EthType
  /-- The register at `EMAC_PROMISCUOUS_MODE_OFFSET`. -/
  promiscReg : BitVec 32
  filter : Dram → Filter
  mcFilterMask : Port → Mac
  /-- The multicast list of `prueth->hw_bridge_dev`, when there is one. -/
  hwBridgeDev : Option (List Mac)

structure NetDevice where
  promisc : Bool
  allmulti : Bool
  mc : List Mac
  deriving DecidableEq, Repr

def emacGetMcHash (mac mask : Mac) : UInt8 :=
  (Vector.zipWith (· &&& ·) mac mask).foldl (· ^^^ ·) 0

variable (c : FilterConst)

def State.dram (s : State) (p : Port) : Dram :=
  if s.ethType.isLre then .dram1
  else
    match p with
    | .mii0 => .dram0
    | .mii1 => .dram1

def State.updateFilter (s : State) (p : Port) (f : Filter → Filter) : State :=
  { s with filter := Function.update s.filter (s.dram p) (f (s.filter (s.dram p))) }

def emacMcFilterCtrl (s : State) (p : Port) (enable : Bool) : State :=
  s.updateFilter p fun f => { f with ctrl := if enable then c.ctrlEnabled else c.ctrlDisabled }

def emacMcFilterReset (s : State) (p : Port) : State :=
  s.updateFilter p fun f =>
    { f with bins := fun hash => if hash.toNat < c.tableSizeBytes then 0 else f.bins hash }

def emacMcFilterHashmask (s : State) (p : Port) (mask : Mac) : State :=
  s.updateFilter p fun f => { f with mask := mask }

/-- `emac_mc_filter_bin_allow` for the hash of every address of a list. -/
def allowAddresses (s : State) (p : Port) (macs : List Mac) : State :=
  let hashes := macs.map fun mac => emacGetMcHash mac (s.mcFilterMask p)
  s.updateFilter p fun f =>
    { f with bins := writeAll f.bins (hashes.map fun hash => (hash, c.hostRcvAllowed)) }

def emacNdoSetRxMode (s : State) (p : Port) (ndev : NetDevice) : State :=
  if ndev.promisc ∧ s.ethType.isLre then s
  else
    let s := emacMcFilterCtrl c s p false
    let s := emacMcFilterReset c s p
    let s := emacMcFilterHashmask s p (s.mcFilterMask p)
    let s :=
      if s.ethType = .emac then
        { s with promiscReg :=
            if ndev.promisc then s.promiscReg ||| c.promiscuousBit p
            else s.promiscReg &&& ~~~(c.promiscuousBit p) }
      else s
    if s.ethType = .emac ∧ ndev.promisc then s
    else if ndev.allmulti ∧ s.ethType ≠ .switch then s
    else
      let s := emacMcFilterCtrl c s p true
      if ndev.mc = [] then s
      else
        let s := allowAddresses c s p ndev.mc
        match s.hwBridgeDev with
        | none => s
        | some mc => allowAddresses c s p mc

/-! ## Two ports in LRE mode -/

/-- `mc_filter_mask` after the probe of a port. -/
def defaultMask : Mac := Vector.replicate 6 0xff

/-- A device in HSR or PRP mode, and the list of each port at its last call. -/
structure Lre where
  state : State
  lastMc : Port → List Mac

/-- An HSR or PRP device without a bridge, before the first call. -/
def Lre.start (prp : Bool) (promiscReg : BitVec 32) (filter : Dram → Filter) : Lre where
  state :=
    { ethType := if prp then .prp else .hsr
      promiscReg := promiscReg
      filter := filter
      mcFilterMask := fun _ => defaultMask
      hwBridgeDev := none }
  lastMc := fun _ => []

/-- A call of `emac_ndo_set_rx_mode` on a port that is neither promiscuous nor all-multicast. -/
structure Call where
  port : Port
  mc : List Mac
  deriving DecidableEq, Repr

def step (l : Lre) (call : Call) : Option Lre :=
  some
    { state := emacNdoSetRxMode c l.state call.port
        { promisc := false, allmulti := false, mc := call.mc }
      lastMc := Function.update l.lastMc call.port call.mc }

def hash (mac : Mac) : UInt8 := emacGetMcHash mac defaultMask

/-- The filter admits what both ports asked for last. -/
def Lre.Admits (l : Lre) : Prop :=
  ∀ p, ∀ mac ∈ l.lastMc p, (l.state.filter .dram1).bins (hash mac) = c.hostRcvAllowed

/-- Every address that the other port asked for last has the hash of an address of the call. -/
def CoversOther (l : Lre) (call : Call) (_ : Lre) : Prop :=
  ∀ mac ∈ l.lastMc (otherPort call.port), ∃ mac' ∈ call.mc, hash mac' = hash mac

end Am437x.Prueth.RxMode
