import Am437x.Prueth.RxMode

/-!
# When the shared filter admits what both ports asked for

A call leaves in the shared filter what its own list asks for and nothing else: the reset clears the
whole table. So the other port keeps a bin just when an address of the call falls into it.
-/

namespace Am437x.Prueth.RxMode

open Runs Writes

variable {c : FilterConst}

/-- What a call in LRE mode depends on and never changes. -/
structure Inv (l : Lre) : Prop where
  lre : l.state.ethType.isLre = true
  mask : l.state.mcFilterMask = fun _ => defaultMask
  no_bridge : l.state.hwBridgeDev = none

theorem inv_start (prp : Bool) (promiscReg : BitVec 32) (filter : Dram → Filter) :
    Inv (.start prp promiscReg filter) := by
  refine ⟨?_, rfl, rfl⟩
  cases prp <;> rfl

/-! ## One call -/

section Call

variable {s : State} {p : Port}

@[simp] theorem updateFilter_ethType (f : Filter → Filter) :
    (s.updateFilter p f).ethType = s.ethType := rfl

@[simp] theorem updateFilter_mcFilterMask (f : Filter → Filter) :
    (s.updateFilter p f).mcFilterMask = s.mcFilterMask := rfl

@[simp] theorem updateFilter_hwBridgeDev (f : Filter → Filter) :
    (s.updateFilter p f).hwBridgeDev = s.hwBridgeDev := rfl

theorem updateFilter_dram1 (h : s.ethType.isLre = true) (f : Filter → Filter) :
    (s.updateFilter p f).filter .dram1 = f (s.filter .dram1) := by
  have hdram : s.dram p = .dram1 := if_pos h
  simp [State.updateFilter, hdram]

theorem ctrl_bins (h : s.ethType.isLre = true) (enable : Bool) :
    ((emacMcFilterCtrl c s p enable).filter .dram1).bins = (s.filter .dram1).bins := by
  rw [emacMcFilterCtrl, updateFilter_dram1 h]

theorem hashmask_bins (h : s.ethType.isLre = true) (mask : Mac) :
    ((emacMcFilterHashmask s p mask).filter .dram1).bins = (s.filter .dram1).bins := by
  rw [emacMcFilterHashmask, updateFilter_dram1 h]

theorem reset_bins (h : s.ethType.isLre = true) (k : UInt8) :
    ((emacMcFilterReset c s p).filter .dram1).bins k = 0 := by
  rw [emacMcFilterReset, updateFilter_dram1 h]
  exact if_pos (lt_of_lt_of_le (UInt8.toNat_lt k) c.hashes_le_tableSize)

theorem allow_bins (h : s.ethType.isLre = true) (mc : List Mac) (k : UInt8) :
    ((allowAddresses c s p mc).filter .dram1).bins k =
      if k ∈ mc.map (fun mac => emacGetMcHash mac (s.mcFilterMask p)) then c.hostRcvAllowed
      else (s.filter .dram1).bins k := by
  rw [allowAddresses, updateFilter_dram1 h]
  exact writeAll_const _ _ _ _

/-- The device of a call before the addresses of its list are added. -/
def cleared (c : FilterConst) (s : State) (p : Port) : State :=
  emacMcFilterCtrl c
    (emacMcFilterHashmask (emacMcFilterReset c (emacMcFilterCtrl c s p false) p) p (s.mcFilterMask p))
    p true

theorem cleared_bins (h : s.ethType.isLre = true) (k : UInt8) :
    ((cleared c s p).filter .dram1).bins k = 0 := by
  unfold cleared
  rw [ctrl_bins, hashmask_bins, reset_bins] <;> exact h

theorem setRxMode_eq (hlre : s.ethType.isLre = true) (hbridge : s.hwBridgeDev = none)
    (mc : List Mac) :
    emacNdoSetRxMode c s p { promisc := false, allmulti := false, mc := mc } =
      if mc = [] then cleared c s p else allowAddresses c (cleared c s p) p mc := by
  have hemac : s.ethType ≠ .emac := by
    intro h
    rw [h] at hlre
    cases hlre
  simp only [emacNdoSetRxMode, emacMcFilterCtrl, emacMcFilterReset, emacMcFilterHashmask,
    allowAddresses, updateFilter_ethType, updateFilter_mcFilterMask, updateFilter_hwBridgeDev,
    hemac, hbridge, Bool.false_eq_true, false_and, if_false, cleared]

/-- After a call in LRE mode a bin is allowed when an address of the list falls into it, and cleared
otherwise. -/
theorem setRxMode_bins (hlre : s.ethType.isLre = true)
    (hmask : s.mcFilterMask = fun _ => defaultMask) (hbridge : s.hwBridgeDev = none)
    (mc : List Mac) (k : UInt8) :
    ((emacNdoSetRxMode c s p { promisc := false, allmulti := false, mc := mc }).filter .dram1).bins k =
      if k ∈ mc.map hash then c.hostRcvAllowed else 0 := by
  rw [setRxMode_eq hlre hbridge]
  split
  · next hnil => simp [hnil, cleared_bins hlre]
  · have hlre' : (cleared c s p).ethType.isLre = true := hlre
    have hmask' : (cleared c s p).mcFilterMask = fun _ => defaultMask := hmask
    rw [allow_bins hlre', hmask', cleared_bins hlre]
    rfl

/-- A call in LRE mode changes the filter only. -/
theorem setRxMode_device (hlre : s.ethType.isLre = true) (hbridge : s.hwBridgeDev = none)
    (mc : List Mac) :
    (emacNdoSetRxMode c s p { promisc := false, allmulti := false, mc := mc }).ethType = s.ethType ∧
      (emacNdoSetRxMode c s p { promisc := false, allmulti := false, mc := mc }).mcFilterMask =
        s.mcFilterMask ∧
      (emacNdoSetRxMode c s p { promisc := false, allmulti := false, mc := mc }).hwBridgeDev =
        s.hwBridgeDev := by
  rw [setRxMode_eq hlre hbridge]
  split <;> exact ⟨rfl, rfl, rfl⟩

end Call

theorem inv_step {l l' : Lre} {call : Call} (hi : Inv l) (h : step c l call = some l') : Inv l' := by
  obtain rfl := Option.some.inj h
  obtain ⟨htype, hmask, hbridge⟩ :=
    @setRxMode_device c l.state call.port hi.lre hi.no_bridge call.mc
  exact ⟨htype ▸ hi.lre, hmask.trans hi.mask, hbridge.trans hi.no_bridge⟩

/-! ## Main result -/

/-- After a call the filter admits an address just when the call has one with the same hash. -/
theorem bin_allowed_iff {l l' : Lre} {call : Call} (hi : Inv l) (h : step c l call = some l')
    (mac : Mac) :
    (l'.state.filter .dram1).bins (hash mac) = c.hostRcvAllowed ↔
      ∃ mac' ∈ call.mc, hash mac' = hash mac := by
  obtain rfl := Option.some.inj h
  rw [setRxMode_bins hi.lre hi.mask hi.no_bridge, ← List.mem_map]
  constructor
  · intro hbin
    by_contra hmem
    rw [if_neg hmem] at hbin
    exact c.allowed_ne_zero hbin.symm
  · intro hmem
    rw [if_pos hmem]

theorem admits_iff {l l' : Lre} {call : Call} (hi : Inv l) (h : step c l call = some l') :
    l'.Admits c ↔ CoversOther l call l' := by
  have hlast : l'.lastMc = Function.update l.lastMc call.port call.mc := by
    rw [← Option.some.inj h]
  have hother : l'.lastMc (otherPort call.port) = l.lastMc (otherPort call.port) := by
    rw [hlast, Function.update_of_ne (otherPort_ne _)]
  constructor
  · intro hadmits mac hmac
    exact (bin_allowed_iff hi h mac).mp (hadmits _ mac (hother ▸ hmac))
  · intro hcovers p mac hmac
    rw [bin_allowed_iff hi h]
    rcases eq_or_eq_otherPort call.port p with rfl | rfl
    · rw [hlast, Function.update_self] at hmac
      exact ⟨mac, hmac, rfl⟩
    · exact hcovers mac (hother ▸ hmac)

/-- In a run of calls on the two ports in LRE mode, the filter admits after every call what both ports
asked for last, just when every call has the hashes of the addresses that the other port asked for. -/
theorem filter_admits_iff (c : FilterConst) (prp : Bool) (promiscReg : BitVec 32)
    (filter : Dram → Filter) (calls : List Call) :
    AllSteps (step c) (fun _ _ l' => l'.Admits c) (.start prp promiscReg filter) calls ↔
      AllSteps (step c) CoversOther (.start prp promiscReg filter) calls := by
  apply allSteps_iff_of_inv Inv
  · intro l call l' hi h
    exact admits_iff hi h
  · intro l call l' hi h _
    exact inv_step hi h
  · exact inv_start prp promiscReg filter

def byteTable : FilterConst where
  ctrlEnabled := 1
  ctrlDisabled := 0
  hostRcvAllowed := 1
  allowed_ne_zero := by decide
  tableSizeBytes := 256
  hashes_le_tableSize := le_rfl
  promiscuousBit := fun
    | .mii0 => 1
    | .mii1 => 2

def allHosts : Mac := #v[0x01, 0x00, 0x5e, 0x00, 0x00, 0x01]

/-- The first port asks for an address, and a call on the second port without addresses removes it. -/
theorem other_port_clears_bin :
    (run (step byteTable) (.start false 0 fun _ => ⟨0, defaultMask, fun _ => 0⟩)
      [⟨.mii0, [allHosts]⟩, ⟨.mii1, []⟩]).map
        (fun l => (l.lastMc .mii0, (l.state.filter .dram1).bins (hash allHosts))) =
      some ([allHosts], 0) ∧
    ¬ AllSteps (step byteTable) (fun _ _ l' => l'.Admits byteTable)
      (.start false 0 fun _ => ⟨0, defaultMask, fun _ => 0⟩) [⟨.mii0, [allHosts]⟩, ⟨.mii1, []⟩] := by
  refine ⟨by decide +kernel, fun h => ?_⟩
  have hadmits := AllSteps.of_run [Call.mk .mii0 [allHosts]] h rfl rfl
  have hbin := hadmits .mii0 allHosts (by decide +kernel)
  exact absurd hbin (by decide +kernel)

end Am437x.Prueth.RxMode
