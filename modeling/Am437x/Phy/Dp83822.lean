import Am437x.Lib.Runs
import Am437x.Lib.Writes

/-!
# The link LEDs of the DP83822 PHYs (`dp83822.c`)

The board has two PHYs, at the MDIO addresses 0 and 1, each with two LEDs on GPIO lines. The driver keeps
the last link state of both PHYs in one static array, and sets the lines from `dp83822_read_status`.
-/

namespace Am437x.Phy

open Writes

abbrev Addr := Fin 2

def ctrl2FxEnable : BitVec 32 := 1#32 <<< 14
def phystsDuplex : BitVec 32 := 1#32 <<< 2
def physts10 : BitVec 32 := 1#32 <<< 1
def phystsLink : BitVec 32 := 1#32 <<< 0

def speedUnknown : Int := -1
def duplexUnknown : Int := 0xff
def duplexFull : Int := 1
def duplexHalf : Int := 0

/-- The four lines named in the device tree. -/
structure LedGpios where
  linkStatusPhy0 : Nat
  linkStatusPhy1 : Nat
  linkDataPhy0 : Nat
  linkDataPhy1 : Nat
  distinct : [linkStatusPhy0, linkStatusPhy1, linkDataPhy0, linkDataPhy1].Nodup

/-- `am437x-gp-evm.dts`: the lines 17, 18, 20 and 10 of `gpio4`, numbered in banks of 32. -/
def boardLeds : LedGpios where
  linkStatusPhy0 := 4 * 32 + 17
  linkStatusPhy1 := 4 * 32 + 18
  linkDataPhy0 := 4 * 32 + 20
  linkDataPhy1 := 4 * 32 + 10
  distinct := by decide

def LedGpios.toList (leds : LedGpios) : List Nat :=
  [leds.linkStatusPhy0, leds.linkStatusPhy1, leds.linkDataPhy0, leds.linkDataPhy1]

def LedGpios.of (leds : LedGpios) : Addr → List Nat
  | 0 => [leds.linkStatusPhy0, leds.linkDataPhy0]
  | 1 => [leds.linkStatusPhy1, leds.linkDataPhy1]

/-- `struct dp83822_private` and the fields of `struct phy_device` the driver sets. -/
structure Phydev where
  fxEnabled : Bool
  fxSdEnable : Bool
  fxSignalDetLow : Bool
  speed : Int
  duplex : Int
  deriving DecidableEq, Repr

/-- The arguments of a call `gpio_set_value(gpio, value)`; a line is high when its value is true. -/
abbrev GpioWrite := Nat × Bool

/-! ## `dp83822_read_status` -/

/-- What the MDIO bus and `genphy_read_status` answer during one call: the values read, or negative
errors. -/
structure Io where
  physts : BitVec 32
  ctrl2 : BitVec 32
  writeRet : BitVec 32
  genphyRet : BitVec 32
  genphySpeed : Int
  genphyDuplex : Int
  deriving DecidableEq, Repr

def Io.link (io : Io) : Bool := io.physts &&& phystsLink ≠ 0

/-- The fiber part: the device, the values written to CTRL_2, and the error returned early, if any. -/
def fiberStatus (phydev : Phydev) (io : Io) : Phydev × List (BitVec 32) × Option (BitVec 32) :=
  if phydev.fxEnabled then
    if io.link then ({ phydev with speed := speedUnknown, duplex := duplexUnknown }, [], none)
    else if io.ctrl2.slt 0 then (phydev, [], some io.ctrl2)
    else if io.ctrl2 &&& ctrl2FxEnable = 0 then
      (phydev, [ctrl2FxEnable ||| io.ctrl2], if io.writeRet.slt 0 then some io.writeRet else none)
    else (phydev, [], none)
  else (phydev, [], none)

/-- The writes to the LED lines; `prev` is `prev_lstatus[phydev->mdio.addr]`. -/
def ledWrites (leds : LedGpios) (addr : Addr) (prev : Int) (link : Bool) : List GpioWrite :=
  if link then
    if addr = 0 ∧ prev ≠ 1 then [(leds.linkStatusPhy0, false), (leds.linkDataPhy0, false)]
    else if prev ≠ 1 then [(leds.linkStatusPhy1, false), (leds.linkDataPhy1, false)]
    else []
  else
    if addr = 0 ∧ prev ≠ 0 then [(leds.linkStatusPhy0, true), (leds.linkDataPhy0, true)]
    else if prev ≠ 0 then [(leds.linkStatusPhy1, true), (leds.linkDataPhy1, true)]
    else []

structure Outcome where
  ret : BitVec 32
  phydev : Phydev
  ctrl2Writes : List (BitVec 32)
  gpioWrites : List GpioWrite
  prevLstatus : Int
  deriving DecidableEq, Repr

def readStatus (leds : LedGpios) (addr : Addr) (prev : Int) (phydev : Phydev) (io : Io) : Outcome :=
  match fiberStatus phydev io with
  | (phydev, ctrl2Writes, some error) => ⟨error, phydev, ctrl2Writes, [], prev⟩
  | (phydev, ctrl2Writes, none) =>
    let phydev := { phydev with speed := io.genphySpeed, duplex := io.genphyDuplex }
    if io.genphyRet ≠ 0 then ⟨io.genphyRet, phydev, ctrl2Writes, [], prev⟩
    else if io.physts.slt 0 then ⟨io.physts, phydev, ctrl2Writes, [], prev⟩
    else
      let phydev := { phydev with
        duplex := if io.physts &&& phystsDuplex ≠ 0 then duplexFull else duplexHalf
        speed := if io.physts &&& physts10 ≠ 0 then 10 else 100 }
      ⟨0, phydev, ctrl2Writes, ledWrites leds addr prev io.link, if io.link then 1 else 0⟩

/-! ## The board -/

structure Board where
  gpio : Nat → Bool
  readDts : Bool
  prevLstatus : Addr → Int
  phydev : Addr → Phydev
  /-- The link bit of the last call on the PHY that returned 0, kept for the statements only. -/
  lastReading : Addr → Option Bool

/-- The properties `ti,link-loss-low` and `ti,fiber-mode` of a PHY's node. -/
structure PhyNode where
  linkLossLow : Bool
  fiberMode : Bool
  deriving DecidableEq, Repr

def Board.ofInit (leds : LedGpios) (node : PhyNode) (addr : Addr) (b : Board) : Board :=
  let phydev := b.phydev addr
  let phydev :=
    if phydev.fxEnabled && phydev.fxSdEnable then { phydev with fxSignalDetLow := node.linkLossLow }
    else phydev
  let phydev := if phydev.fxEnabled then phydev else { phydev with fxEnabled := node.fiberMode }
  let b := { b with phydev := Function.update b.phydev addr phydev }
  if b.readDts then b
  else { b with
    gpio := writeAll b.gpio (leds.toList.map fun gpio => (gpio, true))
    readDts := true }

def Board.boot (gpio : Nat → Bool) (phydev : Addr → Phydev) : Board where
  gpio := gpio
  readDts := false
  prevLstatus := fun _ => -1
  phydev := phydev
  lastReading := fun _ => none

/-- Both PHYs are initialised, the one at `first` first. -/
def Board.probed (leds : LedGpios) (nodes : Addr → PhyNode) (first : Addr) (gpio : Nat → Bool)
    (phydev : Addr → Phydev) : Board :=
  ((Board.boot gpio phydev).ofInit leds (nodes first) first).ofInit leds (nodes first.rev) first.rev

/-- A call `dp83822_read_status` on the PHY at `addr`. -/
structure Call where
  addr : Addr
  io : Io
  deriving DecidableEq, Repr

def Board.outcome (leds : LedGpios) (b : Board) (c : Call) : Outcome :=
  readStatus leds c.addr (b.prevLstatus c.addr) (b.phydev c.addr) c.io

def step (leds : LedGpios) (b : Board) (c : Call) : Option Board :=
  let out := b.outcome leds c
  some { b with
    gpio := writeAll b.gpio out.gpioWrites
    prevLstatus := Function.update b.prevLstatus c.addr out.prevLstatus
    phydev := Function.update b.phydev c.addr out.phydev
    lastReading :=
      if out.ret = 0 then Function.update b.lastReading c.addr (some c.io.link) else b.lastReading }

/-! ## What the LEDs are for -/

/-- The LEDs of each PHY follow its own link: what a call may write, and the levels it leaves. -/
structure LedsTrack (leds : LedGpios) (b : Board) (c : Call) (b' : Board) : Prop where
  low_iff_link : (b.outcome leds c).ret = 0 →
    ∀ gpio ∈ leds.of c.addr, (b'.gpio gpio = false ↔ c.io.link = true)
  not_other : ∀ w ∈ (b.outcome leds c).gpioWrites, ∀ addr ≠ c.addr, w.1 ∉ leds.of addr
  error_silent : (b.outcome leds c).ret ≠ 0 → (b.outcome leds c).gpioWrites = []
  on_change : ∀ w ∈ (b.outcome leds c).gpioWrites, w.1 ∈ leds.of c.addr →
    b.lastReading c.addr ≠ some c.io.link

end Am437x.Phy
