import Am437x.Spl.DdrTest

/-!
# The choice of the boot device (`boot_from_devices`)

The SPL tests the DDR and then goes through the boot list. For each device it tries the image loaders
that are for it, until one of them succeeds.
-/

namespace Am437x.Spl

open Faults Loops

def eNxIo : Int := 6

def eNoDev : Int := 19

def eInval : Int := 22

def bootDeviceNone : BitVec 32 := 0xdeadbeef

/-- Options of the build: `CONFIG_IS_ENABLED(SHOW_ERRORS)` and `CONFIG_SPL_LEGACY_IMAGE_CRC_CHECK`. -/
structure Config where
  showErrors : Bool
  legacyImageCrcCheck : Bool
  deriving DecidableEq, Repr

structure SplImageLoader where
  bootDevice : BitVec 32
  deriving DecidableEq, Repr

/-- What the calls of one `spl_load_image` return, and the fields of the image that it checks. -/
structure LoadIo where
  /-- The result of `load_image`. -/
  loadImage : Int
  dcrcLength : Nat
  dcrc : BitVec 32
  /-- The result of `crc32_wd` on the data of the image. -/
  crc32 : BitVec 32
  /-- The result of `spl_check_board_image`. -/
  checkBoardImage : Int
  deriving DecidableEq, Repr

def splLoadImage (cfg : Config) (io : LoadIo) : Int :=
  let ret := io.loadImage
  let ret :=
    if cfg.legacyImageCrcCheck ∧ ret = 0 ∧ io.dcrcLength ≠ 0 then
      if io.crc32 ≠ io.dcrc then -eInval else ret
    else ret
  if ret = 0 then io.checkBoardImage else ret

/-- The outcomes of all attempts: of the entry of the boot list with the loader, by their positions. -/
abbrev Attempts := Nat → Nat → LoadIo

/-- One turn of the loop over the loaders, for the entry `entry` of the boot list. It is left with the
device to record. -/
def tryLoader (cfg : Config) (io : Attempts) (entry : BitVec 32 × Nat) (_ : Unit)
    (loader : SplImageLoader × Nat) : Turn Unit (BitVec 32) :=
  if entry.1 ≠ loader.1.bootDevice then .again ()
  else if splLoadImage cfg (io entry.2 loader.2) = 0 then .left entry.1
  else .again ()

/-- One turn of the loop over the boot list, whose state is `ret`. It is left with the value returned and
the device recorded, if any. -/
def tryDevice (cfg : Config) (io : Attempts) (loaders : List SplImageLoader) (ret : Int)
    (entry : BitVec 32 × Nat) : Turn Int (Int × Option (BitVec 32)) :=
  if entry.1 = bootDeviceNone then .left (ret, none)
  else
    let ret := if cfg.showErrors then -eNxIo else ret
    match loop (tryLoader cfg io entry) () loaders.zipIdx with
    | .left bootdev => .left (0, some bootdev)
    | .again () => .again ret

/-- The memory that `boot_from_devices` tests. -/
def bootRange : DdrRange where
  base := 0x80000000
  size := ddrSize
  aligned := by decide
  fits := by decide

structure BootResult (μ : Type*) where
  ret : Int
  /-- The device written to `spl_image->boot_device`. -/
  bootDevice : Option (BitVec 32)
  tester : Tester μ

variable {μ : Type*}

def bootFromDevices (cfg : Config) (ram : Ram Nat Word μ) (loaders : List SplImageLoader)
    (bootList : List (BitVec 32)) (io : Attempts) (s : Tester μ) : BootResult μ :=
  let test := ddrReadWriteTest ram bootRange s -- its `result` is not used
  match loop (tryDevice cfg io loaders) (-eNoDev) bootList.zipIdx with
  | .left (ret, device) => { ret := ret, bootDevice := device, tester := test.2 }
  | .again ret => { ret := ret, bootDevice := none, tester := test.2 }

/-! ## What the boot is to respect -/

/-- The entries of the boot list before `BOOT_DEVICE_NONE`, with their positions. -/
def candidates (bootList : List (BitVec 32)) : List (BitVec 32 × Nat) :=
  bootList.zipIdx.takeWhile (·.1 ≠ bootDeviceNone)

/-- Some loader for the device of the entry succeeds. -/
def Bootable (cfg : Config) (io : Attempts) (loaders : List SplImageLoader)
    (entry : BitVec 32 × Nat) : Prop :=
  ∃ loader ∈ loaders.zipIdx, entry.1 = loader.1.bootDevice ∧
    splLoadImage cfg (io entry.2 loader.2) = 0

instance (cfg : Config) (io : Attempts) (loaders : List SplImageLoader) :
    DecidablePred (Bootable cfg io loaders) := fun _ =>
  inferInstanceAs (Decidable (∃ loader ∈ loaders.zipIdx, _ ∧ _))

/-- A boot that returns 0 has found the memory good, and records the first entry that is bootable. -/
def SafeBoot (cfg : Config) (ram : Ram Nat Word μ) (loaders : List SplImageLoader)
    (bootList : List (BitVec 32)) (io : Attempts) (s : Tester μ) : Prop :=
  (bootFromDevices cfg ram loaders bootList io s).ret = 0 →
    (ddrReadWriteTest ram bootRange s).1 = 0 ∧
    ∃ entry, (candidates bootList).find? (Bootable cfg io loaders ·) = some entry ∧
      (bootFromDevices cfg ram loaders bootList io s).bootDevice = some entry.1

end Am437x.Spl
