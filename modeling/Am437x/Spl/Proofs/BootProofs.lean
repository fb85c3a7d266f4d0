import Am437x.Spl.Boot
import Am437x.Spl.Proofs.DdrTestProofs

/-!
# When the SPL boots from tested memory

The search finds the first bootable entry of the boot list. It does so whatever the DDR test returned.
-/

namespace Am437x.Spl

open Faults Loops

variable {μ : Type*} {cfg : Config} {io : Attempts} {loaders : List SplImageLoader}
  {entry : BitVec 32 × Nat}

/-! ## The search -/

/-- The loop over the loaders. -/
theorem loop_tryLoader (cfg : Config) (io : Attempts) (loaders : List SplImageLoader)
    (entry : BitVec 32 × Nat) :
    loop (tryLoader cfg io entry) () loaders.zipIdx =
      if Bootable cfg io loaders entry then .left entry.1 else .again () := by
  apply loop_search
  intro loader _
  unfold tryLoader
  by_cases hdevice : entry.1 = loader.1.bootDevice
  · simp [hdevice]
  · simp [hdevice]

theorem tryDevice_none (ret : Int) (h : entry.1 = bootDeviceNone) :
    tryDevice cfg io loaders ret entry = .left (ret, none) :=
  if_pos h

theorem tryDevice_bootable (ret : Int) (hnone : entry.1 ≠ bootDeviceNone)
    (h : Bootable cfg io loaders entry) :
    tryDevice cfg io loaders ret entry = .left (0, some entry.1) := by
  rw [tryDevice, if_neg hnone, loop_tryLoader, if_pos h]

theorem tryDevice_of_not_bootable (ret : Int) (hnone : entry.1 ≠ bootDeviceNone)
    (h : ¬ Bootable cfg io loaders entry) :
    ∃ ret', tryDevice cfg io loaders ret entry = .again ret' ∧ (ret' = ret ∨ ret' = -eNxIo) := by
  rw [tryDevice, if_neg hnone, loop_tryLoader, if_neg h]
  refine ⟨_, rfl, ?_⟩
  split
  · exact Or.inr rfl
  · exact Or.inl rfl

/-- The loop over the boot list finds the first bootable entry before `BOOT_DEVICE_NONE`. -/
theorem loop_tryDevice_some {ret : Int} {entries : List (BitVec 32 × Nat)}
    (h : (entries.takeWhile (·.1 ≠ bootDeviceNone)).find? (Bootable cfg io loaders ·) = some entry) :
    loop (tryDevice cfg io loaders) ret entries = .left (0, some entry.1) := by
  induction entries generalizing ret with
  | nil => cases h
  | cons e entries ih =>
    by_cases hnone : e.1 = bootDeviceNone
    · rw [List.takeWhile_cons_of_neg (by simpa using hnone)] at h
      cases h
    · rw [List.takeWhile_cons_of_pos (by simpa using hnone)] at h
      by_cases hboot : Bootable cfg io loaders e
      · rw [List.find?_cons_of_pos (by simpa using hboot)] at h
        obtain rfl := Option.some.inj h
        exact loop_cons_left (tryDevice_bootable ret hnone hboot) entries
      · rw [List.find?_cons_of_neg (by simpa using hboot)] at h
        obtain ⟨ret', hagain, -⟩ := tryDevice_of_not_bootable ret hnone hboot
        rw [loop_cons_again hagain]
        exact ih h

/-- Without one, an error is returned. -/
theorem loop_tryDevice_none {ret : Int} (hret : ret ≠ 0) {entries : List (BitVec 32 × Nat)}
    (h : (entries.takeWhile (·.1 ≠ bootDeviceNone)).find? (Bootable cfg io loaders ·) = none) :
    ∃ ret' ≠ 0, loop (tryDevice cfg io loaders) ret entries = .again ret' ∨
      loop (tryDevice cfg io loaders) ret entries = .left (ret', none) := by
  induction entries generalizing ret with
  | nil => exact ⟨ret, hret, Or.inl rfl⟩
  | cons e entries ih =>
    by_cases hnone : e.1 = bootDeviceNone
    · exact ⟨ret, hret, Or.inr (loop_cons_left (tryDevice_none ret hnone) entries)⟩
    · rw [List.takeWhile_cons_of_pos (by simpa using hnone)] at h
      have hboot : ¬ Bootable cfg io loaders e := by
        intro hboot
        rw [List.find?_cons_of_pos (by simpa using hboot)] at h
        cases h
      rw [List.find?_cons_of_neg (by simpa using hboot)] at h
      obtain ⟨ret', hagain, hret'⟩ := tryDevice_of_not_bootable ret hnone hboot
      have hne : ret' ≠ 0 := by
        rcases hret' with rfl | rfl
        · exact hret
        · decide
      rw [loop_cons_again hagain]
      exact ih hne h

theorem bootFromDevices_some (ram : Ram Nat Word μ) {bootList : List (BitVec 32)} (s : Tester μ)
    (h : (candidates bootList).find? (Bootable cfg io loaders ·) = some entry) :
    (bootFromDevices cfg ram loaders bootList io s).ret = 0 ∧
      (bootFromDevices cfg ram loaders bootList io s).bootDevice = some entry.1 := by
  rw [bootFromDevices, loop_tryDevice_some h]
  exact ⟨rfl, rfl⟩

theorem bootFromDevices_none (ram : Ram Nat Word μ) {bootList : List (BitVec 32)} (s : Tester μ)
    (h : (candidates bootList).find? (Bootable cfg io loaders ·) = none) :
    (bootFromDevices cfg ram loaders bootList io s).ret ≠ 0 := by
  have hstart : -eNoDev ≠ 0 := by decide
  obtain ⟨ret, hret, hloop | hloop⟩ := loop_tryDevice_none hstart h
  · rw [bootFromDevices, hloop]
    exact hret
  · rw [bootFromDevices, hloop]
    exact hret

/-- The boot is safe just when the test passes or nothing can be booted. -/
theorem safeBoot_iff_passed (ram : Ram Nat Word μ) {bootList : List (BitVec 32)} {s : Tester μ} :
    SafeBoot cfg ram loaders bootList io s ↔
      (ddrReadWriteTest ram bootRange s).1 = 0 ∨
        ∀ entry ∈ candidates bootList, ¬ Bootable cfg io loaders entry := by
  cases hfind : (candidates bootList).find? (Bootable cfg io loaders ·) with
  | none =>
    have hnot : ∀ entry ∈ candidates bootList, ¬ Bootable cfg io loaders entry := by
      intro entry hentry
      simpa using List.find?_eq_none.mp hfind entry hentry
    exact iff_of_true (fun hret => absurd hret (bootFromDevices_none ram s hfind)) (Or.inr hnot)
  | some entry =>
    obtain ⟨hret, hdevice⟩ := bootFromDevices_some ram s hfind
    have hboot : Bootable cfg io loaders entry := by simpa using List.find?_some hfind
    constructor
    · intro hsafe
      exact Or.inl (hsafe hret).1
    · rintro (htest | hnot) _
      · exact ⟨htest, entry, hfind, hdevice⟩
      · exact absurd hboot (hnot entry (List.mem_of_find?_eq_some hfind))

/-! ## Main results -/

/-- The SPL boots only from memory that passed its test just when every tested word of the memory reads as
the pattern that was written to it, or when nothing in the boot list is bootable. -/
theorem safe_boot_iff (cfg : Config) (ram : Ram Nat Word μ) (loaders : List SplImageLoader)
    (bootList : List (BitVec 32)) (io : Attempts) (s : Tester μ) :
    SafeBoot cfg ram loaders bootList io s ↔
      bootRange.KeepsPattern ram s.mem s.ztoggle ∨
        ∀ entry ∈ candidates bootList, ¬ Bootable cfg io loaders entry := by
  rw [safeBoot_iff_passed, passed_iff_keepsPattern]

/-- On independent words this is a condition on each of them alone. -/
theorem safeBoot_independentWords_iff (cfg : Config) (f : Nat → Word → Word)
    (loaders : List SplImageLoader) (bootList : List (BitVec 32)) (io : Attempts)
    (s : Tester (Nat → Word)) :
    SafeBoot cfg (independentWords f) loaders bootList io s ↔
      (∀ a, bootRange.Tested a → f a testPattern = testPattern) ∨
        ∀ entry ∈ candidates bootList, ¬ Bootable cfg io loaders entry := by
  have hgpio : ¬ bootRange.Tested gpioDataOut := by decide
  rw [safeBoot_iff_passed, verdict_iff hgpio]

def quietConfig : Config := { showErrors := false, legacyImageCrcCheck := false }

/-- Every load succeeds. -/
def goodLoads : Attempts := fun _ _ =>
  { loadImage := 0, dcrcLength := 0, dcrc := 0, crc32 := 0, checkBoardImage := 0 }

/-- A memory whose words all read as 0. -/
def deadMemory : Ram Nat Word (Nat → Word) := independentWords fun _ _ => 0

/-- The test of a dead memory fails, and the image that a loader has put there is booted. -/
theorem dead_memory_booted :
    (bootFromDevices quietConfig deadMemory [{ bootDevice := 1 }] [1] goodLoads
      (.start (fun _ => 0) 1)).ret = 0 ∧
    ¬ SafeBoot quietConfig deadMemory [{ bootDevice := 1 }] [1] goodLoads (.start (fun _ => 0) 1) := by
  have hfind : (candidates [1]).find?
      (Bootable quietConfig goodLoads [{ bootDevice := 1 }] ·) = some (1, 0) := by decide
  have hret := (bootFromDevices_some deadMemory (.start (fun _ => 0) 1) hfind).1
  refine ⟨hret, fun hsafe => ?_⟩
  have hfirst : bootRange.Tested 0x80000000 := by decide
  obtain ⟨m, hread⟩ := passed_reads (hsafe hret).1 hfirst
  have hzero : (0 : Word) = testPattern := hread
  exact absurd hzero (by decide)

end Am437x.Spl
