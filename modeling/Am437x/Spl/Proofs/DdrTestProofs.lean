import Am437x.Spl.DdrTest

/-!
# What the DDR test establishes

The two sweeps go through the same words, those of the range outside the window. A test that passes has
read the pattern from each of them once; what else a word can hold it does not show.
-/

namespace Am437x.Spl

open Faults Loops

variable {μ : Type*} {ram : Ram Nat Word μ} {r : DdrRange} {s t : Tester μ}

/-! ## The words of a range -/

/-- The addresses of the range do not wrap. -/
theorem addr_eq {i : Nat} (h : i < r.words) : r.addr i = r.base + 4 * i := by
  have hfits := r.fits
  unfold DdrRange.words at h
  exact Nat.mod_eq_of_lt (by omega)

theorem tested_addr {i : Nat} (h : i < r.words) (hskip : ¬ Skipped (r.addr i)) :
    r.Tested (r.addr i) := by
  have haddr := addr_eq h
  have haligned := r.aligned
  exact ⟨by omega, by omega, by omega, hskip⟩

theorem tested_iff {a : Nat} : r.Tested a ↔ ∃ i < r.words, r.addr i = a ∧ ¬ Skipped a := by
  constructor
  · rintro ⟨hbase, hend, haligned, hskip⟩
    have hbaseAligned := r.aligned
    have hlt : (a - r.base) / 4 < r.words := by omega
    refine ⟨(a - r.base) / 4, hlt, ?_, hskip⟩
    rw [addr_eq hlt]
    omega
  · rintro ⟨i, hi, rfl, hskip⟩
    exact tested_addr hi hskip

/-- `P` holds of the first `n` words, outside the window. -/
def UpTo (r : DdrRange) (n : Nat) (P : Nat → Prop) : Prop :=
  ∀ i < n, ¬ Skipped (r.addr i) → P (r.addr i)

namespace UpTo

variable {P Q : Nat → Prop} {n i : Nat}

theorem zero : UpTo r 0 P := fun i hi => absurd hi (Nat.not_lt_zero i)

theorem mono (h : UpTo r n P) (hPQ : ∀ a, P a → Q a) : UpTo r n Q :=
  fun i hi hskip => hPQ _ (h i hi hskip)

/-- One index more, which is tested. -/
theorem tested (h : UpTo r i P) (hi : P (r.addr i)) : UpTo r (i + 1) P := by
  intro j hj hskip
  rcases Nat.lt_succ_iff_lt_or_eq.mp hj with hj | rfl
  · exact h j hj hskip
  · exact hi

/-- One index more, which is skipped. -/
theorem skipped (h : UpTo r i P) (hi : Skipped (r.addr i)) : UpTo r (i + 1) P := by
  intro j hj hskip
  rcases Nat.lt_succ_iff_lt_or_eq.mp hj with hj | rfl
  · exact h j hj hskip
  · exact absurd hi hskip

theorem words_iff : UpTo r r.words P ↔ ∀ a, r.Tested a → P a := by
  constructor
  · intro h a ha
    obtain ⟨i, hi, rfl, hskip⟩ := tested_iff.mp ha
    exact h i hi hskip
  · intro h i hi hskip
    exact h _ (tested_addr hi hskip)

end UpTo

/-! ## What one index does -/

theorem splWdreset_eq (ram : Ram Nat Word μ) (s : Tester μ) :
    ∃ ztoggle v, Toggled v ∧
      splWdreset ram s = { s with ztoggle := ztoggle }.store ram gpioDataOut v := by
  unfold splWdreset
  split
  · exact ⟨1, _, Or.inl rfl, rfl⟩
  · exact ⟨0, _, Or.inr rfl, rfl⟩

theorem writeWord_cases (ram : Ram Nat Word μ) (r : DdrRange) (s : Tester μ) (i : Nat) :
    Skipped (r.addr i) ∧ writeWord ram r s i = s ∨
      ¬ Skipped (r.addr i) ∧
        (i ≠ 0 ∧ writeWord ram r s i = s.store ram (r.addr i) testPattern ∨
          writeWord ram r s i = splWdreset ram (s.store ram (r.addr i) testPattern)) := by
  unfold writeWord
  by_cases hskip : Skipped (r.addr i)
  · exact Or.inl ⟨hskip, if_pos hskip⟩
  · rw [if_neg hskip]
    right
    refine ⟨hskip, ?_⟩
    dsimp only
    by_cases hperiod : i % togglePeriod = 0
    · exact Or.inr (if_pos hperiod)
    · left
      refine ⟨?_, if_neg hperiod⟩
      rintro rfl
      exact hperiod rfl

theorem verifyWord_again {i : Nat} (h : verifyWord ram r s i = .again t) :
    Skipped (r.addr i) ∧ t = s ∨
      ¬ Skipped (r.addr i) ∧ ram.read s.mem (r.addr i) = testPattern ∧
        (i ≠ 0 ∧ t = (s.load ram (r.addr i)).2 ∨ t = splWdreset ram (s.load ram (r.addr i)).2) := by
  unfold verifyWord at h
  by_cases hskip : Skipped (r.addr i)
  · rw [if_pos hskip] at h
    exact Or.inl ⟨hskip, (Turn.again.inj h).symm⟩
  · rw [if_neg hskip] at h
    right
    refine ⟨hskip, ?_⟩
    by_cases hword : ram.read s.mem (r.addr i) = testPattern
    · simp only [Tester.load, hword, ne_eq, not_true_eq_false, if_false] at h
      obtain rfl := Turn.again.inj h
      refine ⟨hword, ?_⟩
      by_cases hperiod : i % togglePeriod = 0
      · exact Or.inr (if_pos hperiod)
      · left
        refine ⟨?_, if_neg hperiod⟩
        rintro rfl
        exact hperiod rfl
    · simp only [Tester.load, ne_eq, hword, not_false_eq_true, if_true] at h
      cases h

theorem verifyWord_left {i : Nat} (h : verifyWord ram r s i = .left t) :
    ¬ Skipped (r.addr i) ∧ ram.read s.mem (r.addr i) ≠ testPattern ∧
      t = (s.load ram (r.addr i)).2 := by
  unfold verifyWord at h
  by_cases hskip : Skipped (r.addr i)
  · rw [if_pos hskip] at h
    cases h
  · rw [if_neg hskip] at h
    by_cases hword : ram.read s.mem (r.addr i) = testPattern
    · simp only [Tester.load, hword, ne_eq, not_true_eq_false, if_false] at h
      cases h
    · simp only [Tester.load, ne_eq, hword, not_false_eq_true, if_true] at h
      exact ⟨hskip, hword, (Turn.left.inj h).symm⟩

/-! ## The footprint -/

namespace Footprint

theorem start (mem : μ) (ztoggle : Int) : Footprint r (.start mem ztoggle) where
  stores w hw := by cases hw
  compared a ha := by cases ha

theorem store_register (hs : Footprint r s) {a : Nat} (ha : a ∈ registers) (v : Word) :
    Footprint r (s.store ram a v) where
  stores w hw := by
    rcases List.mem_append.mp hw with hw | hw
    · exact hs.stores w hw
    · obtain rfl := List.mem_singleton.mp hw
      exact Or.inr ha
  compared := hs.compared

theorem store_pattern (hs : Footprint r s) {a : Nat} (ha : r.Tested a) :
    Footprint r (s.store ram a testPattern) where
  stores w hw := by
    rcases List.mem_append.mp hw with hw | hw
    · exact hs.stores w hw
    · obtain rfl := List.mem_singleton.mp hw
      exact Or.inl ⟨ha, rfl⟩
  compared := hs.compared

theorem load (hs : Footprint r s) {a : Nat} (ha : r.Tested a) : Footprint r (s.load ram a).2 where
  stores := hs.stores
  compared b hb := by
    rcases List.mem_append.mp hb with hb | hb
    · exact hs.compared b hb
    · rw [List.mem_singleton.mp hb]
      exact ha

theorem wdreset (hs : Footprint r s) : Footprint r (splWdreset ram s) := by
  obtain ⟨ztoggle, v, -, heq⟩ := splWdreset_eq ram s
  rw [heq]
  have htoggle : Footprint r { s with ztoggle := ztoggle } := ⟨hs.stores, hs.compared⟩
  exact htoggle.store_register (by simp [registers]) v

theorem setup (hs : Footprint r s) : Footprint r (setupRegisters ram s) := by
  have hpinmux : Footprint r (s.store ram pinmux 0x08040007) :=
    hs.store_register (by simp [registers]) _
  have hgpioOe : Footprint r ((s.store ram pinmux 0x08040007).store ram gpioOe 0xfffffdff) :=
    hpinmux.store_register (by simp [registers]) _
  exact hgpioOe.store_register (by simp [registers]) _

theorem writeWord (hs : Footprint r s) {i : Nat} (hi : i < r.words) :
    Footprint r (writeWord ram r s i) := by
  rcases writeWord_cases ram r s i with ⟨-, heq⟩ | ⟨hskip, ⟨-, heq⟩ | heq⟩
  · rw [heq]
    exact hs
  · rw [heq]
    exact hs.store_pattern (tested_addr hi hskip)
  · rw [heq]
    exact (hs.store_pattern (tested_addr hi hskip)).wdreset

theorem verifyWord_again (hs : Footprint r s) {i : Nat} (hi : i < r.words)
    (h : verifyWord ram r s i = .again t) : Footprint r t := by
  rcases Spl.verifyWord_again h with ⟨-, rfl⟩ | ⟨hskip, -, ⟨-, rfl⟩ | rfl⟩
  · exact hs
  · exact hs.load (tested_addr hi hskip)
  · exact (hs.load (tested_addr hi hskip)).wdreset

theorem verifyWord_left (hs : Footprint r s) {i : Nat} (hi : i < r.words)
    (h : verifyWord ram r s i = .left t) : Footprint r t := by
  obtain ⟨hskip, -, rfl⟩ := Spl.verifyWord_left h
  exact hs.load (tested_addr hi hskip)

end Footprint

/-! ## The words written -/

/-- The pattern has been written to the first `n` words. -/
def Covered (r : DdrRange) (n : Nat) (s : Tester μ) : Prop :=
  UpTo r n fun a => (a, testPattern) ∈ s.stores

theorem stores_wdreset {w : Nat × Word} (h : w ∈ s.stores) : w ∈ (splWdreset ram s).stores := by
  obtain ⟨ztoggle, v, -, heq⟩ := splWdreset_eq ram s
  rw [heq]
  exact List.mem_append_left _ h

namespace Covered

variable {n : Nat}

theorem wdreset (hs : Covered r n s) : Covered r n (splWdreset ram s) :=
  UpTo.mono hs fun _ => stores_wdreset

theorem store_pattern {i : Nat} (hs : Covered r i s) :
    Covered r (i + 1) (s.store ram (r.addr i) testPattern) := by
  have hbefore : Covered r i (s.store ram (r.addr i) testPattern) :=
    UpTo.mono hs fun _ => List.mem_append_left _
  exact hbefore.tested (List.mem_append_right _ (List.mem_singleton_self _))

theorem writeWord {i : Nat} (hs : Covered r i s) : Covered r (i + 1) (writeWord ram r s i) := by
  rcases writeWord_cases ram r s i with ⟨hskipped, heq⟩ | ⟨-, ⟨-, heq⟩ | heq⟩
  · rw [heq]
    exact hs.skipped hskipped
  · rw [heq]
    exact hs.store_pattern
  · rw [heq]
    exact hs.store_pattern.wdreset

theorem verifyWord_again (hs : Covered r n s) {i : Nat} (h : verifyWord ram r s i = .again t) :
    Covered r n t := by
  rcases Spl.verifyWord_again h with ⟨-, rfl⟩ | ⟨-, -, ⟨-, rfl⟩ | rfl⟩
  · exact hs
  · exact hs
  · exact wdreset (s := (s.load ram (r.addr i)).2) hs

theorem verifyWord_left (hs : Covered r n s) {i : Nat} (h : verifyWord ram r s i = .left t) :
    Covered r n t := by
  obtain ⟨-, -, rfl⟩ := Spl.verifyWord_left h
  exact hs

end Covered

/-! ## Both sweeps -/

/-- The rule for the test: an invariant of the first sweep and one of the second. -/
theorem ddrReadWriteTest_rule (Writing Verifying : Nat → Tester μ → Prop)
    (Failed : Tester μ → Prop)
    (hsetup : Writing 0 (setupRegisters ram s))
    (hwrite : ∀ i < r.words, ∀ u, Writing i u → Writing (i + 1) (writeWord ram r u i))
    (hwritten : ∀ u, Writing r.words u → Verifying 0 u)
    (hagain : ∀ i < r.words, ∀ u v, Verifying i u → verifyWord ram r u i = .again v →
      Verifying (i + 1) v)
    (hleft : ∀ i < r.words, ∀ u v, Verifying i u → verifyWord ram r u i = .left v → Failed v) :
    (∃ t, ddrReadWriteTest ram r s = (0, t) ∧ Verifying r.words t) ∨
      ∃ t, ddrReadWriteTest ram r s = (-1, t) ∧ Failed t := by
  have hfirst := hwritten _ (foldl_range hwrite hsetup)
  rcases loop_range hagain hleft hfirst with ⟨t, hloop, ht⟩ | ⟨t, hloop, ht⟩
  · left
    refine ⟨t, ?_, ht⟩
    simp only [ddrReadWriteTest, hloop]
  · right
    refine ⟨t, ?_, ht⟩
    simp only [ddrReadWriteTest, hloop]

theorem otherwise (ram : Ram Nat Word μ) (r : DdrRange) (s : Tester μ) :
    (ddrReadWriteTest ram r s).1 = 0 ∨ (ddrReadWriteTest ram r s).1 = -1 := by
  simp only [ddrReadWriteTest]
  split
  · exact Or.inl rfl
  · exact Or.inr rfl

theorem footprint_test (ram : Ram Nat Word μ) (hs : Footprint r s) :
    Footprint r (ddrReadWriteTest ram r s).2 ∧ Covered r r.words (ddrReadWriteTest ram r s).2 := by
  let done (u : Tester μ) : Prop := Footprint r u ∧ Covered r r.words u
  have hrule : (∃ t, ddrReadWriteTest ram r s = (0, t) ∧ done t) ∨
      ∃ t, ddrReadWriteTest ram r s = (-1, t) ∧ done t :=
    ddrReadWriteTest_rule (fun i u => Footprint r u ∧ Covered r i u) (fun _ => done) done
      ⟨hs.setup, UpTo.zero⟩
      (fun i hi u hu => ⟨hu.1.writeWord hi, hu.2.writeWord⟩) (fun u hu => hu)
      (fun i hi u v hu h => ⟨hu.1.verifyWord_again hi h, hu.2.verifyWord_again h⟩)
      fun i hi u v hu h => ⟨hu.1.verifyWord_left hi h, hu.2.verifyWord_left h⟩
  rcases hrule with ⟨t, heq, ht⟩ | ⟨t, heq, ht⟩
  · rw [heq]
    exact ht
  · rw [heq]
    exact ht

/-- Every tested word has read as the pattern, when the test passes. -/
theorem passed_reads (h : (ddrReadWriteTest ram r s).1 = 0) {a : Nat} (ha : r.Tested a) :
    ∃ m, ram.read m a = testPattern := by
  let verified (i : Nat) (_ : Tester μ) : Prop := UpTo r i fun a => ∃ m, ram.read m a = testPattern
  have hagain : ∀ i < r.words, ∀ u v, verified i u → verifyWord ram r u i = .again v →
      verified (i + 1) v := by
    intro i _ u v hu hv
    rcases verifyWord_again hv with ⟨hskipped, -⟩ | ⟨-, hword, -⟩
    · exact hu.skipped hskipped
    · exact hu.tested ⟨u.mem, hword⟩
  have hrule := ddrReadWriteTest_rule (s := s) (fun _ _ => True) verified (fun _ => True) trivial
    (fun _ _ _ _ => trivial) (fun _ _ => UpTo.zero) hagain fun _ _ _ _ _ _ => trivial
  rcases hrule with ⟨t, -, ht⟩ | ⟨t, heq, -⟩
  · exact UpTo.words_iff.mp ht a ha
  · rw [heq] at h
    cases h

/-! ## The verdict on a memory -/

/-- The memory after the writes `ws` to `mem`, with `k` toggles among them. -/
structure AfterWrites (ram : Ram Nat Word μ) (mem : μ) (ztoggle : Int) (ws : List (Nat × Word)) (k : Nat)
    (u : Tester μ) : Prop where
  mem_eq : u.mem = ram.writes mem ws
  phase : u.ztoggle = 0 ↔ (ztoggle = 0 ↔ k % 2 = 0)

namespace AfterWrites

variable {mem : μ} {ztoggle : Int} {ws : List (Nat × Word)} {k : Nat} {u : Tester μ}

theorem store (h : AfterWrites ram mem ztoggle ws k u) (a : Nat) (v : Word) :
    AfterWrites ram mem ztoggle (ws ++ [(a, v)]) k (u.store ram a v) where
  mem_eq := by
    rw [Ram.writes_append, ← h.mem_eq]
    rfl
  phase := h.phase

theorem wdreset (h : AfterWrites ram mem ztoggle ws k u) :
    AfterWrites ram mem ztoggle (ws ++ [toggleWrite ztoggle k]) (k + 1) (splWdreset ram u) := by
  have hphase := h.phase
  unfold splWdreset toggleWrite
  by_cases hzero : u.ztoggle = 0
  · rw [if_pos hzero, if_pos (hphase.mp hzero)]
    refine ⟨(h.store gpioDataOut 0x00000000).mem_eq, ?_⟩
    show (1 : Int) = 0 ↔ _
    omega
  · rw [if_neg hzero, if_neg (mt hphase.mpr hzero)]
    refine ⟨(h.store gpioDataOut 0x00000200).mem_eq, ?_⟩
    show (0 : Int) = 0 ↔ _
    omega

end AfterWrites

theorem toggles_succ (r : DdrRange) (i : Nat) : r.toggles (i + 1) =
    r.toggles i + if ¬ Skipped (r.addr i) ∧ i % togglePeriod = 0 then 1 else 0 := by
  simp [DdrRange.toggles, List.range_succ, List.countP_append, List.countP_singleton]

theorem patternWrites_succ (r : DdrRange) (ztoggle : Int) (i : Nat) :
    r.patternWrites ztoggle (i + 1) = r.patternWrites ztoggle i ++
      if Skipped (r.addr i) then []
      else if i % togglePeriod = 0 then
        [(r.addr i, testPattern), toggleWrite ztoggle (r.toggles i)]
      else [(r.addr i, testPattern)] := by
  rw [DdrRange.patternWrites, List.range_succ, List.flatMap_append, List.flatMap_singleton]
  rfl

theorem verifyWrites_succ (r : DdrRange) (ztoggle : Int) (i : Nat) :
    r.verifyWrites ztoggle (i + 1) = r.verifyWrites ztoggle i ++
      if ¬ Skipped (r.addr i) ∧ i % togglePeriod = 0 then
        [toggleWrite ztoggle (r.toggles r.words + r.toggles i)]
      else [] := by
  rw [DdrRange.verifyWrites, List.range_succ, List.flatMap_append, List.flatMap_singleton]
  rfl

section Verdict

variable {mem : μ} {ztoggle : Int} {i : Nat} {u v : Tester μ}

theorem written_setup (ram : Ram Nat Word μ) (r : DdrRange) (s : Tester μ) :
    AfterWrites ram s.mem s.ztoggle (setupWrites ++ r.patternWrites s.ztoggle 0) (r.toggles 0)
      (setupRegisters ram s) where
  mem_eq := rfl
  phase := by
    show s.ztoggle = 0 ↔ (s.ztoggle = 0 ↔ 0 % 2 = 0)
    simp

theorem written_writeWord
    (h : AfterWrites ram mem ztoggle (setupWrites ++ r.patternWrites ztoggle i) (r.toggles i) u) :
    AfterWrites ram mem ztoggle (setupWrites ++ r.patternWrites ztoggle (i + 1)) (r.toggles (i + 1))
      (writeWord ram r u i) := by
  have hstore := h.store (r.addr i) testPattern
  unfold writeWord
  rw [patternWrites_succ, toggles_succ, ← List.append_assoc]
  by_cases hskip : Skipped (r.addr i)
  · rw [if_pos hskip, if_pos hskip, if_neg (fun h => h.1 hskip), List.append_nil]
    exact h
  rw [if_neg hskip, if_neg hskip]
  dsimp only
  by_cases hperiod : i % togglePeriod = 0
  · rw [if_pos hperiod, if_pos hperiod, if_pos ⟨hskip, hperiod⟩]
    have hreset := hstore.wdreset
    rw [List.append_assoc] at hreset
    exact hreset
  · rw [if_neg hperiod, if_neg hperiod, if_neg (fun h => hperiod h.2)]
    exact hstore

theorem written_verifyWord {ws : List (Nat × Word)}
    (h : AfterWrites ram mem ztoggle (ws ++ r.verifyWrites ztoggle i) (r.toggles r.words + r.toggles i) u)
    (hagain : verifyWord ram r u i = .again v) :
    AfterWrites ram mem ztoggle (ws ++ r.verifyWrites ztoggle (i + 1))
      (r.toggles r.words + r.toggles (i + 1)) v := by
  unfold verifyWord at hagain
  rw [verifyWrites_succ, toggles_succ, ← List.append_assoc]
  by_cases hskip : Skipped (r.addr i)
  · rw [if_pos hskip] at hagain
    obtain rfl := Turn.again.inj hagain
    rw [if_neg (fun h => h.1 hskip), if_neg (fun h => h.1 hskip), List.append_nil]
    exact h
  rw [if_neg hskip] at hagain
  dsimp only at hagain
  split at hagain
  · cases hagain
  obtain rfl := Turn.again.inj hagain
  have hload : AfterWrites ram mem ztoggle (ws ++ r.verifyWrites ztoggle i)
      (r.toggles r.words + r.toggles i) (u.load ram (r.addr i)).2 := ⟨h.mem_eq, h.phase⟩
  by_cases hperiod : i % togglePeriod = 0
  · rw [if_pos hperiod, if_pos ⟨hskip, hperiod⟩, if_pos ⟨hskip, hperiod⟩]
    exact hload.wdreset
  · rw [if_neg hperiod, if_neg (fun h => hperiod h.2), if_neg (fun h => hperiod h.2), List.append_nil]
    exact hload

/-- On any memory, the test passes just when every tested word reads as the pattern when its turn comes. -/
theorem passed_iff_keepsPattern (ram : Ram Nat Word μ) (r : DdrRange) (s : Tester μ) :
    (ddrReadWriteTest ram r s).1 = 0 ↔ r.KeepsPattern ram s.mem s.ztoggle := by
  let reads (i : Nat) : Prop := ram.read (ram.writes s.mem (setupWrites ++
    r.patternWrites s.ztoggle r.words ++ r.verifyWrites s.ztoggle i)) (r.addr i) = testPattern
  let writing (i : Nat) (u : Tester μ) : Prop :=
    AfterWrites ram s.mem s.ztoggle (setupWrites ++ r.patternWrites s.ztoggle i) (r.toggles i) u
  let verifying (i : Nat) (u : Tester μ) : Prop :=
    AfterWrites ram s.mem s.ztoggle (setupWrites ++ r.patternWrites s.ztoggle r.words ++
      r.verifyWrites s.ztoggle i) (r.toggles r.words + r.toggles i) u ∧
    ∀ j < i, ¬ Skipped (r.addr j) → reads j
  have hwritten : ∀ u, writing r.words u → verifying 0 u := by
    refine fun u hu => ⟨⟨?_, hu.phase⟩, fun j hj => absurd hj (Nat.not_lt_zero j)⟩
    show u.mem = ram.writes s.mem (_ ++ [])
    rw [List.append_nil]
    exact hu.mem_eq
  have hagain : ∀ i < r.words, ∀ u v, verifying i u → verifyWord ram r u i = .again v →
      verifying (i + 1) v := by
    rintro i - u v ⟨hu, hreads⟩ hv
    refine ⟨written_verifyWord hu hv, fun j hj hskip => ?_⟩
    rcases Nat.lt_succ_iff_lt_or_eq.mp hj with hj | rfl
    · exact hreads j hj hskip
    · rcases verifyWord_again hv with ⟨hskipped, -⟩ | ⟨-, hword, -⟩
      · exact absurd hskipped hskip
      · rwa [hu.mem_eq] at hword
  have hleft : ∀ i < r.words, ∀ u v, verifying i u → verifyWord ram r u i = .left v →
      ¬ r.KeepsPattern ram s.mem s.ztoggle := by
    rintro i hi u v ⟨hu, -⟩ hv hkeeps
    obtain ⟨hskip, hword, -⟩ := verifyWord_left hv
    rw [hu.mem_eq] at hword
    exact hword (hkeeps i hi hskip)
  have hrule := ddrReadWriteTest_rule writing verifying
    (fun _ => ¬ r.KeepsPattern ram s.mem s.ztoggle) (written_setup ram r s)
    (fun i _ u hu => written_writeWord hu) hwritten hagain hleft
  rcases hrule with ⟨t, heq, -, hreads⟩ | ⟨t, heq, hfailed⟩
  · rw [heq]
    exact iff_of_true rfl hreads
  · rw [heq]
    exact iff_of_false (fun h => by cases h) hfailed

end Verdict

/-! ## The verdict on independent words -/

section Independent

variable {f : Nat → Word → Word} {s t : Tester (Nat → Word)}

theorem mem_wdreset {a : Nat} (h : a ≠ gpioDataOut) :
    (splWdreset (independentWords f) s).mem a = s.mem a := by
  obtain ⟨ztoggle, v, -, heq⟩ := splWdreset_eq (independentWords f) s
  rw [heq]
  exact Function.update_of_ne h v s.mem

theorem toggled_wdreset : Toggled ((splWdreset (independentWords f) s).mem gpioDataOut) := by
  obtain ⟨ztoggle, v, hv, heq⟩ := splWdreset_eq (independentWords f) s
  have hmem : (splWdreset (independentWords f) s).mem gpioDataOut = v := by
    rw [heq]
    show Function.update s.mem gpioDataOut v gpioDataOut = v
    rw [Function.update_self]
  rw [hmem]
  exact hv

/-! ### The words other than the register -/

/-- The first `n` words hold the pattern, except for the register that is toggled. -/
def Written (r : DdrRange) (n : Nat) (s : Tester (Nat → Word)) : Prop :=
  UpTo r n fun a => a ≠ gpioDataOut → s.mem a = testPattern

namespace Written

variable {n : Nat}

theorem wdreset (hs : Written r n s) : Written r n (splWdreset (independentWords f) s) := by
  refine UpTo.mono hs fun a ha hne => ?_
  rw [mem_wdreset hne]
  exact ha hne

theorem store_pattern {i : Nat} (hs : Written r i s) :
    Written r (i + 1) (s.store (independentWords f) (r.addr i) testPattern) := by
  have hbefore : Written r i (s.store (independentWords f) (r.addr i) testPattern) := by
    refine UpTo.mono hs fun a ha hne => ?_
    show Function.update s.mem (r.addr i) testPattern a = testPattern
    by_cases heq : a = r.addr i
    · rw [heq, Function.update_self]
    · rw [Function.update_of_ne heq, ha hne]
  exact hbefore.tested fun _ => Function.update_self _ _ _

theorem writeWord {i : Nat} (hs : Written r i s) :
    Written r (i + 1) (writeWord (independentWords f) r s i) := by
  rcases writeWord_cases (independentWords f) r s i with ⟨hskipped, heq⟩ | ⟨-, ⟨-, heq⟩ | heq⟩
  · rw [heq]
    exact hs.skipped hskipped
  · rw [heq]
    exact hs.store_pattern
  · rw [heq]
    exact hs.store_pattern.wdreset

theorem verifyWord_again (hs : Written r n s) {i : Nat}
    (h : verifyWord (independentWords f) r s i = .again t) : Written r n t := by
  rcases Spl.verifyWord_again h with ⟨-, rfl⟩ | ⟨-, -, ⟨-, rfl⟩ | rfl⟩
  · exact hs
  · exact hs
  · exact wdreset (s := (s.load (independentWords f) (r.addr i)).2) hs

end Written

/-! ### The register

Both sweeps toggle it at their first word, when they test that word at all.
-/

/-- The register lies below the window, and so does the first word when the register is tested. -/
theorem pos_of_skipped (htested : r.Tested gpioDataOut) {i : Nat} (hskip : Skipped (r.addr i)) :
    0 < i := by
  apply Nat.pos_of_ne_zero
  rintro rfl
  obtain ⟨j, hj, -, -⟩ := tested_iff.mp htested
  have hfirst := addr_eq (Nat.zero_lt_of_lt hj)
  have hbase := htested.1
  have hlow : gpioDataOut < 0x81f00000 := by decide
  have hwindow := hskip.1
  omega

/-- A register that is the first word has been toggled since the pattern was written to it. -/
def FirstToggled (r : DdrRange) (n : Nat) (s : Tester (Nat → Word)) : Prop :=
  r.Tested gpioDataOut → r.addr 0 = gpioDataOut → 0 < n → Toggled (s.mem gpioDataOut)

theorem FirstToggled.writeWord {i : Nat} (hi : i < r.words) (hs : FirstToggled r i s) :
    FirstToggled r (i + 1) (writeWord (independentWords f) r s i) := by
  intro htested hfirst _
  rcases writeWord_cases (independentWords f) r s i with ⟨hskipped, heq⟩ | ⟨-, ⟨hpos, heq⟩ | heq⟩
  · rw [heq]
    exact hs htested hfirst (pos_of_skipped htested hskipped)
  · have hne : gpioDataOut ≠ r.addr i := by
      rw [← hfirst, addr_eq hi, addr_eq (Nat.zero_lt_of_lt hi)]
      omega
    rw [heq]
    show Toggled (Function.update s.mem (r.addr i) testPattern gpioDataOut)
    rw [Function.update_of_ne hne]
    exact hs htested hfirst (Nat.pos_of_ne_zero hpos)
  · rw [heq]
    exact toggled_wdreset

/-- The second sweep has toggled the register, or the first one has since it wrote the pattern to it. -/
def RegisterToggled (r : DdrRange) (n : Nat) (s : Tester (Nat → Word)) : Prop :=
  r.Tested gpioDataOut → r.addr 0 = gpioDataOut ∨ 0 < n → Toggled (s.mem gpioDataOut)

namespace RegisterToggled

theorem of_first (hs : FirstToggled r r.words s) : RegisterToggled r 0 s := by
  intro htested hn
  obtain ⟨i, hi, -, -⟩ := tested_iff.mp htested
  rcases hn with hfirst | hn
  · exact hs htested hfirst (Nat.zero_lt_of_lt hi)
  · exact absurd hn (Nat.lt_irrefl 0)

theorem verifyWord_again {i : Nat} (hs : RegisterToggled r i s)
    (h : verifyWord (independentWords f) r s i = .again t) : RegisterToggled r (i + 1) t := by
  intro htested _
  rcases Spl.verifyWord_again h with ⟨hskipped, rfl⟩ | ⟨-, -, ⟨hpos, rfl⟩ | rfl⟩
  · exact hs htested (Or.inr (pos_of_skipped htested hskipped))
  · exact hs htested (Or.inr (Nat.pos_of_ne_zero hpos))
  · exact toggled_wdreset

end RegisterToggled

/-! ### What a comparison reads -/

/-- What the word at `a` can hold when it is compared. -/
def Holds (a : Nat) (v : Word) : Prop := if a = gpioDataOut then Toggled v else v = testPattern

theorem toggled_of_holds {a : Nat} {v : Word} (h : Holds a v) :
    ∃ toggled, Toggled toggled ∧ v = if a = gpioDataOut then toggled else testPattern := by
  unfold Holds at h
  by_cases heq : a = gpioDataOut
  · rw [if_pos heq] at h
    exact ⟨v, h, (if_pos heq).symm⟩
  · rw [if_neg heq] at h
    refine ⟨_, Or.inl rfl, ?_⟩
    rw [if_neg heq]
    exact h

theorem holds_compared {i : Nat} (hi : i < r.words) (hskip : ¬ Skipped (r.addr i))
    (hwritten : Written r r.words s) (hregister : RegisterToggled r i s) :
    Holds (r.addr i) (s.mem (r.addr i)) := by
  unfold Holds
  split
  case isTrue heq =>
    have htested : r.Tested gpioDataOut := heq ▸ tested_addr hi hskip
    rw [heq]
    apply hregister htested
    rcases Nat.eq_zero_or_pos i with rfl | hpos
    · exact Or.inl heq
    · exact Or.inr hpos
  case isFalse hne => exact hwritten i hi hskip hne

/-- A passed test has read the pattern from all tested words, a failed one something else from one. -/
theorem compared_words (f : Nat → Word → Word) (r : DdrRange) (s : Tester (Nat → Word)) :
    (ddrReadWriteTest (independentWords f) r s).1 = 0 ∧
        (∀ a, r.Tested a → ∃ v, Holds a v ∧ f a v = testPattern) ∨
      (ddrReadWriteTest (independentWords f) r s).1 ≠ 0 ∧
        ∃ a, r.Tested a ∧ ∃ v, Holds a v ∧ f a v ≠ testPattern := by
  let writing (n : Nat) (u : Tester (Nat → Word)) : Prop := Written r n u ∧ FirstToggled r n u
  let verifying (n : Nat) (u : Tester (Nat → Word)) : Prop :=
    Written r r.words u ∧ RegisterToggled r n u ∧
      UpTo r n fun a => ∃ v, Holds a v ∧ f a v = testPattern
  let failed (_ : Tester (Nat → Word)) : Prop :=
    ∃ a, r.Tested a ∧ ∃ v, Holds a v ∧ f a v ≠ testPattern
  have hsetup : writing 0 (setupRegisters (independentWords f) s) :=
    ⟨UpTo.zero, fun _ _ hn => absurd hn (Nat.lt_irrefl 0)⟩
  have hagain : ∀ i < r.words, ∀ u v, verifying i u →
      verifyWord (independentWords f) r u i = .again v → verifying (i + 1) v := by
    rintro i hi u v ⟨hwritten, hregister, hreads⟩ hv
    refine ⟨hwritten.verifyWord_again hv, hregister.verifyWord_again hv, ?_⟩
    rcases verifyWord_again hv with ⟨hskipped, -⟩ | ⟨hskip, hword, -⟩
    · exact hreads.skipped hskipped
    · exact hreads.tested ⟨_, holds_compared hi hskip hwritten hregister, hword⟩
  have hleft : ∀ i < r.words, ∀ u v, verifying i u →
      verifyWord (independentWords f) r u i = .left v → failed v := by
    rintro i hi u v ⟨hwritten, hregister, -⟩ hv
    obtain ⟨hskip, hword, -⟩ := verifyWord_left hv
    exact ⟨_, tested_addr hi hskip, _, holds_compared hi hskip hwritten hregister, hword⟩
  have hrule := ddrReadWriteTest_rule writing verifying failed hsetup
    (fun i hi u hu => ⟨hu.1.writeWord, hu.2.writeWord hi⟩)
    (fun u hu => ⟨hu.1, RegisterToggled.of_first hu.2, UpTo.zero⟩) hagain hleft
  rcases hrule with ⟨t, heq, -, -, hreads⟩ | ⟨t, heq, hfailed⟩
  · left
    exact ⟨congrArg Prod.fst heq, UpTo.words_iff.mp hreads⟩
  · right
    refine ⟨?_, hfailed⟩
    rw [heq]
    exact fun h => by cases h

theorem verdict (f : Nat → Word → Word) (r : DdrRange) (s : Tester (Nat → Word)) :
    ∃ toggled, Toggled toggled ∧ ((ddrReadWriteTest (independentWords f) r s).1 = 0 ↔
      ∀ a, r.Tested a → f a (if a = gpioDataOut then toggled else testPattern) = testPattern) := by
  rcases compared_words f r s with ⟨hpassed, hreads⟩ | ⟨hfailed, a, ha, v, hholds, hne⟩
  · obtain ⟨toggled, htoggled, hregister⟩ : ∃ toggled, Toggled toggled ∧
        (r.Tested gpioDataOut → f gpioDataOut toggled = testPattern) := by
      by_cases htested : r.Tested gpioDataOut
      · obtain ⟨v, hholds, hv⟩ := hreads _ htested
        rw [Holds, if_pos rfl] at hholds
        exact ⟨v, hholds, fun _ => hv⟩
      · exact ⟨_, Or.inl rfl, fun h => absurd h htested⟩
    refine ⟨toggled, htoggled, iff_of_true hpassed fun b hb => ?_⟩
    split
    case isTrue heq =>
      subst heq
      exact hregister hb
    case isFalse hb' =>
      obtain ⟨v, hholds, hv⟩ := hreads b hb
      rw [Holds, if_neg hb'] at hholds
      rw [hholds] at hv
      exact hv
  · obtain ⟨toggled, htoggled, heq⟩ := toggled_of_holds hholds
    refine ⟨toggled, htoggled, iff_of_false hfailed fun h => hne ?_⟩
    rw [heq]
    exact h a ha

/-- Away from the register the verdict is about the pattern alone. -/
theorem verdict_iff (hgpio : ¬ r.Tested gpioDataOut) (s : Tester (Nat → Word)) :
    (ddrReadWriteTest (independentWords f) r s).1 = 0 ↔
      ∀ a, r.Tested a → f a testPattern = testPattern := by
  obtain ⟨toggled, -, hverdict⟩ := verdict f r s
  rw [hverdict]
  refine forall₂_congr fun a ha => ?_
  rw [if_neg]
  rintro rfl
  exact hgpio ha

end Independent

/-! ## Main results -/

/-- On independent words the test gives the exact verdict and has the exact footprint. -/
theorem ddr_test_exact (f : Nat → Word → Word) (r : DdrRange) (mem : Nat → Word) (ztoggle : Int) :
    ExactTest f r (ddrReadWriteTest (independentWords f) r (.start mem ztoggle)) := by
  obtain ⟨hfootprint, hcovered⟩ := footprint_test (independentWords f)
    (Footprint.start (r := r) mem ztoggle)
  constructor
  · exact verdict f r _
  · exact otherwise _ r _
  · exact hfootprint
  · exact UpTo.words_iff.mp hcovered

/-- A range of one word, the register that the test toggles. -/
def gpioRange : DdrRange where
  base := gpioDataOut
  size := 4
  aligned := by decide
  fits := by decide

/-- Every word reads as it was written. The toggle comes after the pattern, and the test fails. -/
theorem toggled_word_fails :
    (ddrReadWriteTest (independentWords fun _ v => v) gpioRange (.start (fun _ => 0) 1)).1 = -1 ∧
    ¬ ((ddrReadWriteTest (independentWords fun _ v => v) gpioRange (.start (fun _ => 0) 1)).1 = 0 ↔
      ∀ a, gpioRange.Tested a → testPattern = testPattern) := by
  have hfails : (ddrReadWriteTest (independentWords fun _ v => v) gpioRange
      (.start (fun _ => 0) 1)).1 = -1 := by decide +kernel
  refine ⟨hfails, fun hiff => ?_⟩
  have hpasses := hiff.mpr fun _ _ => rfl
  rw [hfails] at hpasses
  cases hpasses

/-- After a passed test, words in different cells are read back as they were written, except that their
stuck bits read as in the pattern. -/
theorem passed_test_usable {γ : Type*} [DecidableEq γ] (cell : Nat → γ) (bits : γ → StuckBits 32)
    (r : DdrRange) (s : Tester (γ → Word))
    (h : (ddrReadWriteTest (decoded cell fun c => (bits c).reads) r s).1 = 0) (m : γ → Word)
    (ws : List (Nat × Word)) (htested : ∀ w ∈ ws, r.Tested w.1)
    (hcells : (ws.map fun w => cell w.1).Nodup) :
    ∀ w ∈ ws, (decoded cell fun c => (bits c).reads).read
        ((decoded cell fun c => (bits c).reads).writes m ws) w.1 =
      (w.2 &&& ~~~(bits (cell w.1)).mask) ||| (testPattern &&& (bits (cell w.1)).mask) := by
  intro w hw
  obtain ⟨m', hread⟩ := passed_reads h (htested w hw)
  have hbits : (bits (cell w.1)).reads (m' (cell w.1)) = testPattern := hread
  rw [decoded_read_writes hcells hw]
  exact StuckBits.reads_eq_of_reads hbits w.2

/-- The first two words of the DDR. -/
def firstWords : DdrRange where
  base := 0x80000000
  size := 8
  aligned := ⟨0x20000000, rfl⟩
  fits := by decide

def noStuckBits : StuckBits 32 := { mask := 0, value := 0 }

/-- On a memory without faults the two words are read back. -/
theorem passed_test_usable_firstWords :
    (ddrReadWriteTest (decoded id fun _ => noStuckBits.reads) firstWords
      (.start (fun _ => 0) 1)).1 = 0 ∧
    ∀ w ∈ [(0x80000000, (1 : Word)), (0x80000004, 2)],
      (decoded id fun _ => noStuckBits.reads).read
        ((decoded id fun _ => noStuckBits.reads).writes (fun _ => 0)
          [(0x80000000, 1), (0x80000004, 2)]) w.1 =
      (w.2 &&& ~~~noStuckBits.mask) ||| (testPattern &&& noStuckBits.mask) :=
  ⟨by decide +kernel,
    passed_test_usable id (fun _ => noStuckBits) firstWords (.start (fun _ => 0) 1) (by decide +kernel)
      (fun _ => 0) [(0x80000000, 1), (0x80000004, 2)] (by decide) (by decide)⟩

/-- The two words in one cell. -/
def oneCell (a : Nat) : Nat := if a = 0x80000004 then 0x80000000 else a

def patternBits : StuckBits 32 := { mask := 1, value := testPattern }

/-- The test passes when both words are in one cell, and when a bit of every word is stuck as in the
pattern; in neither case do the words behave as independent memory. -/
theorem passed_test_not_independent :
    ((ddrReadWriteTest (decoded oneCell fun _ => noStuckBits.reads) firstWords
        (.start (fun _ => 0) 1)).1 = 0 ∧
      ¬ (decoded oneCell fun _ => noStuckBits.reads).Independent firstWords.Tested fun _ => 0) ∧
    (ddrReadWriteTest (decoded id fun _ => patternBits.reads) firstWords (.start (fun _ => 0) 1)).1 = 0 ∧
      ¬ (decoded id fun _ => patternBits.reads).Independent firstWords.Tested fun _ => 0 := by
  refine ⟨⟨by decide +kernel, fun h => ?_⟩, by decide +kernel, fun h => ?_⟩
  · have hread := h [(0x80000000, 1), (0x80000004, 2)] (by decide) (by decide) (0x80000000, 1) (by decide)
    exact absurd hread (by decide +kernel)
  · have hread := h [(0x80000000, 0)] (by decide) (by decide) (0x80000000, 0) (by decide)
    exact absurd hread (by decide +kernel)

end Am437x.Spl
