import Am437x.Phy.Dp83822

/-!
# The LEDs track their PHYs

The cached state of a PHY is the link bit of its last successful reading, and its lines show that bit.
Every call keeps this: the nested branches of the driver write the two lines of the PHY called, and only
when its cached state differs.
-/

namespace Am437x.Phy

open Runs Writes

variable {leds : LedGpios}

/-! ## Lines -/

theorem eq_of_mem_of {a b : Addr} {g : Nat} (ha : g ∈ leds.of a) (hb : g ∈ leds.of b) : a = b := by
  have hd := leds.distinct
  match a, b with
  | 0, 0 => rfl
  | 1, 1 => rfl
  | 0, 1 | 1, 0 =>
    simp only [LedGpios.of, List.mem_cons, List.not_mem_nil, or_false] at ha hb
    simp only [List.nodup_cons, List.mem_cons, List.not_mem_nil, or_false, not_or] at hd
    grind

/-! ## One call -/

/-- The value of `prev_lstatus` after a reading of the link bit. -/
def lstatus (link : Bool) : Int := if link then 1 else 0

/-- The value of `prev_lstatus` after the last successful reading, if any. -/
def cached : Option Bool → Int
  | none => -1
  | some link => lstatus link

theorem cached_eq_lstatus_iff {last : Option Bool} {link : Bool} :
    cached last = lstatus link ↔ last = some link := by
  rcases last with _ | _ | _ <;> cases link <;> decide

/-- The four branches of the driver are one rule. For PHY 0 with its state unchanged the `else` branch is
taken too: its second test, of the same cached state, keeps it from writing the lines of PHY 1. -/
theorem ledWrites_eq (addr : Addr) (prev : Int) (link : Bool) :
    ledWrites leds addr prev link =
      if prev = lstatus link then [] else (leds.of addr).map fun gpio => (gpio, !link) := by
  match addr with
  | 0 | 1 => cases link <;> simp [ledWrites, lstatus, LedGpios.of] <;> split <;> simp_all

theorem ne_zero_of_slt {x : BitVec 32} (h : x.slt 0 = true) : x ≠ 0 := by
  rintro rfl
  exact absurd h (by decide)

theorem fiberStatus_error_ne {phydev : Phydev} {io : Io} {error : BitVec 32}
    (h : (fiberStatus phydev io).2.2 = some error) : error ≠ 0 := by
  unfold fiberStatus at h
  grind [ne_zero_of_slt]

/-- A call fails and leaves the LEDs and the cached state as they are, or it succeeds and sets both from
the link bit. -/
theorem outcome_cases (leds : LedGpios) (b : Board) (c : Call) :
    ((b.outcome leds c).ret ≠ 0 ∧ (b.outcome leds c).gpioWrites = [] ∧
      (b.outcome leds c).prevLstatus = b.prevLstatus c.addr) ∨
    ((b.outcome leds c).ret = 0 ∧
      (b.outcome leds c).gpioWrites = ledWrites leds c.addr (b.prevLstatus c.addr) c.io.link ∧
      (b.outcome leds c).prevLstatus = lstatus c.io.link) := by
  unfold Board.outcome readStatus
  split
  case h_1 hfiber =>
    have herror := congrArg (fun x => x.2.2) hfiber
    exact Or.inl ⟨fiberStatus_error_ne herror, rfl, rfl⟩
  case h_2 =>
    dsimp only
    split
    · next hret => exact Or.inl ⟨hret, rfl, rfl⟩
    split
    · next hneg => exact Or.inl ⟨ne_zero_of_slt hneg, rfl, rfl⟩
    · exact Or.inr ⟨rfl, rfl, rfl⟩

/-! ## The invariant -/

/-- The cached state of a PHY is its last reading, and its lines show this reading. -/
structure Inv (leds : LedGpios) (b : Board) : Prop where
  cache : ∀ addr, b.prevLstatus addr = cached (b.lastReading addr)
  shown : ∀ addr link, b.lastReading addr = some link → ∀ gpio ∈ leds.of addr, b.gpio gpio = !link

theorem inv_probed (leds : LedGpios) (nodes : Addr → PhyNode) (first : Addr) (gpio : Nat → Bool)
    (phydev : Addr → Phydev) : Inv leds (.probed leds nodes first gpio phydev) where
  cache _ := rfl
  shown _ _ h := by cases h

theorem probed_gpio (leds : LedGpios) (nodes : Addr → PhyNode) (first : Addr) (gpio : Nat → Bool)
    (phydev : Addr → Phydev) {g : Nat} (hg : g ∈ leds.toList) :
    (Board.probed leds nodes first gpio phydev).gpio g = true := by
  have hhigh := writeAll_const gpio leds.toList true g
  rw [if_pos hg] at hhigh
  exact hhigh

theorem step_of_failed {b b' : Board} {c : Call} (hi : Inv leds b) (h : step leds b c = some b')
    (hret : (b.outcome leds c).ret ≠ 0) (hwrites : (b.outcome leds c).gpioWrites = [])
    (hprev : (b.outcome leds c).prevLstatus = b.prevLstatus c.addr) :
    LedsTrack leds b c b' ∧ Inv leds b' := by
  obtain rfl := Option.some.inj h
  constructor
  · constructor
    · intro h0
      exact absurd h0 hret
    · simp [hwrites]
    · exact fun _ => hwrites
    · simp [hwrites]
  · rw [if_neg hret, hwrites, hprev, Function.update_eq_self]
    exact ⟨hi.cache, hi.shown⟩

theorem step_of_succeeded {b b' : Board} {c : Call} (hi : Inv leds b) (h : step leds b c = some b')
    (hret : (b.outcome leds c).ret = 0)
    (hwrites : (b.outcome leds c).gpioWrites =
      ledWrites leds c.addr (b.prevLstatus c.addr) c.io.link)
    (hprev : (b.outcome leds c).prevLstatus = lstatus c.io.link) :
    LedsTrack leds b c b' ∧ Inv leds b' := by
  have hcache : b.prevLstatus c.addr = lstatus c.io.link ↔
      b.lastReading c.addr = some c.io.link := by
    rw [hi.cache, cached_eq_lstatus_iff]
  rw [ledWrites_eq] at hwrites
  have hmem : ∀ w ∈ (b.outcome leds c).gpioWrites,
      w.1 ∈ leds.of c.addr ∧ b.prevLstatus c.addr ≠ lstatus c.io.link := by
    intro w hw
    rw [hwrites] at hw
    split at hw
    · cases hw
    · next hne =>
      obtain ⟨g, hg, rfl⟩ := List.mem_map.mp hw
      exact ⟨hg, hne⟩
  have hgpio : b'.gpio = writeAll b.gpio (b.outcome leds c).gpioWrites := by
    rw [← Option.some.inj h]
  have hlast : b'.lastReading = Function.update b.lastReading c.addr (some c.io.link) := by
    rw [← Option.some.inj h]
    exact if_pos hret
  have hprev' : b'.prevLstatus = Function.update b.prevLstatus c.addr (lstatus c.io.link) := by
    rw [← Option.some.inj h, ← hprev]
  -- the lines of the PHY show the bit, because they are written now or showed it before
  have hshown : ∀ g ∈ leds.of c.addr, b'.gpio g = !c.io.link := by
    intro g hg
    rw [hgpio, hwrites]
    split
    · next heq => exact hi.shown _ _ (hcache.mp heq) g hg
    · rw [writeAll_const, if_pos hg]
  have hother : ∀ addr ≠ c.addr, ∀ g ∈ leds.of addr, b'.gpio g = b.gpio g := by
    intro addr hne g hg
    rw [hgpio]
    refine writeAll_of_notMem fun w hw hwg => hne ?_
    exact eq_of_mem_of hg (hwg ▸ (hmem w hw).1)
  constructor
  · constructor
    · intro _ g hg
      simp [hshown g hg]
    · intro w hw addr hne hg
      exact hne (eq_of_mem_of hg (hmem w hw).1)
    · intro hne
      exact absurd hret hne
    · intro w hw _ heq
      exact (hmem w hw).2 (hcache.mpr heq)
  · constructor
    · intro addr
      rw [hprev', hlast]
      by_cases ha : addr = c.addr
      · subst ha
        simp [cached]
      · simp [ha, hi.cache]
    · intro addr link hl g hg
      rw [hlast] at hl
      by_cases ha : addr = c.addr
      · subst ha
        obtain rfl : c.io.link = link := by simpa using hl
        exact hshown g hg
      · rw [hother addr ha g hg]
        exact hi.shown addr link (by simpa [ha] using hl) g hg

theorem step_ledsTrack {b b' : Board} {c : Call} (hi : Inv leds b) (h : step leds b c = some b') :
    LedsTrack leds b c b' ∧ Inv leds b' := by
  rcases outcome_cases leds b c with ⟨hret, hwrites, hprev⟩ | ⟨hret, hwrites, hprev⟩
  · exact step_of_failed hi h hret hwrites hprev
  · exact step_of_succeeded hi h hret hwrites hprev

/-! ## Main result -/

/-- Whatever the registers and the bus answer, in every sequence of calls on the two PHYs the LEDs of each
follow its own link. -/
theorem leds_track (leds : LedGpios) (nodes : Addr → PhyNode) (first : Addr) (gpio : Nat → Bool)
    (phydev : Addr → Phydev) (calls : List Call) :
    (∀ g ∈ leds.toList, (Board.probed leds nodes first gpio phydev).gpio g = true) ∧
      AllSteps (step leds) (LedsTrack leds) (.probed leds nodes first gpio phydev) calls := by
  constructor
  · intro g hg
    exact probed_gpio leds nodes first gpio phydev hg
  · apply allSteps_of_inv (Inv leds)
    · intro b c b' hi h
      exact step_ledsTrack hi h
    · exact inv_probed leds nodes first gpio phydev

end Am437x.Phy
