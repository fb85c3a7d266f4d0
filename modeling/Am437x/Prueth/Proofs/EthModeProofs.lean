import Am437x.Prueth.EthMode

/-!
# When the mode is kept under a running port

A port runs with the flags of the mode in force: this is checked when it is opened, and neither the flags
of a port nor the mode can be changed by a request for other flags while a port runs. A request for the
flags that a port already has passes both guards of the driver, and sets the mode all the same.
-/

namespace Am437x.Prueth.EthMode

open Runs BitFlags

variable {bits : OffloadBits}

/-! ## Flags -/

def wantsHsr (bits : OffloadBits) (features : BitVec 64) : Bool :=
  features.getLsbD bits.hsrRxOffload

def wantsPrp (bits : OffloadBits) (features : BitVec 64) : Bool :=
  features.getLsbD bits.prpRxOffload

@[simp] theorem and_hsr_eq_zero {features : BitVec 64} :
    features &&& bits.hsr = 0 ↔ wantsHsr bits features = false := by
  rw [← not_iff_not, Bool.not_eq_false]
  exact and_twoPow_ne_zero bits.hsrRxOffload.isLt

@[simp] theorem and_prp_eq_zero {features : BitVec 64} :
    features &&& bits.prp = 0 ↔ wantsPrp bits features = false := by
  rw [← not_iff_not, Bool.not_eq_false]
  exact and_twoPow_ne_zero bits.prpRxOffload.isLt

section Words

variable (f g : BitVec 64)

@[simp] theorem wantsHsr_or : wantsHsr bits (f ||| g) = (wantsHsr bits f || wantsHsr bits g) := by
  simp [wantsHsr]

@[simp] theorem wantsPrp_or : wantsPrp bits (f ||| g) = (wantsPrp bits f || wantsPrp bits g) := by
  simp [wantsPrp]

@[simp] theorem wantsHsr_and : wantsHsr bits (f &&& g) = (wantsHsr bits f && wantsHsr bits g) := by
  simp [wantsHsr]

@[simp] theorem wantsPrp_and : wantsPrp bits (f &&& g) = (wantsPrp bits f && wantsPrp bits g) := by
  simp [wantsPrp]

@[simp] theorem wantsHsr_not : wantsHsr bits (~~~f) = !wantsHsr bits f := by
  simp [wantsHsr]

@[simp] theorem wantsPrp_not : wantsPrp bits (~~~f) = !wantsPrp bits f := by
  simp [wantsPrp]

end Words

theorem wants_hsr : wantsHsr bits bits.hsr = true ∧ wantsPrp bits bits.hsr = false := by
  have hd := bits.distinct
  simp_all [wantsHsr, wantsPrp, OffloadBits.hsr, Fin.ext_iff]
  omega

theorem wants_prp : wantsHsr bits bits.prp = false ∧ wantsPrp bits bits.prp = true := by
  have hd := bits.distinct
  simp_all [wantsHsr, wantsPrp, OffloadBits.prp, Fin.ext_iff]

theorem wants_l2fw : wantsHsr bits bits.l2fw = false ∧ wantsPrp bits bits.l2fw = false := by
  have hd := bits.distinct
  simp_all [wantsHsr, wantsPrp, OffloadBits.l2fw, Fin.ext_iff]

theorem lreFlags_eq_iff {f g : BitVec 64} :
    bits.lreFlags f = bits.lreFlags g ↔
      wantsHsr bits f = wantsHsr bits g ∧ wantsPrp bits f = wantsPrp bits g := by
  have hmask : ∀ i, (bits.hsr ||| bits.prp).getLsbD i = true ↔
      i = bits.hsrRxOffload ∨ i = bits.prpRxOffload := fun i =>
    getLsbD_twoPow_or bits.hsrRxOffload.isLt bits.prpRxOffload.isLt
  simp only [OffloadBits.lreFlags, and_eq_and_iff, hmask, wantsHsr, wantsPrp]
  constructor
  · intro h
    exact ⟨h _ (Or.inl rfl), h _ (Or.inr rfl)⟩
  · rintro ⟨hh, hp⟩ i (rfl | rfl)
    · exact hh
    · exact hp

theorem lreFlags_eq_zero {f : BitVec 64} :
    bits.lreFlags f = 0 ↔ wantsHsr bits f = false ∧ wantsPrp bits f = false := by
  have hzero : bits.lreFlags 0 = 0 := BitVec.zero_and
  rw [← hzero, lreFlags_eq_iff]
  simp [wantsHsr, wantsPrp]

theorem ethTypeOf_eq (f : BitVec 64) :
    ethTypeOf bits f =
      if wantsHsr bits f then .hsr else if wantsPrp bits f then .prp else .emac := by
  simp only [ethTypeOf, ne_eq, and_hsr_eq_zero, and_prp_eq_zero, Bool.not_eq_false]

def Exclusive (bits : OffloadBits) (f : BitVec 64) : Prop :=
  ¬ (wantsHsr bits f = true ∧ wantsPrp bits f = true)

theorem ethTypeOf_eq_iff {f g : BitVec 64} (hf : Exclusive bits f) (hg : Exclusive bits g) :
    ethTypeOf bits f = ethTypeOf bits g ↔ bits.lreFlags f = bits.lreFlags g := by
  rw [lreFlags_eq_iff, ethTypeOf_eq, ethTypeOf_eq]
  unfold Exclusive at hf hg
  grind

theorem ethTypeOf_ne_switch (f : BitVec 64) : ethTypeOf bits f ≠ .switch := by
  rw [ethTypeOf_eq]
  grind

/-- The flags a request leaves on the port: the ones of the mode it selects. -/
theorem wants_offloadFeatures (ndevFeatures f : BitVec 64) :
    wantsHsr bits (offloadFeatures bits ndevFeatures f) = wantsHsr bits f ∧
      wantsPrp bits (offloadFeatures bits ndevFeatures f) = (!wantsHsr bits f && wantsPrp bits f) := by
  rw [offloadFeatures, ethTypeOf_eq]
  cases hh : wantsHsr bits f <;> cases hp : wantsPrp bits f <;>
    simp [wants_hsr, wants_prp, wants_l2fw]

theorem exclusive_offloadFeatures (ndevFeatures f : BitVec 64) :
    Exclusive bits (offloadFeatures bits ndevFeatures f) := by
  obtain ⟨hh, hp⟩ := @wants_offloadFeatures bits ndevFeatures f
  rw [Exclusive, hh, hp]
  grind

/-- The check of `emac_ndo_open`: the flags of the port are those of the mode. -/
theorem ethTypeOf_of_sanitize {ethType : EthType} {f : BitVec 64} (hf : Exclusive bits f)
    (hswitch : ethType ≠ .switch) (h : emacSanitizeFeatureFlags bits ethType f = 0) :
    ethTypeOf bits f = ethType := by
  have hinval : eInval ≠ 0 := by decide
  unfold Exclusive at hf
  rw [ethTypeOf_eq]
  cases ethType with
  | switch => exact absurd rfl hswitch
  | hsr | prp | emac =>
    simp only [emacSanitizeFeatureFlags, and_hsr_eq_zero, and_prp_eq_zero, ne_eq,
      lreFlags_eq_zero] at h
    grind

/-! ## The calls -/

theorem firstError_head {ret : Int} {rets : List Int} (h : firstError (ret :: rets) = 0) :
    ret = 0 := by
  by_contra hne
  rw [firstError, if_pos hne] at h
  exact hne h

/-- Opening a port changes neither mode nor features, and succeeds only with the flags of the mode. -/
theorem emacNdoOpen_cases (s : Device) (p : Port) (io : OpenIo) :
    (emacNdoOpen bits s p io).2.ethType = s.ethType ∧
      (emacNdoOpen bits s p io).2.features = s.features ∧
      (emacNdoOpen bits s p io).2.running = s.running ∧
      ((emacNdoOpen bits s p io).1 = 0 →
        emacSanitizeFeatureFlags bits s.ethType (s.features p) = 0) := by
  by_cases hret : firstError (openStages bits s p io) = 0
  · rw [emacNdoOpen, if_neg (not_not.mpr hret)]
    exact ⟨rfl, rfl, rfl, fun _ => firstError_head hret⟩
  · rw [emacNdoOpen, if_pos hret]
    exact ⟨rfl, rfl, rfl, fun h => absurd h hret⟩

/-- A request is refused when it asks for other flags while a port runs, and granted otherwise. -/
theorem emacNdoSetFeatures_eq {s : Device} (hswitch : s.ethType ≠ .switch) (p : Port)
    (f : BitVec 64) :
    (emacNdoSetFeatures bits true s p f).2 =
      if (∃ q, s.running q = true) ∧ bits.lreFlags f ≠ bits.lreFlags (s.features p) then s
      else { s with
        ethType := ethTypeOf bits f
        features := Function.update s.features p (offloadFeatures bits (s.features p) f) } := by
  have hany : (∃ q, s.running q = true) ↔ s.running p = true ∨ s.running (otherPort p) = true := by
    constructor
    · rintro ⟨q, hq⟩
      rcases eq_or_eq_otherPort p q with rfl | rfl
      · exact Or.inl hq
      · exact Or.inr hq
    · rintro (h | h)
      · exact ⟨_, h⟩
      · exact ⟨_, h⟩
  have hchange : bits.lreFlags f ^^^ bits.lreFlags (s.features p) ≠ 0 ↔
      bits.lreFlags f ≠ bits.lreFlags (s.features p) := not_congr BitVec.xor_eq_zero_iff
  simp only [emacNdoSetFeatures, hchange, hany]
  grind

/-! ## The invariant -/

/-- The flags of a port never ask for both modes, and a running port has those of the mode in force. -/
structure Inv (bits : OffloadBits) (s : Device) : Prop where
  not_switch : s.ethType ≠ .switch
  exclusive : ∀ p, Exclusive bits (s.features p)
  running : ∀ p, s.running p = true → ethTypeOf bits (s.features p) = s.ethType

theorem inv_probed (features : Port → BitVec 64) : Inv bits (.probed bits features) := by
  refine ⟨by simp [Device.probed], fun p h => ?_, by simp [Device.probed]⟩
  have hhsr := h.1
  simp [Device.probed, wants_hsr, wants_prp, wants_l2fw] at hhsr

theorem inv_open {s s' : Device} {p : Port} {io : OpenIo} (hi : Inv bits s)
    (h : step bits s (.ndoOpen p io) = some s') : Inv bits s' := by
  obtain ⟨htype, hfeatures, hrunning, hopen⟩ := @emacNdoOpen_cases bits s p io
  simp only [step] at h
  split at h
  · cases h
  obtain rfl := Option.some.inj h
  constructor
  · exact htype ▸ hi.not_switch
  · exact hfeatures ▸ hi.exclusive
  · intro q hq
    dsimp only at hq ⊢
    rw [htype, hfeatures]
    by_cases hqp : q = p
    · subst hqp
      have hret : (emacNdoOpen bits s q io).1 = 0 := by simpa using hq
      exact ethTypeOf_of_sanitize (hi.exclusive q) hi.not_switch (hopen hret)
    · rw [hrunning, Function.update_of_ne hqp] at hq
      exact hi.running q hq

theorem inv_stop {s s' : Device} {p : Port} (hi : Inv bits s)
    (h : step bits s (.ndoStop p) = some s') : Inv bits s' := by
  simp only [step] at h
  split at h
  · obtain rfl := Option.some.inj h
    refine ⟨hi.not_switch, hi.exclusive, fun q hq => hi.running q ?_⟩
    by_cases hqp : q = p
    · subst hqp
      simp at hq
    · simpa [emacNdoStop, hqp] using hq
  · cases h

section SetFeatures

variable {s s' : Device} {p : Port} {f : BitVec 64}

theorem setFeatures_refused (hi : Inv bits s) (h : step bits s (.setFeatures p f) = some s')
    (hrun : ∃ q, s.running q = true)
    (hne : bits.lreFlags f ≠ bits.lreFlags (s.features p)) : s' = s := by
  rw [step, emacNdoSetFeatures_eq hi.not_switch, if_pos ⟨hrun, hne⟩] at h
  exact (Option.some.inj h).symm

theorem setFeatures_granted (hi : Inv bits s) (h : step bits s (.setFeatures p f) = some s')
    (hgrant : ¬ ((∃ q, s.running q = true) ∧ bits.lreFlags f ≠ bits.lreFlags (s.features p))) :
    s'.ethType = ethTypeOf bits f ∧ s'.running = s.running ∧
      s'.features = Function.update s.features p (offloadFeatures bits (s.features p) f) := by
  rw [step, emacNdoSetFeatures_eq hi.not_switch, if_neg hgrant] at h
  obtain rfl := Option.some.inj h
  exact ⟨rfl, rfl, rfl⟩

theorem lreFlags_offloadFeatures (hi : Inv bits s)
    (hsame : bits.lreFlags f = bits.lreFlags (s.features p)) :
    bits.lreFlags (offloadFeatures bits (s.features p) f) = bits.lreFlags (s.features p) := by
  obtain ⟨hh, hp⟩ := lreFlags_eq_iff.mp hsame
  obtain ⟨hh', hp'⟩ := @wants_offloadFeatures bits (s.features p) f
  have hexcl := hi.exclusive p
  unfold Exclusive at hexcl
  rw [lreFlags_eq_iff, hh', hp']
  grind

/-- While a port runs, the request for the flags that its own port has keeps the mode just when the
running port has these flags too. -/
theorem modeKept_iff (hi : Inv bits s) (h : step bits s (.setFeatures p f) = some s') :
    ModeKept s (.setFeatures p f) s' ↔ FlagsAgree bits s (.setFeatures p f) s' := by
  by_cases hsame : bits.lreFlags f = bits.lreFlags (s.features p)
  case neg =>
    constructor
    · rintro - p' f' he - - hsame'
      cases he
      exact absurd hsame' hsame
    · rintro - p' f' he hrun
      cases he
      rw [setFeatures_refused hi h hrun hsame]
  case pos =>
    obtain ⟨htype, -, -⟩ := setFeatures_granted hi h (by simp [hsame])
    have htype' : s'.ethType = ethTypeOf bits (s.features p) := by
      obtain ⟨hh, hp⟩ := lreFlags_eq_iff.mp hsame
      rw [htype, ethTypeOf_eq, ethTypeOf_eq, hh, hp]
    -- with the other port running, the mode is the one of the other port's flags
    have hother : s.running (otherPort p) = true → (s'.ethType = s.ethType ↔
        bits.lreFlags (s.features p) = bits.lreFlags (s.features (otherPort p))) := by
      intro hrun
      rw [htype', ← hi.running _ hrun]
      exact ethTypeOf_eq_iff (hi.exclusive _) (hi.exclusive _)
    constructor
    · rintro hkept p' f' he - hrun -
      cases he
      exact (hother hrun).mp (hkept p f rfl ⟨_, hrun⟩)
    · rintro hagree p' f' he ⟨q, hq⟩
      cases he
      cases hown : s.running p with
      | true => rw [htype', hi.running p hown]
      | false =>
        rcases eq_or_eq_otherPort p q with rfl | rfl
        · rw [hown] at hq
          cases hq
        · exact (hother hq).mpr (hagree p f rfl hown hq hsame)

theorem inv_setFeatures (hi : Inv bits s) (h : step bits s (.setFeatures p f) = some s')
    (hkept : ModeKept s (.setFeatures p f) s') : Inv bits s' := by
  by_cases hgrant : (∃ q, s.running q = true) ∧ bits.lreFlags f ≠ bits.lreFlags (s.features p)
  · rw [setFeatures_refused hi h hgrant.1 hgrant.2]
    exact hi
  · obtain ⟨htype, hrunning, hfeatures⟩ := setFeatures_granted hi h hgrant
    constructor
    · rw [htype]
      exact ethTypeOf_ne_switch f
    · intro q
      rw [hfeatures]
      by_cases hqp : q = p
      · subst hqp
        rw [Function.update_self]
        exact exclusive_offloadFeatures _ _
      · rw [Function.update_of_ne hqp]
        exact hi.exclusive q
    · intro q hq
      rw [hrunning] at hq
      rw [hkept p f rfl ⟨q, hq⟩, hfeatures, ← hi.running q hq]
      by_cases hqp : q = p
      · subst hqp
        have hsame : bits.lreFlags f = bits.lreFlags (s.features q) := by
          by_contra hne
          exact hgrant ⟨⟨q, hq⟩, hne⟩
        rw [Function.update_self, ethTypeOf_eq_iff (exclusive_offloadFeatures _ _) (hi.exclusive q)]
        exact lreFlags_offloadFeatures hi hsame
      · rw [Function.update_of_ne hqp]

end SetFeatures

/-! ## Main result -/

/-- In a run no request changes the mode under a running port, just when every request that asks a
stopped port for the flags it has, while the other port runs, finds these flags on the other port too. -/
theorem mode_kept_iff (bits : OffloadBits) (features : Port → BitVec 64) (events : List Event) :
    AllSteps (step bits) ModeKept (.probed bits features) events ↔
      AllSteps (step bits) (FlagsAgree bits) (.probed bits features) events := by
  have hiff : ∀ s e s', Inv bits s → step bits s e = some s' →
      (ModeKept s e s' ↔ FlagsAgree bits s e s') := by
    intro s e s' hi h
    cases e with
    | ndoOpen p io => exact iff_of_true (fun _ _ he => by cases he) (fun _ _ he => by cases he)
    | ndoStop p => exact iff_of_true (fun _ _ he => by cases he) (fun _ _ he => by cases he)
    | setFeatures p f => exact modeKept_iff hi h
  apply allSteps_iff_of_inv (Inv bits)
  · exact hiff
  · intro s e s' hi h hagree
    cases e with
    | ndoOpen p io => exact inv_open hi h
    | ndoStop p => exact inv_stop hi h
    | setFeatures p f => exact inv_setFeatures hi h ((hiff _ _ _ hi h).mpr hagree)
  · exact inv_probed features

/-- Feature words with the flags in the lowest bits. -/
def lowBits : OffloadBits where
  hsrRxOffload := 0
  prpRxOffload := 1
  l2fwDoffload := 2
  distinct := by decide

def noErrors : OpenIo := ⟨0, 0, 0, 0, 0⟩

/-- HSR is set on the first port, which is opened. A request for the second port that keeps HSR off puts
the running device into EMAC mode. -/
theorem feature_request_changes_mode :
    (run (step lowBits) (.probed lowBits fun _ => 0)
      [.setFeatures .mii0 1, .ndoOpen .mii0 noErrors, .setFeatures .mii1 4]).map
        (fun s => (s.running .mii0, s.ethType)) = some (true, .emac) ∧
    ¬ AllSteps (step lowBits) ModeKept (.probed lowBits fun _ => 0)
      [.setFeatures .mii0 1, .ndoOpen .mii0 noErrors, .setFeatures .mii1 4] := by
  refine ⟨by decide, fun h => ?_⟩
  have hkept := AllSteps.of_run [Event.setFeatures .mii0 1, Event.ndoOpen .mii0 noErrors] h rfl rfl
  have htype := hkept .mii1 4 rfl ⟨.mii0, by decide⟩
  exact absurd htype (by decide)

end Am437x.Prueth.EthMode
