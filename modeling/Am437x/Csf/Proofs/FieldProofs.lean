import Am437x.Csf.Format

/-!
# Fields of a record

A read or a check of a parser succeeds exactly when the record has the bytes of a field, and the field is valid.
-/

namespace Am437x.Csf

open Records

/-! ## Checks and bytes -/

@[simp] theorem validate_eq_ok {p : Prop} [Decidable p] {u : Unit} : validate p = .ok u ↔ p := by
  by_cases h : p <;> simp [validate, h]

@[simp] theorem validate_eq_error {p : Prop} [Decidable p] {s : Stop} :
    validate p = .error s ↔ ¬p ∧ s = .fail := by
  by_cases h : p <;> simp [validate, h, eq_comm]

@[simp] theorem byte_eq_ok {d : List UInt8} {k : Nat} {b : UInt8} : byte d k = .ok b ↔ d[k]? = some b := by
  unfold byte
  cases d[k]? <;> simp

@[simp] theorem byte_eq_error {d : List UInt8} {k : Nat} {s : Stop} :
    byte d k = .error s ↔ d.length ≤ k ∧ s = .overread := by
  rw [← List.getElem?_eq_none_iff]
  unfold byte
  cases d[k]? <;> simp [eq_comm]

@[simp] theorem slice_eq_ok {d bs : List UInt8} {k n : Nat} :
    slice d k n = .ok bs ↔ k + n ≤ d.length ∧ (d.drop k).take n = bs := by
  by_cases h : k + n ≤ d.length <;> simp [slice, h]

@[simp] theorem slice_eq_error {d : List UInt8} {k n : Nat} {s : Stop} :
    slice d k n = .error s ↔ d.length < k + n ∧ s = .overread := by
  by_cases h : k + n ≤ d.length <;> simp [slice, h, eq_comm]
  omega

@[simp] theorem copyToHeap_eq_ok {d bs : List UInt8} {block n : Nat} :
    copyToHeap block d n = .ok bs ↔ n ≤ block ∧ n ≤ d.length ∧ d.take n = bs := by
  by_cases h : block < n
  · simp [copyToHeap, h]
  · simp [copyToHeap, h]
    omega

/-! ## Words -/

theorem be16_eq_iff {n : Nat} (hi lo : UInt8) :
    n < 65536 ∧ be16 n = [hi, lo] ↔ hi.toNat <<< 8 ||| lo.toNat = n := by
  have hhi := hi.toNat_lt
  have hlo := lo.toNat_lt
  rw [← Nat.shiftLeft_add_eq_or_of_lt (by omega), Nat.shiftLeft_eq]
  constructor
  · rintro ⟨hn, h⟩
    obtain ⟨rfl, rfl⟩ : _ ∧ _ := by simpa [be16] using h
    simp
    omega
  · rintro rfl
    refine ⟨by omega, ?_⟩
    rw [be16, List.cons.injEq, List.cons.injEq]
    refine ⟨UInt8.toNat_inj.mp ?_, UInt8.toNat_inj.mp ?_, rfl⟩
    · simp
      omega
    · simp

/-- The four bytes as one sum. -/
theorem word32_eq (b₀ b₁ b₂ b₃ : UInt8) :
    b₀.toNat <<< 24 ||| b₁.toNat <<< 16 ||| b₂.toNat <<< 8 ||| b₃.toNat =
      ((b₀.toNat * 256 + b₁.toNat) * 256 + b₂.toNat) * 256 + b₃.toNat := by
  have h₁ := b₁.toNat_lt
  have h₂ := b₂.toNat_lt
  have h₃ := b₃.toNat_lt
  have e₁ : b₀.toNat <<< 24 ||| b₁.toNat <<< 16 = (b₀.toNat * 256 + b₁.toNat) <<< 16 := by
    rw [← Nat.shiftLeft_add_eq_or_of_lt (by rw [Nat.shiftLeft_eq]; omega)]
    simp only [Nat.shiftLeft_eq]
    omega
  have e₂ : (b₀.toNat * 256 + b₁.toNat) <<< 16 ||| b₂.toNat <<< 8 =
      ((b₀.toNat * 256 + b₁.toNat) * 256 + b₂.toNat) <<< 8 := by
    rw [← Nat.shiftLeft_add_eq_or_of_lt (by rw [Nat.shiftLeft_eq]; omega)]
    simp only [Nat.shiftLeft_eq]
    omega
  rw [e₁, e₂, ← Nat.shiftLeft_add_eq_or_of_lt (by omega), Nat.shiftLeft_eq]

theorem be32_eq_iff {x : Nat} (b₀ b₁ b₂ b₃ : UInt8) :
    x < 4294967296 ∧ be32 x = [b₀, b₁, b₂, b₃] ↔
      b₀.toNat <<< 24 ||| b₁.toNat <<< 16 ||| b₂.toNat <<< 8 ||| b₃.toNat = x := by
  have h₀ := b₀.toNat_lt
  have h₁ := b₁.toNat_lt
  have h₂ := b₂.toNat_lt
  have h₃ := b₃.toNat_lt
  rw [word32_eq]
  constructor
  · rintro ⟨hx, h⟩
    obtain ⟨rfl, rfl, rfl, rfl⟩ : _ ∧ _ ∧ _ ∧ _ := by simpa [be32] using h
    simp
    omega
  · rintro rfl
    refine ⟨by omega, ?_⟩
    simp only [be32, List.cons.injEq, and_true]
    refine ⟨UInt8.toNat_inj.mp ?_, UInt8.toNat_inj.mp ?_, UInt8.toNat_inj.mp ?_, UInt8.toNat_inj.mp ?_⟩
    all_goals
      rw [UInt8.toNat_ofNat']
      omega

theorem exists_be32 (b₀ b₁ b₂ b₃ : UInt8) : ∃ x, x < 4294967296 ∧ be32 x = [b₀, b₁, b₂, b₃] :=
  ⟨_, (be32_eq_iff b₀ b₁ b₂ b₃).mpr rfl⟩

@[simp] theorem be16_length (n : Nat) : (be16 n).length = 2 := rfl

@[simp] theorem be32_length (n : Nat) : (be32 n).length = 4 := rfl

/-- The length is read where its encoding is. -/
theorem hdrLen_eq_ok {d : List UInt8} {n : Nat} :
    hdrLen d = .ok n ↔ n < 65536 ∧ be16 n <+: d.drop 1 := by
  simp only [hdrLen, bind_eq_ok, byte_eq_ok, pure_eq_ok]
  constructor
  · rintro ⟨hi, hhi, lo, hlo, h⟩
    obtain ⟨hn, h⟩ := (be16_eq_iff hi lo).mpr h
    obtain _ | ⟨a, _ | ⟨b, _ | ⟨c, d⟩⟩⟩ := d <;> simp_all
  · rintro ⟨hn, h⟩
    obtain _ | ⟨a, _ | ⟨b, _ | ⟨c, d⟩⟩⟩ := d
    · simp [be16] at h
    · simp [be16] at h
    · simp [be16] at h
    · refine ⟨b, rfl, c, rfl, (be16_eq_iff b c).mp ⟨hn, ?_⟩⟩
      simpa [be16, List.cons_prefix_cons] using h

theorem hdrLen_eq_error {d : List UInt8} {s : Stop} : hdrLen d = .error s ↔ d.length < 3 ∧ s = .overread := by
  simp only [hdrLen, bind_eq_error, byte_eq_error, pure_ne_error, byte_eq_ok, and_false, exists_const, or_false]
  constructor
  · rintro (⟨hle, rfl⟩ | ⟨hi, -, hle, rfl⟩)
    · exact ⟨by omega, rfl⟩
    · exact ⟨by omega, rfl⟩
  · rintro ⟨hlt, rfl⟩
    by_cases hle : d.length ≤ 1
    · exact .inl ⟨hle, rfl⟩
    · exact .inr ⟨d[1], List.getElem?_eq_getElem (by omega), by omega, rfl⟩

/-- A word is read where its encoding is. -/
theorem fromBe32_eq_ok {d : List UInt8} {k x : Nat} :
    fromBe32 d k = .ok x ↔ x < 4294967296 ∧ be32 x <+: d.drop k := by
  have hdrop (i : Nat) : d[k + i]? = (d.drop k)[i]? := List.getElem?_drop.symm
  simp only [fromBe32, bind_eq_ok, byte_eq_ok, pure_eq_ok, hdrop]
  rw [← Nat.add_zero k, hdrop, Nat.add_zero]
  generalize d.drop k = t
  constructor
  · rintro ⟨b₀, h₀, b₁, h₁, b₂, h₂, b₃, h₃, h⟩
    obtain ⟨hx, h⟩ := (be32_eq_iff b₀ b₁ b₂ b₃).mpr h
    obtain _ | ⟨a, _ | ⟨b, _ | ⟨c, _ | ⟨d, t⟩⟩⟩⟩ := t <;> simp_all
  · rintro ⟨hx, h⟩
    obtain _ | ⟨a, _ | ⟨b, _ | ⟨c, _ | ⟨d, t⟩⟩⟩⟩ := t
    · simp [be32] at h
    · simp [be32] at h
    · simp [be32] at h
    · simp [be32] at h
    · refine ⟨a, rfl, b, rfl, c, rfl, d, rfl, (be32_eq_iff a b c d).mp ⟨hx, ?_⟩⟩
      simpa [be32, List.cons_prefix_cons] using h

theorem beValue_append (s t : List UInt8) : beValue (s ++ t) = beValue s * 256 ^ t.length + beValue t := by
  unfold beValue
  rw [List.foldl_append]
  generalize List.foldl _ 0 s = n
  induction t using List.reverseRecOn with
  | nil => simp
  | append_singleton t b ih =>
    rw [List.foldl_append, List.foldl_append, List.foldl_cons, List.foldl_cons, List.foldl_nil, List.foldl_nil, ih,
      List.length_append, List.length_singleton, Nat.pow_succ]
    ring

theorem beValue_lt (bs : List UInt8) : beValue bs < 256 ^ bs.length := by
  induction bs using List.reverseRecOn with
  | nil => simp [beValue]
  | append_singleton t b ih =>
    have hb := b.toNat_lt
    rw [beValue_append, List.length_append, List.length_singleton, Nat.pow_succ]
    simp only [beValue, List.foldl_cons, List.foldl_nil] at ih ⊢
    omega

theorem fromBe32_eq_beValue {d : List UInt8} {k : Nat} (h : k + 4 ≤ d.length) :
    fromBe32 d k = .ok (beValue ((d.drop k).take 4)) := by
  have hdrop : 4 ≤ (d.drop k).length := by
    rw [List.length_drop]
    omega
  rw [fromBe32_eq_ok]
  generalize d.drop k = t at hdrop
  match t, hdrop with
  | b₀ :: b₁ :: b₂ :: b₃ :: t, _ =>
    have hvalue : beValue [b₀, b₁, b₂, b₃] =
        b₀.toNat <<< 24 ||| b₁.toNat <<< 16 ||| b₂.toNat <<< 8 ||| b₃.toNat := by
      rw [word32_eq]
      simp [beValue]
    obtain ⟨hlt, hbe⟩ := (be32_eq_iff b₀ b₁ b₂ b₃).mpr hvalue.symm
    refine ⟨hlt, ?_⟩
    simp only [List.take_succ_cons, List.take_zero]
    rw [hbe]
    exact ⟨t, rfl⟩

/-! ## The copy of a record -/

theorem byte_take {d : List UInt8} {k n : Nat} (h : k < n) : byte (d.take n) k = byte d k := by
  simp [byte, h]

theorem hdrLen_take {d : List UInt8} {n : Nat} (h : 3 ≤ n) : hdrLen (d.take n) = hdrLen d := by
  rw [hdrLen, byte_take (by omega), byte_take (by omega), hdrLen]

theorem fromBe32_take {d : List UInt8} {k n : Nat} (h : k + 4 ≤ n) : fromBe32 (d.take n) k = fromBe32 d k := by
  rw [fromBe32, byte_take (by omega), byte_take (by omega), byte_take (by omega), byte_take (by omega), fromBe32]

theorem lt_of_byte_take {d : List UInt8} {k n : Nat} {b : UInt8} (h : byte (d.take n) k = .ok b) : k < n := by
  have hk := (List.getElem?_eq_some_iff.mp (byte_eq_ok.mp h)).1
  rw [List.length_take] at hk
  omega

theorem le_of_fromBe32_take {d : List UInt8} {k n x : Nat} (h : fromBe32 (d.take n) k = .ok x) : k + 4 ≤ n := by
  have hlength := (fromBe32_eq_ok.mp h).2.length_le
  rw [be32_length, List.length_drop, List.length_take] at hlength
  omega

/-! ## The debug log -/

/-- The log of a record that is there does not stop a parser. -/
theorem debugDump_eq_ok {e : Env} {hdr src : List UInt8} {n : Nat} (hlen : hdrLen hdr = .ok n)
    (hn : n ≤ src.length) : debugDump e hdr src = .ok () := by
  unfold debugDump
  split
  · simp [hlen, hn]
  · rfl

end Am437x.Csf
