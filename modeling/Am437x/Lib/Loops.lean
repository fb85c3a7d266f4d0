import Mathlib.Tactic

/-!
# Loops with inputs

The body of a loop takes an input in each turn: what the calls made in the turn return. It goes round
again with a new state, or the loop is left with a result. The loop on a list of inputs makes one turn
for each of them, as long as it is not left.
-/

namespace Loops

inductive Turn (σ ρ : Type*) where
  | again (s : σ)
  | left (r : ρ)
  deriving DecidableEq, Repr

variable {σ ρ α : Type*}

def Turn.andThen : Turn σ ρ → (σ → Turn σ ρ) → Turn σ ρ
  | .again s, f => f s
  | .left r, _ => .left r

def Turn.isLeft : Turn σ ρ → Bool
  | .again _ => false
  | .left _ => true

/-- The state after the turn, of a body whose result is its last state. -/
def Turn.state : Turn σ σ → σ
  | .again s => s
  | .left s => s

def loop (body : σ → α → Turn σ ρ) : σ → List α → Turn σ ρ
  | s, [] => .again s
  | s, a :: as => (body s a).andThen fun t => loop body t as

variable {body : σ → α → Turn σ ρ}

theorem loop_cons_again {s t : σ} {a : α} (h : body s a = .again t) (as : List α) :
    loop body s (a :: as) = loop body t as := by
  rw [loop, h]
  rfl

theorem loop_cons_left {s : σ} {r : ρ} {a : α} (h : body s a = .left r) (as : List α) :
    loop body s (a :: as) = .left r := by
  rw [loop, h]
  rfl

theorem loop_append (s : σ) (as bs : List α) :
    loop body s (as ++ bs) = (loop body s as).andThen fun t => loop body t bs := by
  induction as generalizing s with
  | nil => rfl
  | cons a as ih =>
    rw [List.cons_append, loop, loop]
    cases body s a with
    | again t => exact ih t
    | left r => rfl

/-- A turn that goes on in a state with `P`, or is left with a result with `Q`. -/
def Turn.Holds (P : σ → Prop) (Q : ρ → Prop) : Turn σ ρ → Prop
  | .again s => P s
  | .left r => Q r

/-- The rule for loops: from the invariant a loop goes on with it, or is left with the condition of its
exits. -/
theorem loop_holds {P : σ → Prop} {Q : ρ → Prop} (hstep : ∀ s a, P s → (body s a).Holds P Q) {s : σ}
    (hs : P s) (as : List α) : (loop body s as).Holds P Q := by
  induction as generalizing s with
  | nil => exact hs
  | cons a as ih =>
    have hturn := hstep s a hs
    cases hb : body s a with
    | again t =>
      rw [hb] at hturn
      rw [loop_cons_again hb]
      exact ih hturn
    | left r =>
      rw [hb] at hturn
      rw [loop_cons_left hb]
      exact hturn

theorem Turn.holds_of_cases {P : σ → Prop} {Q : ρ → Prop} {turn : Turn σ ρ}
    (hagain : ∀ s, turn = .again s → P s) (hleft : ∀ r, turn = .left r → Q r) : turn.Holds P Q := by
  cases turn with
  | again s => exact hagain s rfl
  | left r => exact hleft r rfl

/-- The invariant rule, for a loop that is still going on. -/
theorem inv_of_again {Inv : σ → Prop} (hstep : ∀ s a t, Inv s → body s a = .again t → Inv t)
    {s t : σ} {as : List α} (hs : Inv s) (h : loop body s as = .again t) : Inv t := by
  have hloop : (loop body s as).Holds Inv fun _ => True :=
    loop_holds (fun u a hu => Turn.holds_of_cases (fun v hv => hstep u a v hu hv) fun _ _ => trivial) hs as
  rw [h] at hloop
  exact hloop

/-- The result rule: a loop is left by a turn that starts from the invariant. -/
theorem post_of_left {Inv : σ → Prop} {Post : ρ → Prop}
    (hstep : ∀ s a t, Inv s → body s a = .again t → Inv t)
    (hleft : ∀ s a r, Inv s → body s a = .left r → Post r)
    {s : σ} {r : ρ} {as : List α} (hs : Inv s) (h : loop body s as = .left r) : Post r := by
  have hloop : (loop body s as).Holds Inv Post :=
    loop_holds (fun u a hu => Turn.holds_of_cases (fun v hv => hstep u a v hu hv)
      fun q hq => hleft u a q hu hq) hs as
  rw [h] at hloop
  exact hloop

/-- The first turn is the second, or else it is left early. What the second does then has `P` and `Q`. -/
def Cut (Early : ρ → Prop) (P : σ → Prop) (Q : ρ → Prop) (turn turn' : Turn σ ρ) : Prop :=
  turn = turn' ∨ (∃ r, turn = .left r ∧ Early r) ∧ turn'.Holds P Q

/-- A loop is cut by another one when its body is, and the other body keeps `P`. -/
theorem loop_cut {body' : σ → α → Turn σ ρ} {Early : ρ → Prop} {P : σ → Prop} {Q : ρ → Prop}
    (hcut : ∀ s a, Cut Early P Q (body s a) (body' s a)) (hkeep : ∀ s a, P s → (body' s a).Holds P Q)
    (s : σ) (as : List α) : Cut Early P Q (loop body s as) (loop body' s as) := by
  induction as generalizing s with
  | nil => exact Or.inl rfl
  | cons a as ih =>
    cases hb' : body' s a with
    | again t =>
      rw [loop_cons_again hb']
      rcases hcut s a with heq | ⟨⟨r, hr, hearly⟩, hlate⟩
      · rw [loop_cons_again (heq.trans hb')]
        exact ih t
      · rw [hb'] at hlate
        exact Or.inr ⟨⟨r, loop_cons_left hr as, hearly⟩, loop_holds hkeep hlate as⟩
    | left r' =>
      rw [loop_cons_left hb']
      rcases hcut s a with heq | ⟨⟨r, hr, hearly⟩, hlate⟩
      · exact Or.inl (loop_cons_left (heq.trans hb') as)
      · rw [hb'] at hlate
        exact Or.inr ⟨⟨r, loop_cons_left hr as, hearly⟩, hlate⟩

/-! ## Simulation -/

/-- Two turns that go on in related states, or are left with related results. -/
inductive TurnRel {σ' ρ' : Type*} (R : σ → σ' → Prop) (Q : ρ → ρ' → Prop) :
    Turn σ ρ → Turn σ' ρ' → Prop where
  | again {s : σ} {s' : σ'} (h : R s s') : TurnRel R Q (.again s) (.again s')
  | left {r : ρ} {r' : ρ'} (h : Q r r') : TurnRel R Q (.left r) (.left r')

/-- Loops are related when their bodies are. -/
theorem loop_sim {σ' ρ' : Type*} {body' : σ' → α → Turn σ' ρ'} {R : σ → σ' → Prop} {Q : ρ → ρ' → Prop}
    (hstep : ∀ s s' a, R s s' → TurnRel R Q (body s a) (body' s' a)) {s : σ} {s' : σ'} (hs : R s s')
    (as : List α) : TurnRel R Q (loop body s as) (loop body' s' as) := by
  induction as generalizing s s' with
  | nil => exact .again hs
  | cons a as ih =>
    have hturn := hstep s s' a hs
    rw [loop, loop]
    generalize body s a = turn at hturn ⊢
    generalize body' s' a = turn' at hturn ⊢
    cases hturn with
    | again h => exact ih h
    | left h => exact .left h

/-- A loop that searches for an input with `p`. -/
theorem loop_search {p : α → Prop} [DecidablePred p] {s : σ} {r : ρ} {as : List α}
    (h : ∀ a ∈ as, body s a = if p a then .left r else .again s) :
    loop body s as = if ∃ a ∈ as, p a then .left r else .again s := by
  induction as with
  | nil => simp [loop]
  | cons a as ih =>
    have ha := h a List.mem_cons_self
    by_cases hp : p a
    · rw [if_pos hp] at ha
      rw [loop_cons_left ha, if_pos ⟨a, List.mem_cons_self, hp⟩]
    · rw [if_neg hp] at ha
      rw [loop_cons_again ha, ih fun b hb => h b (List.mem_cons_of_mem a hb)]
      simp [hp]

/-! ## Counting loops -/

/-- The invariant rule for `for (i = 0; i < n; i++)` without `break`. -/
theorem foldl_range {f : σ → Nat → σ} {Inv : Nat → σ → Prop} {n : Nat}
    (hstep : ∀ i < n, ∀ s, Inv i s → Inv (i + 1) (f s i)) {s : σ} (hs : Inv 0 s) :
    Inv n ((List.range n).foldl f s) := by
  induction n with
  | zero => exact hs
  | succ n ih =>
    have hn := ih fun i hi => hstep i (Nat.lt_succ_of_lt hi)
    rw [List.range_succ, List.foldl_append]
    exact hstep n (Nat.lt_succ_self n) _ hn

/-- The rule for such a loop that may be left. -/
theorem loop_range {body : σ → Nat → Turn σ ρ} {Inv : Nat → σ → Prop} {Post : ρ → Prop} {n : Nat}
    (hagain : ∀ i < n, ∀ s t, Inv i s → body s i = .again t → Inv (i + 1) t)
    (hleft : ∀ i < n, ∀ s r, Inv i s → body s i = .left r → Post r) {s : σ} (hs : Inv 0 s) :
    (∃ t, loop body s (List.range n) = .again t ∧ Inv n t) ∨
      ∃ r, loop body s (List.range n) = .left r ∧ Post r := by
  induction n with
  | zero => exact Or.inl ⟨s, rfl, hs⟩
  | succ n ih =>
    have hn := ih (fun i hi => hagain i (Nat.lt_succ_of_lt hi))
      fun i hi => hleft i (Nat.lt_succ_of_lt hi)
    rw [List.range_succ, loop_append]
    rcases hn with ⟨t, ht, hinv⟩ | ⟨r, hr, hpost⟩
    · rw [ht]
      show (∃ u, loop body t [n] = .again u ∧ _) ∨ ∃ r, loop body t [n] = .left r ∧ _
      cases hb : body t n with
      | again u =>
        rw [loop_cons_again hb]
        exact Or.inl ⟨u, rfl, hagain n (Nat.lt_succ_self n) t u hinv hb⟩
      | left r =>
        rw [loop_cons_left hb]
        exact Or.inr ⟨r, rfl, hleft n (Nat.lt_succ_self n) t r hinv hb⟩
    · rw [hr]
      exact Or.inr ⟨r, rfl, hpost⟩

/-! ## The first input of a kind -/

/-- The first input with `p`, if there is one, has `q`. -/
def FirstHas (p q : α → Prop) [DecidablePred p] (as : List α) : Prop :=
  ∀ a, as.find? (p ·) = some a → q a

variable {p q : α → Prop} [DecidablePred p]

theorem firstHas_of_none {as : List α} (h : ∀ a ∈ as, ¬ p a) : FirstHas p q as := by
  intro a ha
  exact absurd (by simpa using List.find?_some ha) (h a (List.mem_of_find?_eq_some ha))

theorem firstHas_append_cons {as bs : List α} {a : α} (h : ∀ b ∈ as, ¬ p b) (ha : p a) :
    FirstHas p q (as ++ a :: bs) ↔ q a := by
  have hfind : (as ++ a :: bs).find? (p ·) = some a := by
    rw [List.find?_eq_some_iff_append]
    exact ⟨by simpa using ha, as, bs, rfl, fun b hb => by simpa using h b hb⟩
  unfold FirstHas
  rw [hfind]
  constructor
  · intro hq
    exact hq a rfl
  · rintro hq a' ha'
    cases ha'
    exact hq

omit [DecidablePred p] in
theorem none_or_first (p : α → Prop) (as : List α) :
    (∀ a ∈ as, ¬ p a) ∨ ∃ bs a cs, as = bs ++ a :: cs ∧ (∀ b ∈ bs, ¬ p b) ∧ p a := by
  induction as with
  | nil => exact Or.inl fun a ha => by cases ha
  | cons a as ih =>
    by_cases ha : p a
    · exact Or.inr ⟨[], a, as, rfl, (fun b hb => by cases hb), ha⟩
    · rcases ih with hnone | ⟨bs, b, cs, rfl, hbs, hb⟩
      · exact Or.inl (List.forall_mem_cons.mpr ⟨ha, hnone⟩)
      · exact Or.inr ⟨a :: bs, b, cs, rfl, List.forall_mem_cons.mpr ⟨ha, hbs⟩, hb⟩

end Loops
