import Mathlib.Tactic

/-!
# Flat byte memories

A memory gives the content of every address. `load` and `store` move whole blocks, as `memcpy` and the
read and write calls of the C library do; a block is a list. Addresses are integers, so that a pointer
may also point below the object it was derived from.
-/

namespace Flat

/-- A memory with cells in `β`, addressed by integers. -/
abbrev Memory (β : Type*) := Int → β

variable {β : Type*}

/-- The `n` cells from address `a` on. -/
def load (m : Memory β) (a : Int) (n : Nat) : List β :=
  (List.range n).map fun i : Nat => m (a + (i : Int))

/-- Write the block `bs` at address `a`. -/
def store (m : Memory β) (a : Int) (bs : List β) : Memory β :=
  fun x => if a ≤ x then bs.getD (x - a).toNat (m x) else m x

@[simp] theorem load_length (m : Memory β) (a : Int) (n : Nat) : (load m a n).length = n := by
  simp [load]

@[simp] theorem load_zero (m : Memory β) (a : Int) : load m a 0 = [] := rfl

theorem load_getElem (m : Memory β) (a : Int) (n i : Nat) (h : i < (load m a n).length) :
    (load m a n)[i] = m (a + i) := by
  simp [load]

@[simp] theorem store_nil (m : Memory β) (a : Int) : store m a [] = m := by
  funext x
  simp [store]

theorem store_inside (m : Memory β) (a : Int) (bs : List β) (i : Nat) (h : i < bs.length) :
    store m a bs (a + i) = bs[i] := by
  simp [store, h]

/-- Frame: a cell outside the stored block. -/
theorem store_outside (m : Memory β) (a x : Int) (bs : List β) (h : x < a ∨ a + bs.length ≤ x) :
    store m a bs x = m x := by
  unfold store
  split
  · rename_i hx
    have hlen : bs.length ≤ (x - a).toNat := by omega
    simp [List.getD, List.getElem?_eq_none hlen]
  · rfl

theorem load_congr {m m' : Memory β} {a : Int} {n : Nat}
    (h : ∀ i : Nat, i < n → m (a + i) = m' (a + i)) : load m a n = load m' a n := by
  apply List.ext_getElem (by simp)
  intro i h1 _
  rw [load_getElem, load_getElem]
  exact h i (by simpa using h1)

theorem load_inj {m : Memory β} {a b : Int} {n : Nat} (h : load m a n = load m b n) {i : Nat}
    (hi : i < n) : m (a + i) = m (b + i) := by
  have hget := congrArg (fun bs : List β => bs[i]?) h
  simpa [load, hi] using hget

theorem load_eq_of_forall {m : Memory β} {a : Int} {bs : List β}
    (h : ∀ (i : Nat) (hi : i < bs.length), m (a + i) = bs[i]) : load m a bs.length = bs := by
  apply List.ext_getElem (by simp)
  intro i _ h2
  rw [load_getElem]
  exact h i h2

theorem load_store_same (m : Memory β) (a : Int) (bs : List β) :
    load (store m a bs) a bs.length = bs :=
  load_eq_of_forall fun i hi => store_inside m a bs i hi

theorem load_add (m : Memory β) (a : Int) (k n : Nat) :
    load m a (k + n) = load m a k ++ load m (a + k) n := by
  apply List.ext_getElem (by simp)
  intro i h1 h2
  rw [load_getElem, List.getElem_append]
  split
  · rw [load_getElem]
  · rename_i hi
    simp only [load_length, not_lt] at hi
    rw [load_getElem]
    congr 1
    rw [load_length]
    omega

/-- A block of two parts holds each of them. -/
theorem load_eq_append {m : Memory β} {a : Int} {n : Nat} {xs ys : List β}
    (h : load m a n = xs ++ ys) :
    load m a xs.length = xs ∧ load m (a + xs.length) ys.length = ys := by
  obtain rfl : n = xs.length + ys.length := by
    rw [← load_length m a n, h, List.length_append]
  rw [load_add] at h
  exact List.append_inj h (load_length _ _ _)

/-- A block that another one does not touch. -/
theorem load_store_other (m : Memory β) {a b : Int} {bs : List β} {n : Nat}
    (h : b + n ≤ a ∨ a + bs.length ≤ b) : load (store m a bs) b n = load m b n :=
  load_congr fun i hi => store_outside m a _ bs (by omega)

/-- Two blocks stored one behind the other. -/
theorem load_store_append (m : Memory β) (a : Int) (xs ys : List β) :
    load (store (store m a xs) (a + xs.length) ys) a (xs.length + ys.length) = xs ++ ys := by
  have hfirst : load (store (store m a xs) (a + xs.length) ys) a xs.length = xs := by
    rw [load_store_other _ (Or.inl le_rfl), load_store_same]
  rw [load_add, hfirst, load_store_same]

end Flat
