import Mathlib.Tactic

/-!
# The two ports of the PRU Ethernet device
-/

namespace Am437x.Prueth

/-- `PRUETH_PORT_MII0` and `PRUETH_PORT_MII1` -/
inductive Port where
  | mii0
  | mii1
  deriving DecidableEq, Repr

instance : Fintype Port where
  elems := {.mii0, .mii1}
  complete := by
    intro p
    cases p <;> decide

def otherPort : Port → Port
  | .mii0 => .mii1
  | .mii1 => .mii0

theorem eq_or_eq_otherPort (p q : Port) : q = p ∨ q = otherPort p := by
  cases p <;> cases q <;> simp [otherPort]

theorem otherPort_ne (p : Port) : otherPort p ≠ p := by
  cases p <;> simp [otherPort]

inductive EthType where
  | emac
  | switch
  | hsr
  | prp
  deriving DecidableEq, Repr

def EthType.isLre : EthType → Bool
  | .hsr | .prp => true
  | .emac | .switch => false

end Am437x.Prueth
