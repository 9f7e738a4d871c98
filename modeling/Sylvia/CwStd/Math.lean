/-
  Sylvia.CwStd.Math — `Uint128`, and the `StdError`s contract code runs into.

  A `Uint128` carries its bound. `checked_add` and `checked_sub` answer an overflow error;
  the operator `+` panics instead.
-/
import Mathlib.Order.Basic
import Mathlib.Algebra.Ring.Nat
import Sylvia.Base.Halt

namespace Sylvia.CwStd

open Sylvia.Base

inductive Fault where
  | generic (msg : String)
  | notFound (kind : String)
  /-- A `load` of a key without a value. -/
  | absent
  | overflow
  deriving DecidableEq, Repr

/-- `From<StdError>`. -/
class FromStd (E : Type) where
  std : Fault → E

structure Uint128 where
  val : Nat
  isLt : val < 2 ^ 128
  deriving DecidableEq, Repr

namespace Uint128

variable {E : Type} [FromStd E]

def zero : Uint128 := ⟨0, by decide⟩

@[simp] theorem zero_val : zero.val = 0 := rfl

@[ext] theorem ext {a b : Uint128} (h : a.val = b.val) : a = b := by
  cases a; cases b; cases h; rfl

def checkedAdd (a b : Uint128) : Exec E Uint128 :=
  if h : a.val + b.val < 2 ^ 128 then .ok ⟨a.val + b.val, h⟩ else Exec.fail (FromStd.std .overflow)

def checkedSub (a b : Uint128) : Exec E Uint128 :=
  if b.val ≤ a.val then .ok ⟨a.val - b.val, Nat.lt_of_le_of_lt (Nat.sub_le _ _) a.isLt⟩
  else Exec.fail (FromStd.std .overflow)

/-- The operator `+`. -/
def add (a b : Uint128) : Exec E Uint128 :=
  if h : a.val + b.val < 2 ^ 128 then .ok ⟨a.val + b.val, h⟩ else Exec.panic

instance : ToString Uint128 := ⟨fun a => toString a.val⟩

theorem checkedAdd_ok {a b c : Uint128} : (checkedAdd a b : Exec E _) = .ok c ↔ c.val = a.val + b.val := by
  unfold checkedAdd
  split
  · simp [Uint128.ext_iff, eq_comm]
  · simpa using fun h => absurd (h ▸ c.isLt) ‹_›

theorem checkedSub_ok {a b c : Uint128} :
    (checkedSub a b : Exec E _) = .ok c ↔ b.val ≤ a.val ∧ c.val = a.val - b.val := by
  unfold checkedSub
  split
  · rename_i h
    simp [Uint128.ext_iff, eq_comm, h]
  · rename_i h
    simp [h]

omit [FromStd E] in
theorem add_ok {a b c : Uint128} : (add a b : Exec E _) = .ok c ↔ c.val = a.val + b.val := by
  unfold add
  split
  · simp [Uint128.ext_iff, eq_comm]
  · simpa using fun h => absurd (h ▸ c.isLt) ‹_›

@[simp] theorem checkedAdd_panics {a b : Uint128} : (checkedAdd a b : Exec E _).Panics ↔ False := by
  unfold checkedAdd
  split <;> simp

@[simp] theorem checkedSub_panics {a b : Uint128} : (checkedSub a b : Exec E _).Panics ↔ False := by
  unfold checkedSub
  split <;> simp

omit [FromStd E] in
@[simp] theorem add_panics {a b : Uint128} : (add a b : Exec E _).Panics ↔ 2 ^ 128 ≤ a.val + b.val := by
  unfold add
  split
  · rename_i h
    simpa using h
  · rename_i h
    simpa using h

end Uint128

end Sylvia.CwStd
