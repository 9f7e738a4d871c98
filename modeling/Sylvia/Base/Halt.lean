/-
  Sylvia.Base.Halt — code that returns, answers an error, or panics.

  An `Exec` stops at the first error or panic. Proved, as what later proofs read a run
  with: what a run that returns has done (`bind_ok`, `ensure_ok`, `okOr_ok`), and where a
  run can panic (`bind_panics`; the others never do).
-/
import Mathlib.Tactic.TypeStar

namespace Sylvia.Base

inductive Halt (E : Type) where
  | err (e : E)
  | panicked
  deriving DecidableEq, Repr

abbrev Exec (E R : Type) := Except (Halt E) R

namespace Exec

variable {E R S : Type}

def fail (e : E) : Exec E R := .error (.err e)

def panic : Exec E R := .error .panicked

/-- `ensure!`. -/
def ensure (c : Bool) (e : E) : Exec E PUnit := if c then .ok ⟨⟩ else fail e

/-- `ok_or`. -/
def okOr (e : E) : Option R → Exec E R
  | some r => .ok r
  | none => fail e

def Panics (x : Exec E R) : Prop := x = panic

def Returns (x : Exec E R) : Prop := ∃ r, x = .ok r

/-! ## Runs that return -/

@[simp] theorem bind_ok {x : Exec E R} {f : R → Exec E S} {s : S} :
    (x >>= f) = .ok s ↔ ∃ r, x = .ok r ∧ f r = .ok s := by
  cases x <;> simp [bind, Except.bind]

@[simp] theorem pure_ok {r s : R} : (pure r : Exec E R) = .ok s ↔ r = s := by
  simp [pure, Except.pure]

@[simp] theorem ensure_ok {c : Bool} {e : E} {u : PUnit} : ensure c e = .ok u ↔ c = true := by
  cases c <;> simp [ensure, fail]

@[simp] theorem okOr_ok {o : Option R} {e : E} {r : R} : okOr e o = .ok r ↔ o = some r := by
  cases o <;> simp [okOr, fail]

@[simp] theorem fail_ne_ok {e : E} {r : R} : (fail e : Exec E R) = .ok r ↔ False := by
  simp [fail]

@[simp] theorem panic_ne_ok {r : R} : (panic : Exec E R) = .ok r ↔ False := by
  simp [panic]

theorem ite_ok {c : Prop} [Decidable c] {x y : Exec E R} {r : R} :
    (if c then x else y) = .ok r ↔ (c ∧ x = .ok r) ∨ (¬ c ∧ y = .ok r) := by
  by_cases h : c <;> simp [h]

@[simp] theorem returns_bind {x : Exec E R} {f : R → Exec E S} :
    Returns (x >>= f) ↔ ∃ r, x = .ok r ∧ Returns (f r) := by
  simp only [Returns, bind_ok]
  constructor
  · intro ⟨s, r, hx, hf⟩
    exact ⟨r, hx, s, hf⟩
  · intro ⟨r, hx, s, hf⟩
    exact ⟨s, r, hx, hf⟩

@[simp] theorem returns_ok (r : R) : Returns (.ok r : Exec E R) := ⟨r, rfl⟩

@[simp] theorem returns_pure (r : R) : Returns (pure r : Exec E R) := ⟨r, rfl⟩

@[simp] theorem not_returns_fail (e : E) : ¬ Returns (fail e : Exec E R) := by
  simp [Returns]

/-! ## Runs that panic -/

@[simp] theorem bind_panics {x : Exec E R} {f : R → Exec E S} :
    Panics (x >>= f) ↔ Panics x ∨ ∃ r, x = .ok r ∧ Panics (f r) := by
  cases x <;> simp [Panics, panic, bind, Except.bind]

@[simp] theorem ok_panics {r : R} : Panics (.ok r : Exec E R) ↔ False := by simp [Panics, panic]

@[simp] theorem pure_panics {r : R} : Panics (pure r : Exec E R) ↔ False := by simp [Panics, panic, pure, Except.pure]

@[simp] theorem fail_panics {e : E} : Panics (fail e : Exec E R) ↔ False := by simp [Panics, fail, panic]

@[simp] theorem panic_panics : Panics (panic : Exec E R) := rfl

@[simp] theorem ensure_panics {c : Bool} {e : E} : Panics (ensure c e) ↔ False := by
  cases c <;> simp [ensure]

@[simp] theorem okOr_panics {o : Option R} {e : E} : Panics (okOr e o) ↔ False := by
  cases o <;> simp [okOr]

theorem ite_panics {c : Prop} [Decidable c] {x y : Exec E R} :
    Panics (if c then x else y) ↔ (c ∧ Panics x) ∨ (¬ c ∧ Panics y) := by
  by_cases h : c <;> simp [h]

end Exec

end Sylvia.Base
