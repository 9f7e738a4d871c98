/-
  Sylvia.Base.Route — first-match routing: an ordered list of recipients, each with
  the keys it accepts; the first that accepts a key gets it. Over recipients that share
  no key the order does not matter: whoever accepts a key gets it (`route_of_disjoint`).
-/
import Mathlib.Data.List.Perm.Basic
import Mathlib.Data.List.Pairwise

namespace Sylvia.Base

variable {α β κ : Type} {accepts : α → κ → Bool} {answer : α → β} {xs ys : List α} {k : κ}

def route (accepts : α → κ → Bool) (answer : α → β) (xs : List α) (k : κ) : Option β :=
  xs.findSome? fun x => if accepts x k then some (answer x) else none

/-- No key is accepted at two places of the list. -/
def Unambiguous (accepts : α → κ → Bool) (xs : List α) : Prop :=
  xs.Pairwise fun x y => ∀ k, accepts x k = true → accepts y k = false

theorem apart_symm {x y : α} (h : ∀ k, accepts x k = true → accepts y k = false) (k : κ) (hy : accepts y k = true) :
    accepts x k = false := by
  by_contra hx
  rw [h k (by simpa using hx)] at hy
  cases hy

theorem Unambiguous.perm (h : Unambiguous accepts xs) (hp : xs.Perm ys) : Unambiguous accepts ys :=
  List.Pairwise.perm h hp apart_symm

theorem Unambiguous.eq_of_accepts (h : Unambiguous accepts xs) {x y : α} (hx : x ∈ xs) (hy : y ∈ xs)
    (hax : accepts x k = true) (hay : accepts y k = true) : x = y := by
  have : Std.Symm fun x y : α => ∀ k, accepts x k = true → accepts y k = false := ⟨fun _ _ hxy => apart_symm hxy⟩
  by_contra hne
  rw [List.Pairwise.forall h hx hy hne k hax] at hay
  cases hay

theorem route_eq_some {b : β} (h : route accepts answer xs k = some b) :
    ∃ x ∈ xs, accepts x k = true ∧ answer x = b := by
  obtain ⟨x, hx, hb⟩ := List.exists_of_findSome?_eq_some h
  split at hb
  · rename_i ha; exact ⟨x, hx, ha, by simpa using hb⟩
  · cases hb

theorem route_of_disjoint (hd : Unambiguous accepts xs) {x : α} (hx : x ∈ xs) (ha : accepts x k = true) :
    route accepts answer xs k = some (answer x) := by
  induction xs with
  | nil => cases hx
  | cons y xs ih =>
    obtain ⟨hy, hd⟩ := List.pairwise_cons.mp hd
    simp only [route, List.findSome?_cons]
    rcases List.mem_cons.mp hx with rfl | hx
    · simp [ha]
    · have : accepts y k = false := apart_symm (hy x hx) k ha
      simp only [this, Bool.false_eq_true, if_false]
      exact ih hd hx

end Sylvia.Base
