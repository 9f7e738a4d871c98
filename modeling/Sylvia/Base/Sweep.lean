/-
  Sylvia.Base.Sweep — sweeping sorted rows with one cursor a row, and loops over an
  index range that may stop early.

  `rows` is any family of lists over a linear order and `c` says how many elements of
  each row the sweep has passed. A sweep that always passes a least head, and checks
  beforehand that no other head equals it, keeps `Private`: what it has passed occurs
  in no other row (`private_advance`). So a sweep that passes everything has shown the
  rows pairwise disjoint (`disjoint_of_private`). Elements may repeat inside one row.

  `foldlM_range` is the rule for `for i in 0..n` over a state, with errors.
-/
import Mathlib.Order.Lattice
import Mathlib.Data.List.Basic
import Mathlib.Logic.Pairwise

namespace Sylvia.Base

/-! ## Loops over an index range -/

/-- The loop rule: `P i` holds before round `i`; a round either keeps it or stops the
    loop with an error satisfying `Q`. -/
theorem foldlM_range {ε σ : Type} {f : σ → Nat → Except ε σ} {P : Nat → σ → Prop} {Q : ε → Prop} (n : Nat)
    (step : ∀ i < n, ∀ s, P i s → (∃ s', f s i = .ok s' ∧ P (i + 1) s') ∨ ∃ e, f s i = .error e ∧ Q e)
    (s : σ) (h0 : P 0 s) :
    (∃ s', (List.range n).foldlM f s = .ok s' ∧ P n s') ∨
      ∃ e, (List.range n).foldlM f s = .error e ∧ Q e := by
  induction n with
  | zero => exact Or.inl ⟨s, rfl, h0⟩
  | succ n ih =>
    rw [List.range_succ, List.foldlM_append]
    rcases ih (fun i hi => step i (by omega)) with ⟨s1, e1, h1⟩ | ⟨e, e1, h1⟩
    · rw [e1]
      rcases step n (by omega) s1 h1 with ⟨s2, e2, h2⟩ | ⟨e, e2, h2⟩
      · exact Or.inl ⟨s2, by simp [e2, bind, Except.bind, pure, Except.pure], h2⟩
      · exact Or.inr ⟨e, by simp [e2, bind, Except.bind], h2⟩
    · rw [e1]; exact Or.inr ⟨e, rfl, h1⟩

/-- The same rule for a loop that never stops early. -/
theorem foldlM_range_ok {ε σ : Type} {f : σ → Nat → Except ε σ} {P : Nat → σ → Prop} (n : Nat)
    (step : ∀ i < n, ∀ s, P i s → ∃ s', f s i = .ok s' ∧ P (i + 1) s') (s : σ) (h0 : P 0 s) :
    ∃ s', (List.range n).foldlM f s = .ok s' ∧ P n s' := by
  rcases foldlM_range (Q := fun _ => False) n (fun i hi s hs => Or.inl (step i hi s hs)) s h0 with h | ⟨_, _, h⟩
  · exact h
  · exact h.elim

/-! ## Sweeping sorted rows -/

section Sweep

variable {ι α : Type} {rows : ι → List α}

/-- What the cursors have passed is in no other row. -/
def Private (rows : ι → List α) (c : ι → Nat) : Prop :=
  ∀ i j, i ≠ j → ∀ a ∈ (rows i).take (c i), a ∉ rows j

theorem private_start : Private rows fun _ => 0 := by
  intro i j _ a ha
  simp at ha

/-- In a sorted list every element from position `n` on is at least the one there. -/
theorem le_of_mem_drop [LinearOrder α] {l : List α} (hs : l.Pairwise (· ≤ ·)) {n : Nat} {b x : α} (hb : l[n]? = some b)
    (hx : x ∈ l.drop n) : b ≤ x := by
  obtain ⟨hn, rfl⟩ := List.getElem?_eq_some_iff.mp hb
  rw [List.drop_eq_getElem_cons hn] at hx
  have hs' := hs.drop (i := n)
  rw [List.drop_eq_getElem_cons hn, List.pairwise_cons] at hs'
  rcases List.mem_cons.mp hx with rfl | hx
  · exact le_refl _
  · exact hs'.1 x hx

/-- Passing a least head that no other head equals keeps what is passed private. -/
theorem private_advance [LinearOrder α] [DecidableEq ι] {c : ι → Nat} {k : ι} {a : α} (hs : ∀ i, (rows i).Pairwise (· ≤ ·))
    (hp : Private rows c) (hk : (rows k)[c k]? = some a) (hmin : ∀ j b, (rows j)[c j]? = some b → a ≤ b)
    (hne : ∀ j, j ≠ k → (rows j)[c j]? ≠ some a) : Private rows (Function.update c k (c k + 1)) := by
  intro i j hij x hx
  by_cases hik : i = k
  · subst hik
    rw [Function.update_self] at hx
    obtain ⟨hlt, rfl⟩ := List.getElem?_eq_some_iff.mp hk
    rw [List.take_add_one, hk, Option.toList_some] at hx
    rcases List.mem_append.mp hx with hx | hx
    · exact hp i j hij x hx
    · obtain rfl := List.mem_singleton.mp hx
      intro hj
      rw [← List.take_append_drop (c j) (rows j)] at hj
      rcases List.mem_append.mp hj with hj | hj
      · exact hp j i (Ne.symm hij) _ hj (List.getElem_mem hlt)
      · -- the rest of row `j` starts at a head that is at least `a` and at most `a`
        have hlen : c j < (rows j).length := by
          have := List.length_pos_of_mem hj
          simp only [List.length_drop] at this; omega
        have hb : (rows j)[c j]? = some (rows j)[c j] := List.getElem?_eq_getElem hlen
        have hle := le_of_mem_drop (hs j) hb hj
        have hge := hmin j _ hb
        exact hne j (Ne.symm hij) (by rw [hb, le_antisymm hle hge])
  · rw [Function.update_of_ne hik] at hx
    exact hp i j hij x hx

theorem disjoint_of_private {c : ι → Nat} (hp : Private rows c) (hd : ∀ i, (rows i).length ≤ c i) :
    Pairwise fun i j => (rows i).Disjoint (rows j) := by
  intro i j hij a hi hj
  rw [← List.take_of_length_le (hd i)] at hi
  exact hp i j hij a hi hj

end Sweep

end Sylvia.Base
