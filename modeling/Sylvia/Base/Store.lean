/-
  Sylvia.Base.Store — a map kept as a list of entries in strictly ascending key order.

  The order is a field, so every store has each key at most once and its entries are the
  range over all keys. `save` replaces, `remove` of an absent key does nothing.

  Proved:
  - `lookup_save`, `lookup_remove`, `lookup_empty`: what the operations do to every key.
  - `mem_entries`, `mem_keys`: the range is what lookup sees.
  - `sum_save`: a save changes the sum over the values by the new one less the old one.
  - `lookup_foldl_save`, `sum_foldl_save`: saving a list of entries one after another.
-/
import Mathlib.Data.List.Pairwise
import Mathlib.Order.Lattice
import Mathlib.Algebra.Order.BigOperators.Group.List
import Mathlib.Algebra.Order.Group.Nat
import Mathlib.Algebra.Ring.Nat
import Mathlib.Data.List.Nodup

namespace Sylvia.Base

structure Store (K V : Type) [LinearOrder K] where
  entries : List (K × V)
  sorted : entries.Pairwise fun a b => a.1 < b.1

namespace Store

variable {K V : Type} [LinearOrder K]

def empty : Store K V := ⟨[], .nil⟩

def lookup (s : Store K V) (k : K) : Option V := (s.entries.find? fun e => decide (e.1 = k)).map Prod.snd

def has (s : Store K V) (k : K) : Bool := (s.lookup k).isSome

def keys (s : Store K V) : List K := s.entries.map Prod.fst

def insertEntry (k : K) (v : V) : List (K × V) → List (K × V)
  | [] => [(k, v)]
  | e :: es =>
    if k < e.1 then (k, v) :: e :: es
    else if k = e.1 then (k, v) :: es
    else e :: insertEntry k v es

theorem mem_insertEntry {k : K} {v : V} {es : List (K × V)} {e : K × V} (h : e ∈ insertEntry k v es) :
    e = (k, v) ∨ e ∈ es := by
  induction es with
  | nil => simpa [insertEntry] using h
  | cons e' es ih =>
    rw [insertEntry] at h
    split at h
    · simpa using h
    · split at h
      · rcases List.mem_cons.mp h with rfl | h
        · exact Or.inl rfl
        · exact Or.inr (List.mem_cons_of_mem _ h)
      · rcases List.mem_cons.mp h with rfl | h
        · exact Or.inr List.mem_cons_self
        · exact (ih h).imp id (List.mem_cons_of_mem _)

theorem insertEntry_sorted (k : K) (v : V) {es : List (K × V)} (h : es.Pairwise fun a b => a.1 < b.1) :
    (insertEntry k v es).Pairwise fun a b => a.1 < b.1 := by
  induction es with
  | nil => exact List.pairwise_singleton _ _
  | cons e es ih =>
    obtain ⟨he, hes⟩ := List.pairwise_cons.mp h
    rw [insertEntry]
    split
    · rename_i hk
      refine List.pairwise_cons.mpr ⟨?_, h⟩
      intro x hx
      rcases List.mem_cons.mp hx with rfl | hx
      · exact hk
      · exact hk.trans (he x hx)
    · split
      · rename_i hk
        subst hk
        exact List.pairwise_cons.mpr ⟨he, hes⟩
      · rename_i hlt hne
        refine List.pairwise_cons.mpr ⟨?_, ih hes⟩
        intro x hx
        rcases mem_insertEntry hx with rfl | hx
        · exact lt_of_le_of_ne (not_lt.mp hlt) (Ne.symm hne)
        · exact he x hx

def save (s : Store K V) (k : K) (v : V) : Store K V := ⟨insertEntry k v s.entries, insertEntry_sorted k v s.sorted⟩

def remove (s : Store K V) (k : K) : Store K V :=
  ⟨s.entries.filter fun e => decide (e.1 ≠ k), s.sorted.filter _⟩

/-! ## Lookups -/

@[simp] theorem lookup_empty (k : K) : (empty : Store K V).lookup k = none := rfl

theorem find?_insertEntry (k k' : K) (v : V) (es : List (K × V)) :
    ((insertEntry k v es).find? fun e => decide (e.1 = k')).map Prod.snd =
      if k' = k then some v else (es.find? fun e => decide (e.1 = k')).map Prod.snd := by
  induction es with
  | nil =>
    by_cases h : k' = k
    · simp [insertEntry, h]
    · simp [insertEntry, h, Ne.symm h]
  | cons e es ih =>
    rw [insertEntry]
    by_cases h : k' = k
    · subst h
      rw [if_pos rfl] at ih ⊢
      split
      · simp
      · split
        · simp
        · rename_i hne
          rw [List.find?_cons_of_neg (by simpa using Ne.symm hne), ih]
    · have hne : (k, v).1 ≠ k' := fun he => h he.symm
      rw [if_neg h] at ih ⊢
      split
      · rw [List.find?_cons_of_neg (by simpa using hne)]
      · split
        · rename_i hk
          rw [List.find?_cons_of_neg (by simpa using hne), List.find?_cons_of_neg (by simpa [← hk] using hne)]
        · by_cases he : e.1 = k'
          · rw [List.find?_cons_of_pos (by simpa using he), List.find?_cons_of_pos (by simpa using he)]
          · rw [List.find?_cons_of_neg (by simpa using he), List.find?_cons_of_neg (by simpa using he), ih]

theorem lookup_save (s : Store K V) (k k' : K) (v : V) :
    (s.save k v).lookup k' = if k' = k then some v else s.lookup k' :=
  find?_insertEntry k k' v s.entries

@[simp] theorem lookup_save_self (s : Store K V) (k : K) (v : V) : (s.save k v).lookup k = some v := by
  rw [lookup_save, if_pos rfl]

theorem lookup_save_ne (s : Store K V) {k k' : K} (v : V) (h : k' ≠ k) : (s.save k v).lookup k' = s.lookup k' := by
  rw [lookup_save, if_neg h]

theorem lookup_remove (s : Store K V) (k k' : K) :
    (s.remove k).lookup k' = if k' = k then none else s.lookup k' := by
  simp only [lookup, remove, List.find?_filter]
  by_cases h : k' = k
  · rw [if_pos h, List.find?_eq_none.mpr (by simp +contextual [h]), Option.map_none]
  · rw [if_neg h]
    congr 2
    funext e
    by_cases he : e.1 = k'
    · simp [he, h]
    · simp [he]

theorem mem_entries (s : Store K V) {k : K} {v : V} : (k, v) ∈ s.entries ↔ s.lookup k = some v := by
  obtain ⟨es, hs⟩ := s
  simp only [lookup]
  induction es with
  | nil => simp
  | cons e es ih =>
    obtain ⟨he, hes⟩ := List.pairwise_cons.mp hs
    have hrest := ih hes
    by_cases hk : e.1 = k
    · have hnot : (k, v) ∉ es := fun hm => absurd (he _ hm) (by simp [hk])
      have hv : (k, v) = e ↔ e.2 = v :=
        ⟨fun h => by rw [← h], fun h => Prod.ext hk.symm h.symm⟩
      rw [List.find?_cons_of_pos (by simpa using hk), List.mem_cons, hv]
      simp [hnot]
    · have hv : (k, v) ≠ e := fun h => hk (by rw [← h])
      rw [List.find?_cons_of_neg (by simpa using hk), List.mem_cons, hrest]
      simp [hv]

theorem mem_keys (s : Store K V) {k : K} : k ∈ s.keys ↔ s.has k = true := by
  simp only [keys, has, List.mem_map, Option.isSome_iff_exists, ← mem_entries]
  constructor
  · intro ⟨e, he, hk⟩
    exact ⟨e.2, hk ▸ he⟩
  · intro ⟨v, hv⟩
    exact ⟨(k, v), hv, rfl⟩

theorem keys_sorted (s : Store K V) : s.keys.Pairwise (· < ·) := List.pairwise_map.mpr s.sorted

theorem has_save (s : Store K V) (k k' : K) (v : V) : (s.save k v).has k' = (decide (k' = k) || s.has k') := by
  rw [has, lookup_save]
  by_cases h : k' = k
  · simp [h]
  · simp [h, has]

theorem has_remove (s : Store K V) (k k' : K) : (s.remove k).has k' = (decide (k' ≠ k) && s.has k') := by
  rw [has, lookup_remove]
  by_cases h : k' = k
  · simp [h]
  · simp [h, has]

/-- Stores that answer every lookup alike are the same. -/
theorem ext_lookup {s t : Store K V} (h : ∀ k, s.lookup k = t.lookup k) : s = t := by
  have hmem : ∀ e, e ∈ s.entries ↔ e ∈ t.entries := fun e => by rw [mem_entries, mem_entries, h]
  have hnodup : ∀ u : Store K V, u.entries.Nodup := fun u =>
    u.sorted.imp fun hlt heq => absurd hlt (by simp [heq])
  have hperm := (List.perm_ext_iff_of_nodup (hnodup s) (hnodup t)).mpr hmem
  have := hperm.eq_of_pairwise (fun a b _ _ hab hba => absurd hab (not_lt.mpr hba.le)) s.sorted t.sorted
  cases s; cases t; cases this; rfl

/-! ## Sums over the values -/

def sum (f : V → ℕ) (s : Store K V) : ℕ := (s.entries.map fun e => f e.2).sum

/-- What one key adds to the sum. -/
def share (f : V → ℕ) (s : Store K V) (k : K) : ℕ := ((s.lookup k).map f).getD 0

theorem share_save (f : V → ℕ) (s : Store K V) (k k' : K) (v : V) :
    (s.save k v).share f k' = if k' = k then f v else s.share f k' := by
  rw [share, lookup_save]
  split <;> rfl

theorem sum_insertEntry (f : V → ℕ) (k : K) (v : V) {es : List (K × V)} (h : es.Pairwise fun a b => a.1 < b.1) :
    ((insertEntry k v es).map fun e => f e.2).sum +
      (((es.find? fun e => decide (e.1 = k)).map Prod.snd).map f).getD 0 = (es.map fun e => f e.2).sum + f v := by
  induction es with
  | nil => simp [insertEntry]
  | cons e es ih =>
    obtain ⟨he, hes⟩ := List.pairwise_cons.mp h
    rw [insertEntry]
    split
    · rename_i hk
      -- every key is above `k`
      have hnone : (e :: es).find? (fun e => decide (e.1 = k)) = none := by
        refine List.find?_eq_none.mpr fun x hx => ?_
        have : k < x.1 := by
          rcases List.mem_cons.mp hx with rfl | hx
          · exact hk
          · exact hk.trans (he x hx)
        simpa using this.ne'
      rw [hnone]
      simp [add_comm]
    · split
      · rename_i hk
        rw [List.find?_cons_of_pos (by simpa using hk.symm)]
        simp only [List.map_cons, List.sum_cons, Option.map_some, Option.getD_some]
        omega
      · rename_i hne
        rw [List.find?_cons_of_neg (by simpa using Ne.symm hne)]
        have := ih hes
        simp only [List.map_cons, List.sum_cons]
        omega

theorem sum_save (f : V → ℕ) (s : Store K V) (k : K) (v : V) :
    (s.save k v).sum f + s.share f k = s.sum f + f v :=
  sum_insertEntry f k v s.sorted

/-! ## Saving many entries -/

/-- The entries of a list are saved one after another. -/
theorem lookup_foldl_save (es : List (K × V)) (s : Store K V) (k : K) (hn : (es.map Prod.fst).Nodup) :
    (es.foldl (fun s e => s.save e.1 e.2) s).lookup k =
      ((es.find? fun e => decide (e.1 = k)).map Prod.snd).or (s.lookup k) := by
  induction es generalizing s with
  | nil => simp
  | cons e es ih =>
    obtain ⟨hnot, hn⟩ := List.nodup_cons.mp hn
    rw [List.foldl_cons, ih _ hn]
    by_cases hk : e.1 = k
    · subst hk
      have hnone : es.find? (fun x => decide (x.1 = e.1)) = none := by
        refine List.find?_eq_none.mpr fun x hx hdec => hnot ?_
        rw [← of_decide_eq_true hdec]
        exact List.mem_map_of_mem hx
      rw [hnone, List.find?_cons_of_pos (by simp)]
      simp
    · rw [List.find?_cons_of_neg (by simpa using hk), lookup_save_ne _ _ (Ne.symm hk)]

/-- New keys add their values to the sum. -/
theorem sum_foldl_save (f : V → ℕ) (es : List (K × V)) (s : Store K V) (hn : (es.map Prod.fst).Nodup)
    (hnew : ∀ e ∈ es, s.lookup e.1 = none) :
    (es.foldl (fun s e => s.save e.1 e.2) s).sum f = s.sum f + (es.map fun e => f e.2).sum := by
  induction es generalizing s with
  | nil => rfl
  | cons e es ih =>
    obtain ⟨hnot, hn⟩ := List.nodup_cons.mp hn
    have hrest : ∀ x ∈ es, (s.save e.1 e.2).lookup x.1 = none := by
      intro x hx
      have hne : x.1 ≠ e.1 := fun h => hnot (h ▸ List.mem_map_of_mem hx)
      rw [lookup_save_ne _ _ hne]
      exact hnew x (List.mem_cons_of_mem _ hx)
    have hhead : s.share f e.1 = 0 := by
      rw [share, hnew e List.mem_cons_self]
      rfl
    have := sum_save f s e.1 e.2
    rw [List.foldl_cons, ih _ hn hrest, List.map_cons, List.sum_cons]
    omega

/-- The sum is over the keys. -/
theorem sum_keys (f : V → ℕ) (s : Store K V) : (s.keys.map (s.share f)).sum = s.sum f := by
  rw [keys, List.map_map, sum]
  refine congrArg List.sum (List.map_congr_left fun e he => ?_)
  simp [share, s.mem_entries.mp he]

end Store

end Sylvia.Base
