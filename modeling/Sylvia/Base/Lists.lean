/-
  Sylvia.Base.Lists — lists walked by a function that may fail, as relations between
  what goes in and what comes out, and the first element with a key of its own.
-/
import Mathlib.Data.List.Forall2
import Mathlib.Data.List.Induction
import Mathlib.Data.List.Nodup
import Mathlib.Data.List.Perm.Basic

namespace Sylvia.Base

/-- Every element of one list has its partner exactly when a list of partners exists. -/
theorem exists_forall₂_iff {α β : Type} {p : α → β → Prop} {xs : List α} :
    (∃ ys, List.Forall₂ p xs ys) ↔ ∀ x ∈ xs, ∃ y, p x y := by
  constructor
  · intro ⟨ys, h⟩
    induction h with
    | nil => simp
    | cons hxy _ ih =>
      intro x hx
      rcases List.mem_cons.mp hx with rfl | hx
      · exact ⟨_, hxy⟩
      · exact ih x hx
  · intro h
    induction xs with
    | nil => exact ⟨[], .nil⟩
    | cons x xs ih =>
      obtain ⟨y, hy⟩ := h x List.mem_cons_self
      obtain ⟨ys, hys⟩ := ih fun z hz => h z (List.mem_cons_of_mem _ hz)
      exact ⟨y :: ys, .cons hy hys⟩

theorem exists_forall₂_some_iff {α β : Type} {f : α → Option β} {xs : List α} :
    (∃ ys, List.Forall₂ (fun x y => f x = some y) xs ys) ↔ ∀ x ∈ xs, f x ≠ none := by
  rw [exists_forall₂_iff]
  simp only [Option.ne_none_iff_exists']

theorem mapM_some_iff {α β : Type} (f : α → Option β) (xs : List α) (ys : List β) :
    xs.mapM f = some ys ↔ List.Forall₂ (fun x y => f x = some y) xs ys := by
  constructor
  · intro h
    induction xs generalizing ys with
    | nil =>
      obtain rfl : [] = ys := by simpa using h
      exact .nil
    | cons x xs ih =>
      rw [List.mapM_cons] at h
      obtain ⟨y, hy, h⟩ := Option.bind_eq_some_iff.mp h
      obtain ⟨zs, hzs, h⟩ := Option.bind_eq_some_iff.mp h
      obtain rfl : y :: zs = ys := by simpa using h
      exact .cons hy (ih zs hzs)
  · intro h
    induction h with
    | nil => rfl
    | cons hxy _ ih => rw [List.mapM_cons, hxy, ih]; rfl

theorem toOption_eq_some {ε β : Type} {r : Except ε β} {y : β} : r.toOption = some y ↔ r = .ok y := by
  cases r <;> simp [Except.toOption]

/-- Forgetting which error ended a walk. -/
theorem toOption_mapM {α β ε : Type} (f : α → Except ε β) (xs : List α) :
    (xs.mapM f).toOption = xs.mapM fun x => (f x).toOption := by
  induction xs with
  | nil => rfl
  | cons x xs ih =>
    rw [List.mapM_cons, List.mapM_cons, ← ih]
    cases f x with
    | error e => rfl
    | ok y => cases xs.mapM f <;> rfl

theorem mapM_ok_iff {α β ε : Type} (f : α → Except ε β) (xs : List α) (ys : List β) :
    xs.mapM f = .ok ys ↔ List.Forall₂ (fun x y => f x = .ok y) xs ys := by
  rw [← toOption_eq_some, toOption_mapM, mapM_some_iff]
  simp only [toOption_eq_some]

theorem mapM_some_perm {α β : Type} {f : α → Option β} {xs xs' : List α} {ys : List β} (hp : xs'.Perm xs)
    (h : xs.mapM f = some ys) : ∃ ys', xs'.mapM f = some ys' ∧ ys'.Perm ys := by
  obtain ⟨ys', hf, hys⟩ := List.perm_comp_forall₂ hp ((mapM_some_iff f xs ys).mp h)
  exact ⟨ys', (mapM_some_iff f xs' ys').mpr hf, hys⟩

theorem bind_ok_iff {α β ε : Type} {x : Except ε α} {f : α → Except ε β} {b : β} :
    (x >>= f) = .ok b ↔ ∃ a, x = .ok a ∧ f a = .ok b := by
  cases x <;> simp [bind, Except.bind]

theorem exists_mapM_ok_iff {α β ε : Type} {f : α → Except ε β} {xs : List α} :
    (∃ ys, xs.mapM f = .ok ys) ↔ ∀ x ∈ xs, ∃ y, f x = .ok y := by
  simp only [mapM_ok_iff]
  exact exists_forall₂_iff

theorem forall₂_mem {α β : Type} {p : α → β → Prop} {xs : List α} {ys : List β} (h : List.Forall₂ p xs ys) :
    (∀ x ∈ xs, ∃ y ∈ ys, p x y) ∧ ∀ y ∈ ys, ∃ x ∈ xs, p x y := by
  induction h with
  | nil => simp
  | cons hxy _ ih =>
    constructor
    · intro x hx
      rcases List.mem_cons.mp hx with rfl | hx
      · exact ⟨_, List.mem_cons_self, hxy⟩
      · obtain ⟨y, hy, hp⟩ := ih.1 x hx
        exact ⟨y, List.mem_cons_of_mem _ hy, hp⟩
    · intro y hy
      rcases List.mem_cons.mp hy with rfl | hy
      · exact ⟨_, List.mem_cons_self, hxy⟩
      · obtain ⟨x, hx, hp⟩ := ih.2 y hy
        exact ⟨x, List.mem_cons_of_mem _ hx, hp⟩

theorem mapM_some_mem {α β : Type} {f : α → Option β} {xs : List α} {ys : List β} (h : xs.mapM f = some ys) :
    (∀ x ∈ xs, ∃ y ∈ ys, f x = some y) ∧ ∀ y ∈ ys, ∃ x ∈ xs, f x = some y :=
  forall₂_mem ((mapM_some_iff f xs ys).mp h)

theorem find?_unique {α : Type} {p : α → Bool} {xs : List α} {x : α} (hx : x ∈ xs) (hp : p x = true)
    (huniq : ∀ y ∈ xs, p y = true → y = x) : xs.find? p = some x := by
  cases h : xs.find? p with
  | none => exact absurd hp (List.find?_eq_none.mp h x hx)
  | some y => rw [huniq y (List.mem_of_find?_eq_some h) (List.find?_some h)]

/-- The first element with a key that only it has. -/
theorem find?_of_nodup {α κ : Type} [DecidableEq κ] {key : α → κ} {xs : List α} {x : α} (hn : (xs.map key).Nodup)
    (hx : x ∈ xs) : xs.find? (fun y => decide (key y = key x)) = some x :=
  find?_unique hx (decide_eq_true rfl) fun _ hy hk => List.inj_on_of_nodup_map hn hy hx (of_decide_eq_true hk)

theorem exists_lookup_zip {α β : Type} [BEq α] [LawfulBEq α] {xs : List α} {vs : List β} {x : α}
    (hlen : xs.length = vs.length) (hx : x ∈ xs) : ∃ v ∈ vs, (xs.zip vs).lookup x = some v := by
  cases h : (xs.zip vs).lookup x with
  | some v =>
    obtain ⟨l₁, l₂, hzip, -⟩ := List.lookup_eq_some_iff.mp h
    have hmem : (x, v) ∈ xs.zip vs := by rw [hzip]; simp
    exact ⟨v, (List.of_mem_zip hmem).2, rfl⟩
  | none =>
    rw [← List.map_fst_zip (Nat.le_of_eq hlen)] at hx
    obtain ⟨p, hp, rfl⟩ := List.mem_map.mp hx
    exact absurd (List.lookup_eq_none_iff.mp h p hp) (by simp)

/-- In a list without repetitions, the index an element is paired with. -/
theorem lookup_zipIdx {α : Type} [BEq α] [LawfulBEq α] {xs : List α} (hn : xs.Nodup) {i : Nat} {x : α} (hi : xs[i]? = some x) :
    xs.zipIdx.lookup x = some i := by
  suffices h : ∀ n, (xs.zipIdx n).lookup x = some (n + i) by simpa using h 0
  induction xs generalizing i with
  | nil => simp at hi
  | cons y xs ih =>
    obtain ⟨hy, hn⟩ := List.nodup_cons.mp hn
    intro n
    cases i with
    | zero =>
      obtain rfl : y = x := by simpa using hi
      simp [List.zipIdx_cons]
    | succ i =>
      have hi : xs[i]? = some x := by simpa using hi
      have hne : (x == y) = false := by
        rw [beq_eq_false_iff_ne]
        intro h
        subst h
        exact hy (List.mem_of_getElem? hi)
      rw [List.zipIdx_cons, List.lookup_cons, hne]
      simp only [ih hn hi, Option.some.injEq]
      omega

theorem forall₂_and {α β : Type} {p q : α → β → Prop} {xs : List α} {ys : List β} (hp : List.Forall₂ p xs ys)
    (hq : List.Forall₂ q xs ys) : ∀ x ∈ xs, ∃ y, p x y ∧ q x y := by
  induction hp with
  | nil => simp
  | cons hxy _ ih =>
    cases hq with
    | cons hxy' hq =>
      intro x hx
      rcases List.mem_cons.mp hx with rfl | hx
      · exact ⟨_, hxy, hxy'⟩
      · exact ih hq x hx

theorem forall₂_imp_mem {α β : Type} {p q : α → β → Prop} {xs : List α} {ys : List β} (h : List.Forall₂ p xs ys)
    (hpq : ∀ x ∈ xs, ∀ y, p x y → q x y) : List.Forall₂ q xs ys := by
  induction h with
  | nil => exact .nil
  | cons hxy _ ih =>
    exact .cons (hpq _ List.mem_cons_self _ hxy) (ih fun x hx => hpq x (List.mem_cons_of_mem _ hx))

end Sylvia.Base
