/-
  Sylvia.Utils.Overlap — the compile-time overlap check of the message lists
  (`sylvia/src/utils.rs`: `assert_no_intersection`, `init_states`,
  `get_next_alphabetical_index`, `verify_no_collissions`, `should_end`).

  One cursor per array. Each round picks the ongoing cursor with the alphabetically
  smallest element (the first such array; the scan starts at array 0 whatever its
  state), panics if the current element of any other array that is not empty equals
  it, and moves that cursor on: past its last element it is `finished` there. Every
  array access can panic with an index out of bounds and the `unreachable!()` arm is
  a panic of its own; `assertNoIntersection` bounds its rounds by fuel, `none` meaning
  that the loop has not ended.

  Proved, for any arrays, sorted or not:
  - `step_spec`: from cursors that fit their arrays, a round never panics out of
    bounds nor reaches the `unreachable!()` arm; it passes the smallest head or panics
    on a real clash with it.
  - `step_left`, `run_spec`: every round passes an element, so with one round of fuel
    for each the loop ends.
  - `overlap_check_safe`: so it is from the start, in every round the loop comes to.
  Proved for arrays sorted in byte order: the check panics exactly when two different
  arrays share a string (`overlap_check`). Lean's order on strings compares code
  points, which for UTF-8 is the byte order.
-/
import Mathlib.Algebra.Order.Ring.Nat
import Mathlib.Data.List.Forall2
import Mathlib.Data.String.Basic
import Sylvia.Base.Sweep

namespace Sylvia.Utils

open Sylvia.Base

inductive State where
  | ongoing (wi : Nat)
  | finished (wi : Nat)
  | empty
  deriving DecidableEq, Repr

inductive Panic where
  | overlaps
  | unreachable
  | indexOutOfBounds
  deriving DecidableEq, Repr

/-- `xs[i]`. -/
def idx {α : Type} (xs : List α) (i : Nat) : Except Panic α :=
  match xs[i]? with
  | some x => .ok x
  | none => .error .indexOutOfBounds

theorem idx_ok {α : Type} {xs : List α} {i : Nat} {x : α} (h : xs[i]? = some x) : idx xs i = .ok x := by
  simp [idx, h]

def initStates (msgs : List (List String)) : List State :=
  msgs.map fun m => if m.isEmpty then .empty else .ongoing 0

def getNextAlphabeticalIndex (msgs : List (List String)) (states : List State) : Except Panic Nat :=
  (List.range msgs.length).foldlM (fun outputIndex i => do
    match ← idx states i with
    | .ongoing outerI =>
      match ← idx states outputIndex with
      | .ongoing innerI =>
        let current ← idx (← idx msgs outputIndex) innerI
        let other ← idx (← idx msgs i) outerI
        if other < current then .ok i else .ok outputIndex
      | _ => .ok i
    | _ => .ok outputIndex) 0

def verifyNoCollissions (msgs : List (List String)) (states : List State) (index : Nat) : Except Panic Unit :=
  (List.range msgs.length).foldlM (fun _ i => do
    if i = index then .ok () else
      match ← idx states i with
      | .ongoing outerI | .finished outerI =>
        match ← idx states index with
        | .ongoing innerI =>
          let a ← idx (← idx msgs i) outerI
          let b ← idx (← idx msgs index) innerI
          if a = b then .error .overlaps else .ok ()
        | _ => .ok ()
      | .empty => .ok ()) ()

def shouldEnd (states : List State) : Bool :=
  states.all fun st => match st with
    | .ongoing _ => false
    | _ => true

/-- The ongoing cursor at `wi`, moved on. -/
def next (m : List String) (wi : Nat) : State :=
  if m.length = wi + 1 then .finished wi else .ongoing (wi + 1)

/-- One round of the `while` loop. -/
def step (msgs : List (List String)) (states : List State) : Except Panic (List State) := do
  let index ← getNextAlphabeticalIndex msgs states
  verifyNoCollissions msgs states index
  match ← idx states index with
  | .ongoing wi =>
    let m ← idx msgs index
    .ok (states.set index (next m wi))
  | _ => .error .unreachable

def run (msgs : List (List String)) : Nat → List State → Option (Except Panic Unit)
  | 0, states => if shouldEnd states then some (.ok ()) else none
  | fuel + 1, states =>
    if shouldEnd states then some (.ok ())
    else match step msgs states with
      | .ok states' => run msgs fuel states'
      | .error e => some (.error e)

def total (msgs : List (List String)) : Nat := (msgs.map List.length).sum

def assertNoIntersection (msgs : List (List String)) : Option (Except Panic Unit) :=
  run msgs (total msgs) (initStates msgs)

/-- The check panics. -/
def Panics (msgs : List (List String)) : Prop := ∃ e, assertNoIntersection msgs = some (.error e)

/-- Two different arrays hold a common string. -/
def Overlap (msgs : List (List String)) : Prop :=
  ∃ (i j : Nat) (a b : List String), i < j ∧ msgs[i]? = some a ∧ msgs[j]? = some b ∧ ∃ s, s ∈ a ∧ s ∈ b

/-! ## Cursors -/

/-- How many elements of its array a cursor has passed. -/
def passed : State → Nat
  | .ongoing wi => wi
  | .finished wi => wi + 1
  | .empty => 0

@[simp] theorem passed_ongoing (wi : Nat) : passed (.ongoing wi) = wi := rfl
@[simp] theorem passed_finished (wi : Nat) : passed (.finished wi) = wi + 1 := rfl
@[simp] theorem passed_empty : passed .empty = 0 := rfl

@[simp] theorem passed_next (m : List String) (wi : Nat) : passed (next m wi) = wi + 1 := by
  unfold next; split <;> rfl

/-- A cursor that points into its array: an ongoing one at an element, a finished one
    at the last, none into an empty array. -/
def FitsAt (m : List String) : State → Prop
  | .ongoing wi => wi < m.length
  | .finished wi => wi + 1 = m.length
  | .empty => m = []

def Fits (msgs : List (List String)) (states : List State) : Prop := List.Forall₂ FitsAt msgs states

theorem initStates_fits (msgs : List (List String)) : Fits msgs (initStates msgs) := by
  unfold Fits initStates
  rw [List.forall₂_map_right_iff]
  apply List.forall₂_same.mpr
  intro m _
  cases m with
  | nil => rfl
  | cons s m => exact Nat.succ_pos _

variable {msgs : List (List String)} {states : List State}

theorem Fits.length_eq (hf : Fits msgs states) : msgs.length = states.length := List.Forall₂.length_eq hf

theorem Fits.at (hf : Fits msgs states) {i : Nat} {st : State} (hi : states[i]? = some st) :
    ∃ m, msgs[i]? = some m ∧ FitsAt m st := by
  obtain ⟨hlt, rfl⟩ := List.getElem?_eq_some_iff.mp hi
  have hm : i < msgs.length := by rw [hf.length_eq]; exact hlt
  exact ⟨msgs[i], List.getElem?_eq_getElem hm, (List.forall₂_iff_get.mp hf).2 i hm hlt⟩

theorem Fits.fitsAt (hf : Fits msgs states) {i : Nat} {m : List String} {st : State} (hm : msgs[i]? = some m)
    (hi : states[i]? = some st) : FitsAt m st := by
  obtain ⟨m', hm', hfit⟩ := hf.at hi
  obtain rfl : m' = m := Option.some.inj (hm'.symm.trans hm)
  exact hfit

/-- Where the ongoing cursor `i` points. -/
def Head (msgs : List (List String)) (states : List State) (i : Nat) (s : String) : Prop :=
  ∃ wi m, states[i]? = some (.ongoing wi) ∧ msgs[i]? = some m ∧ m[wi]? = some s

/-- Where the cursor `i` points, ongoing or finished. -/
def Current (msgs : List (List String)) (states : List State) (i : Nat) (s : String) : Prop :=
  ∃ wi m, (states[i]? = some (.ongoing wi) ∨ states[i]? = some (.finished wi)) ∧ msgs[i]? = some m ∧ m[wi]? = some s

theorem Head.current {i : Nat} {s : String} (h : Head msgs states i s) : Current msgs states i s := by
  obtain ⟨wi, m, hi, hm, hs⟩ := h
  exact ⟨wi, m, Or.inl hi, hm, hs⟩

theorem Current.mem {i : Nat} {s : String} (h : Current msgs states i s) : ∃ m, msgs[i]? = some m ∧ s ∈ m := by
  obtain ⟨wi, m, -, hm, hs⟩ := h
  exact ⟨m, hm, List.mem_of_getElem? hs⟩

theorem Current.unique {i : Nat} {s t : String} (hs : Current msgs states i s) (ht : Current msgs states i t) :
    s = t := by
  obtain ⟨wi, m, hi, hm, hs⟩ := hs
  obtain ⟨wj, m', hi', hm', ht⟩ := ht
  obtain rfl : m = m' := Option.some.inj (hm.symm.trans hm')
  have hw : wi = wj := by
    rcases hi with hi | hi <;> rcases hi' with hi' | hi' <;> simp_all
  subst hw
  exact Option.some.inj (hs.symm.trans ht)

/-- A cursor that fits reads an element of its array, ongoing or finished. -/
theorem Fits.current (hf : Fits msgs states) {i wi : Nat} {st : State} (hi : states[i]? = some st)
    (hst : st = .ongoing wi ∨ st = .finished wi) :
    ∃ m s, msgs[i]? = some m ∧ m[wi]? = some s ∧ Current msgs states i s := by
  obtain ⟨m, hm, hw⟩ := hf.at hi
  have hlt : wi < m.length := by
    rcases hst with rfl | rfl
    · exact hw
    · unfold FitsAt at hw; omega
  have hs : m[wi]? = some m[wi] := List.getElem?_eq_getElem hlt
  refine ⟨m, m[wi], hm, hs, wi, m, ?_, hm, hs⟩
  rcases hst with rfl | rfl
  · exact Or.inl hi
  · exact Or.inr hi

theorem Fits.head (hf : Fits msgs states) {i wi : Nat} (hi : states[i]? = some (.ongoing wi)) :
    ∃ m s, msgs[i]? = some m ∧ m[wi]? = some s ∧ Head msgs states i s := by
  obtain ⟨m, s, hm, hs, -⟩ := hf.current hi (Or.inl rfl)
  exact ⟨m, s, hm, hs, wi, m, hi, hm, hs⟩

theorem Fits.state (hf : Fits msgs states) {i : Nat} (hi : i < msgs.length) : ∃ st, states[i]? = some st :=
  ⟨_, List.getElem?_eq_getElem (by rw [← hf.length_eq]; exact hi)⟩

/-! ## What a round does -/

/-- The scan returns the array of a smallest head as soon as one cursor is ongoing,
    and reads only elements that are there. -/
theorem getNextAlphabeticalIndex_spec (hf : Fits msgs states) (hgo : shouldEnd states = false) :
    ∃ k s, getNextAlphabeticalIndex msgs states = .ok k ∧ Head msgs states k s ∧
      ∀ i t, Head msgs states i t → s ≤ t := by
  obtain ⟨g, hg⟩ : ∃ g : Nat, ∃ wi, states[g]? = some (.ongoing wi) := by
    simp only [shouldEnd, List.all_eq_false] at hgo
    obtain ⟨st, hst, hb⟩ := hgo
    obtain ⟨g, hg⟩ := List.getElem?_of_mem hst
    cases st with
    | ongoing wi => exact ⟨g, wi, hg⟩
    | finished wi => simp at hb
    | empty => simp at hb
  obtain ⟨wg, hg⟩ := hg
  have hgN : g < msgs.length := by
    rw [hf.length_eq]; exact (List.getElem?_eq_some_iff.mp hg).1
  -- after `n` rounds the output index holds a head at most every head seen so far
  let P : Nat → Nat → Prop := fun n o =>
    o < msgs.length ∧ ∀ i < n, ∀ t, Head msgs states i t → ∃ s, Head msgs states o s ∧ s ≤ t
  have hloop : ∃ k, getNextAlphabeticalIndex msgs states = .ok k ∧ P msgs.length k := by
    refine foldlM_range_ok _ (fun i hi o ho => ?_) 0 ⟨by omega, fun i hi => absurd hi (by omega)⟩
    obtain ⟨hoN, ho⟩ := ho
    obtain ⟨st, hst⟩ := hf.state hi
    obtain ⟨so, hso⟩ := hf.state hoN
    have keep : (∀ t, ¬ Head msgs states i t) → P (i + 1) o := by
      refine fun hno => ⟨hoN, ?_⟩
      intro i' hi' t ht
      rcases Nat.lt_succ_iff_lt_or_eq.mp hi' with hlt | rfl
      · exact ho i' hlt t ht
      · exact absurd ht (hno t)
    cases st with
    | finished wi => exact ⟨o, by simp [idx_ok hst, bind, Except.bind], keep fun t ⟨_, _, h, _⟩ => by simp [hst] at h⟩
    | empty => exact ⟨o, by simp [idx_ok hst, bind, Except.bind], keep fun t ⟨_, _, h, _⟩ => by simp [hst] at h⟩
    | ongoing outerI =>
      obtain ⟨m, t, hm, hmt, ht⟩ := hf.head hst
      have take : (∀ s, Head msgs states o s → t ≤ s) → P (i + 1) i := by
        refine fun hle => ⟨hi, fun i' hi' u hu => ⟨t, ht, ?_⟩⟩
        rcases Nat.lt_succ_iff_lt_or_eq.mp hi' with hlt | rfl
        · obtain ⟨s, hs, hsu⟩ := ho i' hlt u hu
          exact le_trans (hle s hs) hsu
        · exact le_of_eq (ht.current.unique hu.current)
      have other : (∀ wi, so ≠ .ongoing wi) → P (i + 1) i := by
        refine fun hno => take fun s ⟨wi, _, h, _⟩ => ?_
        rw [hso] at h
        exact absurd (Option.some.inj h) (hno wi)
      cases so with
      | finished wi => exact ⟨i, by simp [idx_ok hst, idx_ok hso, bind, Except.bind], other (by simp)⟩
      | empty => exact ⟨i, by simp [idx_ok hst, idx_ok hso, bind, Except.bind], other (by simp)⟩
      | ongoing innerI =>
        obtain ⟨mo, s, hmo, hms, hs⟩ := hf.head hso
        by_cases hlt : t < s
        · refine ⟨i, by simp [idx_ok hst, idx_ok hso, idx_ok hm, idx_ok hmo, idx_ok hmt, idx_ok hms, hlt, bind,
            Except.bind], take fun s' hs' => ?_⟩
          rw [← hs.current.unique hs'.current]; exact le_of_lt hlt
        · refine ⟨o, by simp [idx_ok hst, idx_ok hso, idx_ok hm, idx_ok hmo, idx_ok hmt, idx_ok hms, hlt, bind,
            Except.bind], hoN, fun i' hi' u hu => ?_⟩
          rcases Nat.lt_succ_iff_lt_or_eq.mp hi' with hlt' | rfl
          · exact ho i' hlt' u hu
          · exact ⟨s, hs, by rw [← ht.current.unique hu.current]; exact le_of_not_gt hlt⟩
  obtain ⟨k, hk, -, hmin⟩ := hloop
  obtain ⟨_, _, _, _, hgh⟩ := hf.head hg
  obtain ⟨s, hs, -⟩ := hmin g hgN _ hgh
  refine ⟨k, s, hk, hs, ?_⟩
  intro i t ht
  obtain ⟨_, m, _, hm, _⟩ := id ht
  obtain ⟨s', hs', hle⟩ := hmin i (List.getElem?_eq_some_iff.mp hm).1 t ht
  rwa [hs.current.unique hs'.current]

/-- Comparing the chosen head with the others panics exactly when one of them points
    at the same string. -/
theorem verifyNoCollissions_spec (hf : Fits msgs states) {k : Nat} {s : String} (hk : Head msgs states k s) :
    (verifyNoCollissions msgs states k = .ok () ∧ ∀ i, i ≠ k → ¬ Current msgs states i s) ∨
      (verifyNoCollissions msgs states k = .error .overlaps ∧ ∃ i, i ≠ k ∧ Current msgs states i s) := by
  obtain ⟨wk, mk, hsk, hmk, hks⟩ := id hk
  -- before round `i` no array below `i` but `k` points at `s`
  have hloop : (∃ u, verifyNoCollissions msgs states k = .ok u ∧ ∀ i < msgs.length, i ≠ k → ¬ Current msgs states i s) ∨
      ∃ e, verifyNoCollissions msgs states k = .error e ∧ e = .overlaps ∧ ∃ i, i ≠ k ∧ Current msgs states i s := by
    refine foldlM_range (P := fun n _ => ∀ i < n, i ≠ k → ¬ Current msgs states i s) msgs.length ?_ () ?_
    · intro i hi _ hP
      have more : (i ≠ k → ¬ Current msgs states i s) → ∀ i' < i + 1, i' ≠ k → ¬ Current msgs states i' s := by
        intro hno i' hi'
        rcases Nat.lt_succ_iff_lt_or_eq.mp hi' with hlt | rfl
        · exact hP i' hlt
        · exact hno
      by_cases hik : i = k
      · exact Or.inl ⟨(), by simp [hik], more fun h => absurd hik h⟩
      obtain ⟨st, hst⟩ := hf.state hi
      have hcases : st = .empty ∨ ∃ wi, st = .ongoing wi ∨ st = .finished wi := by cases st <;> simp
      rcases hcases with rfl | ⟨wi, hwi⟩
      · refine Or.inl ⟨(), by simp [hik, idx_ok hst, bind, Except.bind], more ?_⟩
        intro _ ⟨_, _, h, _⟩
        simp [hst] at h
      · -- both kinds of cursor are read and compared alike
        obtain ⟨m, a, hm, ha, hc⟩ := hf.current hst hwi
        by_cases has : a = s
        · refine Or.inr ⟨.overlaps, ?_, rfl, i, hik, has ▸ hc⟩
          rcases hwi with rfl | rfl <;>
            simp [hik, idx_ok hst, idx_ok hsk, idx_ok hm, idx_ok hmk, idx_ok ha, idx_ok hks, has, bind, Except.bind]
        · refine Or.inl ⟨(), ?_, more fun _ hs => has (hc.unique hs)⟩
          rcases hwi with rfl | rfl <;>
            simp [hik, idx_ok hst, idx_ok hsk, idx_ok hm, idx_ok hmk, idx_ok ha, idx_ok hks, has, bind, Except.bind]
    · intro i hi
      omega
  rcases hloop with ⟨_, h, hno⟩ | ⟨e, h, rfl, hc⟩
  · refine Or.inl ⟨h, ?_⟩
    intro i hik hc
    obtain ⟨m, hm, -⟩ := hc.mem
    exact hno i (List.getElem?_eq_some_iff.mp hm).1 hik hc
  · exact Or.inr ⟨h, hc⟩

/-- A round passes the smallest head, or panics because another array points at the
    same string. It never panics otherwise. -/
theorem step_spec (hf : Fits msgs states) (hgo : shouldEnd states = false) :
    ∃ k wi m s, states[k]? = some (.ongoing wi) ∧ msgs[k]? = some m ∧ m[wi]? = some s ∧
      (∀ i t, Head msgs states i t → s ≤ t) ∧
      ((step msgs states = .ok (states.set k (next m wi)) ∧ ∀ i, i ≠ k → ¬ Current msgs states i s) ∨
        (step msgs states = .error .overlaps ∧ ∃ i, i ≠ k ∧ Current msgs states i s)) := by
  obtain ⟨k, s, hnext, hk, hmin⟩ := getNextAlphabeticalIndex_spec hf hgo
  obtain ⟨wi, m, hst, hm, hs⟩ := id hk
  refine ⟨k, wi, m, s, hst, hm, hs, hmin, ?_⟩
  rcases verifyNoCollissions_spec hf hk with ⟨hv, hno⟩ | ⟨hv, hc⟩
  · exact Or.inl ⟨by simp [step, hnext, hv, idx_ok hst, idx_ok hm, bind, Except.bind], hno⟩
  · exact Or.inr ⟨by simp [step, hnext, hv, bind, Except.bind], hc⟩

/-! ## Whole runs -/

/-- How many elements the cursors have not passed. -/
def left (msgs : List (List String)) (states : List State) : Nat :=
  (List.zipWith (fun m st => m.length - passed st) msgs states).sum

theorem next_fitsAt {m : List String} {wi : Nat} (h : wi < m.length) : FitsAt m (next m wi) := by
  unfold next
  split
  · exact (‹m.length = wi + 1›).symm
  · simp only [FitsAt]; omega

theorem left_set : ∀ {msgs : List (List String)} {states : List State} {k wi : Nat} {m : List String},
    states[k]? = some (.ongoing wi) → msgs[k]? = some m → wi < m.length →
    left msgs (states.set k (next m wi)) + 1 = left msgs states
  | [], _, _, _, _, _, hm, _ => by simp at hm
  | _ :: _, [], _, _, _, hst, _, _ => by simp at hst
  | m' :: msgs, st :: states, 0, wi, m, hst, hm, hw => by
    simp only [List.getElem?_cons_zero, Option.some.injEq] at hst hm
    subst hst hm
    simp only [left, List.set_cons_zero, List.zipWith_cons_cons, List.sum_cons, passed_next, passed_ongoing]
    omega
  | m' :: msgs, st :: states, k + 1, wi, m, hst, hm, hw => by
    have hst' : states[k]? = some (.ongoing wi) := by simpa using hst
    have hm' : msgs[k]? = some m := by simpa using hm
    have := left_set hst' hm' hw
    simp only [left, List.set_cons_succ, List.zipWith_cons_cons, List.sum_cons] at this ⊢
    omega

theorem left_initStates (msgs : List (List String)) : left msgs (initStates msgs) = total msgs := by
  induction msgs with
  | nil => rfl
  | cons m msgs ih =>
    simp only [left, initStates, total, List.map_cons, List.zipWith_cons_cons, List.sum_cons] at ih ⊢
    rw [ih]
    cases m <;> simp

theorem Fits.set (hf : Fits msgs states) {k : Nat} {st : State} {m : List String} (hm : msgs[k]? = some m)
    (hst : FitsAt m st) : Fits msgs (states.set k st) := by
  refine List.forall₂_iff_get.mpr ⟨by rw [List.length_set]; exact hf.length_eq, ?_⟩
  intro i hi hi'
  simp only [List.get_eq_getElem, List.getElem_set]
  split
  · rename_i hki
    subst hki
    rw [List.getElem?_eq_getElem hi, Option.some.injEq] at hm
    rw [hm]; exact hst
  · exact (List.forall₂_iff_get.mp hf).2 i hi (by simpa using hi')

theorem Fits.step (hf : Fits msgs states) {k wi : Nat} {m : List String} (hst : states[k]? = some (.ongoing wi))
    (hm : msgs[k]? = some m) : wi < m.length ∧ Fits msgs (states.set k (next m wi)) := by
  have hw := hf.fitsAt hm hst
  exact ⟨hw, hf.set hm (next_fitsAt hw)⟩

theorem overlap_of_current {i k : Nat} {s : String} (hik : i ≠ k) (hi : Current msgs states i s)
    (hk : Current msgs states k s) : Overlap msgs := by
  obtain ⟨a, ha, hsa⟩ := hi.mem
  obtain ⟨b, hb, hsb⟩ := hk.mem
  rcases lt_or_gt_of_ne hik with h | h
  · exact ⟨i, k, a, b, h, ha, hb, s, hsa, hsb⟩
  · exact ⟨k, i, b, a, h, hb, ha, s, hsb, hsa⟩

/-- A round leaves one element less, and cursors that fit; or it panics on a string two
    arrays share. -/
theorem step_left (hf : Fits msgs states) (hgo : shouldEnd states = false) :
    (∃ states', step msgs states = .ok states' ∧ Fits msgs states' ∧ left msgs states' + 1 = left msgs states) ∨
      (step msgs states = .error .overlaps ∧ Overlap msgs) := by
  obtain ⟨k, wi, m, s, hst, hm, hs, -, hstep⟩ := step_spec hf hgo
  obtain ⟨hw, hf'⟩ := hf.step hst hm
  rcases hstep with ⟨hok, -⟩ | ⟨herr, i, hik, hc⟩
  · exact Or.inl ⟨_, hok, hf', left_set hst hm hw⟩
  · exact Or.inr ⟨herr, overlap_of_current hik hc (Head.current ⟨wi, m, hst, hm, hs⟩)⟩

/-- An ongoing cursor leaves an element to pass. -/
theorem left_pos (hf : Fits msgs states) (hgo : shouldEnd states = false) : 0 < left msgs states := by
  obtain ⟨k, wi, m, s, hst, hm, -, -, -⟩ := step_spec hf hgo
  have := left_set hst hm (hf.step hst hm).1
  omega

theorem run_of_end (hend : shouldEnd states = true) (fuel : Nat) : run msgs fuel states = some (.ok ()) := by
  cases fuel <;> simp [run, hend]

/-- With a round of fuel for every element left, the loop ends: it runs through, or
    panics on a string two arrays share. -/
theorem run_spec : ∀ {fuel : Nat} {states : List State}, Fits msgs states → left msgs states ≤ fuel →
    run msgs fuel states = some (.ok ()) ∨ (run msgs fuel states = some (.error .overlaps) ∧ Overlap msgs) := by
  intro fuel
  induction fuel with
  | zero =>
    intro states hf hl
    cases hend : shouldEnd states with
    | true => exact Or.inl (run_of_end hend _)
    | false =>
      have := left_pos hf hend
      omega
  | succ fuel ih =>
    intro states hf hl
    cases hend : shouldEnd states with
    | true => exact Or.inl (run_of_end hend _)
    | false =>
      rcases step_left hf hend with ⟨states', hok, hf', hleft⟩ | ⟨herr, ho⟩
      · rcases ih hf' (by omega) with h | ⟨h, ho⟩
        · exact Or.inl (by simp [run, hend, hok, h])
        · exact Or.inr ⟨by simp [run, hend, hok, h], ho⟩
      · exact Or.inr ⟨by simp [run, hend, herr], ho⟩

/-! ## Any arrays -/

/-- The cursors that the loop comes to, and after how many rounds. -/
inductive Reaches (msgs : List (List String)) : Nat → List State → Prop
  | start : Reaches msgs 0 (initStates msgs)
  | round {n : Nat} {states states' : List State} : Reaches msgs n states → shouldEnd states = false →
      step msgs states = .ok states' → Reaches msgs (n + 1) states'

/-- Every round done has passed one element. -/
theorem Reaches.fits {n : Nat} (h : Reaches msgs n states) : Fits msgs states ∧ n + left msgs states = total msgs := by
  induction h with
  | start => exact ⟨initStates_fits msgs, by rw [left_initStates]; omega⟩
  | round _ hgo hstep ih =>
    obtain ⟨hf, htotal⟩ := ih
    rcases step_left hf hgo with ⟨states', hok, hf', hleft⟩ | ⟨herr, -⟩
    · obtain rfl := Except.ok.inj (hstep.symm.trans hok)
      exact ⟨hf', by omega⟩
    · rw [hstep] at herr
      cases herr

/-- What may not go wrong in the round after `n` others. -/
structure SafeRound (msgs : List (List String)) (n : Nat) (states : List State) : Prop where
  early : n < total msgs
  chosen_ongoing : ∃ k wi, getNextAlphabeticalIndex msgs states = .ok k ∧ states[k]? = some (.ongoing wi)
  in_bounds : step msgs states ≠ .error .indexOutOfBounds
  not_unreachable : step msgs states ≠ .error .unreachable
  real_overlap : step msgs states = .error .overlaps → Overlap msgs

theorem Reaches.safeRound {n : Nat} (h : Reaches msgs n states) (hgo : shouldEnd states = false) :
    SafeRound msgs n states := by
  obtain ⟨hf, htotal⟩ := h.fits
  have hleft := left_pos hf hgo
  obtain ⟨k, s, hnext, ⟨wi, m, hst, -⟩, -⟩ := getNextAlphabeticalIndex_spec hf hgo
  rcases step_left hf hgo with ⟨states', hok, -, -⟩ | ⟨herr, ho⟩
  · constructor
    · omega
    · exact ⟨k, wi, hnext, hst⟩
    · simp [hok]
    · simp [hok]
    · simp [hok]
  · constructor
    · omega
    · exact ⟨k, wi, hnext, hst⟩
    · simp [herr]
    · simp [herr]
    · exact fun _ => ho

/-- The check of any arrays ends, by itself or with the overlap message, and the message
    is right. There is a state for each array before every round, and no round comes
    after as many as there are strings, reads out of bounds or chooses a cursor that is
    not ongoing. -/
theorem overlap_check_safe (msgs : List (List String)) :
    (assertNoIntersection msgs = some (.ok ()) ∨ assertNoIntersection msgs = some (.error .overlaps) ∧ Overlap msgs) ∧
      ∀ n states, Reaches msgs n states →
        states.length = msgs.length ∧ (shouldEnd states = false → SafeRound msgs n states) := by
  constructor
  · exact run_spec (initStates_fits msgs) (le_of_eq (left_initStates msgs))
  · intro n states h
    constructor
    · exact h.fits.1.length_eq.symm
    · exact h.safeRound

/-! ## Sorted arrays -/

/-- The arrays as rows of a sweep, and how far each cursor has come. -/
def row (msgs : List (List String)) (i : Nat) : List String := msgs[i]?.getD []

def cursor (states : List State) (i : Nat) : Nat := (states[i]?.map passed).getD 0

theorem cursor_set {k wi : Nat} {m : List String} (hst : states[k]? = some (.ongoing wi)) :
    cursor (states.set k (next m wi)) = Function.update (cursor states) k (cursor states k + 1) := by
  obtain ⟨hk, -⟩ := List.getElem?_eq_some_iff.mp hst
  funext i
  by_cases h : i = k
  · subst h
    simp [cursor, hk, (List.getElem?_eq_some_iff.mp hst).2]
  · simp [cursor, Function.update_of_ne h, List.getElem?_set_ne (Ne.symm h)]

theorem Fits.head_of_row (hf : Fits msgs states) {i : Nat} {s : String} (h : (row msgs i)[cursor states i]? = some s) :
    Head msgs states i s := by
  unfold row cursor at h
  cases hm : msgs[i]? with
  | none => simp [hm] at h
  | some m =>
    obtain ⟨st, hst⟩ := hf.state (List.getElem?_eq_some_iff.mp hm).1
    have hfit := hf.fitsAt hm hst
    simp only [hm, hst, Option.getD_some, Option.map_some] at h
    cases st with
    | ongoing wi => exact ⟨wi, m, hst, hm, h⟩
    | finished wi =>
      have := (List.getElem?_eq_some_iff.mp h).1
      simp only [FitsAt, passed_finished] at hfit this; omega
    | empty => simp only [FitsAt] at hfit; simp [hfit] at h

theorem Fits.done (hf : Fits msgs states) (hend : shouldEnd states = true) (i : Nat) :
    (row msgs i).length ≤ cursor states i := by
  unfold row cursor
  cases hm : msgs[i]? with
  | none => simp
  | some m =>
    obtain ⟨st, hst⟩ := hf.state (List.getElem?_eq_some_iff.mp hm).1
    have hfit := hf.fitsAt hm hst
    have hend := List.all_eq_true.mp hend st (List.mem_of_getElem? hst)
    simp only [hst, Option.getD_some, Option.map_some]
    cases st with
    | ongoing wi => simp at hend
    | finished wi => simp only [FitsAt, passed_finished] at hfit ⊢; omega
    | empty => simp only [FitsAt] at hfit; simp [hfit]

/-- A run that goes through keeps what it passes private, so the arrays share nothing. -/
theorem disjoint_of_run (hs : ∀ m ∈ msgs, m.Pairwise (· ≤ ·)) : ∀ {fuel : Nat} {states : List State},
    Fits msgs states → Private (row msgs) (cursor states) → run msgs fuel states = some (.ok ()) →
    Pairwise fun i j => (row msgs i).Disjoint (row msgs j) := by
  have hrow : ∀ i, (row msgs i).Pairwise (· ≤ ·) := by
    intro i
    unfold row
    cases hm : msgs[i]? with
    | none => exact List.Pairwise.nil
    | some m => exact hs m (List.mem_of_getElem? hm)
  intro fuel
  induction fuel with
  | zero =>
    intro states hf hp hrun
    cases hend : shouldEnd states with
    | true => exact disjoint_of_private hp (hf.done hend)
    | false => simp [run, hend] at hrun
  | succ fuel ih =>
    intro states hf hp hrun
    cases hend : shouldEnd states with
    | true => exact disjoint_of_private hp (hf.done hend)
    | false =>
      obtain ⟨k, wi, m, s, hst, hm, hks, hmin, hstep⟩ := step_spec hf hend
      rcases hstep with ⟨hok, hno⟩ | ⟨herr, -⟩
      · have hk : (row msgs k)[cursor states k]? = some s := by simp [row, cursor, hm, hst, hks]
        have hp' := private_advance hrow hp hk (fun i t ht => hmin i t (hf.head_of_row ht))
          (fun i hik ht => hno i hik (hf.head_of_row ht).current)
        rw [← cursor_set hst] at hp'
        exact ih (hf.step hst hm).2 hp' (by simpa [run, hend, hok] using hrun)
      · simp [run, hend, herr] at hrun

theorem row_of_getElem? {i : Nat} {m : List String} (h : msgs[i]? = some m) : row msgs i = m := by simp [row, h]

/-- Every round passes an element, so the check ends; with the arrays sorted it panics
    exactly when two different ones share a string, and with the overlap message. -/
theorem assertNoIntersection_spec (hs : ∀ m ∈ msgs, m.Pairwise (· ≤ ·)) :
    (assertNoIntersection msgs = some (.ok ()) ∧ ¬ Overlap msgs) ∨
      (assertNoIntersection msgs = some (.error .overlaps) ∧ Overlap msgs) := by
  have hf := initStates_fits msgs
  rcases run_spec hf (le_of_eq (left_initStates msgs)) with h | h
  · refine Or.inl ⟨h, fun ⟨i, j, a, b, hij, ha, hb, s, hsa, hsb⟩ => ?_⟩
    have hp : Private (row msgs) (cursor (initStates msgs)) := by
      have : cursor (initStates msgs) = fun _ => 0 := by
        funext i
        simp only [cursor, initStates, List.getElem?_map]
        cases msgs[i]? with
        | none => rfl
        | some m => simp only [Option.map_some, Option.getD_some]; split <;> rfl
      rw [this]; exact private_start
    have : (row msgs i).Disjoint (row msgs j) := disjoint_of_run hs hf hp h (Nat.ne_of_lt hij)
    rw [row_of_getElem? ha, row_of_getElem? hb] at this
    exact this hsa hsb
  · exact Or.inr h

theorem not_overlap_iff : ¬ Overlap msgs ↔ msgs.Pairwise List.Disjoint := by
  rw [List.pairwise_iff_getElem]
  constructor
  · intro h i j hi hj hij s hsi hsj
    exact h ⟨i, j, msgs[i], msgs[j], hij, List.getElem?_eq_getElem hi, List.getElem?_eq_getElem hj, s, hsi, hsj⟩
  · intro h ⟨i, j, a, b, hij, ha, hb, s, hsa, hsb⟩
    obtain ⟨hi, rfl⟩ := List.getElem?_eq_some_iff.mp ha
    obtain ⟨hj, rfl⟩ := List.getElem?_eq_some_iff.mp hb
    exact h i j hi hj hij hsa hsb

theorem not_panics_iff_disjoint (hs : ∀ m ∈ msgs, m.Pairwise (· ≤ ·)) :
    ¬ Panics msgs ↔ msgs.Pairwise List.Disjoint := by
  rw [← not_overlap_iff]
  rcases assertNoIntersection_spec hs with ⟨h, hno⟩ | ⟨h, ho⟩
  · exact iff_of_true (fun ⟨e, he⟩ => by simp [h] at he) hno
  · exact iff_of_false (fun hn => hn ⟨_, h⟩) (fun hn => hn ho)

/-- The overlap check of sorted arrays panics if and only if two different arrays
    contain a common string. -/
theorem overlap_check (msgs : List (List String)) (hs : ∀ m ∈ msgs, m.Pairwise (· ≤ ·)) :
    Panics msgs ↔ Overlap msgs := by
  rcases assertNoIntersection_spec hs with ⟨h, hno⟩ | ⟨h, ho⟩
  · exact ⟨fun ⟨e, he⟩ => absurd (h.symm.trans he) (by simp), fun ho => absurd ho hno⟩
  · exact ⟨fun _ => ho, fun _ => ⟨_, h⟩⟩

/-- The lists of the crate's `intersection` test, sorted, with an empty array and
    `msg_i` in two of the others. -/
theorem overlap_check_intersection :
    Panics [["msg_b", "msg_c", "msg_i"], ["msg_d", "msg_e", "msg_f"], ["msg_a"],
        ["msg_g", "msg_h", "msg_i", "msg_j"], []] ↔
      Overlap [["msg_b", "msg_c", "msg_i"], ["msg_d", "msg_e", "msg_f"], ["msg_a"],
        ["msg_g", "msg_h", "msg_i", "msg_j"], []] :=
  overlap_check _ (by decide)

end Sylvia.Utils
