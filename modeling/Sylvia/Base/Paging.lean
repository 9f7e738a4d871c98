/-
  Sylvia.Base.Paging — reading a sorted listing page by page, each page after the last
  key of the one before.

  A request (`Request`) is the listing as it is when the page is read, with the page's
  limit: the listing may change between pages. `pages` puts the pages together, and
  `cursor` is the key the next page starts after; an empty page keeps it.

  Proved:
  - `pages_sorted`, `mem_pages`: whatever changes in between, the keys come in strictly
    ascending order, so none twice, and each entry was there when its page was read;
    `pages_eq_flatten`: the pages one by one.
  - `pages_complete`: if the last page is not full, every key in the listing at every request
    is listed.
-/
import Mathlib.Tactic.Common
import Sylvia.Base.Store

namespace Sylvia.Base

variable {K V : Type} [LinearOrder K]

def after (start : Option K) (e : K × V) : Bool := start.all fun k => decide (k < e.1)

def page (xs : List (K × V)) (start : Option K) (limit : ℕ) : List (K × V) := (xs.filter (after start)).take limit

/-- The entries of a store strictly after `start`, in ascending order. -/
def Store.range (s : Store K V) (start : Option K) : List (K × V) := s.entries.filter (after start)

def cursor (start : Option K) (pg : List (K × V)) : Option K := (pg.getLast?.map Prod.fst).or start

structure Request (K V : Type) [LinearOrder K] where
  listing : List (K × V)
  sorted : listing.Pairwise fun a b => a.1 < b.1
  limit : ℕ

def Request.page (q : Request K V) (start : Option K) : List (K × V) := Base.page q.listing start q.limit

def pages : List (Request K V) → Option K → List (K × V)
  | [], _ => []
  | q :: qs, start => q.page start ++ pages qs (cursor start (q.page start))

/-- The page of the last request has room left. -/
def Exhausted : List (Request K V) → Option K → Prop
  | [], _ => False
  | [q], start => (q.page start).length < q.limit
  | q :: qs, start => Exhausted qs (cursor start (q.page start))

/-! ## One page -/

@[simp] theorem after_some (k : K) (e : K × V) : after (some k) e = true ↔ k < e.1 := by
  simp [after]

theorem page_sublist (q : Request K V) (start : Option K) : (q.page start).Sublist q.listing :=
  (List.take_sublist _ _).trans List.filter_sublist

theorem page_sorted (q : Request K V) (start : Option K) : (q.page start).Pairwise fun a b => a.1 < b.1 :=
  q.sorted.sublist (page_sublist q start)

theorem page_after {q : Request K V} {start : Option K} {e : K × V} (h : e ∈ q.page start) : after start e = true :=
  (List.mem_filter.mp (List.mem_of_mem_take h)).2

/-- The entries of a page are up to its cursor. -/
theorem page_le_cursor {q : Request K V} {start : Option K} {e : K × V} (h : e ∈ q.page start) :
    ∃ k, cursor start (q.page start) = some k ∧ e.1 ≤ k := by
  obtain ⟨init, last, hp⟩ := (List.eq_nil_or_concat (q.page start)).resolve_left (List.ne_nil_of_mem h)
  have hsorted := page_sorted q start
  rw [hp, List.concat_eq_append] at h hsorted
  refine ⟨last.1, by simp [cursor, hp], ?_⟩
  rcases List.mem_append.mp h with h | h
  · exact ((List.pairwise_append.mp hsorted).2.2 e h last (by simp)).le
  · rw [List.mem_singleton.mp h]

theorem after_of_cursor {q : Request K V} {start : Option K} {e : K × V}
    (h : after (cursor start (q.page start)) e = true) : after start e = true := by
  by_cases hp : q.page start = []
  · simpa [cursor, hp] using h
  · obtain ⟨x, hx⟩ := List.exists_mem_of_ne_nil _ hp
    obtain ⟨k, hk, hle⟩ := page_le_cursor hx
    have hx' := page_after hx
    rw [hk, after_some] at h
    cases start with
    | none => rfl
    | some s => exact (after_some s e).mpr (((after_some s x).mp hx').trans_le hle |>.trans h)

/-- A page lists a key after its start or stops before it; with room left it lists it. -/
theorem page_complete {q : Request K V} {start : Option K} {e : K × V} (he : e ∈ q.listing) (hs : after start e = true) :
    e ∈ q.page start ∨ (after (cursor start (q.page start)) e = true ∧ q.limit ≤ (q.page start).length) := by
  have hmem : e ∈ q.listing.filter (after start) := List.mem_filter.mpr ⟨he, hs⟩
  have hsorted : (q.listing.filter (after start)).Pairwise fun a b => a.1 < b.1 := q.sorted.filter _
  rw [Request.page, page]
  generalize q.listing.filter (after start) = ys at hmem hsorted
  rw [← List.take_append_drop q.limit ys] at hmem hsorted
  rcases List.mem_append.mp hmem with h | h
  · exact Or.inl h
  · have hlen : q.limit ≤ (ys.take q.limit).length := by
      have := List.length_pos_of_mem h
      rw [List.length_drop] at this
      rw [List.length_take]
      omega
    refine Or.inr ⟨?_, hlen⟩
    rcases List.eq_nil_or_concat (ys.take q.limit) with hnil | ⟨init, last, hcat⟩
    · simpa [cursor, hnil] using hs
    · have hlt := (List.pairwise_append.mp hsorted).2.2 last (by simp [hcat]) e h
      simpa [cursor, hcat, after] using hlt

/-! ## Pages of a listing that changes -/

theorem pages_after {qs : List (Request K V)} {start : Option K} {e : K × V} (h : e ∈ pages qs start) :
    after start e = true := by
  induction qs generalizing start with
  | nil => simp [pages] at h
  | cons q qs ih =>
    rcases List.mem_append.mp h with h | h
    · exact page_after h
    · exact after_of_cursor (ih h)

/-- No key is listed twice, and the keys ascend. -/
theorem pages_sorted (qs : List (Request K V)) (start : Option K) :
    (pages qs start).Pairwise fun a b => a.1 < b.1 := by
  induction qs generalizing start with
  | nil => exact .nil
  | cons q qs ih =>
    refine List.pairwise_append.mpr ⟨page_sorted q start, ih _, ?_⟩
    intro a ha b hb
    obtain ⟨k, hk, hle⟩ := page_le_cursor ha
    have := pages_after hb
    rw [hk, after_some] at this
    exact hle.trans_lt this

theorem mem_pages {qs : List (Request K V)} {start : Option K} {e : K × V} (h : e ∈ pages qs start) :
    ∃ q ∈ qs, e ∈ q.listing := by
  induction qs generalizing start with
  | nil => simp [pages] at h
  | cons q qs ih =>
    rcases List.mem_append.mp h with h | h
    · exact ⟨q, List.mem_cons_self, (page_sublist q start).subset h⟩
    · obtain ⟨q', hq', he⟩ := ih h
      exact ⟨q', List.mem_cons_of_mem _ hq', he⟩

theorem pages_eq_flatten (qs : List (Request K V)) (start : Option K) :
    ∃ pgs, pages qs start = pgs.flatten ∧ List.Forall₂ (fun q pg => ∃ start, pg = q.page start) qs pgs := by
  induction qs generalizing start with
  | nil => exact ⟨[], rfl, .nil⟩
  | cons q qs ih =>
    obtain ⟨pgs, hpgs, hall⟩ := ih (cursor start (q.page start))
    exact ⟨q.page start :: pgs, by rw [pages, hpgs, List.flatten_cons], .cons ⟨start, rfl⟩ hall⟩

/-- When the last page has room left, every key that stayed is listed. -/
theorem pages_complete {qs : List (Request K V)} {start : Option K} {k : K}
    (hstay : ∀ q ∈ qs, ∃ v, (k, v) ∈ q.listing) (hs : start.all fun s => decide (s < k)) (hlast : Exhausted qs start) :
    k ∈ (pages qs start).map Prod.fst := by
  induction qs generalizing start with
  | nil => exact hlast.elim
  | cons q qs ih =>
    obtain ⟨v, hv⟩ := hstay q List.mem_cons_self
    rw [pages, List.map_append, List.mem_append]
    rcases page_complete hv hs with h | ⟨h, hfull⟩
    · exact Or.inl (List.mem_map_of_mem h)
    · cases qs with
      | nil => exact absurd hlast (by simpa [Exhausted] using hfull)
      | cons q' qs => exact Or.inr (ih (fun r hr => hstay r (List.mem_cons_of_mem _ hr)) h hlast)

end Sylvia.Base
