/-
  Sylvia.Base.Inside — what stands inside a term, when a term is known by its children.

  `Inside children s t` says that `s` is reached from `t` by going to a child any number
  of times, none included. It does not say in which order a recursion goes.

  Proved:
  - `exists_inside_iff`: what a recursion finds at a term or, further down, at one of its
    children, is what stands somewhere inside; only the children need be smaller.
  - `inside_image_iff`: what stands inside the image of a term, when the children of the
    image are the images of those children that are kept.
-/
import Mathlib.Logic.Relation

namespace Sylvia.Base

section

variable {τ : Type*} {children : τ → List τ}

def Inside (children : τ → List τ) (s t : τ) : Prop := Relation.ReflTransGen (fun t s => s ∈ children t) t s

theorem inside_iff {s t : τ} : Inside children s t ↔ s = t ∨ ∃ c ∈ children t, Inside children s c := by
  unfold Inside
  rw [Relation.ReflTransGen.cases_head_iff, eq_comm]

theorem exists_inside_iff {found own : τ → Prop} (wf : WellFounded fun c t => c ∈ children t)
    (h : ∀ t, found t ↔ own t ∨ ∃ c ∈ children t, found c) (t : τ) : found t ↔ ∃ s, Inside children s t ∧ own s := by
  induction t using wf.induction with
  | _ t ih =>
    rw [h]
    constructor
    · intro hfound
      rcases hfound with hown | ⟨c, hc, hfound⟩
      · exact ⟨t, inside_iff.mpr (.inl rfl), hown⟩
      · obtain ⟨s, hs, hown⟩ := (ih c hc).mp hfound
        exact ⟨s, inside_iff.mpr (.inr ⟨c, hc, hs⟩), hown⟩
    · intro hinside
      rcases hinside with ⟨s, hs, hown⟩
      rcases inside_iff.mp hs with rfl | ⟨c, hc, hs⟩
      · exact .inl hown
      · exact .inr ⟨c, hc, (ih c hc).mpr ⟨s, hs, hown⟩⟩

theorem inside_image_iff {kept : τ → List τ} {f : τ → τ} (h : ∀ t, children (f t) = (kept t).map f) {s t : τ} :
    Inside children s (f t) ↔ ∃ u, Inside kept u t ∧ f u = s := by
  constructor
  · intro hs
    -- from the image down to `s`, one child at a time
    induction hs with
    | refl => exact ⟨t, .refl, rfl⟩
    | tail _ hc ih =>
      obtain ⟨u, hu, rfl⟩ := ih
      rw [h] at hc
      obtain ⟨w, hw, rfl⟩ := List.mem_map.mp hc
      exact ⟨w, hu.tail hw, rfl⟩
  · intro hs
    rcases hs with ⟨u, hu, rfl⟩
    induction hu with
    | refl => exact .refl
    | tail _ hc ih =>
      refine ih.tail ?_
      rw [h]
      exact List.mem_map_of_mem hc

end

end Sylvia.Base
