/-
  Sylvia.Syn.Term — types, paths, generic arguments, bounds and expressions as one kind of
  term, each with the terms right below it.

  The terms below a path are those in the arguments of its segments. Nothing stands inside
  tokens.

  Proved: `path_mem_nodes_iff`: the visitor meets a path in a term exactly when the path
  stands at some depth inside it.
-/
import Sylvia.Base.Inside
import Sylvia.Syn.Ty

namespace Sylvia.Syn

open Sylvia.Base Sylvia.Parser

inductive Term where
  | ty (ty : Ty)
  | path (path : Path)
  | arg (arg : GenericArgument)
  | bound (bound : Bound)
  | expr (expr : Expr)

def Ty.terms : Ty → List Term
  | .array elem len => [.ty elem, .expr len]
  | .bareFn inputs output => inputs.map .ty ++ output.toList.map .ty
  | .group elem => [.ty elem]
  | .implTrait bounds => bounds.map .bound
  | .infer => []
  | .mac p _ => [.path p]
  | .never => []
  | .paren elem => [.ty elem]
  | .path qself p => qself.toList.map .ty ++ [.path p]
  | .ptr elem => [.ty elem]
  | .reference elem => [.ty elem]
  | .slice elem => [.ty elem]
  | .traitObject bounds => bounds.map .bound
  | .tuple elems => elems.map .ty
  | .verbatim _ => []

def PathArguments.terms : PathArguments → List Term
  | .none => []
  | .angleBracketed args => args.map .arg
  | .parenthesized inputs output => inputs.map .ty ++ output.toList.map .ty

def Segment.terms : Segment → List Term
  | .mk _ arguments => arguments.terms

def Segment.ident : Segment → Ident
  | .mk ident _ => ident

def Path.terms (p : Path) : List Term := p.segments.flatMap Segment.terms

def GenericArgument.terms : GenericArgument → List Term
  | .lifetime _ => []
  | .type ty => [.ty ty]
  | .const value => [.expr value]
  | .assocType _ generics ty => generics.map .arg ++ [.ty ty]
  | .assocConst _ generics value => generics.map .arg ++ [.expr value]
  | .constraint _ generics bounds => generics.map .arg ++ bounds.map .bound

def Bound.terms : Bound → List Term
  | .trait p => [.path p]
  | .lifetime _ => []
  | .other _ => []

def Expr.terms : Expr → List Term
  | .path qself p => qself.toList.map .ty ++ [.path p]
  | .mac p _ => [.path p]
  | .ty t => [.ty t]
  | .node parts => parts.map .expr

def WherePredicate.terms : WherePredicate → List Term
  | .lifetime _ => []
  | .type boundedTy bounds => .ty boundedTy :: bounds.map .bound

namespace Term

def children : Term → List Term
  | .ty t => t.terms
  | .path p => p.terms
  | .arg a => a.terms
  | .bound b => b.terms
  | .expr e => e.terms

def nodes : Term → List Node
  | .ty t => t.nodes
  | .path p => p.nodes
  | .arg a => a.nodes
  | .bound b => b.nodes
  | .expr e => e.nodes

end Term

/-! ## Terms get smaller -/

theorem Ty.sizeOf_terms (ty : Ty) : ∀ c ∈ ty.terms, sizeOf c < 1 + sizeOf ty := by
  cases ty <;> grind [Ty.terms, → List.sizeOf_lt_of_mem]

theorem PathArguments.sizeOf_terms (arguments : PathArguments) :
    ∀ c ∈ arguments.terms, sizeOf c < 1 + sizeOf arguments := by
  cases arguments <;> grind [PathArguments.terms, → List.sizeOf_lt_of_mem]

theorem Path.sizeOf_terms (p : Path) : ∀ c ∈ p.terms, sizeOf c < 1 + sizeOf p := by
  intro c hc
  obtain ⟨⟨ident, arguments⟩, hsegment, hc⟩ := List.mem_flatMap.mp hc
  have harguments := arguments.sizeOf_terms c hc
  have hlt := List.sizeOf_lt_of_mem hsegment
  cases p
  simp only [Path.segments, Segment.mk.sizeOf_spec, Path.mk.sizeOf_spec] at hlt ⊢
  omega

theorem GenericArgument.sizeOf_terms (arg : GenericArgument) : ∀ c ∈ arg.terms, sizeOf c < 1 + sizeOf arg := by
  cases arg <;> grind [GenericArgument.terms, → List.sizeOf_lt_of_mem]

theorem Bound.sizeOf_terms (bound : Bound) : ∀ c ∈ bound.terms, sizeOf c < 1 + sizeOf bound := by
  cases bound <;> grind [Bound.terms]

theorem Expr.sizeOf_terms (e : Expr) : ∀ c ∈ e.terms, sizeOf c < 1 + sizeOf e := by
  cases e <;> grind [Expr.terms, → List.sizeOf_lt_of_mem]

theorem Term.sizeOf_children : ∀ {t : Term}, ∀ c ∈ t.children, sizeOf c < sizeOf t
  | .ty t => t.sizeOf_terms
  | .path p => p.sizeOf_terms
  | .arg a => a.sizeOf_terms
  | .bound b => b.sizeOf_terms
  | .expr e => e.sizeOf_terms

theorem Term.wf_children : WellFounded fun c t : Term => c ∈ t.children :=
  Subrelation.wf (Term.sizeOf_children _) (measure sizeOf).wf

/-! ## Paths a visitor meets -/

section

variable {n : Node}

theorem mem_nodesOfTys {tys : List Ty} : n ∈ nodesOfTys tys ↔ ∃ ty ∈ tys, n ∈ ty.nodes := by
  induction tys with
  | nil => simp [nodesOfTys]
  | cons ty tys ih => simp [nodesOfTys, ih]

theorem mem_nodesOfTy? {ty? : Option Ty} : n ∈ nodesOfTy? ty? ↔ ∃ ty, ty? = some ty ∧ n ∈ ty.nodes := by
  cases ty? <;> simp [nodesOfTy?]

theorem mem_nodesOfSegments {segments : List Segment} :
    n ∈ nodesOfSegments segments ↔ ∃ ident arguments, Segment.mk ident arguments ∈ segments ∧ n ∈ arguments.nodes := by
  induction segments with
  | nil => simp [nodesOfSegments]
  | cons segment segments ih =>
    cases segment with
    | mk ident arguments =>
      simp [nodesOfSegments, ih, or_and_right, exists_or]

theorem mem_nodesOfArgs {args : List GenericArgument} : n ∈ nodesOfArgs args ↔ ∃ arg ∈ args, n ∈ arg.nodes := by
  induction args with
  | nil => simp [nodesOfArgs]
  | cons arg args ih => simp [nodesOfArgs, ih]

theorem mem_nodesOfBounds {bounds : List Bound} : n ∈ nodesOfBounds bounds ↔ ∃ bound ∈ bounds, n ∈ bound.nodes := by
  induction bounds with
  | nil => simp [nodesOfBounds]
  | cons bound bounds ih => simp [nodesOfBounds, ih]

theorem mem_nodesOfExprs {es : List Expr} : n ∈ nodesOfExprs es ↔ ∃ e ∈ es, n ∈ e.nodes := by
  induction es with
  | nil => simp [nodesOfExprs]
  | cons e es ih => simp [nodesOfExprs, ih]

end

section

variable {p : Path}

theorem Ty.path_mem_nodes (ty : Ty) : .path p ∈ ty.nodes ↔ ∃ c ∈ ty.terms, .path p ∈ c.nodes := by
  cases ty <;> simp [Ty.nodes, Ty.terms, Term.nodes, mem_nodesOfTys, mem_nodesOfTy?, mem_nodesOfBounds, or_and_right,
    exists_or]

theorem PathArguments.path_mem_nodes (arguments : PathArguments) :
    .path p ∈ arguments.nodes ↔ ∃ c ∈ arguments.terms, .path p ∈ c.nodes := by
  cases arguments <;> simp [PathArguments.nodes, PathArguments.terms, Term.nodes, mem_nodesOfTys, mem_nodesOfTy?,
    mem_nodesOfArgs, or_and_right, exists_or]

theorem Path.path_mem_nodes (q : Path) : .path p ∈ q.nodes ↔ p = q ∨ ∃ c ∈ q.terms, .path p ∈ c.nodes := by
  cases q with
  | mk leadingColon segments =>
    simp only [Path.nodes, Path.terms, Path.segments, List.mem_cons, Node.path.injEq, mem_nodesOfSegments,
      PathArguments.path_mem_nodes, List.mem_flatMap]
    refine or_congr Iff.rfl ?_
    constructor
    · intro h
      rcases h with ⟨ident, arguments, hsegment, c, hc, hp⟩
      exact ⟨c, ⟨_, hsegment, hc⟩, hp⟩
    · intro h
      rcases h with ⟨c, ⟨⟨ident, arguments⟩, hsegment, hc⟩, hp⟩
      exact ⟨ident, arguments, hsegment, c, hc, hp⟩

theorem GenericArgument.path_mem_nodes (arg : GenericArgument) :
    .path p ∈ arg.nodes ↔ ∃ c ∈ arg.terms, .path p ∈ c.nodes := by
  cases arg <;> simp [GenericArgument.nodes, GenericArgument.terms, Term.nodes, mem_nodesOfArgs, mem_nodesOfBounds,
    or_and_right, exists_or]

theorem Bound.path_mem_nodes (bound : Bound) : .path p ∈ bound.nodes ↔ ∃ c ∈ bound.terms, .path p ∈ c.nodes := by
  cases bound <;> simp [Bound.nodes, Bound.terms, Term.nodes]

theorem Expr.path_mem_nodes (e : Expr) : .path p ∈ e.nodes ↔ ∃ c ∈ e.terms, .path p ∈ c.nodes := by
  cases e <;> simp [Expr.nodes, Expr.terms, Term.nodes, mem_nodesOfTy?, mem_nodesOfExprs, or_and_right, exists_or]

theorem WherePredicate.path_mem_nodes (pred : WherePredicate) :
    .path p ∈ pred.nodes ↔ ∃ t ∈ pred.terms, .path p ∈ t.nodes := by
  cases pred <;> simp [WherePredicate.nodes, WherePredicate.terms, Term.nodes, mem_nodesOfBounds]

theorem Term.path_mem_nodes (t : Term) : .path p ∈ t.nodes ↔ t = .path p ∨ ∃ c ∈ t.children, .path p ∈ c.nodes := by
  cases t with
  | path q =>
    show .path p ∈ q.nodes ↔ _
    rw [Path.path_mem_nodes, Term.path.injEq, eq_comm]
    exact Iff.rfl
  | ty t => exact t.path_mem_nodes.trans (or_iff_right (by simp)).symm
  | arg a => exact a.path_mem_nodes.trans (or_iff_right (by simp)).symm
  | bound b => exact b.path_mem_nodes.trans (or_iff_right (by simp)).symm
  | expr e => exact e.path_mem_nodes.trans (or_iff_right (by simp)).symm

/-- What the visitor meets of paths is what stands inside the term. -/
theorem Term.path_mem_nodes_iff {t : Term} : .path p ∈ t.nodes ↔ Inside children (.path p) t := by
  rw [exists_inside_iff wf_children path_mem_nodes]
  simp

end

end Sylvia.Syn
