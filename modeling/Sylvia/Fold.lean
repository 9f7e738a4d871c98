/-
  Sylvia.Fold — `StripSelfPath` (`sylvia-derive/src/fold.rs`): a type without the `Self`
  segments of its paths, as the fields of the generated messages have it.

  Segments go before the fold descends, so the arguments of a `Self` segment go with it.
  Tokens are left as they are.

  Proved:
  - `foldPath_segments`: the other segments stay, in order, their arguments folded.
  - `inside_strip_iff`: what stands inside a folded term is what stood inside the term,
    but for the arguments of `Self` segments, folded; `no_self_left`: so no path inside
    has a `Self` segment.
  - `stands_in_strip_iff`: where an identifier stands as a whole path.
-/
import Sylvia.Syn.Term

namespace Sylvia

open Sylvia.Base Sylvia.Parser Sylvia.Syn

namespace StripSelfPath

mutual

def foldType : Ty → Ty
  | .array elem len => .array (foldType elem) (foldExpr len)
  | .bareFn inputs output => .bareFn (foldTypes inputs) (foldType? output)
  | .group elem => .group (foldType elem)
  | .implTrait bounds => .implTrait (foldBounds bounds)
  | .infer => .infer
  | .mac path tokens => .mac (foldPath path) tokens
  | .never => .never
  | .paren elem => .paren (foldType elem)
  | .path qself path => .path (foldType? qself) (foldPath path)
  | .ptr elem => .ptr (foldType elem)
  | .reference elem => .reference (foldType elem)
  | .slice elem => .slice (foldType elem)
  | .traitObject bounds => .traitObject (foldBounds bounds)
  | .tuple elems => .tuple (foldTypes elems)
  | .verbatim tokens => .verbatim tokens

def foldType? : Option Ty → Option Ty
  | none => none
  | some ty => some (foldType ty)

def foldTypes : List Ty → List Ty
  | [] => []
  | ty :: tys => foldType ty :: foldTypes tys

def foldPath : Path → Path
  | .mk leadingColon segments => .mk leadingColon (foldSegments segments)

def foldSegments : List Segment → List Segment
  | [] => []
  | .mk ident arguments :: segments =>
    if ident = "Self" then foldSegments segments else .mk ident (foldArguments arguments) :: foldSegments segments

def foldArguments : PathArguments → PathArguments
  | .none => .none
  | .angleBracketed args => .angleBracketed (foldArgs args)
  | .parenthesized inputs output => .parenthesized (foldTypes inputs) (foldType? output)

def foldArg : GenericArgument → GenericArgument
  | .lifetime name => .lifetime name
  | .type ty => .type (foldType ty)
  | .const value => .const (foldExpr value)
  | .assocType ident generics ty => .assocType ident (foldArgs generics) (foldType ty)
  | .assocConst ident generics value => .assocConst ident (foldArgs generics) (foldExpr value)
  | .constraint ident generics bounds => .constraint ident (foldArgs generics) (foldBounds bounds)

def foldArgs : List GenericArgument → List GenericArgument
  | [] => []
  | arg :: args => foldArg arg :: foldArgs args

def foldBound : Bound → Bound
  | .trait path => .trait (foldPath path)
  | .lifetime name => .lifetime name
  | .other tokens => .other tokens

def foldBounds : List Bound → List Bound
  | [] => []
  | bound :: bounds => foldBound bound :: foldBounds bounds

def foldExpr : Expr → Expr
  | .path qself path => .path (foldType? qself) (foldPath path)
  | .mac path tokens => .mac (foldPath path) tokens
  | .ty ty => .ty (foldType ty)
  | .node parts => .node (foldExprs parts)

def foldExprs : List Expr → List Expr
  | [] => []
  | e :: es => foldExpr e :: foldExprs es

end

/-! ## What is left -/

def foldSegment : Segment → Segment
  | .mk ident arguments => .mk ident (foldArguments arguments)

theorem foldTypes_eq (tys : List Ty) : foldTypes tys = tys.map foldType := by
  induction tys with
  | nil => rfl
  | cons ty tys ih => rw [foldTypes, ih, List.map_cons]

theorem foldType?_eq (ty? : Option Ty) : foldType? ty? = ty?.map foldType := by
  cases ty? <;> rfl

theorem foldArgs_eq (args : List GenericArgument) : foldArgs args = args.map foldArg := by
  induction args with
  | nil => rfl
  | cons arg args ih => rw [foldArgs, ih, List.map_cons]

theorem foldBounds_eq (bounds : List Bound) : foldBounds bounds = bounds.map foldBound := by
  induction bounds with
  | nil => rfl
  | cons bound bounds ih => rw [foldBounds, ih, List.map_cons]

theorem foldExprs_eq (es : List Expr) : foldExprs es = es.map foldExpr := by
  induction es with
  | nil => rfl
  | cons e es ih => rw [foldExprs, ih, List.map_cons]

theorem foldPath_segments (p : Path) :
    (foldPath p).segments = (p.segments.filter fun s => s.ident ≠ "Self").map foldSegment := by
  obtain ⟨leadingColon, segments⟩ := p
  simp only [foldPath, Path.segments]
  induction segments with
  | nil => rfl
  | cons segment segments ih =>
    obtain ⟨ident, arguments⟩ := segment
    rw [foldSegments, List.filter_cons]
    by_cases hself : ident = "Self"
    · simp [hself, Segment.ident, ih]
    · simp [hself, Segment.ident, ih, foldSegment]

/-- The fold of any term. -/
def strip : Term → Term
  | .ty ty => .ty (foldType ty)
  | .path p => .path (foldPath p)
  | .arg arg => .arg (foldArg arg)
  | .bound bound => .bound (foldBound bound)
  | .expr e => .expr (foldExpr e)

end StripSelfPath

/-- The terms right below one, but for those in the arguments of a `Self` segment. -/
def Syn.Term.keptChildren : Term → List Term
  | .path p => (p.segments.filter fun s => s.ident ≠ "Self").flatMap Segment.terms
  | t => t.children

/-- Without its `Self` segments the path is the identifier. -/
def Syn.Path.IsApartFromSelf (x : Ident) : Path → Prop
  | .mk leadingColon segments => leadingColon = false ∧ (segments.filter fun s => s.ident ≠ "Self") = [.mk x .none]

/-- The identifier stands in the term as a whole path, `Self` segments and what is in
    their arguments left aside. -/
def Syn.Term.HasApartFromSelf (x : Ident) (t : Term) : Prop :=
  ∃ p, Inside keptChildren (.path p) t ∧ p.IsApartFromSelf x

namespace StripSelfPath

theorem foldArguments_terms (arguments : PathArguments) :
    (foldArguments arguments).terms = arguments.terms.map strip := by
  cases arguments with
  | none => rfl
  | angleBracketed args => simp [foldArguments, PathArguments.terms, foldArgs_eq, strip, Function.comp_def]
  | parenthesized inputs output =>
    cases output <;> simp [foldArguments, PathArguments.terms, foldTypes_eq, foldType?, strip, Function.comp_def]

theorem strip_children (t : Term) : (strip t).children = t.keptChildren.map strip := by
  cases t with
  | ty ty =>
    cases ty <;> simp [strip, foldType, Term.children, Term.keptChildren, Ty.terms, foldTypes_eq, foldType?_eq,
      foldBounds_eq, Option.toList_map, Function.comp_def]
  | path p =>
    have hsegment : ∀ s : Segment, (foldSegment s).terms = s.terms.map strip := by
      intro s
      obtain ⟨ident, arguments⟩ := s
      exact foldArguments_terms arguments
    simp only [strip, Term.children, Term.keptChildren, Path.terms, foldPath_segments, List.flatMap_map, List.map_flatMap,
      hsegment]
  | arg arg =>
    cases arg <;> simp [strip, foldArg, Term.children, Term.keptChildren, GenericArgument.terms, foldArgs_eq, foldBounds_eq,
      Function.comp_def]
  | bound bound => cases bound <;> simp [strip, foldBound, Term.children, Term.keptChildren, Bound.terms]
  | expr e =>
    cases e <;> simp [strip, foldExpr, Term.children, Term.keptChildren, Expr.terms, foldType?_eq, foldExprs_eq,
      Option.toList_map, Function.comp_def]

theorem inside_strip_iff {s t : Term} :
    Inside Term.children s (strip t) ↔ ∃ u, Inside Term.keptChildren u t ∧ strip u = s :=
  inside_image_iff strip_children

theorem strip_eq_path {u : Term} {q : Path} : strip u = .path q ↔ ∃ p, u = .path p ∧ foldPath p = q := by
  cases u <;> simp [strip]

/-- No path of a folded term has a `Self` segment. -/
theorem no_self_left {q : Path} {t : Term} (h : Inside Term.children (.path q) (strip t)) :
    ∀ s ∈ q.segments, s.ident ≠ "Self" := by
  obtain ⟨u, -, hu⟩ := inside_strip_iff.mp h
  obtain ⟨p, -, rfl⟩ := strip_eq_path.mp hu
  intro s hs
  rw [foldPath_segments] at hs
  obtain ⟨r, hr, rfl⟩ := List.mem_map.mp hs
  have hident : (foldSegment r).ident = r.ident := by cases r; rfl
  rw [hident]
  simpa using (List.mem_filter.mp hr).2

theorem foldArguments_eq_none {arguments : PathArguments} : foldArguments arguments = .none ↔ arguments = .none := by
  cases arguments <;> simp [foldArguments]

theorem foldPath_eq_ofIdent {p : Path} {x : Ident} : foldPath p = .ofIdent x ↔ p.IsApartFromSelf x := by
  have hsegments := foldPath_segments p
  obtain ⟨leadingColon, segments⟩ := p
  have hsegment : ∀ s, foldSegment s = .mk x .none ↔ s = .mk x .none := by
    intro s
    obtain ⟨ident, arguments⟩ := s
    simp [foldSegment, foldArguments_eq_none]
  simp only [foldPath, Path.segments] at hsegments
  simp only [foldPath, Path.ofIdent, Syn.Path.mk.injEq, Path.IsApartFromSelf, hsegments, List.map_eq_singleton_iff, hsegment,
    exists_eq_right]

theorem stands_in_strip_iff {x : Ident} {t : Term} :
    Inside Term.children (.path (.ofIdent x)) (strip t) ↔ t.HasApartFromSelf x := by
  rw [inside_strip_iff]
  constructor
  · intro h
    rcases h with ⟨u, hu, hpath⟩
    obtain ⟨p, rfl, hp⟩ := strip_eq_path.mp hpath
    exact ⟨p, hu, foldPath_eq_ofIdent.mp hp⟩
  · intro h
    rcases h with ⟨p, hp, hx⟩
    exact ⟨_, hp, strip_eq_path.mpr ⟨p, rfl, foldPath_eq_ofIdent.mpr hx⟩⟩

end StripSelfPath

end Sylvia
