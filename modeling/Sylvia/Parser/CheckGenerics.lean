/-
  Sylvia.Parser.CheckGenerics — which generic parameters are used
  (`sylvia-derive/src/parser/check_generics.rs`, `filter_wheres` in `utils.rs`).

  The checker is `syn`'s visitor with `visit_path` overridden: a path that is a parameter
  as a whole is pushed once, then its arguments are visited. The where filter runs a fresh
  checker over each predicate.

  Proved:
  - `mem_visit`, `nodup_visit`: the parameters pushed, each once.
  - `mem_visit_iff`: where no two parameters share a path, these are the ones that occur.
  - `filterWheres_eq`: then a predicate is kept when all that occur in it are used.
-/
import Mathlib.Data.List.Nodup
import Sylvia.Syn.Ty

namespace Sylvia.Parser

open Sylvia.Syn

inductive GenericParam where
  | lifetime (name : Ident)
  | type (ident : Ident)
  | const (ident : Ident)
  deriving DecidableEq, Repr

/-- The identifier that is the path of a parameter, if it is one. -/
class GetPath (α : Type) where
  getPath : α → Option Ident

export GetPath (getPath)

instance : GetPath GenericParam where
  getPath
    | .type ident => some ident
    | .lifetime _ | .const _ => none

/-- Associated types are checked by their names. -/
instance : GetPath Ident where
  getPath ident := some ident

structure CheckGenerics (α : Type) where
  generics : List α
  used : List α

namespace CheckGenerics

variable {α : Type}

def new (generics : List α) : CheckGenerics α := ⟨generics, []⟩

section

variable [GetPath α] [DecidableEq α]

/-- The parameter that the path is as a whole. -/
def parameter (generics : List α) (p : Path) : Option α := generics.find? fun gen => (getPath gen).any p.isIdent

/-- `visit_path` on the path itself; a visitor meets no other nodes. -/
def visitNode (self : CheckGenerics α) : Node → CheckGenerics α
  | .path p =>
    match parameter self.generics p with
    | some gen => if self.used.contains gen then self else { self with used := self.used ++ [gen] }
    | none => self
  | .tokens _ => self

def visit (self : CheckGenerics α) (nodes : List Node) : CheckGenerics α := nodes.foldl visitNode self

def visitType (self : CheckGenerics α) (ty : Ty) : CheckGenerics α := self.visit ty.nodes

def visitWherePredicate (self : CheckGenerics α) : WherePredicate → CheckGenerics α
  | .lifetime _ => self
  | .type boundedTy bounds => self.visit (boundedTy.nodes ++ nodesOfBounds bounds)

/-- The split into used and unused parameters. -/
def usedUnused (self : CheckGenerics α) : List α × List α :=
  (self.used, self.generics.filter fun gen => !self.used.contains gen)

end

end CheckGenerics

abbrev WhereClause := List WherePredicate

def filterWheres {α : Type} [GetPath α] [DecidableEq α] (clause : Option WhereClause) (generics usedGenerics : List α) :
    List WherePredicate :=
  (clause.map fun predicates => predicates.filter fun pred =>
    ((CheckGenerics.new generics).visitWherePredicate pred).used.all usedGenerics.contains).getD []

/-! ## What is pushed -/

namespace CheckGenerics

variable {α : Type} [GetPath α] [DecidableEq α]

theorem visitNode_generics (self : CheckGenerics α) (n : Node) : (self.visitNode n).generics = self.generics := by
  cases n with
  | tokens ts => rfl
  | path p =>
    simp only [visitNode]
    split
    · split <;> rfl
    · rfl

theorem mem_visitNode {self : CheckGenerics α} {n : Node} {gen : α} : gen ∈ (self.visitNode n).used ↔
    gen ∈ self.used ∨ ∃ p, n = .path p ∧ parameter self.generics p = some gen := by
  cases n with
  | tokens ts => simp [visitNode]
  | path p =>
    simp only [visitNode, Node.path.injEq, exists_eq_left']
    cases hp : parameter self.generics p with
    | none => simp
    | some g =>
      by_cases hg : g ∈ self.used
      · simp only [List.contains_iff_mem, hg, if_true, Option.some.injEq]
        exact ⟨.inl, fun h => h.elim id fun h => h ▸ hg⟩
      · simp [hg, eq_comm]

theorem nodup_visitNode {self : CheckGenerics α} (h : self.used.Nodup) (n : Node) : (self.visitNode n).used.Nodup := by
  cases n with
  | tokens ts => exact h
  | path p =>
    simp only [visitNode]
    split
    · split
      · exact h
      · rename_i gen _ hg
        have hg : gen ∉ self.used := by simpa using hg
        refine List.nodup_append.mpr ⟨h, List.nodup_singleton _, ?_⟩
        intro a ha b hb he
        rw [he, List.mem_singleton.mp hb] at ha
        exact hg ha
    · exact h

theorem visit_generics (self : CheckGenerics α) (nodes : List Node) : (self.visit nodes).generics = self.generics := by
  unfold visit
  induction nodes generalizing self with
  | nil => rfl
  | cons n nodes ih => rw [List.foldl_cons, ih, visitNode_generics]

theorem mem_visit {self : CheckGenerics α} {nodes : List Node} {gen : α} : gen ∈ (self.visit nodes).used ↔
    gen ∈ self.used ∨ ∃ p, Node.path p ∈ nodes ∧ parameter self.generics p = some gen := by
  unfold visit
  induction nodes generalizing self with
  | nil => simp
  | cons n nodes ih =>
    rw [List.foldl_cons, ih, mem_visitNode, visitNode_generics, or_assoc, ← exists_or]
    simp only [List.mem_cons, or_and_right, eq_comm]

theorem nodup_visit {self : CheckGenerics α} (h : self.used.Nodup) (nodes : List Node) : (self.visit nodes).used.Nodup := by
  unfold visit
  induction nodes generalizing self with
  | nil => exact h
  | cons n nodes ih => exact ih (nodup_visitNode h n)

theorem visit_append (self : CheckGenerics α) (ns ms : List Node) : (self.visit ns).visit ms = self.visit (ns ++ ms) :=
  (List.foldl_append ..).symm

end CheckGenerics

theorem visitWherePredicate_eq {α : Type} [GetPath α] [DecidableEq α] (self : CheckGenerics α) (pred : WherePredicate) :
    self.visitWherePredicate pred = self.visit pred.nodes := by
  cases pred <;> rfl

/-! ## Parameters known by their paths -/

/-- No two parameters have one path. -/
class LawfulGetPath (α : Type) [GetPath α] : Prop where
  eq_of_getPath : ∀ {a b : α} {x : Ident}, getPath a = some x → getPath b = some x → a = b

theorem getPath_eq_some {gen : GenericParam} {x : Ident} : getPath gen = some x ↔ gen = .type x := by
  cases gen <;> simp [getPath]

instance : LawfulGetPath GenericParam where
  eq_of_getPath ha hb := (getPath_eq_some.mp ha).trans (getPath_eq_some.mp hb).symm

instance : LawfulGetPath Ident where
  eq_of_getPath ha hb := (Option.some.inj ha).trans (Option.some.inj hb).symm

section

variable {α : Type} [GetPath α]

/-- The path of the parameter is one of the nodes. -/
def Occurs (gen : α) (nodes : List Node) : Prop := ∃ x, getPath gen = some x ∧ .path (.ofIdent x) ∈ nodes

theorem occurs_iff {gen : α} {nodes : List Node} :
    Occurs gen nodes ↔ ((getPath gen).any fun x => nodes.any (Node.isIdent x)) = true := by
  simp [Occurs, Option.any_eq_true, List.any_eq_true, Node.isIdent_iff]

instance (gen : α) (nodes : List Node) : Decidable (Occurs gen nodes) := decidable_of_iff _ occurs_iff.symm

theorem occurs_type {x : Ident} {nodes : List Node} :
    Occurs (GenericParam.type x) nodes ↔ .path (.ofIdent x) ∈ nodes := by
  simp [Occurs, getPath]

theorem Occurs.type {gen : GenericParam} {nodes : List Node} (h : Occurs gen nodes) : ∃ x, gen = .type x := by
  obtain ⟨x, hgen, -⟩ := h
  exact ⟨x, getPath_eq_some.mp hgen⟩

theorem any_isIdent_iff {gen : α} {p : Path} :
    (getPath gen).any p.isIdent = true ↔ ∃ x, getPath gen = some x ∧ p = .ofIdent x := by
  simp only [Option.any_eq_true, Path.isIdent_iff]

variable [LawfulGetPath α]

/-- A whole path is the parameter that is declared under its name. -/
theorem parameter_iff {generics : List α} {p : Path} {gen : α} :
    CheckGenerics.parameter generics p = some gen ↔ gen ∈ generics ∧ ∃ x, getPath gen = some x ∧ p = .ofIdent x := by
  constructor
  · intro h
    refine ⟨List.mem_of_find?_eq_some h, any_isIdent_iff.mp ?_⟩
    exact List.find?_some (p := fun g => (getPath g).any p.isIdent) h
  · intro h
    rcases h with ⟨hmem, x, hgen, rfl⟩
    cases hf : CheckGenerics.parameter generics (.ofIdent x) with
    | none => exact absurd (any_isIdent_iff.mpr ⟨x, hgen, rfl⟩) (List.find?_eq_none.mp hf _ hmem)
    | some g =>
      obtain ⟨y, hg, hy⟩ :=
        any_isIdent_iff.mp (List.find?_some (p := fun g => (getPath g).any (Path.ofIdent x).isIdent) hf)
      obtain rfl : x = y := by simpa [Path.ofIdent] using hy
      rw [LawfulGetPath.eq_of_getPath hg hgen]

variable [DecidableEq α]

/-- The checker adds the parameters that occur. -/
theorem mem_visit_iff {self : CheckGenerics α} {nodes : List Node} {gen : α} :
    gen ∈ (self.visit nodes).used ↔ gen ∈ self.used ∨ gen ∈ self.generics ∧ Occurs gen nodes := by
  rw [CheckGenerics.mem_visit]
  refine or_congr Iff.rfl ?_
  simp only [parameter_iff, Occurs]
  constructor
  · intro h
    rcases h with ⟨p, hp, hmem, x, hgen, rfl⟩
    exact ⟨hmem, x, hgen, hp⟩
  · intro h
    rcases h with ⟨hmem, x, hgen, hx⟩
    exact ⟨_, hx, hmem, x, hgen, rfl⟩

/-- A predicate is kept when all the parameters that occur in it are used. -/
theorem filterWheres_eq (clause : Option WhereClause) (generics used : List α) : filterWheres clause generics used =
    (clause.getD []).filter fun pred => ∀ gen ∈ generics, Occurs gen pred.nodes → gen ∈ used := by
  have hkept (pred : WherePredicate) :
      ((CheckGenerics.new generics).visitWherePredicate pred).used.all used.contains =
        decide (∀ gen ∈ generics, Occurs gen pred.nodes → gen ∈ used) := by
    rw [visitWherePredicate_eq, Bool.eq_iff_iff, List.all_eq_true, decide_eq_true_eq]
    simp [mem_visit_iff, CheckGenerics.new]
  cases clause with
  | none => rfl
  | some predicates => simp only [filterWheres, Option.map_some, Option.getD_some, hkept]

end

end Sylvia.Parser
