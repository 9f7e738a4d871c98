/-
  Sylvia.Types.GenericsSplit — the generics of a message, used and unused
  (`MsgVariants::new` in `sylvia-derive/src/types/msg_variant.rs`, `CheckGenerics`,
  `filter_wheres`).

  Where a parameter occurs is said on the types as they are written, by what stands inside
  a term, and not by the order of the visitor or by what the fold makes of them: its name
  is one of the paths at some depth, once `Self` segments are left aside. The parameters
  of a contract that are looked for are its type parameters (`GetPath` has `_ => None` for
  the others), those of an interface its associated types.

  Proved:
  - `generics_split`: distinct parameters are split without loss; there is a message
    exactly when every method of the kind `Expands`; methods of the other kinds do not
    matter.
  - `const_param_unused`: a const parameter in the length of an array is not used.
-/
import Sylvia.Types.MsgVariants

namespace Sylvia

open Sylvia.Base Sylvia.Parser Sylvia.Syn Sylvia.Utils

namespace Parser.GenericParam

/-- What names the parameter in a type or an expression. -/
def name : GenericParam → Option Ident
  | .type x | .const x => some x
  | .lifetime _ => none

/-- The name of a type parameter. -/
def typeName : GenericParam → Option Ident
  | .type x => some x
  | .lifetime _ | .const _ => none

end Parser.GenericParam

namespace Types

/-- The name is a whole path in the type of a field that the method has in the message, or
    in a query's response: the type that `resp` names, or what the method returns. -/
def OccursIn (x : Ident) (msgTy : MsgType) (m : Method) : Prop :=
  (∃ f ∈ (processFields m.desc.sig).val, (Term.ty f.ty).HasApartFromSelf x) ∨
    msgTy = .query ∧ (m.resp = some x ∨ m.resp = none ∧
      ∃ returnType, extractReturnType m.output = some returnType ∧ (Term.path returnType.val).HasApartFromSelf x)

/-- The name is a whole path in the bounded type of the predicate or in one of its bounds. -/
def Detected (x : Ident) (pred : WherePredicate) : Prop :=
  ∃ t ∈ pred.terms, Inside Term.children (.path (.ofIdent x)) t

theorem detected_iff {x : Ident} {pred : WherePredicate} : .path (.ofIdent x) ∈ pred.nodes ↔ Detected x pred := by
  simp only [Detected, WherePredicate.path_mem_nodes, Term.path_mem_nodes_iff]

instance (x : Ident) (pred : WherePredicate) : Decidable (Detected x pred) :=
  decidable_of_iff (pred.nodes.any (Node.isIdent x) = true) (by
    rw [← detected_iff]
    simp [List.any_eq_true, Node.isIdent_iff])

theorem field_iff {x : Ident} {m : Method} : (∃ ty ∈ fieldTys m, .path (.ofIdent x) ∈ ty.nodes) ↔
    ∃ f ∈ (processFields m.desc.sig).val, (Term.ty f.ty).HasApartFromSelf x := by
  have hty : ∀ f : MsgField Ty, .path (.ofIdent x) ∈ f.strippedTy.nodes ↔ (Term.ty f.ty).HasApartFromSelf x := by
    intro f
    rw [← StripSelfPath.stands_in_strip_iff, ← Term.path_mem_nodes_iff]
    exact Iff.rfl
  simp only [fieldTys, List.mem_map, exists_exists_and_eq_and, hty]

theorem response_iff {x : Ident} {m : Method} : (∃ ty ∈ responseTy m, .path (.ofIdent x) ∈ ty.nodes) ↔
    m.resp = some x ∨ m.resp = none ∧
      ∃ returnType, extractReturnType m.output = some returnType ∧ (Term.path returnType.val).HasApartFromSelf x := by
  unfold responseTy
  cases hresp : m.resp with
  | some resp => simp [Ty.nodes, nodesOfTy?, Path.nodes, Path.ofIdent, nodesOfSegments, PathArguments.nodes, eq_comm]
  | none =>
    have hpath : ∀ p : Path, .path (.ofIdent x) ∈ (StripSelfPath.foldPath p).nodes ↔ (Term.path p).HasApartFromSelf x := by
      intro p
      rw [← StripSelfPath.stands_in_strip_iff, ← Term.path_mem_nodes_iff]
      exact Iff.rfl
    simp [Ty.nodes, nodesOfTy?, hpath]

theorem seen_iff {source : List Method} {msgTy : MsgType} {x : Ident} :
    Seen source msgTy x ↔ ∃ m ∈ source, ofKind msgTy m = true ∧ OccursIn x msgTy m := by
  have hvisited : ∀ m, (∃ ty ∈ visitedTys msgTy m, .path (.ofIdent x) ∈ ty.nodes) ↔ OccursIn x msgTy m := by
    intro m
    rw [OccursIn, ← field_iff, ← response_iff]
    by_cases hquery : msgTy = .query
    · simp [visitedTys, hquery, or_and_right, exists_or]
    · simp [visitedTys, hquery]
  simp only [Seen, kindNodes, List.mem_flatMap, List.mem_filter, ← hvisited]
  constructor
  · intro h
    rcases h with ⟨ty, ⟨m, ⟨hm, hkind⟩, hty⟩, hx⟩
    exact ⟨m, hm, hkind, ty, hty, hx⟩
  · intro h
    rcases h with ⟨m, hm, hkind, ty, hty, hx⟩
    exact ⟨ty, ⟨m, ⟨hm, hkind⟩, hty⟩, hx⟩

/-! ## The split -/

section

variable {α : Type} [GetPath α] [DecidableEq α]

/-- What the message has of the methods, of the parameters, each known by its name, and of
    the where clause. -/
structure Split (name : α → Option Ident) (source : List Method) (msgTy : MsgType) (generics : List α)
    (clause : Option WhereClause) (msg : MsgVariants α) : Prop where
  /-- The variants are those of the message without generics. -/
  variants : msgVariants (source.map Method.desc) msgTy = some (msg.variants.map TypedVariant.variant)
  used_nodup : msg.usedGenerics.Nodup
  /-- Those that occur in a method of the kind. -/
  mem_used (gen : α) : gen ∈ msg.usedGenerics ↔ gen ∈ generics ∧
    ∃ x, name gen = some x ∧ ∃ m ∈ source, ofKind msgTy m = true ∧ OccursIn x msgTy m
  /-- The others, as they are declared. -/
  unused : msg.unusedGenerics = generics.filter (· ∉ msg.usedGenerics)
  perm : (msg.usedGenerics ++ msg.unusedGenerics).Perm generics
  wheres : msg.wherePredicates = (clause.getD []).filter fun pred =>
    ∀ gen ∈ generics, ∀ x ∈ name gen, Detected x pred → gen ∈ msg.usedGenerics

/-- Distinct parameters have a `Split` whenever nothing panics on the methods of the kind,
    and other methods do not influence the result. -/
def SplitsWithoutLoss (name : α → Option Ident) : Prop :=
  ∀ generics : List α, generics.Nodup → ∀ (source : List Method) (msgTy : MsgType) (clause : Option WhereClause),
    (∀ msg, MsgVariants.new source msgTy generics clause = some msg → Split name source msgTy generics clause msg) ∧
      ((MsgVariants.new source msgTy generics clause).isSome ↔
        ∀ m ∈ source, ofKind msgTy m = true → Expands msgTy m) ∧
      ∀ source', source'.filter (ofKind msgTy) = source.filter (ofKind msgTy) →
        MsgVariants.new source' msgTy generics clause = MsgVariants.new source msgTy generics clause

variable {source : List Method} {msgTy : MsgType} {generics : List α} {clause : Option WhereClause}
  {msg : MsgVariants α}

theorem usedGenerics_nodup (built : MsgVariants.new source msgTy generics clause = some msg) :
    msg.usedGenerics.Nodup := by
  obtain ⟨hused, -⟩ := MsgVariants.new_some built
  rw [hused]
  exact CheckGenerics.nodup_visit List.nodup_nil _

theorem unusedGenerics_eq (built : MsgVariants.new source msgTy generics clause = some msg) :
    msg.unusedGenerics = generics.filter (· ∉ msg.usedGenerics) := by
  obtain ⟨-, hunused, -⟩ := MsgVariants.new_some built
  rw [hunused]
  simp

variable [LawfulGetPath α]

theorem used_append_unused_perm (distinct : generics.Nodup)
    (built : MsgVariants.new source msgTy generics clause = some msg) :
    (msg.usedGenerics ++ msg.unusedGenerics).Perm generics := by
  have hsub : msg.usedGenerics ⊆ generics := fun gen h => ((mem_usedGenerics built).mp h).1
  rw [unusedGenerics_eq built, ← distinct.sdiff_eq_filter]
  apply List.subperm_append_diff_self_of_count_le
  intro gen _
  exact ((usedGenerics_nodup built).subperm hsub).count_le gen

theorem split_of_new {name : α → Option Ident} (hname : ∀ gen, getPath gen = name gen) (distinct : generics.Nodup)
    (built : MsgVariants.new source msgTy generics clause = some msg) : Split name source msgTy generics clause msg where
  variants := MsgVariants.new_variants built
  used_nodup := usedGenerics_nodup built
  mem_used gen := by
    simp only [mem_usedGenerics built, Occurs, hname, ← seen_iff]
    exact Iff.rfl
  unused := unusedGenerics_eq built
  perm := used_append_unused_perm distinct built
  wheres := by
    rw [wherePredicates_eq built]
    refine List.filter_congr fun pred _ => ?_
    simp only [Occurs, hname, detected_iff, Option.mem_def, forall_exists_index, and_imp]

theorem splitsWithoutLoss {name : α → Option Ident} (hname : ∀ gen, getPath gen = name gen) : SplitsWithoutLoss name := by
  intro generics distinct source msgTy clause
  refine ⟨fun msg built => split_of_new hname distinct built, MsgVariants.new_isSome, ?_⟩
  intro source' hkind
  rw [← MsgVariants.new_filter source', hkind, MsgVariants.new_filter]

end

/-- The type parameters of a contract and the associated types of an interface are split
    without loss; a lifetime or const parameter is never used. -/
theorem generics_split : SplitsWithoutLoss GenericParam.typeName ∧ SplitsWithoutLoss (some : Ident → Option Ident) :=
  ⟨splitsWithoutLoss fun gen => by cases gen <;> rfl, splitsWithoutLoss fun _ => rfl⟩

/-! ## A parameter of each kind -/

/-- `#[sv::msg(query, resp = CountResponse)] fn count(&self, ctx: QueryCtx, of: U)`. -/
def countOf : Method :=
  ⟨⟨some ⟨.query, [], .always⟩, none, ⟨"count", [.receiver [],
    .typed (some "ctx") (.path none (.ofIdent "QueryCtx")) [], .typed (some "of") (.path none (.ofIdent "U")) []]⟩⟩,
    some "CountResponse", .default⟩

/-- `x: Clone`. -/
def cloneBound (x : Ident) : WherePredicate := .type (.path none (.ofIdent x)) [.trait (.ofIdent "Clone")]

/-- `T` stands in an argument of the exec message, `U` in the query only. -/
theorem generics_split_count : ∃ msg,
    MsgVariants.new [countOf, push vecOfT] .exec [.type "U", .type "T"] (some [cloneBound "U", cloneBound "T"]) = some msg ∧
      msg.usedGenerics = [.type "T"] ∧ msg.unusedGenerics = [.type "U"] ∧ msg.wherePredicates = [cloneBound "T"] ∧
      Split GenericParam.typeName [countOf, push vecOfT] .exec [.type "U", .type "T"]
        (some [cloneBound "U", cloneBound "T"]) msg := by
  refine ⟨_, rfl, rfl, rfl, rfl, ?_⟩
  exact (generics_split.1 _ (by decide) _ _ _).1 _ rfl

/-- `[u8; N]`. -/
def bytesOfN : Ty := .array (.path none (.ofIdent "u8")) (.path none (.ofIdent "N"))

theorem occursIn_bytesOfN : OccursIn "N" .exec (push bytesOfN) := by
  refine .inl ⟨⟨"item", bytesOfN, []⟩, List.mem_singleton_self _, .ofIdent "N", ?_, rfl, rfl⟩
  -- the array, its length, the path
  have hlen : Term.expr (.path none (.ofIdent "N")) ∈ Term.keptChildren (.ty bytesOfN) := by
    simp [Term.keptChildren, Term.children, Ty.terms, bytesOfN]
  exact inside_iff.mpr (.inr ⟨_, hlen, inside_iff.mpr (.inr ⟨_, List.mem_singleton_self _, inside_iff.mpr (.inl rfl)⟩)⟩)

/-- `const N: usize` with a parameter of type `[u8; N]`: the whole path `N` is there, and
    `N` is not used. -/
theorem const_param_unused : (∃ msg, MsgVariants.new [push bytesOfN] .exec [GenericParam.const "N"] none = some msg ∧
    OccursIn "N" .exec (push bytesOfN) ∧ msg.usedGenerics = []) ∧ ¬ SplitsWithoutLoss GenericParam.name := by
  refine ⟨⟨_, rfl, occursIn_bytesOfN, rfl⟩, ?_⟩
  intro h
  have hsplit := (h [.const "N"] (by decide) [push bytesOfN] .exec none).1 _ rfl
  have hused := (hsplit.mem_used (.const "N")).mpr
    ⟨List.mem_singleton_self _, "N", rfl, _, List.mem_singleton_self _, rfl, occursIn_bytesOfN⟩
  cases hused

end Types

end Sylvia
