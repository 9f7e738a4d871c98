/-
  Sylvia.Parser.OverrideEntryPoint — `#[sv::override_entry_point(kind=path(Msg))]`
  (`parser/attributes/override_entry_point.rs`).

  An attribute *names* the kind that `MsgType::new` reads from its identifier. Parsing
  has its own table, with one line that differs: `query` is an override of `Instantiate`.

  Proved: `getEntryPoint_eq`, `hits_iff`: which attribute of a list overrides a kind.
-/
import Sylvia.Parser.Attributes

namespace Sylvia.Parser

open Sylvia.Base

/-- The attribute as written. -/
structure OverrideAttr where
  ty : Ident
  entryPoint : String
  msgName : String
  deriving DecidableEq, Repr

structure OverrideEntryPoint where
  entryPoint : String
  msgName : String
  msgType : MsgType
  deriving DecidableEq, Repr

namespace OverrideEntryPoint

/-- The kind that `parse` reads. -/
def parseMsgType (ty : Ident) : Except String MsgType :=
  match ty with
  | "exec" => .ok .exec
  | "instantiate" => .ok .instantiate
  | "query" => .ok .instantiate
  | "migrate" => .ok .migrate
  | "reply" => .ok .reply
  | "sudo" => .ok .sudo
  | _ => .error ("Invalid entry point. Expected exec, instantiate, query, migrate, reply or sudo. " ++
      "Found \x7bty\x7d")

def parse (attr : OverrideAttr) : Except String OverrideEntryPoint :=
  (parseMsgType attr.ty).map fun msgType => ⟨attr.entryPoint, attr.msgName, msgType⟩

def new (attr : OverrideAttr) : Emit (Option OverrideEntryPoint) :=
  match parse attr with
  | .ok o => pure (some o)
  | .error err => do
    Emit.emitError err []
    pure none

end OverrideEntryPoint

/-- The entry point attributes of an impl block. -/
def overrideEntryPointAttrs (attrs : List OverrideAttr) : Emit (List OverrideEntryPoint) := do
  let os ← attrs.mapM OverrideEntryPoint.new
  pure (os.filterMap id)

/-- `FilteredOverrideEntryPoints::get_entry_point`. -/
def getEntryPoint (os : List OverrideEntryPoint) (ty : MsgType) : Option OverrideEntryPoint :=
  os.find? (·.msgType = ty)

/-! ## Kinds named and kinds hit -/

namespace OverrideAttr

def Names (attr : OverrideAttr) (ty : MsgType) : Prop := MsgType.new attr.ty = .ok ty

instance (attr : OverrideAttr) (ty : MsgType) : Decidable (attr.Names ty) :=
  inferInstanceAs (Decidable (MsgType.new attr.ty = .ok ty))

/-- Once parsed, the attribute overrides `ty`. -/
def hits (ty : MsgType) (attr : OverrideAttr) : Bool := OverrideEntryPoint.parseMsgType attr.ty = .ok ty

theorem hits_iff {attr : OverrideAttr} {ty : MsgType} :
    attr.hits ty = true ↔ attr.Names ty ∧ ty ≠ .query ∨ attr.Names .query ∧ ty = .instantiate := by
  unfold hits OverrideEntryPoint.parseMsgType Names
  split <;> rename_i h <;> cases ty <;> simp_all [MsgType.new]

theorem not_hits_query (attr : OverrideAttr) : attr.hits .query = false := by
  rw [Bool.eq_false_iff, ne_eq, hits_iff]
  simp

end OverrideAttr

theorem overrideEntryPointAttrs_val (attrs : List OverrideAttr) :
    (overrideEntryPointAttrs attrs).val = attrs.filterMap fun a => (OverrideEntryPoint.parse a).toOption := by
  rw [overrideEntryPointAttrs, Emit.val_bind, Emit.val_pure, Emit.val_mapM, List.filterMap_map]
  refine congrArg (attrs.filterMap ·) (funext fun a => ?_)
  unfold OverrideEntryPoint.new
  cases h : OverrideEntryPoint.parse a <;> simp [h, Except.toOption]

/-- The first attribute that hits a kind overrides it. -/
theorem getEntryPoint_eq (attrs : List OverrideAttr) (ty : MsgType) :
    getEntryPoint (overrideEntryPointAttrs attrs).val ty =
      (attrs.find? (OverrideAttr.hits ty)).map fun a => ⟨a.entryPoint, a.msgName, ty⟩ := by
  rw [getEntryPoint, overrideEntryPointAttrs_val]
  induction attrs with
  | nil => rfl
  | cons a attrs ih =>
    rw [List.filterMap_cons, List.find?_cons]
    cases h : OverrideEntryPoint.parseMsgType a.ty with
    | error e => simpa [OverrideEntryPoint.parse, OverrideAttr.hits, h, Except.map, Except.toOption] using ih
    | ok K =>
      by_cases hK : K = ty
      · simp [OverrideEntryPoint.parse, OverrideAttr.hits, h, Except.map, Except.toOption, hK]
      · simpa [OverrideEntryPoint.parse, OverrideAttr.hits, h, Except.map, Except.toOption, hK] using ih

end Sylvia.Parser
