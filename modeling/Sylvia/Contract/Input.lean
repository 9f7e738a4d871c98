/-
  Sylvia.Contract.Input — the impl block that `contract` and `entry_points` are put on,
  and what `contract` reports about it (`contract.rs`, `parser/mod.rs`,
  `contract/communication/struct_msg.rs`).

  A `ContractInput` is a block whose methods' names became variants' names without a
  panic. `Accepted` collects the parts of `contract` that report errors; parsing the
  interfaces' attributes is not among them.

  Proved: `structMessage_clean`: a kind that is a single struct has at most one method,
  and `instantiate` has one.
-/
import Sylvia.Contract.Reply
import Sylvia.Parser.OverrideEntryPoint

namespace Sylvia.Contract

open Sylvia.Base Sylvia.Parser Sylvia.Types

structure ContractInput (Ty : Type) where
  /-- The identifier of the type. -/
  name : Ident
  generics : List Ident
  source : List (VariantDesc Ty)
  overrideAttrs : List OverrideAttr
  svFeatures : SylviaFeatures
  variants : MsgType → List (MsgVariant Ty)
  built : ∀ msgTy, msgVariants source msgTy = some (variants msgTy)

variable {Ty : Type}

def assertNewMethodDefined (source : List (VariantDesc Ty)) : Emit Unit :=
  let note := "`sylvia::contract` requires parameterless `new` method to be defined for dispatch to work correctly."
  match source.find? (·.sig.ident = "new") with
  | some new => Emit.errorIf (!new.sig.inputs.isEmpty) "Parameters not allowed in `new` method." [note]
  | none => Emit.emitError "Missing `new` method in `impl` block." [note]

/-- `MsgVariants::get_only_variant`: the first one. -/
def getOnlyVariant (variants : List (MsgVariant Ty)) : Option (MsgVariant Ty) := variants.head?

/-! ## Struct messages -/

/-- The message of a kind that is a single struct. -/
structure StructMessage (Ty : Type) where
  variants : List (MsgVariant Ty)
  msgTy : MsgType

def StructMessage.new (c : ContractInput Ty) (msgTy : MsgType) : Emit (Option (StructMessage Ty)) :=
  let variants := c.variants msgTy
  if variants.length = 0 ∧ msgTy = .instantiate then do
    Emit.emitError "Missing instantiation message."
      ["`sylvia::contract` requires exactly one method marked with `#[sv::msg(instantiation)]` attribute."]
    pure none
  else if variants.length > 1 then do
    Emit.emitError "More than one instantiation or migration message"
      ["Instantiation/Migration message previously defined here"]
    pure none
  else pure (some ⟨variants, msgTy⟩)

namespace ContractInput

/-- `contract` reports no error. -/
structure Accepted [DecidableEq Ty] (c : ContractInput Ty) : Prop where
  newDefined : (assertNewMethodDefined c.source).Clean
  attrs : (overrideEntryPointAttrs c.overrideAttrs).Clean
  fields : ∀ desc ∈ c.source, desc.msgAttr.isSome → (processFields desc.sig).Clean
  instantiate : (StructMessage.new c .instantiate).Clean
  migrate : (StructMessage.new c .migrate).Clean
  reply : c.svFeatures.replies = true → ∃ out, asReplyData (c.variants .reply) = some out ∧ out.Clean

theorem structMessage_clean {c : ContractInput Ty} {msgTy : MsgType} (h : (StructMessage.new c msgTy).Clean) :
    (c.variants msgTy).length ≤ 1 ∧ (msgTy = .instantiate → c.variants msgTy ≠ []) := by
  unfold StructMessage.new at h
  dsimp only at h
  split at h
  · simp at h
  · rename_i hmissing
    split at h
    · simp at h
    · rename_i hmany
      refine ⟨by omega, ?_⟩
      intro hi hnil
      exact hmissing ⟨by rw [hnil]; rfl, hi⟩

end ContractInput

end Sylvia.Contract
