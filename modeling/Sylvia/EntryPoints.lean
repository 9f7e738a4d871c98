/-
  Sylvia.EntryPoints — the `entry_points` module of a contract (`entry_points.rs`).

  Each generated function is its name, the kind of message it takes and what it does
  with it. A kind that an attribute overrides gets none.

  Proved: `mem_emit`, `generated_some`, `generated_none`: which entry points are generated.
-/
import Sylvia.Contract.Input

namespace Sylvia.Contract

open Sylvia.Base Sylvia.Parser Sylvia.Types

variable {Ty : Type}

/-- What generated code does with a message. -/
inductive Body where
  /-- `dispatch` of the kind's message. -/
  | dispatch (msgTy : MsgType)
  | dispatchReply
  /-- A method of the contract, given the whole reply. -/
  | method (function : Option Ident)
  /-- An overriding function, given the message it names. -/
  | overriding (o : OverrideEntryPoint)
  | bail (text : String)
  deriving DecidableEq, Repr

structure EntryPoint where
  name : Ident
  msgTy : MsgType
  body : Body
  deriving DecidableEq, Repr

/-- `EntryPointInput::new`: what it reports; `args` are the concrete types. -/
def entryPointInputNew (c : ContractInput Ty) (args : List Ty) : Emit Unit := do
  Emit.errorIf (args.length != c.generics.length) "Missing concrete types."
    ["For every generic type in the contract, a concrete type must be provided in " ++
      "`#[entry_points(generics<T1, T2, ...>)]`."]
  Emit.errorIf (getOnlyVariant (c.variants .instantiate)).isNone "Missing instantiation message."
    ["`sylvia::entry_points` requires exactly one method marked with `#[sv::msg(instantiation)]` attribute.",
      "Make sure you implemented the `entry_points` macro above the `contract` macro."]

namespace ContractInput

def overrideEntryPoints (c : ContractInput Ty) : List OverrideEntryPoint := (overrideEntryPointAttrs c.overrideAttrs).val

/-- `EntryPoints::reply`: the first reply method. -/
def reply (c : ContractInput Ty) : Option Ident := ((c.variants .reply).map MsgVariant.functionName).head?

def emitDefaultEntryPoint (c : ContractInput Ty) (msgTy : MsgType) : EntryPoint where
  name := msgTy.emitEpName
  msgTy := msgTy
  body := match msgTy with
    | .reply => if c.svFeatures.replies then .dispatchReply else .method c.reply
    | _ => .dispatch msgTy

def emitEntryPoints (c : ContractInput Ty) : List EntryPoint :=
  let entryPoints := [MsgType.instantiate, .exec, .query, .sudo].filterMap fun msgTy =>
    match getEntryPoint c.overrideEntryPoints msgTy with
    | some _ => none
    | none => some (c.emitDefaultEntryPoint msgTy)
  let isMigrate := (getOnlyVariant (c.variants .migrate)).isSome
  let migrateNotOverridden := (getEntryPoint c.overrideEntryPoints .migrate).isNone
  let migrate := if migrateNotOverridden && isMigrate then [c.emitDefaultEntryPoint .migrate] else []
  let replyEp := match getEntryPoint c.overrideEntryPoints .reply with
    | some _ => []
    | none => if c.reply.isSome then [c.emitDefaultEntryPoint .reply] else []
  entryPoints ++ migrate ++ replyEp

/-- A kind has an entry point by default. -/
def HasDefault (c : ContractInput Ty) : MsgType → Prop
  | .migrate => c.variants .migrate ≠ []
  | .reply => c.variants .reply ≠ []
  | .instantiate | .exec | .query | .sudo => True

theorem getOnlyVariant_isSome {vs : List (MsgVariant Ty)} : (getOnlyVariant vs).isSome = true ↔ vs ≠ [] := by
  cases vs <;> simp [getOnlyVariant]

theorem reply_isSome (c : ContractInput Ty) : c.reply.isSome = true ↔ c.variants .reply ≠ [] := by
  unfold reply
  cases c.variants .reply <;> simp

theorem mem_emit (c : ContractInput Ty) (ep : EntryPoint) : ep ∈ c.emitEntryPoints ↔
    ∃ msgTy, ep = c.emitDefaultEntryPoint msgTy ∧ getEntryPoint c.overrideEntryPoints msgTy = none ∧
      c.HasDefault msgTy := by
  simp only [emitEntryPoints, List.mem_append, List.mem_filterMap]
  constructor
  · intro h
    rcases h with (⟨msgTy, hty, h⟩ | h) | h
    · split at h
      · cases h
      · rename_i hnone
        refine ⟨msgTy, (Option.some.inj h).symm, hnone, ?_⟩
        fin_cases hty <;> trivial
    · split at h
      · rename_i hc
        rw [Bool.and_eq_true, Option.isNone_iff_eq_none, getOnlyVariant_isSome] at hc
        exact ⟨.migrate, List.mem_singleton.mp h, hc⟩
      · cases h
    · split at h
      · cases h
      · rename_i hnone
        split at h
        · rename_i hc
          exact ⟨.reply, List.mem_singleton.mp h, hnone, c.reply_isSome.mp hc⟩
        · cases h
  · intro h
    rcases h with ⟨msgTy, rfl, hnone, hdef⟩
    have hfirst (hty : msgTy ∈ [MsgType.instantiate, .exec, .query, .sudo]) :
        ∃ a ∈ [MsgType.instantiate, .exec, .query, .sudo], (match getEntryPoint c.overrideEntryPoints a with
          | some _ => none
          | none => some (c.emitDefaultEntryPoint a)) = some (c.emitDefaultEntryPoint msgTy) :=
      ⟨msgTy, hty, by rw [hnone]⟩
    cases msgTy with
    | exec | query | instantiate | «sudo» => exact .inl (.inl (hfirst (by simp)))
    | migrate =>
      refine .inl (.inr ?_)
      rw [if_pos (by rw [Bool.and_eq_true, Option.isNone_iff_eq_none, getOnlyVariant_isSome]; exact ⟨hnone, hdef⟩)]
      exact List.mem_singleton_self _
    | reply =>
      refine .inr ?_
      rw [hnone]
      dsimp only
      rw [if_pos (c.reply_isSome.mpr hdef)]
      exact List.mem_singleton_self _

/-- The generated entry point of a kind. -/
def generated (c : ContractInput Ty) (msgTy : MsgType) : Option EntryPoint :=
  c.emitEntryPoints.find? (·.msgTy = msgTy)

theorem generated_some {c : ContractInput Ty} {msgTy : MsgType} (hnone : getEntryPoint c.overrideEntryPoints msgTy = none)
    (hdef : c.HasDefault msgTy) : c.generated msgTy = some (c.emitDefaultEntryPoint msgTy) := by
  refine find?_unique ((c.mem_emit _).mpr ⟨msgTy, rfl, hnone, hdef⟩) (decide_eq_true rfl) ?_
  intro ep hep hty
  obtain ⟨msgTy', rfl, -⟩ := (c.mem_emit ep).mp hep
  obtain rfl : msgTy' = msgTy := of_decide_eq_true hty
  rfl

theorem generated_none {c : ContractInput Ty} {msgTy : MsgType}
    (h : ¬ (getEntryPoint c.overrideEntryPoints msgTy = none ∧ c.HasDefault msgTy)) : c.generated msgTy = none := by
  apply List.find?_eq_none.mpr
  intro ep hep hty
  obtain ⟨msgTy', rfl, hboth⟩ := (c.mem_emit ep).mp hep
  obtain rfl : msgTy' = msgTy := of_decide_eq_true hty
  exact h hboth

end ContractInput

end Sylvia.Contract
