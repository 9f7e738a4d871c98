/-
  Sylvia.Contract.ArmCalls — the call of a reply arm, without its values
  (`emit_success_match_arm`, `emit_error_match_arm`).

  An arm names a method and lists the arguments after the context: the record's data, the
  error or the result, then the record's payload. `armCall` is that list by the kinds of
  the arguments.

  Proved: `arms_call`: a call that an arm makes is its `armCall`.
-/
import Sylvia.Contract.ReplyArms

namespace Sylvia.Contract

open Sylvia.Base Sylvia.Parser Sylvia.Types
open Sylvia.CwStd (SubMsgResult)

variable {Ty V : Type}

/-- What an argument is, and how it is decoded. -/
inductive ArgKind (Ty : Type) where
  | data (params : DataFieldParams)
  | error
  | result
  | payload (raw : Bool) (ty : Ty)
  deriving DecidableEq, Repr

structure ArmCall (Ty : Type) where
  method : Ident
  args : List (ArgKind Ty)
  deriving DecidableEq, Repr

def payloadKinds (payload : List (MsgField Ty)) : List (ArgKind Ty) :=
  payload.map fun f => .payload (isPayloadMarked payload) f.ty

/-- The arguments before the payload. -/
def leadKinds (data : Option (MsgField Ty)) : ReplyOn → List (ArgKind Ty)
  | .success => (data.map fun field => .data (dataParams field)).toList
  | .error => [.error]
  | .always => [.result]

namespace ReplyData

/-- The arm's call of a method for `on`. -/
def callOf (rd : ReplyData Ty) (method : Ident) (on : ReplyOn) : ArmCall Ty :=
  ⟨method, leadKinds rd.data on ++ payloadKinds rd.payload⟩

def armCall (rd : ReplyData Ty) : SubMsgResult → Option (ArmCall Ty)
  | .ok _ => match rd.findHandler .success with
    | some (method, .success) => some (rd.callOf method .success)
    | some (method, .always) => some (rd.callOf method .always)
    | _ => none
  | .err _ => match rd.findHandler .error with
    | some (method, .error) => some (rd.callOf method .error)
    | some (method, .always) => some (rd.callOf method .always)
    | _ => none

end ReplyData

/-! ## The arms' calls -/

/-- A call the code ends with is of the method, with so many arguments. -/
def CallsOnly (method : Ident) (args : Nat) (x : Except Stop (Tail V)) : Prop :=
  ∀ call, x = .ok (.call call) → call.function = method ∧ call.args.length = args

theorem CallsOnly.bind {α : Type} {method : Ident} {args : Nat} {x : Except Stop α} {f : α → Except Stop (Tail V)}
    (h : ∀ a, CallsOnly method args (f a)) : CallsOnly method args (x >>= f) := by
  intro call hc
  obtain ⟨a, -, ha⟩ := bind_ok_iff.mp hc
  exact h a call ha

theorem callsOnly_emitCall (method : Ident) (ctx : List (Val V)) (lead : List Ident) (payload : List (MsgField Ty))
    (σ : Scope V) : CallsOnly method (lead.length + payload.length) (emitCall method ctx lead payload σ) := by
  intro call hc
  unfold emitCall at hc
  obtain ⟨deps', -, hc⟩ := bind_ok_iff.mp hc
  obtain ⟨env, -, hc⟩ := bind_ok_iff.mp hc
  obtain ⟨gasUsed, -, hc⟩ := bind_ok_iff.mp hc
  obtain ⟨args, hargs, hc⟩ := bind_ok_iff.mp hc
  cases hc
  have hlen := ((mapM_ok_iff _ _ _).mp hargs).length_eq
  exact ⟨rfl, by simpa [names] using hlen.symm⟩

variable {variants : List (MsgVariant Ty)}

theorem callsOnly_always (rd : ReplyData Ty) (c : Codec Ty V) (method : Ident) (σ : Scope V) :
    CallsOnly method (1 + rd.payload.length) (rd.emitAlwaysArm c variants method σ) := by
  unfold ReplyData.emitAlwaysArm
  exact CallsOnly.bind fun _ => CallsOnly.bind fun _ => callsOnly_emitCall _ _ _ _ _

theorem callOf_length (rd : ReplyData Ty) (method : Ident) (on : ReplyOn) :
    (rd.callOf method on).args.length = (leadKinds rd.data on).length + rd.payload.length := by
  simp [ReplyData.callOf, payloadKinds]

/-- A call that a record's arm makes is the arm's. -/
theorem arms_call {rd : ReplyData Ty} {c : Codec Ty V} {σ : Scope V} {r : SubMsgResult} {call : ReplyCall V}
    (h : rd.emitMatchArms c variants σ r = .ok (.call call)) :
    ∃ a, rd.armCall r = some a ∧ call.function = a.method ∧ call.args.length = a.args.length := by
  have hend {method : Ident} {on : ReplyOn} {n : Nat} {x : Except Stop (Tail V)} (hx : x = .ok (.call call))
      (hc : CallsOnly method n x) (hn : n = (leadKinds rd.data on).length + rd.payload.length) :
      call.function = (rd.callOf method on).method ∧ call.args.length = (rd.callOf method on).args.length := by
    rw [callOf_length, ← hn]
    exact hc call hx
  cases r with
  | ok resp =>
    simp only [ReplyData.emitMatchArms, ReplyData.emitSuccessMatchArm] at h
    split at h
    · rename_i method hf
      simp only [ReplyData.armCall, hf]
      refine ⟨_, rfl, hend h (n := (if rd.data.isSome = true then ["data"] else []).length + rd.payload.length) ?_ ?_⟩
      · refine CallsOnly.bind fun _ => CallsOnly.bind fun _ => ?_
        generalize (if rd.data.isSome = true then ["data"] else []) = lead
        have htail (σ : Scope V) : CallsOnly method (lead.length + rd.payload.length)
            (responseCall method lead rd.payload σ) :=
          CallsOnly.bind fun _ => CallsOnly.bind fun _ => callsOnly_emitCall _ _ _ _ _
        split <;> exact CallsOnly.bind fun σ => htail σ
      · cases rd.data <;> rfl
    · rename_i method hf
      simp only [ReplyData.armCall, hf]
      exact ⟨_, rfl, hend h (callsOnly_always rd c method σ) rfl⟩
    · cases h
  | err error =>
    simp only [ReplyData.emitMatchArms, ReplyData.emitErrorMatchArm] at h
    split at h
    · rename_i method hf
      simp only [ReplyData.armCall, hf]
      refine ⟨_, rfl, hend h ?_ rfl⟩
      exact CallsOnly.bind fun _ => CallsOnly.bind fun _ => callsOnly_emitCall _ _ _ _ _
    · rename_i method hf
      simp only [ReplyData.armCall, hf]
      exact ⟨_, rfl, hend h (callsOnly_always rd c method σ) rfl⟩
    · cases h

/-- An arm calls one of the record's methods. -/
theorem armCall_mem {rd : ReplyData Ty} {r : SubMsgResult} {a : ArmCall Ty} (h : rd.armCall r = some a) :
    ∃ on, (a.method, on) ∈ rd.handlers := by
  have hmem {on on' : ReplyOn} {method : Ident} (hf : rd.findHandler on = some (method, on')) :
      (method, on') ∈ rd.handlers := List.mem_of_find?_eq_some hf
  unfold ReplyData.armCall at h
  split at h
  all_goals
    split at h
    · rename_i method hf
      obtain rfl := Option.some.inj h
      exact ⟨_, hmem hf⟩
    · rename_i method hf
      obtain rfl := Option.some.inj h
      exact ⟨_, hmem hf⟩
    · cases h

end Sylvia.Contract
