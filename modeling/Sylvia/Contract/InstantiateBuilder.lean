/-
  Sylvia.Contract.InstantiateBuilder — building the message that instantiates a contract
  (`sylvia/src/builder/instantiate.rs`, `contract/communication/instantiate_builder.rs`),
  and the entry point that reads it (`struct_msg.rs`).

  The generated helper serializes the contract's instantiate message, a struct with the
  method's parameters as fields; the builder then takes a label, an admin and funds, in
  any order and any number of times.

  Proved: `instantiate_built`: for every contract that the macro accepts, whatever is
  set on the builder, the built message carries what was set last, and its bytes make
  the contract's entry point call the instantiate method, once, with the same arguments.
-/
import Sylvia.Contract.Reachability
import Sylvia.Contract.Remote

namespace Sylvia.Contract

open Sylvia.Base Sylvia.Parser Sylvia.Types
open Sylvia.CwStd (Binary Coin WasmMsg)

variable {Ty V Ctx E R : Type}

structure InstantiateBuilder where
  msg : Binary
  codeId : ℕ
  admin : Option String
  label : Option String
  funds : List Coin
  deriving DecidableEq, Repr

namespace InstantiateBuilder

def new (msg : Binary) (codeId : ℕ) : InstantiateBuilder := ⟨msg, codeId, none, none, []⟩

def withLabel (self : InstantiateBuilder) (label : String) : InstantiateBuilder := { self with label := some label }

def withAdmin (self : InstantiateBuilder) (admin : String) : InstantiateBuilder := { self with admin := some admin }

def withFunds (self : InstantiateBuilder) (funds : List Coin) : InstantiateBuilder := { self with funds }

def build (self : InstantiateBuilder) : WasmMsg :=
  .instantiate self.admin self.codeId self.msg self.funds (self.label.getD "")

def build2 (self : InstantiateBuilder) (salt : Binary) : WasmMsg :=
  .instantiate2 self.admin self.codeId (self.label.getD "") self.msg self.funds salt

/-- A call of one of the three setters. -/
inductive Setting where
  | label (label : String)
  | admin (admin : String)
  | funds (funds : List Coin)

def set (self : InstantiateBuilder) : Setting → InstantiateBuilder
  | .label label => self.withLabel label
  | .admin admin => self.withAdmin admin
  | .funds funds => self.withFunds funds

namespace Setting

def labelSet : Setting → Option String
  | .label x => some x
  | _ => none

def adminSet : Setting → Option String
  | .admin x => some x
  | _ => none

def fundsSet : Setting → Option (List Coin)
  | .funds x => some x
  | _ => none

end Setting

/-- What a setter was given last. -/
def lastSet {α : Type} (read : Setting → Option α) (settings : List Setting) : Option α :=
  (settings.filterMap read).getLast?

theorem lastSet_cons {α : Type} (read : Setting → Option α) (x : Setting) (settings : List Setting) :
    lastSet read (x :: settings) = (lastSet read settings).or (read x) := by
  unfold lastSet
  rw [List.filterMap_cons]
  cases read x with
  | none => simp
  | some y =>
    cases settings.filterMap read with
    | nil => rfl
    | cons z zs => simp [List.getLast?_cons]

theorem foldl_settings (settings : List Setting) (b : InstantiateBuilder) : settings.foldl set b =
    ⟨b.msg, b.codeId, (lastSet Setting.adminSet settings).or b.admin, (lastSet Setting.labelSet settings).or b.label,
      (lastSet Setting.fundsSet settings).getD b.funds⟩ := by
  induction settings generalizing b with
  | nil => simp [lastSet]
  | cons x settings ih =>
    rw [List.foldl_cons, ih, lastSet_cons, lastSet_cons, lastSet_cons]
    cases x with
    | label l => simp [set, withLabel, Setting.labelSet, Setting.adminSet, Setting.fundsSet]
    | admin a => simp [set, withAdmin, Setting.labelSet, Setting.adminSet, Setting.fundsSet]
    | funds f =>
      cases lastSet Setting.fundsSet settings <;> simp [set, withFunds, Setting.labelSet, Setting.adminSet, Setting.fundsSet]

end InstantiateBuilder

/-! ## The generated helper and entry point -/

namespace StructMessage

/-- The helper of the contract's `InstantiateBuilder` trait. -/
def instantiateBuilder (m : StructMessage Ty) (s : Serde Ty V) (codeId : ℕ) (args : List V) : Option InstantiateBuilder := do
  let v ← getOnlyVariant m.variants
  some (InstantiateBuilder.new (s.toJsonBinary (writeBody (v.shape s.wire).fields args)) codeId)

/-- The entry point: the struct read from the message, and its `dispatch`. -/
def entry (m : StructMessage Ty) (s : Serde Ty V) (contract : Ident) (method : Call V Ctx → Except (Failure E) R)
    (ctx : Ctx) (msg : Binary) : Run (Call V Ctx) (Failure E) R :=
  match getOnlyVariant m.variants, s.parse msg with
  | none, _ => Run.of (.error .illTyped)
  | _, .error e => Run.of (.error (.parse e))
  | some v, .ok doc =>
    match readBody .json (v.shape s.wire).fields doc with
    | .error e => Run.of (.error (.decode (.inner e)))
    | .ok args => Run.call method ⟨contract, v.functionName, ctx, args⟩

end StructMessage

/-- An accepted contract has one instantiate method. -/
theorem instantiate_only [DecidableEq Ty] {c : ContractInput Ty} (haccepted : c.Accepted) :
    ∃ v, c.variants .instantiate = [v] := by
  obtain ⟨hlen, hne⟩ := ContractInput.structMessage_clean haccepted.instantiate
  cases hvs : c.variants .instantiate with
  | nil => exact absurd hvs (hne rfl)
  | cons v vs =>
    cases vs with
    | nil => exact ⟨v, rfl⟩
    | cons w ws => simp [hvs] at hlen

/-- The entry point of a single message, on the text its fields are written to. -/
theorem StructMessage.entry_written (x : Compiled Ty) {msgTy : MsgType} {s : Serde Ty V} {v : MsgVariant Ty}
    (hv : x.variants msgTy = [v]) {args : List V} (hback : ReadBack (v.shape s.wire).fields args)
    (hread : s.Reads (writeBody (v.shape s.wire).fields args)) (method : Call V Ctx → Except (Failure E) R) (ctx : Ctx) :
    StructMessage.entry ⟨x.variants msgTy, msgTy⟩ s x.name method ctx
        (s.toJsonBinary (writeBody (v.shape s.wire).fields args)) =
      Run.call method ⟨x.name, v.functionName, ctx, args⟩ := by
  have hkeys : KeysDistinct (v.shape s.wire).fields := by
    rw [KeysDistinct, shape_keys]
    exact x.params_nodup msgTy v (by rw [hv]; exact List.mem_singleton_self v)
  have hparse : s.parse (s.toJsonBinary (writeBody (v.shape s.wire).fields args)) = .ok _ := hread
  simp only [StructMessage.entry, hv, getOnlyVariant, List.head?_cons, hparse, readBody_text hkeys hback]

open InstantiateBuilder in
/-- Building an instantiate message. Whatever was set on the builder, in whatever order,
    `build` and `build2` give the code id, what was set last (an empty label, no admin and
    no funds by default) and the same bytes; and from these bytes the contract's entry
    point calls its instantiate method, once, with the helper's arguments. -/
theorem instantiate_built [DecidableEq Ty] (x : Compiled Ty) (haccepted : x.Accepted) (s : Serde Ty V) :
    ∃ v, x.variants .instantiate = [v] ∧ ∀ args, ReadBack (v.shape s.wire).fields args →
      s.Reads (writeBody (v.shape s.wire).fields args) → ∀ (codeId : ℕ) (settings : List Setting) (salt : Binary),
      ∃ builder msg, StructMessage.instantiateBuilder ⟨x.variants .instantiate, .instantiate⟩ s codeId args = some builder ∧
        (settings.foldl set builder).build = .instantiate (lastSet Setting.adminSet settings) codeId msg
          ((lastSet Setting.fundsSet settings).getD []) ((lastSet Setting.labelSet settings).getD "") ∧
        (settings.foldl set builder).build2 salt = .instantiate2 (lastSet Setting.adminSet settings) codeId
          ((lastSet Setting.labelSet settings).getD "") msg ((lastSet Setting.fundsSet settings).getD []) salt ∧
        ∀ (method : Call V Ctx → Except (Failure E) R) (ctx : Ctx),
          StructMessage.entry ⟨x.variants .instantiate, .instantiate⟩ s x.name method ctx msg =
            Run.call method ⟨x.name, v.functionName, ctx, args⟩ := by
  obtain ⟨v, hv⟩ := instantiate_only haccepted
  refine ⟨v, hv, ?_⟩
  intro args hback hread codeId settings salt
  refine ⟨InstantiateBuilder.new (s.toJsonBinary (writeBody (v.shape s.wire).fields args)) codeId,
    s.toJsonBinary (writeBody (v.shape s.wire).fields args), ?_, ?_, ?_, StructMessage.entry_written x hv hback hread⟩
  · simp [StructMessage.instantiateBuilder, hv, getOnlyVariant]
  · simp only [foldl_settings, InstantiateBuilder.build, InstantiateBuilder.new, Option.or_none]
  · simp only [foldl_settings, InstantiateBuilder.build2, InstantiateBuilder.new, Option.or_none]

/-! ## A contract with one parameter -/

/-- `fn instantiate(&self, ctx, member: bool)` alone. -/
def flagged : ContractInput Unit where
  name := "Flagged"
  generics := []
  source := [⟨none, none, ⟨"new", []⟩⟩, ⟨some ⟨.instantiate, [], .always⟩, none,
    ⟨"instantiate", [.receiver [], .typed (some "ctx") () [], .typed (some "member") () []]⟩⟩]
  overrideAttrs := []
  svFeatures := ⟨false⟩
  variants := fun msgTy => match msgTy with
    | .instantiate => [⟨"Instantiate", "instantiate", [⟨"member", (), []⟩], ⟨.instantiate, [], .always⟩, none⟩]
    | _ => []
  built := fun msgTy => by cases msgTy <;> decide

def flaggedContract : Compiled Unit :=
  .alone flagged (fun msgTy => by cases msgTy <;> decide)
    (fun msgTy => by cases msgTy <;> exact ⟨_, rfl, by decide⟩) (by decide) (fun msgTy => by cases msgTy <;> decide)

open InstantiateBuilder in
theorem instantiate_built_flagged : ∃ builder msg,
    StructMessage.instantiateBuilder ⟨flaggedContract.variants .instantiate, .instantiate⟩ flagSerde 7 [true] = some builder ∧
      ([.label "first", .admin "alice", .label "second"].foldl set builder).build =
        .instantiate (some "alice") 7 msg [] "second" ∧
      ∀ method : Call Bool Unit → Except (Failure Unit) Unit,
        StructMessage.entry ⟨flaggedContract.variants .instantiate, .instantiate⟩ flagSerde "Flagged" method () msg =
          Run.call method ⟨"Flagged", "instantiate", (), [true]⟩ := by
  obtain ⟨v, hv, h⟩ := instantiate_built flaggedContract
    ⟨by decide, by decide, by decide, by decide, by decide, fun h => by cases h⟩ flagSerde
  obtain rfl : ⟨"Instantiate", "instantiate", [⟨"member", (), []⟩], ⟨.instantiate, [], .always⟩, none⟩ = v := by
    simpa [flaggedContract, Compiled.alone, flagged] using hv
  obtain ⟨builder, msg, hbuilder, hbuild, -, hentry⟩ :=
    h [true] (.cons rfl .nil) rfl 7 [.label "first", .admin "alice", .label "second"] []
  exact ⟨builder, msg, hbuilder, hbuild, fun method => hentry method ()⟩

end Sylvia.Contract
