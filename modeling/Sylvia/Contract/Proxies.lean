/-
  Sylvia.Contract.Proxies — testing a contract through its multitest proxies
  (`sylvia/src/multitest.rs`; `emit_mt_method_definition`, `emit_code_id` and
  `emit_instantiate_proxy` of `contract/mt.rs` and `interface/mt.rs`).

  A proxy's method constructs a message for the app, which runs the contract's `Contract`
  implementation, emitted by the same module, on its text. The app is `cw_multi_test`'s:
  whether it lets a sender act, and what it makes of a response, is its own. Errors come
  back as `anyhow::Error`; `ExecProxy` converts what is not the contract's error, the
  others unwrap a downcast and panic.

  Proved:
  - `run_construct`, `run_written`: on a proxy's message the implementation calls the
    method the proxy is named after, once, with the proxy's arguments.
  - `proxies_answered`: so for an accepted contract every proxy of a kind that is not
    overridden answers what the app makes of the method's answer; the method's own error
    comes back as it is, without a panic, but for a query.
-/
import Sylvia.Base.Halt
import Sylvia.Contract.InstantiateBuilder

namespace Sylvia.Contract

open Sylvia.Base Sylvia.Parser Sylvia.Types
open Sylvia.CwStd (Addr Binary Coin StdError WasmMsg)

variable {Ty V Ctx E R : Type} {msgTy : MsgType} {source : List (VariantDesc Ty)}

/-! ## The app -/

/-- `anyhow::Error`, by what it can be downcast to: the contract's error, else a
    `StdError`, else neither. -/
inductive AnyError (E : Type) where
  | own (e : E)
  | std (e : StdError)
  | other (text : String)
  deriving DecidableEq, Repr

namespace AnyError

/-- `err.downcast().unwrap()`. -/
def unwrapped : AnyError E → Halt E
  | .own e => .err e
  | .std _ | .other _ => .panicked

/-- The closure of `ExecProxy::call`. -/
def converted (into : StdError → E) : AnyError E → Halt E
  | .own e => .err e
  | .std e => .err (into e)
  | .other text => .err (into (.genericErr text))

end AnyError

structure AppResponse where
  data : Option Binary
  deriving DecidableEq, Repr

/-- What the proxies call of `cw_multi_test::App`, as it stands. -/
structure App (E : Type) where
  executeContract : (sender contractAddr : Addr) → (msg : Binary) → (sendFunds : List Coin) →
    Except (AnyError E) AppResponse
  wasmSudo : (contractAddr : Addr) → (msg : Binary) → Except (AnyError E) AppResponse
  migrateContract : (sender contractAddr : Addr) → (migrateMsg : Binary) → (newCodeId : ℕ) →
    Except (AnyError E) AppResponse
  instantiateContract : (codeId : ℕ) → (sender : Addr) → (initMsg : Binary) → (sendFunds : List Coin) →
    (label : String) → (admin : Option String) → Except (AnyError E) Addr
  execute : (sender : Addr) → (msg : WasmMsg) → Except (AnyError E) AppResponse
  querier : QuerierWrapper
  /-- `cw_utils::parse_instantiate_response_data`, the address of its answer. -/
  parseInstantiateResponseData : Binary → Except String String

/-! ## Proxies -/

/-- A contract on the app. -/
structure Proxy where
  contractAddr : Addr
  deriving DecidableEq, Repr

/-- The message is kept as the document it is serialized to. -/
structure ExecProxy where
  funds : List Coin
  contractAddr : Addr
  msg : Json

namespace ExecProxy

def new (contractAddr : Addr) (msg : Json) : ExecProxy := ⟨[], contractAddr, msg⟩

def withFunds (self : ExecProxy) (funds : List Coin) : ExecProxy := { self with funds }

def call (self : ExecProxy) (app : App E) (s : Serde Ty V) (into : StdError → E) (sender : Addr) : Exec E AppResponse :=
  (app.executeContract sender self.contractAddr (s.toJsonBinary self.msg) self.funds).mapError (AnyError.converted into)

end ExecProxy

structure MigrateProxy where
  contractAddr : Addr
  msg : Json

namespace MigrateProxy

def new (contractAddr : Addr) (msg : Json) : MigrateProxy := ⟨contractAddr, msg⟩

def call (self : MigrateProxy) (app : App E) (s : Serde Ty V) (sender : Addr) (newCodeId : ℕ) : Exec E AppResponse :=
  (app.migrateContract sender self.contractAddr (s.toJsonBinary self.msg) newCodeId).mapError AnyError.unwrapped

end MigrateProxy

structure InstantiateProxy where
  codeId : ℕ
  funds : List Coin
  label : String
  admin : Option String
  salt : Option Binary
  msg : Json

namespace InstantiateProxy

def withFunds (self : InstantiateProxy) (funds : List Coin) : InstantiateProxy := { self with funds }

def withLabel (self : InstantiateProxy) (label : String) : InstantiateProxy := { self with label }

def withAdmin (self : InstantiateProxy) (admin : Option String) : InstantiateProxy := { self with admin }

def withSalt (self : InstantiateProxy) (salt : Option Binary) : InstantiateProxy := { self with salt }

/-- The new contract, read off the app's response. -/
def opened (app : App E) (into : StdError → E) (appResponse : AppResponse) : Exec E Proxy :=
  match appResponse.data with
  | none => Exec.panic
  | some data =>
    match app.parseInstantiateResponseData data with
    | .ok contractAddress => .ok ⟨contractAddress⟩
    | .error err => Exec.fail (into (.genericErr err))

/-- `emit_instantiate2_body`, with the feature `cosmwasm_1_2` or without. -/
def instantiate2 (self : InstantiateProxy) (app : App E) (s : Serde Ty V) (into : StdError → E) (cosmwasm12 : Bool)
    (sender : Addr) (salt : Binary) : Exec E Proxy :=
  if cosmwasm12 then do
    let msg := .instantiate2 self.admin self.codeId self.label (s.toJsonBinary self.msg) self.funds salt
    let appResponse ← (app.execute sender msg).mapError AnyError.unwrapped
    opened app into appResponse
  else
    Exec.fail (into (.genericErr ("`with_salt` was called, but it requires `cosmwasm_1_2` feature enabled. " ++
      "Consider removing `with_salt` or adding the `cosmwasm_1_2` feature.")))

def call (self : InstantiateProxy) (app : App E) (s : Serde Ty V) (into : StdError → E) (cosmwasm12 : Bool)
    (sender : Addr) : Exec E Proxy :=
  match self.salt with
  | some salt => self.instantiate2 app s into cosmwasm12 sender salt
  | none =>
    ((app.instantiateContract self.codeId sender (s.toJsonBinary self.msg) self.funds self.label self.admin).mapError
      AnyError.unwrapped).map Proxy.mk

end InstantiateProxy

/-! ## Their methods -/

/-- `emit_mt_method_definition` of an exec variant; the other kinds follow. -/
def mtExec (m : EnumMessage Ty source .exec) (s : Serde Ty V) (v : MsgVariant Ty) (self : Proxy) (args : List V) :
    Option ExecProxy := do
  let msg ← emitMessage m s v args
  some (ExecProxy.new self.contractAddr msg)

def mtQuery (m : EnumMessage Ty source .query) (s : Serde Ty V) (ty : WireType V) (v : MsgVariant Ty) (app : App E)
    (into : StdError → E) (self : Proxy) (args : List V) : Option (Except E V) := do
  let msg ← emitMessage m s v args
  some ((app.querier.queryWasmSmart s ty self.contractAddr msg).mapError into)

def mtSudo (m : EnumMessage Ty source .sudo) (s : Serde Ty V) (v : MsgVariant Ty) (app : App E) (self : Proxy)
    (args : List V) : Option (Exec E AppResponse) := do
  let msg ← emitMessage m s v args
  some ((app.wasmSudo self.contractAddr (s.toJsonBinary msg)).mapError AnyError.unwrapped)

def mtMigrate (m : StructMessage Ty) (s : Serde Ty V) (self : Proxy) (args : List V) : Option MigrateProxy := do
  let v ← getOnlyVariant m.variants
  some (MigrateProxy.new self.contractAddr (writeBody (v.shape s.wire).fields args))

/-- `CodeId::instantiate`. -/
def CodeId.instantiate (m : StructMessage Ty) (s : Serde Ty V) (codeId : ℕ) (args : List V) : Option InstantiateProxy := do
  let v ← getOnlyVariant m.variants
  some ⟨codeId, [], "Contract", none, none, writeBody (v.shape s.wire).fields args⟩

/-! ## The contract under test -/

/-- The function of a kind in `impl Contract`; `none` is an overriding function, or a panic. -/
def Compiled.implContract (x : Compiled Ty) (s : Serde Ty V) (host : Host Ctx (Failure E) R)
    (method : Call V Ctx → Except (Failure E) R) (msgTy : MsgType) (ctx : Ctx) (msg : Binary) :
    Option (Run (Call V Ctx) (Failure E) R) :=
  match x.emitImplContract msgTy with
  | some (.dispatch ty) =>
    some (if h : ty.IsEnum then (x.glue ty h).entry s host method ctx msg
      else StructMessage.entry ⟨x.variants ty, ty⟩ s x.name method ctx msg)
  | _ => none

/-- A contract stored on the app, and what the app does around its functions. -/
structure Deployment (Ty V Ctx E R : Type) where
  contract : Compiled Ty
  names : ∀ msgTy h, ∀ c ∈ (contract.glue msgTy h).components, c.msg.NamesAreTags
  addr : Addr
  codeId : ℕ
  answer : Call V Ctx → Except E R
  /-- The context of a call, by the sender and the funds if it has them. -/
  ctx : Option (Addr × List Coin) → Ctx
  report : Failure E → AnyError E
  report_contract : ∀ e, report (.contract e) = .own e
  /-- What becomes of a response. -/
  finish : R → Except (AnyError E) AppResponse
  /-- What becomes of the response of a new contract, at an address of the app's or by a salt. -/
  register : R → Except (AnyError E) Addr
  register2 : R → Except (AnyError E) AppResponse

namespace Deployment

variable (d : Deployment Ty V Ctx E R)

def method (call : Call V Ctx) : Except (Failure E) R := (d.answer call).mapError Failure.contract

def routed (h : msgTy.IsEnum) : Routed Ty msgTy :=
  ⟨d.contract.glue msgTy h, d.contract.compiles msgTy h, d.names msgTy h⟩

def run (s : Serde Ty V) (msgTy : MsgType) (ctx : Ctx) (msg : Binary) : Option (Run (Call V Ctx) (Failure E) R) :=
  d.contract.implContract s (plainHost .ok fun _ => .illTyped) d.method msgTy ctx msg

/-- A function's result, seen by the app. -/
def settled {A : Type} (finish : R → Except (AnyError E) A) : Except (Failure E) R → Except (AnyError E) A
  | .ok r => finish r
  | .error e => .error (d.report e)

/-- What the app answers with a function of the contract, if there is one. -/
def answered {A : Type} (finish : R → Except (AnyError E) A) : Option (Run (Call V Ctx) (Failure E) R) →
    Except (AnyError E) A
  | some run => d.settled finish run.result
  | none => .error (.other "not implemented")

/-- The app runs the contract's functions for those it lets act, the new code's on a migration. -/
structure RunsOn (app : App E) (s : Serde Ty V) (mayPay : Addr → List Coin → Prop) (mayMigrate : Addr → ℕ → Prop) :
    Prop where
  execute : ∀ sender funds, mayPay sender funds → ∀ msg run,
    d.run s .exec (d.ctx (some (sender, funds))) msg = some run →
    app.executeContract sender d.addr msg funds = d.settled d.finish run.result
  wasmSudo : ∀ msg run, d.run s .sudo (d.ctx none) msg = some run →
    app.wasmSudo d.addr msg = d.settled d.finish run.result
  migrate : ∀ sender newCodeId, mayMigrate sender newCodeId → ∀ msg run,
    d.run s .migrate (d.ctx none) msg = some run →
    app.migrateContract sender d.addr msg newCodeId = d.settled d.finish run.result
  instantiate : ∀ sender funds, mayPay sender funds → ∀ label admin msg run,
    d.run s .instantiate (d.ctx (some (sender, funds))) msg = some run →
    app.instantiateContract d.codeId sender msg funds label admin = d.settled d.register run.result ∧
      ∀ salt, app.execute sender (.instantiate2 admin d.codeId label msg funds salt) = d.settled d.register2 run.result

/-- What a proxy makes of a method's answer. -/
def outcome {A : Type} (onError : AnyError E → Halt E) (finish : R → Except (AnyError E) A) : Except E R → Exec E A
  | .ok r => (finish r).mapError onError
  | .error e => Exec.fail e

theorem settled_method {A : Type} (onError : AnyError E → Halt E) (honError : ∀ e, onError (.own e) = .err e)
    (finish : R → Except (AnyError E) A) (call : Call V Ctx) :
    (d.settled finish (d.method call)).mapError onError = outcome onError finish (d.answer call) := by
  unfold method
  cases d.answer call with
  | ok r => rfl
  | error e => simp [settled, outcome, Except.mapError, d.report_contract, honError, Exec.fail]

/-! ## What an implementation does with a proxy's message -/

/-- The kind is not overridden. -/
def Kept (msgTy : MsgType) : Prop := getEntryPoint d.contract.overrideEntryPoints msgTy = none

theorem run_construct (s : Serde Ty V) (h : msgTy.IsEnum) (hquery : msgTy ≠ .query) (hkept : d.Kept msgTy)
    {c : Component Ty msgTy} (hc : c ∈ (d.contract.glue msgTy h).components) {v : MsgVariant Ty} (hv : v ∈ c.msg.variants)
    {args : List V} (hrt : RoundTrips s.values (v.shape s.wire).fields args) (hread : s.Reads ((v.shape s.wire).write args))
    (ctx : Ctx) : d.run s msgTy ctx (s.toJsonBinary ((v.shape s.wire).write args)) =
      some (Run.call d.method ⟨c.variant, v.functionName, ctx, args⟩) := by
  have hbody : d.contract.emitImplContract msgTy = some (.dispatch msgTy) := by
    simp only [ContractInput.emitImplContract, (show getEntryPoint _ msgTy = none from hkept)]
    cases msgTy <;> first | rfl | cases h
  have hleg : emitDispatchLeg (plainHost .ok (fun _ => .illTyped) : Host Ctx (Failure E) R) msgTy
      (Run.call d.method ⟨c.variant, v.functionName, ctx, args⟩) =
        some (Run.call d.method ⟨c.variant, v.functionName, ctx, args⟩) := by
    cases msgTy <;> first | rfl | exact absurd rfl hquery | cases h
  simp only [run, Compiled.implContract, hbody, dif_pos h]
  exact congrArg some (entry_construct (g := d.routed h) h .ok (fun _ => .illTyped) d.method ctx hc hv hrt hread hleg)

theorem run_written (s : Serde Ty V) (hbody : d.contract.emitImplContract msgTy = some (.dispatch msgTy))
    (h : ¬ msgTy.IsEnum) {v : MsgVariant Ty} (hv : d.contract.variants msgTy = [v]) {args : List V}
    (hback : ReadBack (v.shape s.wire).fields args) (hread : s.Reads (writeBody (v.shape s.wire).fields args)) (ctx : Ctx) :
    d.run s msgTy ctx (s.toJsonBinary (writeBody (v.shape s.wire).fields args)) =
      some (Run.call d.method ⟨d.contract.name, v.functionName, ctx, args⟩) := by
  simp only [run, Compiled.implContract, hbody, dif_neg h]
  exact congrArg some (StructMessage.entry_written d.contract hv hback hread d.method ctx)

/-! ## Proxies on the app -/

variable {app : App E} {s : Serde Ty V} {mayPay : Addr → List Coin → Prop} {mayMigrate : Addr → ℕ → Prop}

/-- A message of the variant that is read back as it is sent. -/
structure Sent (s : Serde Ty V) (v : MsgVariant Ty) (args : List V) : Prop where
  trips : RoundTrips s.values (v.shape s.wire).fields args
  reads : s.Reads ((v.shape s.wire).write args)

theorem Sent.length {v : MsgVariant Ty} {args : List V} (h : Sent s v args) : args.length = v.fields.length := by
  simpa [MsgVariant.shape] using h.trips.length_eq.symm

theorem mtExec_answered (hruns : d.RunsOn app s mayPay mayMigrate) (hkept : d.Kept .exec) (into : StdError → E)
    {c : Component Ty .exec} (hc : c ∈ (d.contract.glue .exec trivial).components) {v : MsgVariant Ty}
    (hv : v ∈ c.msg.variants) {args : List V} (hsent : Sent s v args) :
    ∃ proxy, mtExec c.msg s v ⟨d.addr⟩ args = some proxy ∧ ∀ sender funds, mayPay sender funds →
      (proxy.withFunds funds).call app s into sender = outcome (AnyError.converted into) d.finish
        (d.answer ⟨c.variant, v.functionName, d.ctx (some (sender, funds)), args⟩) := by
  refine ⟨ExecProxy.new d.addr ((v.shape s.wire).write args), ?_, fun sender funds hpay => ?_⟩
  · simp only [mtExec, emitMessage_eq c.msg s hv hsent.length, Option.bind_eq_bind, Option.bind_some]
  · rw [ExecProxy.call, ExecProxy.withFunds, ExecProxy.new, hruns.execute sender funds hpay _ _
      (d.run_construct s (show MsgType.IsEnum .exec from trivial) nofun hkept hc hv hsent.trips hsent.reads _)]
    exact d.settled_method _ (fun _ => rfl) _ _

theorem mtSudo_answered (hruns : d.RunsOn app s mayPay mayMigrate) (hkept : d.Kept .sudo)
    {c : Component Ty .sudo} (hc : c ∈ (d.contract.glue .sudo trivial).components) {v : MsgVariant Ty}
    (hv : v ∈ c.msg.variants) {args : List V} (hsent : Sent s v args) :
    mtSudo c.msg s v app ⟨d.addr⟩ args = some (outcome AnyError.unwrapped d.finish
      (d.answer ⟨c.variant, v.functionName, d.ctx none, args⟩)) := by
  simp only [mtSudo, emitMessage_eq c.msg s hv hsent.length, Option.bind_eq_bind, Option.bind_some]
  rw [hruns.wasmSudo _ _ (d.run_construct s (show MsgType.IsEnum .sudo from trivial) nofun hkept hc hv
    hsent.trips hsent.reads _)]
  exact congrArg some (d.settled_method _ (fun _ => rfl) _ _)

theorem mtQuery_answered {queries : Queries V Ctx E} {report : Failure E → StdError}
    (hserves : Serves app.querier report d.addr (d.routed trivial) s queries (d.ctx none)) (into : StdError → E)
    {c : Component Ty .query} (hc : c ∈ (d.contract.glue .query trivial).components) {v : MsgVariant Ty}
    (hv : v ∈ c.msg.variants) {args : List V} (hsent : Sent s v args)
    (hback : queries.ReadsBack s ⟨c.variant, v.functionName, d.ctx none, args⟩) :
    mtQuery c.msg s (queries.returns c.variant v.functionName) v app into ⟨d.addr⟩ args = some
      (match queries.answer ⟨c.variant, v.functionName, d.ctx none, args⟩ with
        | .ok x => .ok x
        | .error e => .error (into (report (.contract e)))) := by
  simp only [mtQuery, emitMessage_eq c.msg s hv hsent.length, Option.bind_eq_bind, Option.bind_some,
    queryWasmSmart_construct hserves hc hv hsent.trips hsent.reads hback]
  cases queries.answer ⟨c.variant, v.functionName, d.ctx none, args⟩ <;> rfl

theorem mtMigrate_answered [DecidableEq Ty] (haccepted : d.contract.Accepted) (hruns : d.RunsOn app s mayPay mayMigrate)
    (hkept : d.Kept .migrate) {v : MsgVariant Ty} (hv : v ∈ d.contract.variants .migrate) {args : List V}
    (hback : ReadBack (v.shape s.wire).fields args) (hread : s.Reads (writeBody (v.shape s.wire).fields args)) :
    ∃ proxy, mtMigrate ⟨d.contract.variants .migrate, .migrate⟩ s ⟨d.addr⟩ args = some proxy ∧
      ∀ sender newCodeId, mayMigrate sender newCodeId →
        proxy.call app s sender newCodeId = outcome AnyError.unwrapped d.finish
          (d.answer ⟨d.contract.name, v.functionName, d.ctx none, args⟩) := by
  have hlen := (ContractInput.structMessage_clean haccepted.migrate).1
  have hvs : d.contract.variants .migrate = [v] := by
    cases hvs : d.contract.variants .migrate with
    | nil => rw [hvs] at hv; cases hv
    | cons w ws =>
      rw [hvs] at hv hlen
      obtain rfl : ws = [] := List.eq_nil_of_length_eq_zero (by simpa using hlen)
      rw [List.mem_singleton.mp hv]
  have hbody : d.contract.emitImplContract .migrate = some (.dispatch .migrate) := by
    simp [ContractInput.emitImplContract, (show getEntryPoint _ .migrate = none from hkept), hvs, getOnlyVariant]
  refine ⟨MigrateProxy.new d.addr (writeBody (v.shape s.wire).fields args), ?_, fun sender newCodeId hmay => ?_⟩
  · simp [mtMigrate, hvs, getOnlyVariant]
  · rw [MigrateProxy.call, MigrateProxy.new, hruns.migrate sender newCodeId hmay _ _
      (d.run_written s hbody id hvs hback hread _)]
    exact d.settled_method _ (fun _ => rfl) _ _

/-- A proxy of a new contract answers what the app makes of the instantiate method's answer. -/
structure Instantiates (app : App E) (s : Serde Ty V) (mayPay : Addr → List Coin → Prop) (into : StdError → E)
    (v : MsgVariant Ty) (args : List V) (proxy : InstantiateProxy) : Prop where
  call : ∀ sender funds, mayPay sender funds → ∀ label admin cosmwasm12,
    (((proxy.withFunds funds).withLabel label).withAdmin admin).call app s into cosmwasm12 sender =
      (outcome AnyError.unwrapped d.register
        (d.answer ⟨d.contract.name, v.functionName, d.ctx (some (sender, funds)), args⟩)).map Proxy.mk
  salted : ∀ sender funds, mayPay sender funds → ∀ label admin salt,
    ((((proxy.withFunds funds).withLabel label).withAdmin admin).withSalt (some salt)).call app s into true sender =
      (outcome AnyError.unwrapped d.register2
        (d.answer ⟨d.contract.name, v.functionName, d.ctx (some (sender, funds)), args⟩) >>=
          InstantiateProxy.opened app into)

theorem codeId_answered [DecidableEq Ty] (haccepted : d.contract.Accepted)
    (hruns : d.RunsOn app s mayPay mayMigrate) (hkept : d.Kept .instantiate) (into : StdError → E) :
    ∃ v, d.contract.variants .instantiate = [v] ∧ ∀ args, ReadBack (v.shape s.wire).fields args →
      s.Reads (writeBody (v.shape s.wire).fields args) →
      ∃ proxy, CodeId.instantiate ⟨d.contract.variants .instantiate, .instantiate⟩ s d.codeId args = some proxy ∧
        d.Instantiates app s mayPay into v args proxy := by
  obtain ⟨v, hv⟩ := instantiate_only haccepted
  have hbody : d.contract.emitImplContract .instantiate = some (.dispatch .instantiate) := by
    simp [ContractInput.emitImplContract, (show getEntryPoint _ .instantiate = none from hkept)]
  refine ⟨v, hv, fun args hback hread => ⟨⟨d.codeId, [], "Contract", none, none,
    writeBody (v.shape s.wire).fields args⟩, ?_, ?_, ?_⟩⟩
  · simp [CodeId.instantiate, hv, getOnlyVariant]
  · intro sender funds hpay label admin cosmwasm12
    have hrun := (hruns.instantiate sender funds hpay label admin _ _ (d.run_written s hbody id hv hback hread _)).1
    rw [← d.settled_method AnyError.unwrapped (fun _ => rfl) d.register, ← Run.result_call d.method, ← hrun]
    rfl
  · intro sender funds hpay label admin salt
    have hrun := (hruns.instantiate sender funds hpay label admin _ _ (d.run_written s hbody id hv hback hread _)).2 salt
    rw [← d.settled_method AnyError.unwrapped (fun _ => rfl) d.register2, ← Run.result_call d.method, ← hrun]
    rfl

/-- Every proxy calls the method it is named after, with its arguments, and answers what becomes of the method's
    answer; the method's error comes back as it is, but for a query. -/
structure ProxiesAnswer (app : App E) (s : Serde Ty V) (mayPay : Addr → List Coin → Prop)
    (mayMigrate : Addr → ℕ → Prop) (into : StdError → E) : Prop where
  exec : d.Kept .exec → ∀ c ∈ (d.contract.glue .exec trivial).components, ∀ v ∈ c.msg.variants, ∀ args,
    Sent s v args → ∃ proxy, mtExec c.msg s v ⟨d.addr⟩ args = some proxy ∧ ∀ sender funds, mayPay sender funds →
      (proxy.withFunds funds).call app s into sender = outcome (AnyError.converted into) d.finish
        (d.answer ⟨c.variant, v.functionName, d.ctx (some (sender, funds)), args⟩)
  wasmSudo : d.Kept .sudo → ∀ c ∈ (d.contract.glue .sudo trivial).components, ∀ v ∈ c.msg.variants, ∀ args,
    Sent s v args → mtSudo c.msg s v app ⟨d.addr⟩ args = some (outcome AnyError.unwrapped d.finish
      (d.answer ⟨c.variant, v.functionName, d.ctx none, args⟩))
  query : ∀ (queries : Queries V Ctx E) (report : Failure E → StdError),
    Serves app.querier report d.addr (d.routed trivial) s queries (d.ctx none) →
    ∀ c ∈ (d.contract.glue .query trivial).components, ∀ v ∈ c.msg.variants, ∀ args, Sent s v args →
    queries.ReadsBack s ⟨c.variant, v.functionName, d.ctx none, args⟩ →
    mtQuery c.msg s (queries.returns c.variant v.functionName) v app into ⟨d.addr⟩ args = some
      (match queries.answer ⟨c.variant, v.functionName, d.ctx none, args⟩ with
        | .ok x => .ok x
        | .error e => .error (into (report (.contract e))))
  migrate : d.Kept .migrate → ∀ v ∈ d.contract.variants .migrate, ∀ args, ReadBack (v.shape s.wire).fields args →
    s.Reads (writeBody (v.shape s.wire).fields args) →
    ∃ proxy, mtMigrate ⟨d.contract.variants .migrate, .migrate⟩ s ⟨d.addr⟩ args = some proxy ∧
      ∀ sender newCodeId, mayMigrate sender newCodeId →
        proxy.call app s sender newCodeId = outcome AnyError.unwrapped d.finish
          (d.answer ⟨d.contract.name, v.functionName, d.ctx none, args⟩)
  instantiate : d.Kept .instantiate → ∃ v, d.contract.variants .instantiate = [v] ∧
    ∀ args, ReadBack (v.shape s.wire).fields args → s.Reads (writeBody (v.shape s.wire).fields args) →
      ∃ proxy, CodeId.instantiate ⟨d.contract.variants .instantiate, .instantiate⟩ s d.codeId args = some proxy ∧
        d.Instantiates app s mayPay into v args proxy

end Deployment

/-- The proxies of an accepted contract, on an app that runs it. -/
theorem proxies_answered [DecidableEq Ty] (d : Deployment Ty V Ctx E R) (haccepted : d.contract.Accepted) {app : App E}
    {s : Serde Ty V} {mayPay : Addr → List Coin → Prop} {mayMigrate : Addr → ℕ → Prop}
    (hruns : d.RunsOn app s mayPay mayMigrate) (into : StdError → E) :
    d.ProxiesAnswer app s mayPay mayMigrate into where
  exec hkept _ hc _ hv _ hsent := d.mtExec_answered hruns hkept into hc hv hsent
  wasmSudo hkept _ hc _ hv _ hsent := d.mtSudo_answered hruns hkept hc hv hsent
  query _ _ hserves _ hc _ hv _ hsent hback := d.mtQuery_answered hserves into hc hv hsent hback
  migrate hkept _ hv _ hback hread := d.mtMigrate_answered haccepted hruns hkept hv hback hread
  instantiate hkept := d.codeId_answered haccepted hruns hkept into

/-! ## A book of members -/

namespace Deployment

/-- An app that runs the contract for everybody. -/
def openApp (d : Deployment Ty V Ctx E R) (s : Serde Ty V) (querier : QuerierWrapper) : App E where
  executeContract sender _ msg funds := d.answered d.finish (d.run s .exec (d.ctx (some (sender, funds))) msg)
  wasmSudo _ msg := d.answered d.finish (d.run s .sudo (d.ctx none) msg)
  migrateContract _ _ msg _ := d.answered d.finish (d.run s .migrate (d.ctx none) msg)
  instantiateContract _ sender msg funds _ _ :=
    d.answered d.register (d.run s .instantiate (d.ctx (some (sender, funds))) msg)
  execute
    | sender, .instantiate2 _ _ _ msg funds _ =>
      d.answered d.register2 (d.run s .instantiate (d.ctx (some (sender, funds))) msg)
    | _, _ => .error (.other "not supported")
  querier := querier
  parseInstantiateResponseData _ := .error "not supported"

theorem openApp_runs (d : Deployment Ty V Ctx E R) (s : Serde Ty V) (querier : QuerierWrapper) :
    d.RunsOn (d.openApp s querier) s (fun _ _ => True) (fun _ _ => True) where
  execute _ _ _ _ _ hrun := by simp only [openApp, hrun, answered]
  wasmSudo _ _ hrun := by simp only [openApp, hrun, answered]
  migrate _ _ _ _ _ hrun := by simp only [openApp, hrun, answered]
  instantiate _ _ _ _ _ _ _ hrun := ⟨by simp only [openApp, hrun, answered], fun _ => by simp only [openApp, hrun, answered]⟩

end Deployment

/-- `fn f(&self, ctx, member: bool)`, a method of the kind. -/
def flagMethod (msgTy : MsgType) (f : Ident) : VariantDesc Unit :=
  ⟨some ⟨msgTy, [], .always⟩, none, ⟨f, [.receiver [], .typed (some "ctx") () [], .typed (some "member") () []]⟩⟩

def flagVariant (msgTy : MsgType) (name f : Ident) : MsgVariant Unit :=
  ⟨name, f, [⟨"member", (), []⟩], ⟨msgTy, [], .always⟩, none⟩

/-- A contract with a method of every kind but `reply`. -/
def book : ContractInput Unit where
  name := "Book"
  generics := []
  source := [⟨none, none, ⟨"new", []⟩⟩, flagMethod .instantiate "instantiate", flagMethod .exec "add_member",
    flagMethod .sudo "set_admin", flagMethod .query "is_admin", flagMethod .migrate "migrate"]
  overrideAttrs := []
  svFeatures := ⟨false⟩
  variants := fun msgTy => match msgTy with
    | .instantiate => [flagVariant .instantiate "Instantiate" "instantiate"]
    | .exec => [flagVariant .exec "AddMember" "add_member"]
    | «MsgType».sudo => [flagVariant .sudo "SetAdmin" "set_admin"]
    | .query => [flagVariant .query "IsAdmin" "is_admin"]
    | .migrate => [flagVariant .migrate "Migrate" "migrate"]
    | .reply => []
  built := fun msgTy => by cases msgTy <;> decide

def bookContract : Compiled Unit :=
  .alone book (fun msgTy => by cases msgTy <;> decide)
    (fun msgTy => by cases msgTy <;> exact ⟨_, rfl, by decide⟩) (by decide) (fun msgTy => by cases msgTy <;> decide)

/-- The methods take a true flag and refuse a false one. -/
def bookDeployment : Deployment Unit Bool (Option (Addr × List Coin)) String Unit where
  contract := bookContract
  names := fun msgTy h => by
    simp only [bookContract, Compiled.alone, GlueMessage.components, List.map_nil, List.nil_append, List.forall_mem_cons]
    exact ⟨EnumMessage.namesAreTags_of_eq (by cases msgTy <;> decide), by simp⟩
  addr := "book"
  codeId := 1
  answer := fun call => if call.args = [true] then .ok () else .error (call.function ++ " refused")
  ctx := id
  report
    | .contract e => .own e
    | _ => .other "failed"
  report_contract := fun _ => rfl
  finish := fun _ => .ok ⟨none⟩
  register := fun _ => .ok "book"
  register2 := fun _ => .ok ⟨none⟩

def bookQuerier : QuerierWrapper := ⟨fun _ _ => .error (.genericErr "no query")⟩

def bookApp : App String := bookDeployment.openApp flagSerde bookQuerier

theorem proxies_answered_book : ∃ v ∈ bookContract.variants .exec, ∃ w ∈ bookContract.variants .sudo,
    (∃ proxy, mtExec (bookContract.glue .exec trivial).contract.msg flagSerde v ⟨"book"⟩ [true] = some proxy ∧
      (proxy.withFunds []).call bookApp flagSerde (fun _ => "std") "alice" = .ok ⟨none⟩) ∧
    mtSudo (bookContract.glue .sudo trivial).contract.msg flagSerde w bookApp ⟨"book"⟩ [false] =
      some (Exec.fail "set_admin refused") := by
  have h := proxies_answered bookDeployment ⟨by decide, by decide, by decide, by decide, by decide, fun h => by cases h⟩
    (bookDeployment.openApp_runs flagSerde bookQuerier) fun _ => "std"
  refine ⟨_, List.mem_singleton_self _, _, List.mem_singleton_self _, ?_, ?_⟩
  · obtain ⟨proxy, hproxy, hcall⟩ := h.exec rfl _ (List.mem_singleton_self _) _ (List.mem_singleton_self _) [true]
      ⟨.cons rfl .nil, flag_reads (by decide) true⟩
    exact ⟨proxy, hproxy, hcall "alice" [] trivial⟩
  · exact h.wasmSudo rfl _ (List.mem_singleton_self _) _ (List.mem_singleton_self _) [false]
      ⟨.cons rfl .nil, flag_reads (by decide) false⟩

end Sylvia.Contract
