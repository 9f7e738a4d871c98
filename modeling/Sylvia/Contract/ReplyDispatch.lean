/-
  Sylvia.Contract.ReplyDispatch — the code generated for replies, run on values
  (`contract/communication/reply.rs`: `emit_dispatch`, `emit_match_arms`,
  `emit_submsg_setter`, `emit_submsg_converter`, the data and payload (de)serialization).

  The arms are blocks of `let`s over names that users also choose, so they run over a
  `Scope`: a list of bindings, the newest first. A name that is not bound, a value of the
  wrong type or a call with the wrong number of arguments is code that `rustc` rejects
  (`illTyped`). The types that `from_json` decodes to are those of the called method's
  parameters. What is not generated is in `Codec`.
-/
import Sylvia.Contract.Reply
import Sylvia.CwStd

namespace Sylvia.Contract

open Sylvia.Base Sylvia.Parser Sylvia.Types
open Sylvia.CwStd (Binary Event StdError SubMsg CosmosMsg MsgResponse SubMsgResponse SubMsgResult Env Payloads)

/-! ## Values -/

/-- `cw_utils::MsgInstantiateContractResponse`. -/
structure InstantiateResponse where
  contractAddress : String
  data : Option Binary
  deriving DecidableEq, Repr

/-- The values that the arms handle; `V` is the rest. -/
inductive Val (V : Type) where
  | deps
  | env (e : Env)
  | u64 (n : Nat)
  | binary (b : Binary)
  | string (s : String)
  | result (r : SubMsgResult)
  | events (es : List Event)
  | responses (rs : List MsgResponse)
  | instantiated (r : InstantiateResponse)
  | none
  | some (v : Val V)
  | user (v : V)

def optBinary {V : Type} : Option Binary → Val V
  | some b => .some (.binary b)
  | none => .none

/-- serde and the protobuf parsers. -/
structure Codec (Ty V : Type) where
  wire : Ty → WireType (Val V)
  /-- `T` for `Option<T>`. -/
  inner : Ty → Ty
  print : Json → Binary
  parse : Binary → Except String Json
  /-- The error for a document of another type. -/
  mismatch : Json → String
  parseExecuteResponseData : Binary → Except String (Option Binary)
  parseInstantiateResponseData : Binary → Except String InstantiateResponse

/-- Why an arm stops. -/
inductive Stop where
  | illTyped
  | returned (e : StdError)
  deriving DecidableEq, Repr

variable {Ty V : Type} {P : Payloads} {T : Type}

namespace Codec

/-- A tuple's JSON; one value in brackets is no tuple. -/
def toJson (c : Codec Ty V) (tys : List Ty) (vs : List (Val V)) : Json :=
  match tys, vs with
  | [ty], [v] => (c.wire ty).ser v
  | tys, vs => .arr (List.zipWith (fun ty v => (c.wire ty).ser v) tys vs)

def toJsonBinary (c : Codec Ty V) (tys : List Ty) (vs : List (Val V)) : Binary := c.print (c.toJson tys vs)

def decode (c : Codec Ty V) (tys : List Ty) (j : Json) : Option (List (Val V)) :=
  match tys, j with
  | [ty], j => ((c.wire ty).de j).map ([·])
  | tys, .arr js => if js.length = tys.length then (tys.zip js).mapM fun p => (c.wire p.1).de p.2 else Option.none
  | _, _ => Option.none

def fromJson (c : Codec Ty V) (tys : List Ty) (b : Binary) : Except String (List (Val V)) := do
  let j ← c.parse b
  match c.decode tys j with
  | some vs => .ok vs
  | none => .error (c.mismatch j)

end Codec

/-! ## Scopes -/

abbrev Scope (V : Type) := List (Ident × Val V)

namespace Scope

def get (σ : Scope V) (x : Ident) : Except Stop (Val V) :=
  match σ.lookup x with
  | some v => .ok v
  | none => .error .illTyped

/-- `let (x, y, ..) = (v, w, ..)`. -/
def bind (σ : Scope V) (xs : List Ident) (vs : List (Val V)) : Scope V := xs.zip vs ++ σ

end Scope

/-! ## Payloads -/

def isPayloadMarked (payload : List (MsgField Ty)) : Bool := payload.any fun f => (parsed f.attrs).payload

def names (payload : List (MsgField Ty)) : List Ident := payload.map MsgField.name

/-- `tys` are the types of the variables the payload is bound to. -/
def emitPayloadDeserialization (c : Codec Ty V) (payload : List (MsgField Ty)) (tys : List Ty) (σ : Scope V) :
    Except Stop (Scope V) := do
  let p ← σ.get "payload"
  if isPayloadMarked payload then
    match payload with
    | f :: _ => .ok (σ.bind [f.name] [p])
    | [] => .error .illTyped
  else
    match p with
    | .binary b =>
      match c.fromJson tys b with
      | .ok vs => .ok (σ.bind (names payload) vs)
      | .error e => .error (.returned (.genericErr e))
    | _ => .error .illTyped

def emitPayloadSerialization (c : Codec Ty V) (payload : List (MsgField Ty)) (σ : Scope V) : Except Stop Binary := do
  if isPayloadMarked payload then
    match payload with
    | f :: _ =>
      match ← σ.get f.name with
      | .binary b => .ok b
      | _ => .error .illTyped
    | [] => .error .illTyped
  else
    let vs ← (names payload).mapM σ.get
    .ok (c.toJsonBinary (payload.map MsgField.ty) vs)

/-! ## Data -/

def missingDataErr : Stop := .returned (.genericErr "Missing reply data field.")

def invalidReplyDataErr (env : Env) (err : String) : Stop :=
  .returned (.genericErr ("Invalid reply data at block height: " ++ toString env.blockHeight ++ ", transaction id: " ++
    ((env.transaction.map toString).getD "Missing") ++ ".\nSerde error while deserializing " ++ err))

def protobufErr (err : String) : Stop := .returned (.genericErr ("Failed deserializing protobuf data: " ++ err))

/-- The inner data of an execute response, as a `ty`. -/
def executeData (c : Codec Ty V) (ty : Ty) (env : Env) (data : Binary) : Except Stop (Val V) :=
  match c.parseExecuteResponseData data with
  | .error err => .error (protobufErr err)
  | .ok none => .error missingDataErr
  | .ok (some data) =>
    match c.fromJson [ty] data with
    | .ok [v] => .ok v
    | .ok _ => .error .illTyped
    | .error err => .error (invalidReplyDataErr env err)

def instantiateData (c : Codec Ty V) (data : Binary) : Except Stop (Val V) :=
  match c.parseInstantiateResponseData data with
  | .error err => .error (protobufErr err)
  | .ok r => .ok (.instantiated r)

/-- A strict mode: the data has to be there. -/
def strictData (f : Binary → Except Stop (Val V)) : Val V → Except Stop (Val V)
  | .some (.binary b) => f b
  | .none => .error missingDataErr
  | _ => .error .illTyped

/-- An `opt` mode. -/
def optData (f : Binary → Except Stop (Val V)) : Val V → Except Stop (Val V)
  | .some (.binary b) => (f b).map .some
  | .none => .ok .none
  | _ => .error .illTyped

/-- What the variable `data` is bound to for a parameter of type `ty`. -/
def deserializeData (c : Codec Ty V) (params : DataFieldParams) (ty : Ty) (env : Env) (data : Val V) :
    Except Stop (Val V) :=
  if params.raw && params.opt then .ok data
  else if params.raw then
    match data with
    | .some data => .ok data
    | .none => .error missingDataErr
    | _ => .error .illTyped
  else if params.instantiate && params.opt then optData (instantiateData c) data
  else if params.instantiate then strictData (instantiateData c) data
  else if params.opt then optData (executeData c (c.inner ty) env) data
  else strictData (executeData c ty env) data

/-- The mode a parameter is marked with; unmarked ones are no data. -/
def dataParams (field : MsgField Ty) : DataFieldParams := ((parsed field.attrs).data).getD .default

def emitDataDeserialization (c : Codec Ty V) (field : MsgField Ty) (ty : Ty) (σ : Scope V) : Except Stop (Scope V) := do
  let data ← σ.get "data"
  match ← σ.get "env" with
  | .env env =>
    let data ← deserializeData c (dataParams field) ty env data
    .ok (σ.bind ["data"] [data])
  | _ => .error .illTyped

/-! ## Match arms -/

structure ReplyCall (V : Type) where
  function : Ident
  ctx : List (Val V)
  args : List (Val V)

/-- How an arm ends. -/
inductive Tail (V : Type) where
  | call (c : ReplyCall V)
  /-- The response's events and data, forwarded. -/
  | forward (events : List Event) (data : Option Binary)
  /-- The error, forwarded. -/
  | forwardError (error : String)

/-- The types of the called method's parameters after the context, if the call has as
    many arguments. -/
def paramTypes (variants : List (MsgVariant Ty)) (method : Ident) (args : Nat) : Except Stop (List Ty) :=
  match variants.find? (·.functionName = method) with
  | some v => if v.fields.length = args then .ok (v.fields.map MsgField.ty) else .error .illTyped
  | none => .error .illTyped

/-- The data argument of a `success` arm's call, for the record's data parameter. -/
def leadData (c : Codec Ty V) (data : Option (MsgField Ty)) (fields : List (MsgField Ty)) (env : Env)
    (sent : Option Binary) : Except Stop (List (Val V)) :=
  match data, fields with
  | some field, f :: _ => (deserializeData c (dataParams field) f.ty env (optBinary sent)).map fun d => [d]
  | some _, [] => .error .illTyped
  | none, _ => .ok []

/-- The arm's call, once the payload is there: `lead` are the arguments before it. -/
def emitCall (method : Ident) (ctx : List (Val V)) (lead : List Ident) (payload : List (MsgField Ty)) (σ : Scope V) :
    Except Stop (Tail V) := do
  let deps' ← σ.get "deps"
  let env ← σ.get "env"
  let gasUsed ← σ.get "gas_used"
  let args ← (lead ++ names payload).mapM σ.get
  .ok (.call ⟨method, deps' :: env :: gasUsed :: ctx, args⟩)

namespace ReplyData

/-- The handler that answers a result, of those with the given `reply_on`. -/
def findHandler (rd : ReplyData Ty) (on : ReplyOn) : Option (Ident × ReplyOn) :=
  rd.handlers.find? fun h => h.2 == on || h.2 == .always

/-- Both arms of an `always` method. -/
def emitAlwaysArm (rd : ReplyData Ty) (c : Codec Ty V) (variants : List (MsgVariant Ty)) (method : Ident)
    (σ : Scope V) : Except Stop (Tail V) := do
  let tys ← paramTypes variants method (1 + rd.payload.length)
  let σ ← emitPayloadDeserialization c rd.payload (tys.drop 1) σ
  emitCall method [.events [], .responses []] ["result"] rd.payload σ

def emitSuccessMatchArm (rd : ReplyData Ty) (c : Codec Ty V) (variants : List (MsgVariant Ty)) (σ : Scope V)
    (subMsgResp : SubMsgResponse) : Except Stop (Tail V) :=
  match rd.findHandler .success with
  | some (method, .success) => do
    let σ := σ.bind ["msg_responses", "data", "events"]
      [.responses subMsgResp.msgResponses, optBinary subMsgResp.data, .events subMsgResp.events]
    let lead := if rd.data.isSome then ["data"] else []
    let tys ← paramTypes variants method (lead.length + rd.payload.length)
    let σ ← emitPayloadDeserialization c rd.payload (tys.drop lead.length) σ
    let σ ← match rd.data, tys with
      | some field, ty :: _ => emitDataDeserialization c field ty σ
      | some _, [] => .error .illTyped
      | none, _ => .ok σ
    let events ← σ.get "events"
    let msgResponses ← σ.get "msg_responses"
    emitCall method [events, msgResponses] lead rd.payload σ
  | some (method, .always) => rd.emitAlwaysArm c variants method σ
  | _ => .ok (.forward subMsgResp.events subMsgResp.data)

def emitErrorMatchArm (rd : ReplyData Ty) (c : Codec Ty V) (variants : List (MsgVariant Ty)) (σ : Scope V)
    (error : String) : Except Stop (Tail V) :=
  match rd.findHandler .error with
  | some (method, .error) => do
    let σ := σ.bind ["error"] [.string error]
    let tys ← paramTypes variants method (1 + rd.payload.length)
    let σ ← emitPayloadDeserialization c rd.payload (tys.drop 1) σ
    emitCall method [.events [], .responses []] ["error"] rd.payload σ
  | some (method, .always) => rd.emitAlwaysArm c variants method σ
  | _ => .ok (.forwardError error)

def emitMatchArms (rd : ReplyData Ty) (c : Codec Ty V) (variants : List (MsgVariant Ty)) (σ : Scope V) :
    SubMsgResult → Except Stop (Tail V)
  | .ok subMsgResp => rd.emitSuccessMatchArm c variants σ subMsgResp
  | .err error => rd.emitErrorMatchArm c variants σ error

end ReplyData

/-! ## Reply ids and the dispatch -/

/-- `pub const #reply_id : u64 = #id ;` -/
def emitReplyIds (rds : List (ReplyData Ty)) : List (Ident × Nat) := (rds.map ReplyData.replyId).zipIdx

/-- The constant that a record names. -/
def constant (rds : List (ReplyData Ty)) (rd : ReplyData Ty) : Option Nat := (emitReplyIds rds).lookup rd.replyId

/-- What is bound once the reply is taken apart. -/
def replyScope (env : Env) (msg : CwStd.Reply) : Scope V :=
  [("result", .result msg.result), ("gas_used", .u64 msg.gasUsed), ("payload", .binary msg.payload),
    ("id", .u64 msg.id), ("env", .env env), ("deps", .deps)]

def dispatchReply (c : Codec Ty V) (variants : List (MsgVariant Ty)) (rds : List (ReplyData Ty)) (env : Env)
    (msg : CwStd.Reply) : Except Stop (Tail V) :=
  match rds.find? fun rd => constant rds rd = some msg.id with
  | some rd => rd.emitMatchArms c variants (replyScope env msg) msg.result
  | none => .error (.returned (.genericErr ("Unknown reply id: " ++ toString msg.id ++ ".")))

/-! ## Sub-messages -/

namespace ReplyData

def emitCwReplyOn (rd : ReplyData Ty) : CwStd.ReplyOn :=
  let isAlways := rd.handlers.any fun h => h.2 == .always
  let isSuccess := rd.handlers.any fun h => h.2 == .success
  let isError := rd.handlers.any fun h => h.2 == .error
  if isAlways || (isSuccess && isError) then .always
  else if isSuccess then .success
  else .error

/-- The handler's method on `SubMsg`; `id` is its constant. -/
def emitSubmsgSetter (rd : ReplyData Ty) (c : Codec Ty V) (id : Nat) (self : SubMsg P T) (args : List (Val V)) :
    Except Stop (SubMsg P T) := do
  let payload ← emitPayloadSerialization c rd.payload (Scope.bind [] (names rd.payload) args)
  .ok { self with replyOn := rd.emitCwReplyOn, id := id, payload := payload }

/-- The handler's method on `WasmMsg` and `CosmosMsg`; `msg` is `self.into()`. -/
def emitSubmsgConverter (rd : ReplyData Ty) (c : Codec Ty V) (id : Nat) (msg : CosmosMsg P T) (args : List (Val V)) :
    Except Stop (SubMsg P T) := do
  let payload ← emitPayloadSerialization c rd.payload (Scope.bind [] (names rd.payload) args)
  .ok { replyOn := rd.emitCwReplyOn, id := id, msg := msg, payload := payload, gasLimit := none }

end ReplyData

/-- The record behind the method `h` of the generated `SubMsgMethods`, with its constant. -/
def subMsgMethod (rds : List (ReplyData Ty)) (h : Ident) : Except Stop (ReplyData Ty × Nat) :=
  match rds.find? (·.handlerId = h) with
  | some rd =>
    match constant rds rd with
    | some id => .ok (rd, id)
    | none => .error .illTyped
  | none => .error .illTyped

/-- `h(payload..)` on a `SubMsg`. -/
def sendSubMsg (c : Codec Ty V) (rds : List (ReplyData Ty)) (h : Ident) (self : SubMsg P T) (args : List (Val V)) :
    Except Stop (SubMsg P T) := do
  let (rd, id) ← subMsgMethod rds h
  rd.emitSubmsgSetter c id self args

/-- `h(payload..)` on a `WasmMsg` or `CosmosMsg`. -/
def sendMsg (c : Codec Ty V) (rds : List (ReplyData Ty)) (h : Ident) (msg : CosmosMsg P T) (args : List (Val V)) :
    Except Stop (SubMsg P T) := do
  let (rd, id) ← subMsgMethod rds h
  rd.emitSubmsgConverter c id msg args

end Sylvia.Contract
