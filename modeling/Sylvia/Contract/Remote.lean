/-
  Sylvia.Contract.Remote — calling another contract: `Remote`, the executor and querier
  helpers, and the entry points they end at (`types.rs`, `contract/communication/executor.rs`,
  `querier.rs`, `interface/communication/executor.rs`, `querier.rs`, `wrapper_msg.rs`).

  A helper trait has a method for each variant of a component's message, under the
  variant's name in snake case; it calls the constructor of that name and serializes
  what it built. `none` is code that does not compile. Contract and interface emit the
  same helpers; an interface's is implemented for every contract that has the interface.

  The text of a document (`print`, `parse`) and what the chain answers a smart query
  with are parameters. Contexts and responses convert without change: `into_empty` drops
  a type parameter only, and a response here is its wasm messages.

  Proved:
  - `emitMessage_eq`: what a helper builds is the contract's address, the funds set last
    and the text of the method's constructed message.
  - `entry_construct`: an entry point makes of that text one call of the method.
  - `query_answered`: a querier helper answers what the method answers.
-/
import Sylvia.Contract.Glue
import Sylvia.CwStd.Contract

namespace Sylvia.Contract

open Sylvia.Base Sylvia.Parser Sylvia.Types
open Sylvia.CwStd (Addr Binary Coin StdError WasmMsg)

/-- serde's code for the types, and documents as text. -/
structure Serde (Ty V : Type) where
  wire : Ty → WireType V
  print : Json → Binary
  parse : Binary → Except String Json
  values : SerdeValue

variable {Ty V Ctx E R : Type} {msgTy : MsgType} {source : List (VariantDesc Ty)}

namespace Serde

def toJsonBinary (s : Serde Ty V) (doc : Json) : Binary := s.print doc

def fromJson (s : Serde Ty V) (ty : WireType V) (value : Binary) : Except StdError V :=
  match s.parse value with
  | .error e => .error (.genericErr e)
  | .ok doc =>
    match ty.de doc with
    | some v => .ok v
    | none => .error (.genericErr "Error parsing into type")

/-- The document's text is read as the document. -/
def Reads (s : Serde Ty V) (doc : Json) : Prop := s.parse (s.print doc) = .ok doc

end Serde

/-! ## Builders -/

inductive BuilderState where
  | empty
  | ready
  deriving DecidableEq, Repr

structure ExecutorBuilder (state : BuilderState) where
  contract : String
  funds : List Coin
  msg : Binary
  deriving DecidableEq, Repr

namespace ExecutorBuilder

def new (contract : Addr) : ExecutorBuilder .empty := ⟨contract, [], []⟩

def withFunds (self : ExecutorBuilder .empty) (funds : List Coin) : ExecutorBuilder .empty := { self with funds }

/-- `ExecutorBuilder::<ReadyExecutorBuilderState>::new`. -/
def newReady (contract : String) (funds : List Coin) (msg : Binary) : ExecutorBuilder .ready := ⟨contract, funds, msg⟩

def build (self : ExecutorBuilder .ready) : WasmMsg := .execute self.contract self.msg self.funds

end ExecutorBuilder

/-- The chain's smart queries. -/
structure QuerierWrapper where
  smart : (contractAddr : String) → (msg : Binary) → Except StdError Binary

/-- The answer is read as a value of the type. -/
def QuerierWrapper.queryWasmSmart (q : QuerierWrapper) (s : Serde Ty V) (ty : WireType V) (contract : Addr) (msg : Json) :
    Except StdError V := do
  let raw ← q.smart contract (s.toJsonBinary msg)
  s.fromJson ty raw

structure BoundQuerier where
  contract : Addr
  querier : QuerierWrapper

/-- A contract on the chain. -/
structure Remote where
  addr : Addr
  deriving DecidableEq, Repr

namespace Remote

def executor (self : Remote) : ExecutorBuilder .empty := ExecutorBuilder.new self.addr

def querier (self : Remote) (querier : QuerierWrapper) : BoundQuerier := ⟨self.addr, querier⟩

def updateAdmin (self : Remote) (newAdmin : String) : WasmMsg := .updateAdmin self.addr newAdmin

def clearAdmin (self : Remote) : WasmMsg := .clearAdmin self.addr

end Remote

/-! ## Helpers -/

/-- `emit_variants_constructors`: the constructor of a name. -/
def constructorNamed (m : EnumMessage Ty source msgTy) (name : Ident) : Option (MsgVariant Ty) :=
  m.variants.find? (·.methodName = some name)

/-- `#api_path::#variant_name(fields)`, serialized. -/
def emitMessage (m : EnumMessage Ty source msgTy) (s : Serde Ty V) (v : MsgVariant Ty) (args : List V) : Option Json := do
  let variantName ← svToCase .snake v.name
  let constructor ← constructorNamed m variantName
  m.serialize s.wire (constructor.construct args)

/-- `emit_executor_impl`: the helper of a variant. -/
def emitExecutorImpl (m : EnumMessage Ty source .exec) (s : Serde Ty V) (v : MsgVariant Ty)
    (self : ExecutorBuilder .empty) (args : List V) : Option (ExecutorBuilder .ready) := do
  let doc ← emitMessage m s v args
  some (ExecutorBuilder.newReady self.contract self.funds (s.toJsonBinary doc))

/-- `emit_querier_impl`; `ty` is the method's return type. -/
def emitQuerierImpl (m : EnumMessage Ty source .query) (s : Serde Ty V) (ty : WireType V) (v : MsgVariant Ty)
    (self : BoundQuerier) (args : List V) : Option (Except StdError V) := do
  let doc ← emitMessage m s v args
  some (self.querier.queryWasmSmart s ty self.contract doc)

/-! ## Entry points -/

inductive Failure (E : Type) where
  /-- No contract at the address. -/
  | noContract (addr : String)
  | parse (e : String)
  | decode (e : GlueError)
  /-- Code that does not compile. -/
  | illTyped
  | contract (e : E)
  deriving DecidableEq, Repr

/-- The generated entry point of a kind: the message read by the glue enum and dispatched. -/
def GlueMessage.entry (g : GlueMessage Ty msgTy) (s : Serde Ty V) (host : Host Ctx (Failure E) R)
    (method : Call V Ctx → Except (Failure E) R) (ctx : Ctx) (msg : Binary) : Run (Call V Ctx) (Failure E) R :=
  match s.parse msg with
  | .error e => Run.of (.error (.parse e))
  | .ok doc =>
    match g.deserialize s.wire s.values doc with
    | .error e => Run.of (.error (.decode e))
    | .ok value =>
      match g.dispatch host method ctx value with
      | some run => run
      | none => Run.of (.error .illTyped)

/-- Contexts and responses convert without change. -/
def plainHost (toJsonBinary : R → Except E R) (genericErr : String → E) : Host Ctx E R :=
  ⟨toJsonBinary, .ok, id, genericErr⟩

/-- A glue enum that compiles, its components listing the tags. -/
structure Routed (Ty : Type) (msgTy : MsgType) extends GlueMessage Ty msgTy where
  compiles : toGlueMessage.Compiles
  names : ∀ c ∈ toGlueMessage.components, c.msg.NamesAreTags

/-! ## What a helper builds -/

/-- The helper's name is the constructor's. -/
theorem constructorNamed_method (m : EnumMessage Ty source msgTy) {v : MsgVariant Ty} (hv : v ∈ m.variants) :
    ∃ name, svToCase .snake v.name = some name ∧ constructorNamed m name = some v := by
  obtain ⟨ms, hms, -⟩ := m.constructors
  obtain ⟨name, -, hname⟩ := (mapM_some_mem hms).1 v hv
  refine ⟨name, hname, find?_unique hv (by simpa using hname) ?_⟩
  intro w hw hwname
  have hlisted : w.listed = v.listed := by
    rw [← EnumMessage.methodName_eq hname, ← EnumMessage.methodName_eq (of_decide_eq_true hwname)]
  exact List.inj_on_of_nodup_map m.listed_nodup hw hv hlisted

theorem emitMessage_eq (m : EnumMessage Ty source msgTy) (s : Serde Ty V) {v : MsgVariant Ty} (hv : v ∈ m.variants)
    {args : List V} (hlen : args.length = v.fields.length) :
    emitMessage m s v args = some ((v.shape s.wire).write args) := by
  obtain ⟨name, hname, hcons⟩ := constructorNamed_method m hv
  simp only [emitMessage, hname, hcons, Option.bind_eq_bind, Option.bind_some, m.serialize_construct s.wire hv hlen]

/-! ## What an entry point makes of it -/

theorem bind_of_ok (run : Run (Call V Ctx) E R) : (run >>= fun r => Run.of (.ok r)) = run := by
  obtain ⟨calls, result⟩ := run
  cases result <;> simp [bind, Run.of]

theorem emitDispatchArm_plain (toJsonBinary : R → Except E R) (genericErr : String → E) (customs : Customs)
    (run : Run (Call V Ctx) E R) : emitDispatchArm (plainHost toJsonBinary genericErr) msgTy customs run = run := by
  unfold emitDispatchArm
  split
  · exact bind_of_ok run
  · exact bind_of_ok run
  · rfl

theorem emitCtxDispatchValues_plain (toJsonBinary : R → Except E R) (genericErr : String → E) (customs : Customs)
    (ctx : Ctx) : emitCtxDispatchValues (plainHost toJsonBinary genericErr) msgTy customs ctx = ctx := by
  rcases GlueMessage.emitCtxDispatchValues_eq (plainHost toJsonBinary genericErr) msgTy customs ctx with h | h
  · exact h
  · exact h

/-- `dispatch` of a component's constructed message is the leg of one call. -/
theorem dispatch_plain (g : GlueMessage Ty msgTy) (toJsonBinary : R → Except E R) (genericErr : String → E)
    (method : Call V Ctx → Except E R) (ctx : Ctx) {c : Component Ty msgTy} (hc : c ∈ g.components)
    {v : MsgVariant Ty} (hv : v ∈ c.msg.variants) {args : List V} (hlen : args.length = v.fields.length) :
    g.dispatch (plainHost toJsonBinary genericErr) method ctx ⟨c.variant, v.construct args⟩ =
      emitDispatchLeg (plainHost toJsonBinary genericErr : Host Ctx E R) msgTy
        (Run.call method ⟨c.variant, v.functionName, ctx, args⟩) := by
  simp only [GlueMessage.dispatch]
  cases hi : g.interfaces.find? (·.variant = c.variant) with
  | some i =>
    have hp := List.find?_some hi
    have hmem : i.toComponent ∈ g.components :=
      List.mem_append_left _ (List.mem_map_of_mem (List.mem_of_find?_eq_some hi))
    obtain rfl : i.toComponent = c := GlueMessage.variant_inj hmem hc (of_decide_eq_true hp)
    simp only [emitCtxDispatchValues_plain, emitDispatchArm_plain, i.msg.dispatch_construct _ _ _ hv hlen, methods]
    cases emitDispatchLeg _ _ _ <;> rfl
  | none =>
    obtain rfl : c = g.contract := by
      rcases List.mem_append.mp hc with h | h
      · obtain ⟨i, hmem, rfl⟩ := List.mem_map.mp h
        exact absurd (decide_eq_true rfl) (List.find?_eq_none.mp hi i hmem)
      · simpa using h
    simp only [if_true, g.contract.msg.dispatch_construct _ _ _ hv hlen, methods]

theorem deserialize_construct {g : Routed Ty msgTy} (hty : msgTy.IsEnum) (s : Serde Ty V) {c : Component Ty msgTy}
    (hc : c ∈ g.components) {v : MsgVariant Ty} (hv : v ∈ c.msg.variants) {args : List V}
    (hrt : RoundTrips s.values (v.shape s.wire).fields args) :
    g.deserialize s.wire s.values ((v.shape s.wire).write args) = .ok ⟨c.variant, v.construct args⟩ := by
  have hlen : args.length = v.fields.length := by simpa [MsgVariant.shape] using hrt.length_eq.symm
  obtain ⟨doc, hdoc, hread, -⟩ := GlueMessage.construct_routed hty g.compiles hc (g.names c hc) hv s.wire
    (plainHost .ok id : Host Unit String Unit) (fun _ => .ok ()) () hrt
  rw [c.msg.serialize_construct s.wire hv hlen] at hdoc
  rwa [Option.some.inj hdoc]

/-- The entry point of a contract with the component, on the text of a constructed message. -/
theorem entry_construct {g : Routed Ty msgTy} (hty : msgTy.IsEnum) {s : Serde Ty V}
    (toJsonBinary : R → Except (Failure E) R) (genericErr : String → Failure E)
    (method : Call V Ctx → Except (Failure E) R) (ctx : Ctx) {c : Component Ty msgTy} (hc : c ∈ g.components)
    {v : MsgVariant Ty} (hv : v ∈ c.msg.variants) {args : List V} (hrt : RoundTrips s.values (v.shape s.wire).fields args)
    (hread : s.Reads ((v.shape s.wire).write args)) {run : Run (Call V Ctx) (Failure E) R}
    (hrun : emitDispatchLeg (plainHost toJsonBinary genericErr : Host Ctx (Failure E) R) msgTy
      (Run.call method ⟨c.variant, v.functionName, ctx, args⟩) = some run) :
    g.entry s (plainHost toJsonBinary genericErr) method ctx (s.toJsonBinary ((v.shape s.wire).write args)) = run := by
  have hlen : args.length = v.fields.length := by simpa [MsgVariant.shape] using hrt.length_eq.symm
  have hparse : s.parse (s.toJsonBinary ((v.shape s.wire).write args)) = .ok ((v.shape s.wire).write args) := hread
  simp only [GlueMessage.entry, hparse, deserialize_construct hty s hc hv hrt,
    dispatch_plain _ toJsonBinary genericErr method ctx hc hv hlen, hrun]

/-! ## Queries -/

/-- A query's answer, before and after it is serialized. -/
inductive Answer (V : Type) where
  | value (ty : WireType V) (v : V)
  | bytes (b : Binary)

def Answer.toJsonBinary (s : Serde Ty V) : Answer V → Except E (Answer V)
  | .value ty v => .ok (.bytes (s.toJsonBinary (ty.ser v)))
  | .bytes b => .ok (.bytes b)

/-- What the chain hands back of a query's answer. -/
def Answer.raw : Answer V → Binary
  | .bytes b => b
  | .value _ _ => []

/-- The types and answers of a contract's query methods. -/
structure Queries (V Ctx E : Type) where
  returns : (component function : Ident) → WireType V
  answer : Call V Ctx → Except E V

def Queries.method (q : Queries V Ctx E) (call : Call V Ctx) : Except (Failure E) (Answer V) :=
  match q.answer call with
  | .ok v => .ok (.value (q.returns call.component call.function) v)
  | .error e => .error (.contract e)

/-- The generated `query` entry point. -/
def Routed.query (g : Routed Ty .query) (s : Serde Ty V) (q : Queries V Ctx E) (ctx : Ctx) (msg : Binary) :
    Run (Call V Ctx) (Failure E) (Answer V) :=
  g.entry s (plainHost (Answer.toJsonBinary s) fun _ => .illTyped) q.method ctx msg

/-- What the chain makes of a query's result; `report` is what becomes of a failure. -/
def smartAnswer (report : Failure E → StdError) : Except (Failure E) (Answer V) → Except StdError Binary
  | .ok answer => .ok answer.raw
  | .error e => .error (report e)

/-- The chain answers a smart query of the address with the contract's entry point. -/
def Serves (w : QuerierWrapper) (report : Failure E → StdError) (addr : Addr) (g : Routed Ty .query) (s : Serde Ty V)
    (q : Queries V Ctx E) (ctx : Ctx) : Prop :=
  ∀ msg, w.smart addr msg = smartAnswer report (g.query s q ctx msg).result

/-- The contract's `query` entry point, on the text of a constructed message. -/
theorem query_construct {g : Routed Ty .query} {s : Serde Ty V} (q : Queries V Ctx E) (ctx : Ctx)
    {c : Component Ty .query} (hc : c ∈ g.components) {v : MsgVariant Ty} (hv : v ∈ c.msg.variants) {args : List V}
    (hrt : RoundTrips s.values (v.shape s.wire).fields args) (hread : s.Reads ((v.shape s.wire).write args)) :
    g.query s q ctx (s.toJsonBinary ((v.shape s.wire).write args)) = (do
      let x ← Run.call q.method ⟨c.variant, v.functionName, ctx, args⟩
      Run.of (Answer.toJsonBinary s x)) :=
  entry_construct (show MsgType.IsEnum .query from trivial) (Answer.toJsonBinary s) (fun _ => .illTyped) q.method ctx
    hc hv hrt hread rfl

/-- The answers of a method are read back. -/
def Queries.ReadsBack (q : Queries V Ctx E) (s : Serde Ty V) (call : Call V Ctx) : Prop :=
  ∀ x, q.answer call = .ok x →
    s.Reads ((q.returns call.component call.function).ser x) ∧
      (q.returns call.component call.function).de ((q.returns call.component call.function).ser x) = some x

/-- A smart query with a constructed message answers what the method answers. -/
theorem queryWasmSmart_construct {g : Routed Ty .query} {s : Serde Ty V} {q : Queries V Ctx E} {ctx : Ctx}
    {w : QuerierWrapper} {report : Failure E → StdError} {addr : Addr} (hserves : Serves w report addr g s q ctx)
    {c : Component Ty .query} (hc : c ∈ g.components) {v : MsgVariant Ty} (hv : v ∈ c.msg.variants) {args : List V}
    (hrt : RoundTrips s.values (v.shape s.wire).fields args) (hread : s.Reads ((v.shape s.wire).write args))
    (hback : q.ReadsBack s ⟨c.variant, v.functionName, ctx, args⟩) :
    w.queryWasmSmart s (q.returns c.variant v.functionName) addr ((v.shape s.wire).write args) =
      match q.answer ⟨c.variant, v.functionName, ctx, args⟩ with
      | .ok x => .ok x
      | .error e => .error (report (.contract e)) := by
  have hsmart := hserves (s.toJsonBinary ((v.shape s.wire).write args))
  rw [query_construct q ctx hc hv hrt hread] at hsmart
  simp only [QuerierWrapper.queryWasmSmart, hsmart]
  cases ha : q.answer ⟨c.variant, v.functionName, ctx, args⟩ with
  | error e => simp [bind, Run.call, Queries.method, ha, Except.bind, smartAnswer]
  | ok x =>
    obtain ⟨hprint, hde⟩ := hback x ha
    have hparse : s.parse (s.toJsonBinary ((q.returns c.variant v.functionName).ser x)) = .ok _ := hprint
    simp [bind, Run.call, Run.of, Queries.method, ha, Except.bind, Answer.toJsonBinary, Answer.raw, Serde.fromJson,
      hparse, hde, smartAnswer]

/-- A querier helper on a remote. The contract's method is called, once, with the same
    arguments, and the helper answers what it answers; its failure is reported. -/
theorem query_answered {g : Routed Ty .query} {s : Serde Ty V} {q : Queries V Ctx E} {ctx : Ctx} {w : QuerierWrapper}
    {report : Failure E → StdError} (r : Remote) (hserves : Serves w report r.addr g s q ctx)
    {c : Component Ty .query} (hc : c ∈ g.components) {v : MsgVariant Ty} (hv : v ∈ c.msg.variants) {args : List V}
    (hrt : RoundTrips s.values (v.shape s.wire).fields args) (hread : s.Reads ((v.shape s.wire).write args))
    (hback : q.ReadsBack s ⟨c.variant, v.functionName, ctx, args⟩) :
    (∃ msg, emitMessage c.msg s v args = some msg ∧
      (g.query s q ctx (s.toJsonBinary msg)).calls = [⟨c.variant, v.functionName, ctx, args⟩]) ∧
    emitQuerierImpl c.msg s (q.returns c.variant v.functionName) v (r.querier w) args = some
      (match q.answer ⟨c.variant, v.functionName, ctx, args⟩ with
        | .ok x => .ok x
        | .error e => .error (report (.contract e))) := by
  have hlen : args.length = v.fields.length := by simpa [MsgVariant.shape] using hrt.length_eq.symm
  have hmsg := emitMessage_eq c.msg s hv hlen
  have hcalls := congrArg Run.calls (query_construct q ctx hc hv hrt hread)
  refine ⟨⟨_, hmsg, by simpa using hcalls⟩, ?_⟩
  simp only [emitQuerierImpl, hmsg, Option.bind_eq_bind, Option.bind_some, Remote.querier,
    queryWasmSmart_construct hserves hc hv hrt hread hback]

/-! ## A contract that is asked -/

/-- `bool`. -/
def boolWire : Unit → WireType Bool :=
  fun _ => ⟨.bool, fun j => match j with | .bool b => some b | _ => none,
    fun v => match v with | .bool b => some b | _ => none, none, none⟩

def flagText : Bool → String
  | true => "true"
  | false => "false"

def entryText (key value : String) : String := "\x7b\"" ++ key ++ "\":" ++ value ++ "\x7d"

def asciiBytes (text : String) : Binary := text.toList.map fun c => UInt8.ofNat c.toNat

/-- The text of a flag, of a struct and of a message with one flag. -/
def flagDocText : Json → Binary
  | .bool flag => asciiBytes (flagText flag)
  | .obj [(key, .bool flag)] => asciiBytes (entryText key (flagText flag))
  | .obj [(tag, .obj [(key, .bool flag)])] => asciiBytes (entryText tag (entryText key (flagText flag)))
  | _ => []

def flagTags : List String := ["add_member", "set_admin", "freeze", "is_admin"]

def flagDocs : List Json :=
  [true, false].flatMap fun flag => [.bool flag, .obj [("member", .bool flag)]] ++
    flagTags.map fun tag => .obj [(tag, .obj [("member", .bool flag)])]

/-- Text is read as the document it is the text of. -/
def flagSerde : Serde Unit Bool where
  wire := boolWire
  print := flagDocText
  parse msg := match flagDocs.find? fun doc => flagDocText doc == msg with
    | some doc => .ok doc
    | none => .error "Error parsing"
  values := serdeValue

theorem flag_reads {tag : String} (htag : tag ∈ flagTags) (flag : Bool) :
    flagSerde.Reads (.obj [(tag, .obj [("member", .bool flag)])]) := by
  simp only [flagTags, List.mem_cons, List.not_mem_nil, or_false] at htag
  rcases htag with rfl | rfl | rfl | rfl <;> cases flag <;> rfl

/-- `fn f(&self, ctx, member: bool)`, a `query` method. -/
def flagQuery (f : Ident) : VariantDesc Unit :=
  ⟨some ⟨.query, [], .always⟩, none, ⟨f, [.receiver [], .typed (some "ctx") () [], .typed (some "member") () []]⟩⟩

def isAdmin : EnumMessage Unit [flagQuery "is_admin"] .query where
  variants := [⟨"IsAdmin", "is_admin", [⟨"member", (), []⟩], ⟨.query, [], .always⟩, none⟩]
  built := by decide
  phantom := false
  names_nodup := by decide
  constructors := ⟨["is_admin"], by decide, by decide⟩
  fields_nodup := by decide

def adminQueries : Routed Unit .query where
  interfaces := []
  contract := ⟨"Whitelist", _, isAdmin⟩
  variants_nodup := by decide
  compiles := GlueMessage.compiles_alone rfl
  names := by
    simp only [GlueMessage.components, List.map_nil, List.nil_append, List.forall_mem_cons]
    exact ⟨EnumMessage.namesAreTags_of_eq (by decide), by simp⟩

/-- `is_admin` answers with its argument. -/
def echo : Queries Bool Unit String := ⟨fun _ _ => boolWire (), fun call => .ok (call.args.headD false)⟩

def reportFailure : Failure String → StdError := fun _ => .genericErr "Querier contract error"

def adminQuerier : QuerierWrapper := ⟨fun _ msg => smartAnswer reportFailure (adminQueries.query flagSerde echo () msg).result⟩

theorem adminQuerier_serves : Serves adminQuerier reportFailure "whitelist" adminQueries flagSerde echo () := fun _ => rfl

theorem query_answered_flag : ∃ v ∈ isAdmin.variants,
    emitQuerierImpl isAdmin flagSerde (boolWire ()) v ((⟨"whitelist"⟩ : Remote).querier adminQuerier) [true] =
      some (.ok true) := by
  refine ⟨_, List.mem_singleton_self _, ?_⟩
  exact (query_answered (g := adminQueries) (s := flagSerde) (q := echo) ⟨"whitelist"⟩ adminQuerier_serves
    (c := adminQueries.contract) (by simp [GlueMessage.components, adminQueries]) (List.mem_singleton_self _)
    (.cons rfl .nil) (flag_reads (by decide) true) (by intro x hx; cases x <;> exact ⟨rfl, rfl⟩)).2

end Sylvia.Contract
