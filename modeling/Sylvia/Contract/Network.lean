/-
  Sylvia.Contract.Network — contracts that call each other with executor helpers.

  A contract's method reads the storages, writes its own, and sends calls: each names a
  remote, the funds set on its executor, and a method of a component that the contract
  at that address has. Sent calls are on their way until the chain delivers them, in any
  order; a failure ends the run. Contracts stay where they are.

  Two machines run the same methods. In `handle` a call is the `WasmMsg` its helper
  builds: bytes, parsed, read by the addressee's glue enum and dispatched. In `direct` it
  is the method call it was written as.

  Proved: `remote_calls`: under every schedule the first does what the second does, with
  the same calls made in the same order with the same sender, funds and arguments.
-/
import Sylvia.Base.Delivery
import Sylvia.Contract.Remote

namespace Sylvia.Contract

open Sylvia.Base Sylvia.Base.Delivery Sylvia.Parser Sylvia.Types
open Sylvia.CwStd (Addr Binary Coin WasmMsg)

structure MessageInfo where
  sender : Addr
  funds : List Coin
  deriving DecidableEq, Repr

/-- `env` is the contract's own address; `deps` holds every contract's storage. -/
structure ExecCtx (σ : Type) where
  deps : Addr → σ
  env : Addr
  info : MessageInfo

/-- A call written with a helper on a remote's executor. -/
structure RemoteCall {Ty V : Type} (s : Serde Ty V) (code : Addr → Option (Routed Ty .exec)) where
  remote : Remote
  /-- The `with_funds` calls, in order. -/
  funds : List (List Coin)
  target : Routed Ty .exec
  deployed : code remote.addr = some target
  component : Component Ty .exec
  implemented : component ∈ target.components
  variant : MsgVariant Ty
  helper : variant ∈ component.msg.variants
  args : List V
  roundTrips : RoundTrips s.values (variant.shape s.wire).fields args

variable {Ty V σ E : Type} {s : Serde Ty V} {code : Addr → Option (Routed Ty .exec)}

namespace RemoteCall

def doc (call : RemoteCall s code) : Json := (call.variant.shape s.wire).write call.args

/-- `remote.executor().with_funds(..).method(args)?.build()`. -/
def build (call : RemoteCall s code) : Option WasmMsg := do
  let ready ← emitExecutorImpl call.component.msg s call.variant
    (call.funds.foldl ExecutorBuilder.withFunds call.remote.executor) call.args
  some ready.build

def sentFunds (call : RemoteCall s code) : List Coin := call.funds.getLast?.getD []

def message (call : RemoteCall s code) : WasmMsg :=
  .execute call.remote.addr (s.toJsonBinary call.doc) call.sentFunds

/-- The method call the helper stands for. -/
def call (c : RemoteCall s code) (ctx : ExecCtx σ) : Call V (ExecCtx σ) :=
  ⟨c.component.variant, c.variant.functionName, ctx, c.args⟩

end RemoteCall

/-- A message on its way. -/
structure Envelope (M : Type) where
  sender : Addr
  msg : M

def Envelope.map {M M' : Type} (f : M → M') (e : Envelope M) : Envelope M' := ⟨e.sender, f e.msg⟩

/-- The storages, and the calls made so far, each with the contract's address. -/
structure State (V σ : Type) where
  storage : Addr → σ
  log : List (Addr × Call V (ExecCtx σ))

/-- What the contract at an address does when one of its methods is called: its storage
    and the calls it sends. -/
abbrev Program (s : Serde Ty V) (code : Addr → Option (Routed Ty .exec)) (σ E : Type) :=
  Addr → Call V (ExecCtx σ) → Except E (σ × List (RemoteCall s code))

namespace Program

variable (prog : Program s code σ E)

/-- The method as its code runs: the calls it sends are built with the helpers. -/
def method (addr : Addr) (call : Call V (ExecCtx σ)) : Except (Failure E) (σ × List WasmMsg) :=
  match prog addr call with
  | .error e => .error (.contract e)
  | .ok (storage, calls) =>
    match calls.mapM RemoteCall.build with
    | some msgs => .ok (storage, msgs)
    | none => .error .illTyped

/-- The generated `execute` entry point of the contract at an address. -/
def execute (addr : Addr) (g : Routed Ty .exec) (ctx : ExecCtx σ) (msg : Binary) :
    Run (Call V (ExecCtx σ)) (Failure E) (σ × List WasmMsg) :=
  g.entry s (plainHost .ok fun _ => .illTyped) (prog.method addr) ctx msg

/-- The state after a contract's turn. -/
def settle (st : State V σ) (addr : Addr) (calls : List (Call V (ExecCtx σ))) (storage : σ) : State V σ :=
  ⟨fun a => if a = addr then storage else st.storage a, st.log ++ calls.map fun call => (addr, call)⟩

/-- The chain hands a message to its contract. -/
def handle : Handler (State V σ) (Envelope WasmMsg) (Failure E) := fun st m =>
  match m.msg with
  | .execute addr msg funds =>
    match code addr with
    | none => .error (.noContract addr)
    | some g =>
      let run := prog.execute addr g ⟨st.storage, addr, ⟨m.sender, funds⟩⟩ msg
      match run.result with
      | .ok (storage, msgs) => .ok (settle st addr run.calls storage, msgs.map (⟨addr, ·⟩))
      | .error e => .error e
  | _ => .error .illTyped

/-- The same with method calls for messages. -/
def direct : Handler (State V σ) (Envelope (RemoteCall s code)) E := fun st m =>
  let addr := m.msg.remote.addr
  let call := m.msg.call ⟨st.storage, addr, ⟨m.sender, m.msg.sentFunds⟩⟩
  match prog addr call with
  | .ok (storage, calls) => .ok (settle st addr [call] storage, calls.map (⟨addr, ·⟩))
  | .error e => .error e

end Program

/-! ## One call -/

theorem funds_foldl (funds : List (List Coin)) (b : ExecutorBuilder .empty) :
    funds.foldl ExecutorBuilder.withFunds b = { b with funds := funds.getLast?.getD b.funds } := by
  induction funds generalizing b with
  | nil => rfl
  | cons f funds ih =>
    rw [List.foldl_cons, ih]
    cases funds <;> simp [ExecutorBuilder.withFunds, List.getLast?_cons]

/-- The helper builds an execute message with the address, the funds set last and the
    text of the method's message. -/
theorem RemoteCall.build_eq (call : RemoteCall s code) : call.build = some call.message := by
  have hlen : call.args.length = call.variant.fields.length := by
    simpa [MsgVariant.shape] using call.roundTrips.length_eq.symm
  simp only [build, emitExecutorImpl, emitMessage_eq _ s call.helper hlen, Option.bind_eq_bind, Option.bind_some,
    funds_foldl]
  rfl

theorem builds_eq (calls : List (RemoteCall s code)) :
    calls.mapM RemoteCall.build = some (calls.map RemoteCall.message) := by
  rw [mapM_some_iff]
  induction calls with
  | nil => exact .nil
  | cons call calls ih => exact .cons call.build_eq ih

variable {prog : Program s code σ E}

theorem method_eq (addr : Addr) (call : Call V (ExecCtx σ)) : prog.method addr call = match prog addr call with
    | .ok (storage, calls) => .ok (storage, calls.map RemoteCall.message)
    | .error e => .error (.contract e) := by
  unfold Program.method
  cases prog addr call with
  | error e => rfl
  | ok r => simp [builds_eq]

/-- A helper's message makes the entry point call the method it was written as. -/
theorem execute_eq (call : RemoteCall s code) (hread : s.Reads call.doc) (ctx : ExecCtx σ) :
    prog.execute call.remote.addr call.target ctx (s.toJsonBinary call.doc) =
      Run.call (prog.method call.remote.addr) (call.call ctx) :=
  entry_construct (show MsgType.IsEnum .exec from trivial) .ok (fun _ => .illTyped) _ ctx call.implemented call.helper
    call.roundTrips hread rfl

theorem handle_encodes (hread : ∀ call : RemoteCall s code, s.Reads call.doc) :
    Encodes (Envelope.map RemoteCall.message) Failure.contract prog.direct prog.handle := by
  intro st ⟨sender, call⟩
  simp only [Program.handle, Program.direct, Envelope.map, RemoteCall.message, call.deployed,
    execute_eq call (hread call), Run.result_call, Run.calls_call, method_eq]
  cases prog call.remote.addr (call.call ⟨st.storage, call.remote.addr, ⟨sender, call.sentFunds⟩⟩) with
  | error e => rfl
  | ok r => simp [encoded, Envelope.map, Function.comp_def]

/-! ## Whole runs -/

/-- Remote calls are method calls. What the helpers build is defined; and from any state
    and any calls on their way, under any schedule, the contracts that exchange these
    messages end as they do when the calls are made directly: the same storages, the same
    calls made, the same messages on their way, or the same failure. -/
theorem remote_calls (prog : Program s code σ E) (hread : ∀ call : RemoteCall s code, s.Reads call.doc)
    (pending : List (Envelope (RemoteCall s code))) (msgs : List (Envelope WasmMsg))
    (hmsgs : List.Forall₂ (fun m m' => m'.sender = m.sender ∧ m.msg.build = some m'.msg) pending msgs)
    (st : State V σ) (ts : List Turn) :
    deliver prog.handle (st, msgs) ts = encoded (Envelope.map RemoteCall.message) Failure.contract
      (deliver prog.direct (st, pending) ts) := by
  have hmap : msgs = pending.map (Envelope.map RemoteCall.message) := by
    clear hread
    induction hmsgs with
    | nil => rfl
    | @cons m m' _ _ h _ ih =>
      have : m' = Envelope.map RemoteCall.message m := by
        obtain ⟨sender, msg⟩ := m'
        simpa [Envelope.map, RemoteCall.build_eq, eq_comm] using h
      rw [List.map_cons, ← ih, this]
  rw [hmap]
  exact deliver_encodes (handle_encodes hread) ts st pending

/-! ## A contract that calls itself -/

def whitelistRouted : Routed Unit .exec := ⟨whitelist, whitelist_compiles, whitelist_names⟩

/-- The whitelist, alone on its chain. -/
def oneContract (addr : Addr) : Option (Routed Unit .exec) := if addr = "whitelist" then some whitelistRouted else none

theorem flags_read (call : RemoteCall flagSerde oneContract) : flagSerde.Reads call.doc := by
  obtain ⟨remote, funds, target, hdeployed, component, himpl, variant, helper, args, hrt⟩ := call
  have htarget : target = whitelistRouted := by
    unfold oneContract at hdeployed
    split at hdeployed <;> simp_all
  subst htarget
  have hvariant : variant.tag ∈ flagTags ∧ variant.fields = [⟨"member", (), []⟩] := by
    simp only [whitelistRouted, GlueMessage.components, whitelist, members, admins, List.map_cons, List.map_nil,
      List.cons_append, List.nil_append, List.mem_cons, List.not_mem_nil, or_false] at himpl
    rcases himpl with rfl | rfl | rfl <;> obtain rfl := List.mem_singleton.mp helper <;> decide
  simp only [MsgVariant.shape, hvariant.2, List.map_cons, List.map_nil] at hrt
  cases hrt with
  | cons _ hrest =>
    cases hrest
    simpa [RemoteCall.doc, Shape.write, writeBody, MsgVariant.shape, hvariant.2, MsgField.field, flagSerde, boolWire]
      using flag_reads hvariant.1 _

/-- `remote.executor().with_funds(funds).method(flag)`, on the whitelist. -/
def flagCall (funds : List (List Coin)) (flag : Bool) (i : Interface Unit .exec) (himpl : i ∈ whitelist.interfaces)
    (v : MsgVariant Unit) (hv : v ∈ i.msg.variants) (hfields : v.fields = [⟨"member", (), []⟩]) :
    RemoteCall flagSerde oneContract where
  remote := ⟨"whitelist"⟩
  funds := funds
  target := whitelistRouted
  deployed := rfl
  component := i.toComponent
  implemented := List.mem_append_left _ (List.mem_map_of_mem himpl)
  variant := v
  helper := hv
  args := [flag]
  roundTrips := by
    simp only [MsgVariant.shape, hfields, List.map_cons, List.map_nil]
    exact List.Forall₂.cons rfl .nil

theorem five_lt : 5 < 2 ^ 128 := by decide

def addMemberCall (flag : Bool) : RemoteCall flagSerde oneContract :=
  flagCall [[], [⟨⟨5, five_lt⟩, "uatom"⟩]] flag members (by simp [whitelist]) _ (List.mem_singleton_self _) rfl

def setAdminCall (flag : Bool) : RemoteCall flagSerde oneContract :=
  flagCall [] flag admins (by simp [whitelist]) _ (List.mem_singleton_self _) rfl

/-- `add_member` asks the contract itself to set the admin; other methods store the flag. -/
def whitelistProgram : Program flagSerde oneContract (Option Bool) String := fun _ call =>
  match call.function, call.args with
  | "add_member", [flag] => .ok (none, [setAdminCall flag])
  | _, [flag] => .ok (some flag, [])
  | _, _ => .error "arguments"

theorem remote_calls_whitelist :
    deliver whitelistProgram.handle (⟨fun _ => none, []⟩, [⟨"alice", .execute "whitelist"
        (flagDocText (.obj [("add_member", .obj [("member", .bool true)])])) [⟨⟨5, by decide⟩, "uatom"⟩]⟩]) [⟨0, 0⟩, ⟨0, 0⟩] =
      encoded (Envelope.map RemoteCall.message) Failure.contract
        (deliver whitelistProgram.direct (⟨fun _ => none, []⟩, [⟨"alice", addMemberCall true⟩]) [⟨0, 0⟩, ⟨0, 0⟩]) ∧
    ((deliver whitelistProgram.direct (⟨fun _ => none, []⟩, [⟨"alice", addMemberCall true⟩]) [⟨0, 0⟩, ⟨0, 0⟩]).toOption.map
        fun st => st.1.log.map fun c => (c.2.component, c.2.function, c.2.ctx.info.sender, c.2.args)) =
      some [("Members", "add_member", "alice", [true]), ("Admins", "set_admin", "whitelist", [true])] :=
  ⟨remote_calls whitelistProgram flags_read [⟨"alice", addMemberCall true⟩] _
    (.cons ⟨rfl, RemoteCall.build_eq _⟩ .nil) _ _, rfl⟩

end Sylvia.Contract
