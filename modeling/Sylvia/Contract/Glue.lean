/-
  Sylvia.Contract.Glue — the glue message of a contract: one enum of the interfaces'
  messages and the contract's own (`contract/communication/wrapper_msg.rs`,
  `types/interfaces.rs`).

  Decoding reads the document into a `Value` first; it must be a map of one entry. The
  components are tried in the order they are listed, the contract last: the first whose
  `*_messages()` has the entry's key decodes the value, and its answer is final.
  `dispatch` hands the value to its component. The overlap check on the components'
  lists runs when `dispatch` is compiled. What is read into a `Value`, and how one is
  printed in an error, is the parameter `sv`.

  Proved:
  - `listed_apart`: a check that passes leaves the components without a common name,
    in any order of the interfaces.
  - `deserialize_key`: what the glue makes of a `Value` whose only key is listed.
  - `routing`: a constructed message reaches its method, once, with its arguments,
    whatever the order of the interfaces.
-/
import Sylvia.Base.Route
import Sylvia.Types.EnumMessage
import Sylvia.Utils.Overlap

namespace Sylvia.Contract

open Sylvia.Base Sylvia.Parser Sylvia.Types Sylvia.Utils

structure Customs where
  hasMsg : Bool
  hasQuery : Bool
  deriving DecidableEq, Repr

/-- An interface or the contract itself, for one kind of message. -/
structure Component (Ty : Type) (msgTy : MsgType) where
  /-- The glue enum's variant. -/
  variant : Ident
  source : List (VariantDesc Ty)
  msg : EnumMessage Ty source msgTy

structure Interface (Ty : Type) (msgTy : MsgType) extends Component Ty msgTy where
  customs : Customs

/-- The glue enum; `rustc` asks for distinct variants. -/
structure GlueMessage (Ty : Type) (msgTy : MsgType) where
  interfaces : List (Interface Ty msgTy)
  contract : Component Ty msgTy
  variants_nodup : ((interfaces.map Interface.toComponent ++ [contract]).map Component.variant).Nodup

/-- A value of the glue enum. -/
structure GlueValue (V : Type) where
  variant : Ident
  msg : Message V
  deriving DecidableEq, Repr

inductive GlueError where
  /-- The document is no `Value`. -/
  | value
  | custom (text : String)
  /-- A component's own error, made custom. -/
  | inner (e : DeError)
  deriving DecidableEq, Repr

/-- A call of a contract's method, through the trait or type of a component. -/
structure Call (V Ctx : Type) where
  component : Ident
  function : Ident
  ctx : Ctx
  args : List V
  deriving DecidableEq, Repr

variable {Ty V Ctx E R : Type} {msgTy : MsgType}

/-- `emit_ctx_dispatch_values`. -/
def emitCtxDispatchValues (host : Host Ctx E R) (msgTy : MsgType) (customs : Customs) (ctx : Ctx) : Ctx :=
  match msgTy, customs.hasQuery with
  | .exec, true => host.intoEmpty ctx
  | .query, true | .sudo, true => host.intoEmpty ctx
  | _, _ => ctx

/-- `emit_dispatch_arms`: an interface without the contract's custom message answers with
    a plain response. -/
def emitDispatchArm (host : Host Ctx E R) (msgTy : MsgType) (customs : Customs) (run : Run (Call V Ctx) E R) :
    Run (Call V Ctx) E R :=
  match msgTy, customs.hasMsg with
  | .exec, true | .sudo, true => do
    let resp ← run
    Run.of (host.intoResponse resp)
  | _, _ => run

/-- The methods of a component, each call of which is answered by `method`. -/
def methods (method : Call V Ctx → Except E R) (component function : Ident) (ctx : Ctx) (args : List V) :
    Run (Call V Ctx) E R :=
  Run.call method ⟨component, function, ctx, args⟩

namespace Component

def listed (c : Component Ty msgTy) (recvMsgName : String) : Bool := c.msg.messages.any (· == recvMsgName)

def attempt (c : Component Ty msgTy) (wire : Ty → WireType V) (val : Value) : Except GlueError (GlueValue V) :=
  match c.msg.deserialize .value wire val with
  | .ok msg => .ok ⟨c.variant, msg⟩
  | .error err => .error (.inner err)

end Component

namespace GlueMessage

def components (g : GlueMessage Ty msgTy) : List (Component Ty msgTy) :=
  g.interfaces.map Interface.toComponent ++ [g.contract]

/-- The lists the overlap check is called with. -/
def messagesCall (g : GlueMessage Ty msgTy) : List (List String) := g.components.map fun c => c.msg.messages

/-- The check in `dispatch` passes. -/
def Compiles (g : GlueMessage Ty msgTy) : Prop := ¬ Panics g.messagesCall

def unsupported (g : GlueMessage Ty msgTy) (sv : SerdeValue) (val : Value) : String :=
  let errMsg := g.messagesCall.flatten.foldl (fun acc message => acc ++ message ++ ", ")
    ("Unsupported message received: " ++ sv.print val ++ ". Messages supported by this contract: ")
  String.ofList errMsg.toList.dropLast.dropLast

/-- The glue enum's `Deserialize`. -/
def deserialize (g : GlueMessage Ty msgTy) (wire : Ty → WireType V) (sv : SerdeValue) (j : Json) :
    Except GlueError (GlueValue V) :=
  match sv.deserialize j with
  | none => .error .value
  | some val =>
    match val with
    | .map [(recvMsgName, _)] =>
      match route Component.listed (·.attempt wire val) g.components recvMsgName with
      | some answer => answer
      | none => .error (.custom (g.unsupported sv val))
    | .map map => .error (.custom ("Expected exactly one message. Received " ++ toString map.length))
    | _ => .error (.custom "Wrong message format!")

def dispatch (g : GlueMessage Ty msgTy) (host : Host Ctx E R) (method : Call V Ctx → Except E R) (ctx : Ctx)
    (value : GlueValue V) : Option (Run (Call V Ctx) E R) :=
  match g.interfaces.find? (·.variant = value.variant) with
  | some i => do
    let ctx := emitCtxDispatchValues host msgTy i.customs ctx
    let run ← i.msg.dispatch host (methods method i.variant) ctx value.msg
    some (emitDispatchArm host msgTy i.customs run)
  | none =>
    if value.variant = g.contract.variant then
      g.contract.msg.dispatch host (methods method g.contract.variant) ctx value.msg
    else none

/-! ## The check and the routing -/

@[simp] theorem listed_iff (c : Component Ty msgTy) (s : String) : c.listed s = true ↔ s ∈ c.msg.messages := by
  simp [Component.listed]

theorem messagesCall_sorted (g : GlueMessage Ty msgTy) : ∀ m ∈ g.messagesCall, m.Pairwise (· ≤ ·) := by
  intro m hm
  obtain ⟨c, -, rfl⟩ := List.mem_map.mp hm
  exact c.msg.messages_sorted

/-- The check passes exactly when no name is listed twice. -/
theorem listed_apart (g : GlueMessage Ty msgTy) : g.Compiles ↔ Unambiguous Component.listed g.components := by
  rw [Compiles, not_panics_iff_disjoint g.messagesCall_sorted, messagesCall, List.pairwise_map]
  apply List.Pairwise.iff
  intro c c'
  constructor
  · intro h s hs
    by_contra hs'
    exact h ((listed_iff c s).mp hs) ((listed_iff c' s).mp (by simpa using hs'))
  · intro h s hs hs'
    have := h s ((listed_iff c s).mpr hs)
    rw [(listed_iff c' s).mpr hs'] at this
    cases this

/-- A contract without interfaces passes. -/
theorem compiles_alone {g : GlueMessage Ty msgTy} (h : g.interfaces = []) : g.Compiles := by
  rw [listed_apart, components, h]
  exact List.pairwise_singleton _ _

theorem variant_inj {g : GlueMessage Ty msgTy} {c c' : Component Ty msgTy} (hc : c ∈ g.components)
    (hc' : c' ∈ g.components) (h : c.variant = c'.variant) : c = c' :=
  List.inj_on_of_nodup_map g.variants_nodup hc hc' h

/-- A document that is a `Value` of one entry goes to whoever lists its key. -/
theorem deserialize_key {g : GlueMessage Ty msgTy} (h : g.Compiles) (wire : Ty → WireType V) {sv : SerdeValue}
    {c : Component Ty msgTy} (hc : c ∈ g.components) {j : Json} {t : String} {y : Value}
    (hval : sv.deserialize j = some (.map [(t, y)])) (ht : t ∈ c.msg.messages) :
    g.deserialize wire sv j = c.attempt wire (.map [(t, y)]) := by
  simp only [deserialize, hval, route_of_disjoint (g.listed_apart.mp h) hc ((listed_iff c t).mpr ht)]

@[simp] theorem emitDispatchArm_calls (host : Host Ctx E R) (customs : Customs) (run : Run (Call V Ctx) E R) :
    (emitDispatchArm host msgTy customs run).calls = run.calls := by
  unfold emitDispatchArm
  split <;> simp

theorem emitCtxDispatchValues_eq (host : Host Ctx E R) (msgTy : MsgType) (customs : Customs) (ctx : Ctx) :
    emitCtxDispatchValues host msgTy customs ctx = ctx ∨
      emitCtxDispatchValues host msgTy customs ctx = host.intoEmpty ctx := by
  unfold emitCtxDispatchValues
  split <;> simp

/-- `dispatch` of a component's constructed message. -/
theorem dispatch_construct (g : GlueMessage Ty msgTy) (hty : msgTy.IsEnum) (host : Host Ctx E R)
    (method : Call V Ctx → Except E R) (ctx : Ctx) {c : Component Ty msgTy} (hc : c ∈ g.components)
    {v : MsgVariant Ty} (hv : v ∈ c.msg.variants) {args : List V} (hlen : args.length = v.fields.length) :
    ∃ run ctx', g.dispatch host method ctx ⟨c.variant, v.construct args⟩ = some run ∧
      (ctx' = ctx ∨ ctx' = host.intoEmpty ctx) ∧ run.calls = [⟨c.variant, v.functionName, ctx', args⟩] := by
  simp only [dispatch]
  cases hi : g.interfaces.find? (·.variant = c.variant) with
  | some i =>
    have hp := List.find?_some hi
    have hmem : i.toComponent ∈ g.components :=
      List.mem_append_left _ (List.mem_map_of_mem (List.mem_of_find?_eq_some hi))
    obtain rfl : i.toComponent = c := variant_inj hmem hc (of_decide_eq_true hp)
    obtain ⟨run, hrun, hcalls⟩ := EnumMessage.emitDispatchLeg_calls host hty
      (methods method i.variant v.functionName (emitCtxDispatchValues host msgTy i.customs ctx) args)
    refine ⟨emitDispatchArm host msgTy i.customs run, _, ?_, emitCtxDispatchValues_eq host msgTy i.customs ctx, ?_⟩
    · simp [i.msg.dispatch_construct host _ _ hv hlen, hrun]
    · rw [emitDispatchArm_calls, hcalls]; rfl
  | none =>
    obtain rfl : c = g.contract := by
      rcases List.mem_append.mp hc with h | h
      · obtain ⟨i, hmem, rfl⟩ := List.mem_map.mp h
        exact absurd (decide_eq_true rfl) (List.find?_eq_none.mp hi i hmem)
      · simpa using h
    obtain ⟨run, hrun, hcalls⟩ := EnumMessage.emitDispatchLeg_calls host hty
      (methods method g.contract.variant v.functionName ctx args)
    refine ⟨run, ctx, ?_, Or.inl rfl, by rw [hcalls]; rfl⟩
    simp [g.contract.msg.dispatch_construct host _ _ hv hlen, hrun]

/-- The same components, the interfaces listed in another order. -/
def Reordered (g g' : GlueMessage Ty msgTy) : Prop :=
  g.interfaces.Perm g'.interfaces ∧ g.contract = g'.contract

theorem Reordered.components {g g' : GlueMessage Ty msgTy} (h : Reordered g g') : g.components.Perm g'.components := by
  rw [GlueMessage.components, GlueMessage.components, h.2]
  exact (h.1.map _).append_right _

theorem Reordered.compiles {g g' : GlueMessage Ty msgTy} (h : Reordered g g') (hg : g.Compiles) : g'.Compiles :=
  g'.listed_apart.mpr ((g.listed_apart.mp hg).perm h.components)

/-- A component's constructed message is written, decoded and dispatched as its own. -/
theorem construct_routed {g : GlueMessage Ty msgTy} (hty : msgTy.IsEnum) (hcheck : g.Compiles) {c : Component Ty msgTy}
    (hc : c ∈ g.components) (hnames : c.msg.NamesAreTags) {v : MsgVariant Ty} (hv : v ∈ c.msg.variants)
    (wire : Ty → WireType V) {sv : SerdeValue} (host : Host Ctx E R) (method : Call V Ctx → Except E R)
    (ctx : Ctx) {args : List V} (hrt : RoundTrips sv (v.shape wire).fields args) :
    ∃ doc, c.msg.serialize wire (v.construct args) = some doc ∧
      g.deserialize wire sv doc = .ok ⟨c.variant, v.construct args⟩ ∧
      ∃ run ctx', g.dispatch host method ctx ⟨c.variant, v.construct args⟩ = some run ∧
        (ctx' = ctx ∨ ctx' = host.intoEmpty ctx) ∧ run.calls = [⟨c.variant, v.functionName, ctx', args⟩] := by
  have hlen : args.length = v.fields.length := by simpa [MsgVariant.shape] using hrt.length_eq.symm
  refine ⟨_, c.msg.serialize_construct wire hv hlen, ?_, g.dispatch_construct hty host method ctx hc hv hlen⟩
  have hkey : v.tag ∈ c.msg.messages := (hnames _).mpr (EnumMessage.mem_tags_of_mem hv)
  obtain ⟨val, hval, hread⟩ := EnumMessage.deserialize_write hnames wire hv hrt
  rw [deserialize_key hcheck wire hc hval hkey, Component.attempt, hread]

end GlueMessage

open GlueMessage in
/-- End-to-end routing. A method's constructed message, serialized, is decoded by the
    glue enum as its component's, and `dispatch` calls that method of that component,
    once, with the same arguments, whatever the order of the interfaces. -/
theorem routing {g g' : GlueMessage Ty msgTy} (hty : msgTy.IsEnum) (hcheck : g.Compiles) (horder : Reordered g g')
    {c : Component Ty msgTy} (hc : c ∈ g.components) (hnames : c.msg.NamesAreTags) {desc : VariantDesc Ty}
    (hd : desc ∈ c.source) {a : MsgAttr} (ha : desc.msgAttr = some a) (hkind : a.msgType = msgTy) :
    ∃ v ∈ c.msg.variants, v.functionName = desc.sig.ident ∧ v.fields = (processFields desc.sig).val ∧
      ∀ (wire : Ty → WireType V) (sv : SerdeValue) (host : Host Ctx E R) (method : Call V Ctx → Except E R)
        (ctx : Ctx) (args : List V), RoundTrips sv (v.shape wire).fields args →
      ∃ doc, c.msg.serialize wire (v.construct args) = some doc ∧
        g'.deserialize wire sv doc = .ok ⟨c.variant, v.construct args⟩ ∧
        ∃ run ctx', g'.dispatch host method ctx ⟨c.variant, v.construct args⟩ = some run ∧
          (ctx' = ctx ∨ ctx' = host.intoEmpty ctx) ∧ run.calls = [⟨c.variant, desc.sig.ident, ctx', args⟩] := by
  obtain ⟨v, hv, hnew⟩ := exists_variant c.msg.built hd ha hkind
  obtain ⟨-, hf, hfields, -, -⟩ := new_eq hnew
  refine ⟨v, hv, hf, hfields, ?_⟩
  intro wire sv host method ctx args hrt
  have hc' : c ∈ g'.components := horder.components.mem_iff.mp hc
  rw [← hf]
  exact construct_routed hty (horder.compiles hcheck) hc' hnames hv wire host method ctx hrt

/-! ## A contract with two interfaces -/

/-- `fn f(&self, ctx, member: String)`, an `exec` method. -/
def memberMethod (f : Ident) : VariantDesc Unit :=
  ⟨some ⟨.exec, [], .always⟩, none, ⟨f, [.receiver [], .typed (some "ctx") () [], .typed (some "member") () []]⟩⟩

/-- `String`. -/
def stringWire : Unit → WireType String :=
  fun _ => ⟨.str, fun j => match j with | .str s => some s | _ => none,
    fun v => match v with | .string s => some s | _ => none, none, some ""⟩

def addMember : EnumMessage Unit [memberMethod "add_member"] .exec where
  variants := [⟨"AddMember", "add_member", [⟨"member", (), []⟩], ⟨.exec, [], .always⟩, none⟩]
  built := by decide
  phantom := false
  names_nodup := by decide
  constructors := ⟨["add_member"], by decide, by decide⟩
  fields_nodup := by decide

def setAdmin : EnumMessage Unit [memberMethod "set_admin"] .exec where
  variants := [⟨"SetAdmin", "set_admin", [⟨"member", (), []⟩], ⟨.exec, [], .always⟩, none⟩]
  built := by decide
  phantom := false
  names_nodup := by decide
  constructors := ⟨["set_admin"], by decide, by decide⟩
  fields_nodup := by decide

def freeze : EnumMessage Unit [memberMethod "freeze"] .exec where
  variants := [⟨"Freeze", "freeze", [⟨"member", (), []⟩], ⟨.exec, [], .always⟩, none⟩]
  built := by decide
  phantom := false
  names_nodup := by decide
  constructors := ⟨["freeze"], by decide, by decide⟩
  fields_nodup := by decide

def members : Interface Unit .exec := ⟨⟨"Members", _, addMember⟩, ⟨false, false⟩⟩

def admins : Interface Unit .exec := ⟨⟨"Admins", _, setAdmin⟩, ⟨true, false⟩⟩

def whitelist : GlueMessage Unit .exec := ⟨[members, admins], ⟨"Whitelist", _, freeze⟩, by decide⟩

def whitelistReordered : GlueMessage Unit .exec := ⟨[admins, members], ⟨"Whitelist", _, freeze⟩, by decide⟩

theorem whitelist_compiles : whitelist.Compiles := by
  have hcall : whitelist.messagesCall = [["add_member"], ["set_admin"], ["freeze"]] := by
    simp only [whitelist, members, admins, GlueMessage.messagesCall, GlueMessage.components, List.map_cons,
      List.map_nil, List.cons_append, List.nil_append, EnumMessage.messages, sortNames, asNamesSnakeCased, addMember,
      setAdmin, freeze, List.mergeSort_singleton]
    decide
  have hcheck : assertNoIntersection [["add_member"], ["set_admin"], ["freeze"]] = some (.ok ()) := by decide
  rw [GlueMessage.Compiles, hcall]
  intro h
  rcases h with ⟨e, he⟩
  simp [hcheck] at he

theorem whitelist_names : ∀ c ∈ whitelist.components, c.msg.NamesAreTags := by
  simp only [GlueMessage.components, whitelist, members, admins, List.map_cons, List.map_nil, List.cons_append,
    List.nil_append, List.forall_mem_cons]
  exact ⟨EnumMessage.namesAreTags_of_eq (by decide), EnumMessage.namesAreTags_of_eq (by decide),
    EnumMessage.namesAreTags_of_eq (by decide), by simp⟩

theorem routing_whitelist : ∃ v ∈ setAdmin.variants,
    ∃ doc, setAdmin.serialize stringWire (v.construct ["alice"]) = some doc ∧
      whitelistReordered.deserialize stringWire serdeValue doc = .ok ⟨"Admins", v.construct ["alice"]⟩ ∧
      ∃ run ctx', whitelistReordered.dispatch (⟨.ok, .ok, id, id⟩ : Host Unit String Unit) (fun _ => .ok ()) ()
          ⟨"Admins", v.construct ["alice"]⟩ = some run ∧
        (ctx' = () ∨ ctx' = id ()) ∧ run.calls = [⟨"Admins", "set_admin", ctx', ["alice"]⟩] := by
  have horder : GlueMessage.Reordered whitelist whitelistReordered := ⟨List.Perm.swap _ _ _, rfl⟩
  have hc : admins.toComponent ∈ whitelist.components := by simp [GlueMessage.components, whitelist]
  obtain ⟨v, hv, -, -, h⟩ := routing (show MsgType.IsEnum .exec from trivial) whitelist_compiles horder hc
    (whitelist_names _ hc) (List.mem_singleton_self (memberMethod "set_admin")) rfl rfl
  refine ⟨v, hv, h stringWire _ _ _ () ["alice"] ?_⟩
  obtain rfl := List.mem_singleton.mp hv
  exact List.Forall₂.cons rfl .nil

end Sylvia.Contract
