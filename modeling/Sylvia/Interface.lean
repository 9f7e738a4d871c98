/-
  Sylvia.Interface — the trait that `interface` is put on (`sylvia-derive/src/interface.rs`).

  An interface has no generics, declares an `Error` type, and leaves `instantiate` and
  `migrate` to contracts; nothing is said about `reply`. The warnings about custom types
  are left out. Its messages are the enums of its exec, query and sudo methods, and a
  contract that lists it has them among the components of its glue enums.

  Proved: `interface_reachable`: a method of an accepted interface is called by some
  message to a contract that lists it exactly when its kind is one of these three; a
  `reply` method is never called.
-/
import Sylvia.Contract.Remote

namespace Sylvia.Interface

open Sylvia.Base Sylvia.Parser Sylvia.Types Sylvia.Contract

/-- A trait whose methods' names became variants' names without a panic. -/
structure InterfaceInput (Ty : Type) where
  generics : List Ident
  associatedTypes : List Ident
  source : List (VariantDesc Ty)
  variants : MsgType → List (MsgVariant Ty)
  built : ∀ msgTy, msgVariants source msgTy = some (variants msgTy)

variable {Ty V Ctx E R : Type} {msgTy : MsgType}

namespace InterfaceInput

/-- The errors of `InterfaceInput::new`. -/
def new (i : InterfaceInput Ty) : Emit Unit := do
  Emit.errorIf (!i.generics.isEmpty) "Generics on traits are not supported. Use associated types instead."
    ["Sylvia interfaces can be implemented only a single time per contract."]
  Emit.errorIf (!i.associatedTypes.contains "Error") "Missing `Error` type defined for trait."
    ["Error is an error type returned by generated types dispatch function. Messages handling function have to " ++
      "return an error type convertible to this Error type.",
      "A trait error type should be bound to implement `From<cosmwasm_std::StdError>`."]

def emitMessages (i : InterfaceInput Ty) : Emit Unit := do
  Emit.errorIf (!(i.variants .instantiate).isEmpty) "The message attribute `instantiate` is not supported in interfaces."
    ["Contracts need to implement `instantiate` method within their `impl` block."]
  Emit.errorIf (!(i.variants .migrate).isEmpty) "The message attribute `migrate` is not supported in interfaces"
    ["Contracts need to implement `migrate` method within their `impl` block."]

/-- `interface` reports no error. -/
structure Accepted (i : InterfaceInput Ty) : Prop where
  new : i.new.Clean
  fields : ∀ desc ∈ i.source, desc.msgAttr.isSome → (processFields desc.sig).Clean
  messages : i.emitMessages.Clean

theorem Accepted.kinds {i : InterfaceInput Ty} (h : i.Accepted) {desc : VariantDesc Ty} (hd : desc ∈ i.source)
    {a : MsgAttr} (ha : desc.msgAttr = some a) : a.msgType ≠ .instantiate ∧ a.msgType ≠ .migrate := by
  have hclean := h.messages
  simp only [emitMessages, Emit.clean_bind, Emit.clean_errorIf, Bool.not_eq_false', List.isEmpty_iff] at hclean
  constructor
  · intro hty
    obtain ⟨v, hv, -⟩ := exists_variant (i.built .instantiate) hd ha hty
    simp [hclean.1] at hv
  · intro hty
    obtain ⟨v, hv, -⟩ := exists_variant (i.built .migrate) hd ha hty
    simp [hclean.2] at hv

end InterfaceInput

/-! ## What a dispatch calls -/

theorem enum_dispatch_calls {source : List (VariantDesc Ty)} (m : EnumMessage Ty source msgTy) (h : msgTy.IsEnum)
    (host : Host Ctx E R) (method : Call V Ctx → Except E R) (component : Ident) (ctx : Ctx) {msg : Message V}
    {run : Run (Call V Ctx) E R} (hrun : m.dispatch host (methods method component) ctx msg = some run) :
    ∀ call ∈ run.calls, call.component = component ∧ ∃ v ∈ m.variants, v.functionName = call.function := by
  intro call hcall
  cases msg with
  | phantom =>
    simp only [EnumMessage.dispatch] at hrun
    split at hrun
    · cases hrun
      cases hcall
    · cases hrun
  | variant name fields =>
    simp only [EnumMessage.dispatch, Option.bind_eq_bind, Option.bind_eq_some_iff] at hrun
    obtain ⟨v, hv, args, -, hleg⟩ := hrun
    obtain ⟨run', hrun', hcalls⟩ := EnumMessage.emitDispatchLeg_calls host h (methods method component v.functionName ctx args)
    obtain rfl : run' = run := Option.some.inj (hrun'.symm.trans hleg)
    rw [hcalls, methods, Run.calls_call, List.mem_singleton] at hcall
    rw [hcall]
    exact ⟨rfl, v, List.mem_of_find?_eq_some hv, rfl⟩

/-- Every call is of a method of a component. -/
theorem glue_dispatch_calls (g : GlueMessage Ty msgTy) (h : msgTy.IsEnum) (host : Host Ctx E R)
    (method : Call V Ctx → Except E R) (ctx : Ctx) {value : GlueValue V} {run : Run (Call V Ctx) E R}
    (hrun : g.dispatch host method ctx value = some run) : ∀ call ∈ run.calls,
      ∃ c ∈ g.components, c.variant = call.component ∧ ∃ v ∈ c.msg.variants, v.functionName = call.function := by
  intro call hcall
  simp only [GlueMessage.dispatch] at hrun
  split at hrun
  · rename_i i hi
    simp only [Option.bind_eq_bind, Option.bind_eq_some_iff, Option.some.injEq] at hrun
    obtain ⟨run', hrun', rfl⟩ := hrun
    rw [GlueMessage.emitDispatchArm_calls] at hcall
    obtain ⟨hcomp, hv⟩ := enum_dispatch_calls i.msg h host method i.variant _ hrun' call hcall
    exact ⟨i.toComponent, List.mem_append_left _ (List.mem_map_of_mem (List.mem_of_find?_eq_some hi)), hcomp.symm, hv⟩
  · split at hrun
    · obtain ⟨hcomp, hv⟩ := enum_dispatch_calls g.contract.msg h host method g.contract.variant _ hrun call hcall
      exact ⟨g.contract, by simp [GlueMessage.components], hcomp.symm, hv⟩
    · cases hrun

/-! ## An interface of a contract -/

/-- The glue enums of a contract, each with the interface among its components. -/
structure Implementation (i : InterfaceInput Ty) where
  glue : (msgTy : MsgType) → msgTy.IsEnum → Routed Ty msgTy
  component : (msgTy : MsgType) → (h : msgTy.IsEnum) → Component Ty msgTy
  listed : ∀ msgTy h, component msgTy h ∈ (glue msgTy h).components
  same : ∀ msgTy h, (component msgTy h).source = i.source

namespace Implementation

variable {i : InterfaceInput Ty} (c : Implementation i) (s : Serde Ty V) (host : Host Ctx E R)
  (method : Call V Ctx → Except E R) (ctx : Ctx)

/-- Some message of some kind makes the contract call the interface's method. -/
def Calls (function : Ident) : Prop :=
  ∃ msgTy h doc value run, (c.glue msgTy h).deserialize s.wire s.values doc = .ok value ∧
    (c.glue msgTy h).dispatch host method ctx value = some run ∧
    ∃ call ∈ run.calls, call.component = (c.component msgTy h).variant ∧ call.function = function

/-- Every variant of the interface's messages goes to the wire and back. -/
def MessagesExist : Prop :=
  ∀ msgTy h, ∀ v ∈ (c.component msgTy h).msg.variants, ∃ args, RoundTrips s.values (v.shape s.wire).fields args

end Implementation

/-- The methods of an accepted interface that a contract with it can be made to call: those
    marked `exec`, `query` or `sudo`, and no others. -/
theorem interface_reachable {i : InterfaceInput Ty} (haccepted : i.Accepted)
    (hmethods : (i.source.map (·.sig.ident)).Nodup) (c : Implementation i) (s : Serde Ty V)
    (hmsgs : c.MessagesExist s) (host : Host Ctx E R) (method : Call V Ctx → Except E R) (ctx : Ctx) :
    ∀ desc ∈ i.source, ∀ a, desc.msgAttr = some a →
      (c.Calls s host method ctx desc.sig.ident ↔ a.msgType.IsEnum) ∧ (¬ a.msgType.IsEnum ↔ a.msgType = .reply) := by
  intro desc hd a ha
  obtain ⟨hinst, hmig⟩ := haccepted.kinds hd ha
  refine ⟨⟨?_, ?_⟩, ?_⟩
  · rintro ⟨msgTy, h, doc, value, run, -, hrun, call, hcall, hcomp, hfun⟩
    obtain ⟨c', hc', hvariant, v, hv, hf⟩ := glue_dispatch_calls _ h host method ctx hrun call hcall
    obtain rfl : c' = c.component msgTy h :=
      GlueMessage.variant_inj hc' (c.listed msgTy h) (hvariant.trans hcomp)
    obtain ⟨desc', hd', a', ha', hty, hnew⟩ := exists_desc (c.component msgTy h).msg.built hv
    rw [c.same msgTy h] at hd'
    have hident : desc'.sig.ident = desc.sig.ident := (new_eq hnew).2.1.symm.trans (hf.trans hfun)
    obtain rfl : desc' = desc := List.inj_on_of_nodup_map hmethods hd' hd hident
    obtain rfl : a' = a := Option.some.inj (ha'.symm.trans ha)
    rwa [hty]
  · intro h
    have hd' : desc ∈ (c.component a.msgType h).source := by rwa [c.same]
    obtain ⟨v, hv, hnew⟩ := exists_variant (c.component a.msgType h).msg.built hd' ha rfl
    obtain ⟨args, hrt⟩ := hmsgs a.msgType h v hv
    obtain ⟨doc, -, hread, run, ctx', hrun, -, hcalls⟩ := GlueMessage.construct_routed h (c.glue a.msgType h).compiles
      (c.listed a.msgType h) ((c.glue a.msgType h).names _ (c.listed a.msgType h)) hv s.wire host method ctx hrt
    exact ⟨a.msgType, h, doc, _, run, hread, hrun, _, by rw [hcalls]; exact List.mem_singleton_self _, rfl,
      (new_eq hnew).2.1⟩
  · cases hty : a.msgType <;> simp_all [MsgType.IsEnum]

/-! ## An interface with a reply method -/

def membersSource : List (VariantDesc Unit) :=
  [memberMethod "add_member", ⟨some ⟨.reply, [], .always⟩, none, ⟨"on_done", [.receiver [], .typed (some "ctx") () []]⟩⟩]

def membersInterface : InterfaceInput Unit where
  generics := []
  associatedTypes := ["Error"]
  source := membersSource
  variants := fun msgTy => match msgTy with
    | .exec => [⟨"AddMember", "add_member", [⟨"member", (), []⟩], ⟨.exec, [], .always⟩, none⟩]
    | .reply => [⟨"OnDone", "on_done", [], ⟨.reply, [], .always⟩, none⟩]
    | _ => []
  built := fun msgTy => by cases msgTy <;> decide

def membersEnum (msgTy : MsgType) : EnumMessage Unit membersSource msgTy where
  variants := membersInterface.variants msgTy
  built := membersInterface.built msgTy
  phantom := false
  names_nodup := by cases msgTy <;> decide
  constructors := by cases msgTy <;> exact ⟨_, rfl, by decide⟩
  fields_nodup := by cases msgTy <;> decide

def noMessages (msgTy : MsgType) : EnumMessage Unit [] msgTy :=
  ⟨[], rfl, false, .nil, ⟨[], rfl, .nil⟩, by simp⟩

/-- A contract that lists the interface and has no messages of its own. -/
def clubGlue (msgTy : MsgType) : Routed Unit msgTy where
  interfaces := [⟨⟨"Members", _, membersEnum msgTy⟩, ⟨false, false⟩⟩]
  contract := ⟨"Club", _, noMessages msgTy⟩
  variants_nodup := by simp
  compiles := by
    rw [GlueMessage.listed_apart]
    refine List.Pairwise.cons (fun c hc s _ => ?_) (List.pairwise_singleton _ _)
    obtain rfl := List.mem_singleton.mp hc
    simp [Component.listed, EnumMessage.messages, noMessages, sortNames, asNamesSnakeCased]
  names := by
    simp only [GlueMessage.components, List.map_cons, List.map_nil, List.cons_append, List.nil_append,
      List.forall_mem_cons]
    refine ⟨EnumMessage.namesAreTags_of_eq ?_, EnumMessage.namesAreTags_of_eq rfl, by simp⟩
    cases msgTy <;> decide

def club : Implementation membersInterface where
  glue := fun msgTy _ => clubGlue msgTy
  component := fun msgTy _ => ⟨"Members", _, membersEnum msgTy⟩
  listed := fun msgTy _ => by simp [clubGlue, GlueMessage.components]
  same := fun _ _ => rfl

theorem club_messages : club.MessagesExist flagSerde := by
  intro msgTy h v hv
  cases msgTy with
  | exec =>
    obtain rfl := List.mem_singleton.mp hv
    exact ⟨[true], .cons rfl .nil⟩
  | query | «sudo» => cases hv
  | instantiate | migrate | reply => exact h.elim

theorem interface_reachable_club :
    club.Calls flagSerde (plainHost .ok id : Host Unit String Unit) (fun _ => .ok ()) () "add_member" ∧
      ¬ club.Calls flagSerde (plainHost .ok id : Host Unit String Unit) (fun _ => .ok ()) () "on_done" := by
  have h := interface_reachable (i := membersInterface) ⟨by decide, by decide, by decide⟩ (by decide) club flagSerde
    club_messages (plainHost .ok id) (fun _ => .ok ()) ()
  exact ⟨((h _ List.mem_cons_self _ rfl).1).mpr trivial,
    fun hcall => ((h _ (List.mem_cons_of_mem _ (List.mem_singleton_self _)) _ rfl).1).mp hcall⟩

end Sylvia.Interface
