/-
  Sylvia.Contract.Reachability — from an entry point's input to the methods it calls.

  A `Compiled` is an impl block with the glue messages it makes and what `rustc` asks of
  the generated code: each glue's check passes, methods have distinct names and so have
  the parameters of a method. A generated entry point runs on a document or a reply; what
  matters here is which methods of which component it calls (`Target`).

  Proved: `methods_reachable_iff`: on a block for which no error is reported, every
  method of a kind that no attribute overrides is reached by some input, exactly when
  no reply method is behind another one called by name, and no attribute that names
  `query` takes the entry point of `instantiate` away.
-/
import Sylvia.Contract.Glue
import Sylvia.Contract.Mt
import Sylvia.Contract.ReplyReached

namespace Sylvia.Contract

open Sylvia.Base Sylvia.Parser Sylvia.Types
open Sylvia.CwStd (Binary SubMsgResponse SubMsgResult Env)

/-- A block whose generated code compiles, but for the code of its replies. -/
structure Compiled (Ty : Type) extends ContractInput Ty where
  glue : (msgTy : MsgType) → msgTy.IsEnum → GlueMessage Ty msgTy
  own_variant : ∀ msgTy h, (glue msgTy h).contract.variant = name
  own_source : ∀ msgTy h, (glue msgTy h).contract.source = source
  compiles : ∀ msgTy h, (glue msgTy h).Compiles
  methods_nodup : (source.map (·.sig.ident)).Nodup
  params_nodup : ∀ msgTy, ∀ v ∈ variants msgTy, v.asFieldsNames.Nodup

/-- What the generated code runs on. -/
structure Chain (Ty V Ctx E R : Type) where
  codec : Codec Ty V
  values : SerdeValue
  host : Host Ctx E R
  method : Call (Val V) Ctx → Except E R
  ctx : Ctx
  env : Env

/-- A method of a component. -/
structure Target where
  component : Ident
  function : Ident
  deriving DecidableEq, Repr

variable {Ty V Ctx E R : Type}

/-! ## Running an entry point -/

/-- `StructMessage`'s decoding and `dispatch`. -/
def structCalls (name : Ident) (variants : List (MsgVariant Ty)) (wire : Ty → WireType V) (doc : Json) : List Target :=
  match getOnlyVariant variants with
  | some v =>
    match readBody .json (v.shape wire).fields doc with
    | .ok _ => [⟨name, v.functionName⟩]
    | .error _ => []
  | none => []

def glueCalls {msgTy : MsgType} (g : GlueMessage Ty msgTy) (ch : Chain Ty V Ctx E R) (doc : Json) : List Target :=
  match g.deserialize ch.codec.wire ch.values doc with
  | .ok value =>
    match g.dispatch ch.host ch.method ch.ctx value with
    | some run => run.calls.map fun call => ⟨call.component, call.function⟩
    | none => []
  | .error _ => []

def replyCalls (name : Ident) (c : Codec Ty V) (variants : List (MsgVariant Ty)) (rds : List (ReplyData Ty)) (env : Env)
    (msg : CwStd.Reply) : List Target :=
  match dispatchReply c variants rds env msg with
  | .ok (.call call) => [⟨name, call.function⟩]
  | _ => []

namespace Compiled

variable [DecidableEq Ty] (x : Compiled Ty) (ch : Chain Ty V Ctx E R)

/-- The reply data of the block. -/
def replyData : List (ReplyData Ty) :=
  match asReplyData (x.variants .reply) with
  | some out => out.val
  | none => []

def run (ep : EntryPoint) (input : Input) : List Target :=
  match ep.body, input with
  | .dispatch msgTy, .document doc =>
    if h : msgTy.IsEnum then glueCalls (x.glue msgTy h) ch doc
    else structCalls x.name (x.variants msgTy) ch.codec.wire doc
  | .dispatchReply, .reply msg => replyCalls x.name ch.codec (x.variants .reply) x.replyData ch.env msg
  | .method (some f), .reply _ => [⟨x.name, f⟩]
  | _, _ => []

/-- Every method of the kind is called, and nothing else, on some input of the kind's
    entry point. -/
def Reachable (msgTy : MsgType) : Prop :=
  ∀ desc ∈ x.source, ∀ a, desc.msgAttr = some a → a.msgType = msgTy →
    ∃ ep, x.generated msgTy = some ep ∧ ∃ input : Input, x.run ch ep input = [⟨x.name, desc.sig.ident⟩]

/-! ## What is assumed of the types -/

/-- Some message of every method goes to the wire and back: through a `Value` where a glue
    enum reads it, through text where a single message does. -/
def MessagesExist : Prop :=
  ∀ msgTy, msgTy ≠ .reply → ∀ v ∈ x.variants msgTy, ∃ args,
    if msgTy.IsEnum then RoundTrips ch.values (v.shape ch.codec.wire).fields args
    else ReadBack (v.shape ch.codec.wire).fields args

/-- The generated reply code is well typed. -/
def RepliesTyped : Prop :=
  ∀ env msg, dispatchReply ch.codec (x.variants .reply) x.replyData env msg ≠ .error .illTyped

/-- For every method of a record some payload decodes, and with it some data. -/
def RepliesExist : Prop :=
  ∀ rd ∈ x.replyData, ∀ h ∈ rd.handlers, ∀ v ∈ x.variants .reply, v.functionName = h.1 →
    ∃ b vs, decodePayload ch.codec rd.payload ((v.fields.map MsgField.ty).drop (leadCount rd h.2)) b = .ok vs ∧
      (h.2 = .success → ∃ sent, ∀ field, rd.data = some field → ∀ f, v.fields.head? = some f →
        ∃ d, ∀ env, deserializeData ch.codec (dataParams field) f.ty env (dataVar rd.payload vs sent) = .ok d)

/-! ## Methods and variants -/

omit [DecidableEq Ty]

variable {x ch}

theorem exists_own {msgTy : MsgType} {desc : VariantDesc Ty} (hd : desc ∈ x.source) {a : MsgAttr}
    (ha : desc.msgAttr = some a) (hty : a.msgType = msgTy) :
    ∃ v ∈ x.variants msgTy, v.functionName = desc.sig.ident := by
  obtain ⟨v, hv, hnew⟩ := exists_variant (x.built msgTy) hd ha hty
  exact ⟨v, hv, (new_eq hnew).2.1⟩

theorem functionNames_nodup (x : Compiled Ty) (msgTy : MsgType) :
    ((x.variants msgTy).map MsgVariant.functionName).Nodup :=
  (functionNames_sublist (x.built msgTy)).nodup x.methods_nodup

theorem glue_variants (x : Compiled Ty) {msgTy : MsgType} (h : msgTy.IsEnum) :
    (x.glue msgTy h).contract.msg.variants = x.variants msgTy := by
  have hbuilt := x.built msgTy
  rw [← x.own_source msgTy h] at hbuilt
  exact Option.some.inj ((x.glue msgTy h).contract.msg.built.symm.trans hbuilt)

/-! ## Reaching a method of each kind -/

theorem glue_reached {msgTy : MsgType} (h : msgTy.IsEnum) (hnames : (x.glue msgTy h).contract.msg.NamesAreTags)
    (hmsgs : x.MessagesExist ch) {v : MsgVariant Ty} (hv : v ∈ x.variants msgTy) :
    ∃ doc, glueCalls (x.glue msgTy h) ch doc = [⟨x.name, v.functionName⟩] := by
  have hreply : msgTy ≠ .reply := by
    intro hty
    subst hty
    exact h
  obtain ⟨args, hrt⟩ := hmsgs msgTy hreply v hv
  rw [if_pos h] at hrt
  have hc : (x.glue msgTy h).contract ∈ (x.glue msgTy h).components := by simp [GlueMessage.components]
  obtain ⟨doc, -, hde, run, ctx', hrun, -, hcalls⟩ := GlueMessage.construct_routed h (x.compiles msgTy h) hc hnames
    (by rw [x.glue_variants h]; exact hv) ch.codec.wire ch.host ch.method ch.ctx hrt
  refine ⟨doc, ?_⟩
  simp only [glueCalls, hde, hrun, hcalls, List.map_cons, List.map_nil]
  rw [x.own_variant msgTy h]

theorem struct_reached {msgTy : MsgType} (hreply : msgTy ≠ .reply) (h : ¬ msgTy.IsEnum) (hmsgs : x.MessagesExist ch) {v : MsgVariant Ty}
    (hv : x.variants msgTy = [v]) :
    ∃ doc, structCalls x.name (x.variants msgTy) ch.codec.wire doc = [⟨x.name, v.functionName⟩] := by
  have hmem : v ∈ x.variants msgTy := by rw [hv]; exact List.mem_singleton_self v
  obtain ⟨args, hback⟩ := hmsgs msgTy hreply v hmem
  rw [if_neg h] at hback
  have hkeys : KeysDistinct (v.shape ch.codec.wire).fields := by
    rw [KeysDistinct, shape_keys]
    exact x.params_nodup msgTy v hmem
  refine ⟨writeBody (v.shape ch.codec.wire).fields args, ?_⟩
  simp only [structCalls, hv, getOnlyVariant, List.head?_cons, readBody_text hkeys hback]

theorem exists_handlerName (v : MsgVariant Ty) : ∃ h, h ∈ handlerNames v := by
  unfold handlerNames asVariantHandlersPair
  cases v.msgAttr.handlers with
  | nil => exact ⟨_, List.mem_singleton_self _⟩
  | cons h hs => exact ⟨h, by simp⟩

theorem reply_reached [DecidableEq Ty] (haccepted : x.Accepted) (hfeat : x.svFeatures.replies = true)
    (htyped : x.RepliesTyped ch) (hexist : x.RepliesExist ch) {v : MsgVariant Ty} (hv : v ∈ x.variants .reply) :
    ∃ msg, replyCalls x.name ch.codec (x.variants .reply) x.replyData ch.env msg = [⟨x.name, v.functionName⟩] := by
  obtain ⟨out, hout, hclean⟩ := haccepted.reply hfeat
  have hrds : x.replyData = out.val := by simp only [replyData, hout]
  obtain ⟨served, hs, hgrp⟩ := asReplyData_grouped hout hclean
  rw [← hrds] at hgrp
  obtain ⟨h, hh⟩ := exists_handlerName v
  obtain ⟨s, hsm, rfl, -⟩ := served_of_method hs hv hh
  obtain ⟨rd, hrd, hkey⟩ := hgrp.has_record s hsm
  obtain ⟨id, hi⟩ := List.mem_iff_getElem?.mp hrd
  have hg := hgrp.describes rd hrd
  have hsg : s ∈ ofKey Served.replyId rd.replyId served := mem_ofKey.mpr ⟨hsm, hkey.symm⟩
  obtain ⟨b, vs, hdec, hsent⟩ := hexist rd hrd _ (hg.mem_handlers hsg) s.method hv rfl
  -- a result that the method handles, with data that decodes
  obtain ⟨r, hsr, hdata⟩ : ∃ r, handles s.method.replyOn r = true ∧ ∀ resp, r = .ok resp →
      s.method.replyOn = .success → ∀ field, rd.data = some field → ∀ f, s.method.fields.head? = some f →
        ∃ d, ∀ env, deserializeData ch.codec (dataParams field) f.ty env (dataVar rd.payload vs resp.data) = .ok d := by
    cases ho : s.method.replyOn with
    | success =>
      obtain ⟨sent, hsent⟩ := hsent ho
      refine ⟨.ok ⟨[], sent, []⟩, rfl, ?_⟩
      intro resp he _
      cases he
      exact hsent
    | error => exact ⟨.err "", rfl, fun resp he => by cases he⟩
    | always => exact ⟨.err "", rfl, fun resp he => by cases he⟩
  have harm : dispatchReply ch.codec (x.variants .reply) x.replyData ch.env ⟨id, b, 0, r⟩ =
      rd.emitMatchArms ch.codec (x.variants .reply) (replyScope ch.env ⟨id, b, 0, r⟩) r :=
    dispatchReply_eq ch.codec _ hgrp.nodup ch.env hi
  obtain ⟨call, hcall, hf⟩ := hg.reached hsg ch.codec ch.env ⟨id, b, 0, r⟩ hsr
    (find?_of_nodup (x.functionNames_nodup .reply) hv) (harm ▸ htyped ch.env _) hdec hdata
  refine ⟨⟨id, b, 0, r⟩, ?_⟩
  simp only [replyCalls, harm, hcall, hf]

/-- A kind that no attribute names keeps its entry point, but for `instantiate`, which
    one that names `query` takes away. -/
theorem not_overridden {x : Compiled Ty} {msgTy : MsgType} (hnot : ∀ a ∈ x.overrideAttrs, ¬ a.Names msgTy)
    (hq : msgTy = .instantiate → ∀ a ∈ x.overrideAttrs, ¬ a.Names .query) :
    getEntryPoint x.overrideEntryPoints msgTy = none := by
  rw [ContractInput.overrideEntryPoints, getEntryPoint_eq, Option.map_eq_none_iff, List.find?_eq_none]
  intro a ha hhit
  rcases OverrideAttr.hits_iff.mp hhit with ⟨h, -⟩ | ⟨h, hi⟩
  · exact hnot a ha h
  · exact hq hi a ha h

theorem hasDefault {x : Compiled Ty} {msgTy : MsgType} {v : MsgVariant Ty} (hv : v ∈ x.variants msgTy) :
    x.HasDefault msgTy := by
  cases msgTy with
  | migrate | reply => exact List.ne_nil_of_mem hv
  | _ => trivial

/-! ## Out of reach -/

section

variable [DecidableEq Ty]

/-- Without the feature only the first reply method is ever called. -/
theorem second_reply_not_reachable {x : Compiled Ty} (ch : Chain Ty V Ctx E R) (hfeat : x.svFeatures.replies ≠ true)
    (hnot : ∀ a ∈ x.overrideAttrs, ¬ a.Names .reply) (hlen : 1 < (x.variants .reply).length) :
    ¬ x.Reachable ch .reply := by
  intro hall
  obtain ⟨v, w, rest, hvs⟩ : ∃ v w rest, x.variants .reply = v :: w :: rest := by
    match h : x.variants .reply with
    | [] | [_] => rw [h] at hlen; simp at hlen
    | v :: w :: rest => exact ⟨v, w, rest, rfl⟩
  have hw : w ∈ x.variants .reply := by simp [hvs]
  obtain ⟨desc, hd, a, ha, hty, hnew⟩ := exists_desc (x.built .reply) hw
  obtain ⟨ep, hgen, input, hrun⟩ := hall desc hd a ha hty
  rw [ContractInput.generated_some (not_overridden hnot (by simp)) (hasDefault hw), Option.some.injEq] at hgen
  subst hgen
  have hbody : (x.emitDefaultEntryPoint .reply).body = .method (some v.functionName) := by
    simp [ContractInput.emitDefaultEntryPoint, ContractInput.reply, hfeat, hvs]
  have hnodup := x.functionNames_nodup .reply
  simp only [hvs, List.map_cons, List.nodup_cons, List.mem_cons, not_or, (new_eq hnew).2.1] at hnodup
  simp only [run, hbody] at hrun
  cases input with
  | document doc => cases hrun
  | reply msg =>
    simp only [List.cons.injEq, Target.mk.injEq, true_and, and_true] at hrun
    exact hnodup.1.1 hrun

/-- An override of `query` leaves `instantiate` without an entry point. -/
theorem instantiate_not_reachable {x : Compiled Ty} (ch : Chain Ty V Ctx E R) {args : List Ty}
    (hentry : (entryPointInputNew x.toContractInput args).Clean) {a : OverrideAttr} (ha : a ∈ x.overrideAttrs)
    (hq : a.Names .query) : ¬ x.Reachable ch .instantiate := by
  intro hall
  obtain ⟨v, hv⟩ : ∃ v, v ∈ x.variants .instantiate := by
    rw [entryPointInputNew, Emit.clean_bind, Emit.clean_errorIf, Emit.clean_errorIf] at hentry
    refine List.exists_mem_of_ne_nil _ (ContractInput.getOnlyVariant_isSome.mp ?_)
    simpa using hentry.2
  obtain ⟨desc, hd, b, hb, hty, -⟩ := exists_desc (x.built .instantiate) hv
  obtain ⟨ep, hgen, -⟩ := hall desc hd b hb hty
  rw [ContractInput.generated_none] at hgen
  · cases hgen
  · intro ⟨hnone, _⟩
    rw [ContractInput.overrideEntryPoints, getEntryPoint_eq, Option.map_eq_none_iff, List.find?_eq_none] at hnone
    exact hnone a ha (OverrideAttr.hits_iff.mpr (.inr ⟨hq, rfl⟩))

/-! ## In reach -/

theorem method_reached {x : Compiled Ty} {ch : Chain Ty V Ctx E R} (haccepted : x.Accepted)
    (hnames : ∀ msgTy h, (x.glue msgTy h).contract.msg.NamesAreTags) (hmsgs : x.MessagesExist ch)
    (hreplies : x.svFeatures.replies = true → x.RepliesTyped ch ∧ x.RepliesExist ch) {msgTy : MsgType}
    (hlen : msgTy = .reply → x.svFeatures.replies = true ∨ (x.variants .reply).length ≤ 1) {v : MsgVariant Ty}
    (hv : v ∈ x.variants msgTy) :
    ∃ input, x.run ch (x.emitDefaultEntryPoint msgTy) input = [⟨x.name, v.functionName⟩] := by
  have single (hle : (x.variants msgTy).length ≤ 1) : x.variants msgTy = [v] := by
    obtain ⟨w, hw⟩ := List.length_eq_one_iff.mp (Nat.le_antisymm hle (List.length_pos_of_mem hv))
    rw [hw] at hv ⊢
    rw [List.mem_singleton.mp hv]
  have ofGlue (h : msgTy.IsEnum) (hbody : (x.emitDefaultEntryPoint msgTy).body = .dispatch msgTy) :
      ∃ input, x.run ch (x.emitDefaultEntryPoint msgTy) input = [⟨x.name, v.functionName⟩] := by
    obtain ⟨doc, hdoc⟩ := glue_reached h (hnames msgTy h) hmsgs hv
    exact ⟨.document doc, by simp only [run, hbody, h, dif_pos, hdoc]⟩
  have ofStruct (hreply : msgTy ≠ .reply) (h : ¬ msgTy.IsEnum) (hle : (x.variants msgTy).length ≤ 1)
      (hbody : (x.emitDefaultEntryPoint msgTy).body = .dispatch msgTy) :
      ∃ input, x.run ch (x.emitDefaultEntryPoint msgTy) input = [⟨x.name, v.functionName⟩] := by
    obtain ⟨doc, hdoc⟩ := struct_reached hreply h hmsgs (single hle)
    exact ⟨.document doc, by simp only [run, hbody, h, dif_neg, not_false_eq_true, hdoc]⟩
  cases msgTy with
  | exec => exact ofGlue trivial rfl
  | query => exact ofGlue trivial rfl
  | «sudo» => exact ofGlue trivial rfl
  | instantiate =>
    exact ofStruct (by simp) id (ContractInput.structMessage_clean haccepted.instantiate).1 rfl
  | migrate => exact ofStruct (by simp) id (ContractInput.structMessage_clean haccepted.migrate).1 rfl
  | reply =>
    by_cases hfeat : x.svFeatures.replies = true
    · obtain ⟨htyped, hexist⟩ := hreplies hfeat
      obtain ⟨msg, hmsg⟩ := reply_reached haccepted hfeat htyped hexist hv
      exact ⟨.reply msg, by simp only [run, ContractInput.emitDefaultEntryPoint, hfeat, if_true, hmsg]⟩
    · have hv1 := single ((hlen rfl).resolve_left hfeat)
      have hfirst : x.reply = some v.functionName := by simp [ContractInput.reply, hv1]
      exact ⟨.reply ⟨0, [], 0, .err ""⟩, by simp [run, ContractInput.emitDefaultEntryPoint, hfeat, hfirst]⟩

end

end Compiled

open Compiled in
/-- On a block for which no error is reported, every method of a kind that is not
    overridden is reached, exactly when no reply method is hidden behind the first one
    and no override of `query` takes the place of `instantiate`. -/
theorem methods_reachable_iff [DecidableEq Ty] (x : Compiled Ty) (ch : Chain Ty V Ctx E R) (args : List Ty)
    (haccepted : x.Accepted) (hentry : (entryPointInputNew x.toContractInput args).Clean)
    (hnames : ∀ msgTy h, (x.glue msgTy h).contract.msg.NamesAreTags) (hmsgs : x.MessagesExist ch)
    (hreplies : x.svFeatures.replies = true → x.RepliesTyped ch ∧ x.RepliesExist ch) :
    (∀ msgTy, (∀ a ∈ x.overrideAttrs, ¬ a.Names msgTy) → x.Reachable ch msgTy) ↔
      (x.svFeatures.replies = true ∨ (∃ a ∈ x.overrideAttrs, a.Names .reply) ∨ (x.variants .reply).length ≤ 1) ∧
        ((∃ a ∈ x.overrideAttrs, a.Names .query) → ∃ a ∈ x.overrideAttrs, a.Names .instantiate) := by
  constructor
  · intro hall
    constructor
    · by_contra hno
      push Not at hno
      obtain ⟨hfeat, hnot, hlen⟩ := hno
      exact second_reply_not_reachable ch hfeat hnot hlen (hall .reply hnot)
    · intro ⟨a, ha, hq⟩
      by_contra hno
      push Not at hno
      exact instantiate_not_reachable ch hentry ha hq (hall .instantiate hno)
  · intro ⟨hreply, hquery⟩ msgTy hnot desc hd a ha hty
    obtain ⟨v, hv, hf⟩ := exists_own hd ha hty
    have hget : getEntryPoint x.overrideEntryPoints msgTy = none := by
      refine not_overridden hnot ?_
      intro hi a ha hq
      obtain ⟨b, hb, hbi⟩ := hquery ⟨a, ha, hq⟩
      exact hnot b hb (hi ▸ hbi)
    have hlen : msgTy = .reply → x.svFeatures.replies = true ∨ (x.variants .reply).length ≤ 1 := by
      rintro rfl
      exact hreply.imp_right (Or.resolve_left · fun ⟨a, ha, hn⟩ => hnot a ha hn)
    refine ⟨_, ContractInput.generated_some hget (hasDefault hv), ?_⟩
    rw [← hf]
    exact method_reached haccepted hnames hmsgs hreplies hlen hv

/-! ## Contracts without interfaces -/

/-- The block alone. -/
def Compiled.alone (c : ContractInput Ty) (names_nodup : ∀ msgTy, ((c.variants msgTy).map MsgVariant.name).Nodup)
    (constructors : ∀ msgTy, ∃ ms, (c.variants msgTy).mapM MsgVariant.methodName = some ms ∧ ms.Nodup)
    (methods_nodup : (c.source.map (·.sig.ident)).Nodup)
    (params_nodup : ∀ msgTy, ∀ v ∈ c.variants msgTy, v.asFieldsNames.Nodup) : Compiled Ty where
  toContractInput := c
  glue := fun msgTy _ => ⟨[], ⟨c.name, c.source, ⟨c.variants msgTy, c.built msgTy, false, names_nodup msgTy,
    constructors msgTy, params_nodup msgTy⟩⟩, by simp⟩
  own_variant := fun _ _ => rfl
  own_source := fun _ _ => rfl
  compiles := fun _ _ => GlueMessage.compiles_alone rfl
  methods_nodup := methods_nodup
  params_nodup := params_nodup

def asciiChain : Chain Unit Unit Unit Unit Unit :=
  ⟨asciiCodec, serdeValue, ⟨.ok, .ok, id, fun _ => ()⟩, fun _ => .ok (), (), ⟨12, none⟩⟩

def legacyContract : Compiled Unit :=
  .alone legacy (fun msgTy => by cases msgTy <;> decide)
    (fun msgTy => by cases msgTy <;> exact ⟨_, rfl, by decide⟩) (by decide) (fun msgTy => by cases msgTy <;> decide)

/-- No error is reported, and `on_timeout` is out of reach. -/
theorem legacy_reply_dropped : legacyContract.Accepted ∧ (entryPointInputNew legacyContract.toContractInput []).Clean ∧
    (∀ msgTy h, (legacyContract.glue msgTy h).contract.msg.NamesAreTags) ∧
    (∀ a ∈ legacyContract.overrideAttrs, ¬ a.Names .reply) ∧ ¬ legacyContract.Reachable asciiChain .reply := by
  have hnot : ∀ a ∈ legacyContract.overrideAttrs, ¬ a.Names .reply := by simp [legacyContract, Compiled.alone, legacy]
  refine ⟨⟨by decide, by decide, by decide, by decide, by decide, fun h => by cases h⟩, by decide, fun msgTy h => ?_,
    hnot, Compiled.second_reply_not_reachable asciiChain (by decide) hnot (by decide)⟩
  refine EnumMessage.namesAreTags_of_eq ?_
  cases msgTy with
  | exec | query | «sudo» => rfl
  | instantiate | migrate | reply => exact h.elim

/-- A contract with every kind of handler but `migrate` and `query`. -/
def escrow : ContractInput Unit where
  name := "Escrow"
  generics := []
  source := [⟨none, none, ⟨"new", []⟩⟩,
    ⟨some ⟨.instantiate, [], .always⟩, none, ⟨"instantiate", [.receiver [], .typed (some "ctx") () []]⟩⟩,
    memberMethod "freeze",
    ⟨some ⟨.reply, ["sent"], .success⟩, none, ⟨"on_sent", [.receiver [], .typed (some "ctx") () [],
      .typed (some "data") () [.data ⟨true, true, false⟩], .typed (some "memo") () []]⟩⟩,
    ⟨some ⟨.reply, ["sent"], .error⟩, none, ⟨"on_failed", [.receiver [], .typed (some "ctx") () [],
      .typed (some "error") () [], .typed (some "note") () []]⟩⟩]
  overrideAttrs := []
  svFeatures := ⟨true⟩
  variants := fun msgTy => match msgTy with
    | .instantiate => [⟨"Instantiate", "instantiate", [], ⟨.instantiate, [], .always⟩, none⟩]
    | .exec => [⟨"Freeze", "freeze", [⟨"member", (), []⟩], ⟨.exec, [], .always⟩, none⟩]
    | .reply => [onSent ⟨true, true, false⟩, onFailed]
    | _ => []
  built := fun msgTy => by cases msgTy <;> decide

def escrowContract : Compiled Unit :=
  .alone escrow (fun msgTy => by cases msgTy <;> decide)
    (fun msgTy => by cases msgTy <;> exact ⟨_, rfl, by decide⟩) (by decide) (fun msgTy => by cases msgTy <;> decide)

def escrowRecord : ReplyData Unit := sentRecord ⟨true, true, false⟩ [("on_sent", .success), ("on_failed", .error)]

theorem escrow_asReplyData : asReplyData (escrowContract.variants .reply) = some ⟨[escrowRecord], []⟩ := by decide

theorem escrow_replyData : escrowContract.replyData = [escrowRecord] := by
  simp only [Compiled.replyData, escrow_asReplyData]

theorem escrow_messages : escrowContract.MessagesExist asciiChain := by
  intro msgTy hty v hv
  cases msgTy with
  | instantiate =>
    obtain rfl := List.mem_singleton.mp hv
    refine ⟨[], ?_⟩
    rw [if_neg (show ¬ MsgType.IsEnum .instantiate from id)]
    exact .nil
  | exec =>
    obtain rfl := List.mem_singleton.mp hv
    refine ⟨[.string "alice"], ?_⟩
    rw [if_pos (show MsgType.IsEnum .exec from trivial)]
    exact .cons rfl .nil
  | reply => exact absurd rfl hty
  | query | migrate | «sudo» => cases hv

theorem escrow_repliesTyped : escrowContract.RepliesTyped asciiChain := by
  intro env msg
  obtain ⟨served, hs, hgrp⟩ := asReplyData_grouped escrow_asReplyData rfl
  rw [escrow_replyData]
  refine dispatchReply_typed asciiCodec hs hgrp (by decide) (fun rd hrd => ?_) (by unfold CallsFit; decide) env msg
  obtain rfl := List.mem_singleton.mp hrd
  exact ⟨by decide, by decide⟩

theorem escrow_repliesExist : escrowContract.RepliesExist asciiChain := by
  intro rd hrd h hh v hv hf
  rw [escrow_replyData] at hrd
  obtain rfl := List.mem_singleton.mp hrd
  have hdec : decodePayload asciiCodec escrowRecord.payload ((v.fields.map MsgField.ty).drop (leadCount escrowRecord h.2))
      (asciiCodec.print (.str "memo")) = .ok [.string "memo"] := by
    have hv : v = onSent ⟨true, true, false⟩ ∨ v = onFailed := by simpa [escrowContract, Compiled.alone, escrow] using hv
    have hh : h = ("on_sent", .success) ∨ h = ("on_failed", .error) := by simpa [escrowRecord, sentRecord] using hh
    rcases hh with rfl | rfl <;> rcases hv with rfl | rfl <;> rfl
  refine ⟨_, _, hdec, fun _ => ⟨none, fun field hfield f _ => ?_⟩⟩
  obtain rfl : (⟨"data", (), [.data ⟨true, true, false⟩]⟩ : MsgField Unit) = field := by
    simpa [escrowRecord, sentRecord] using hfield
  exact ⟨_, fun env => rfl⟩

theorem escrow_names (msgTy : MsgType) (h : msgTy.IsEnum) : (escrowContract.glue msgTy h).contract.msg.NamesAreTags := by
  have hexec : asNamesSnakeCased (escrow.variants .exec) = (escrow.variants .exec).map MsgVariant.tag := by decide
  refine EnumMessage.namesAreTags_of_eq ?_
  cases msgTy with
  | exec => exact hexec
  | query | «sudo» => rfl
  | instantiate | migrate | reply => exact h.elim

theorem methods_reachable_escrow :
    escrowContract.Reachable asciiChain .exec ∧ escrowContract.Reachable asciiChain .reply := by
  have hno (msgTy : MsgType) : ∀ a ∈ escrowContract.overrideAttrs, ¬ a.Names msgTy := by
    simp [escrowContract, Compiled.alone, escrow]
  have hquery : (∃ a ∈ escrowContract.overrideAttrs, a.Names .query) →
      ∃ a ∈ escrowContract.overrideAttrs, a.Names .instantiate := by
    intro h
    rcases h with ⟨a, ha, hq⟩
    exact absurd hq (hno .query a ha)
  have hall := (methods_reachable_iff escrowContract asciiChain []
    ⟨by decide, by decide, by decide, by decide, by decide, fun _ => ⟨_, escrow_asReplyData, rfl⟩⟩ (by decide)
    escrow_names escrow_messages fun _ => ⟨escrow_repliesTyped, escrow_repliesExist⟩).mpr
    ⟨.inl rfl, hquery⟩
  exact ⟨hall .exec (hno .exec), hall .reply (hno .reply)⟩

end Sylvia.Contract
