/-
  Sylvia.Contract.ReplyCapture — the names of payload parameters (`emit_dispatch`,
  `emit_success_match_arm`, `emit_error_match_arm`, `emit_payload_deserialization`).

  An arm binds the payload to the names the parameters have in the contract, then reads
  its own variables: the context, the data, the error or the result. A parameter that
  has the name of one of them hides it, and where the types agree the code compiles. The
  dispatch of messages binds fields to `field1`, `field2`, … instead.

  `Renamed` relates the methods of a contract to the same ones with other parameter
  names; what a record has to satisfy does not depend on them (`RecordOf.renamed`).

  Proved: `payload_names_iff`: under any other names the arms hand their methods the
  values of the reply exactly when no name is read after the payload, and the first
  method of an id does not hide another one's data.
-/
import Sylvia.Contract.ReplyOrder
import Sylvia.Contract.ReplyReached

namespace Sylvia.Contract

open Sylvia.Base Sylvia.Parser Sylvia.Types
open Sylvia.CwStd (Binary SubMsgResponse SubMsgResult Env)

variable {Ty V : Type}

/-! ## Other names -/

def SameField (f f' : MsgField Ty) : Prop := f.ty = f'.ty ∧ f.attrs = f'.attrs

/-- A method and the same one with other parameter names. -/
structure Renamed (v v' : MsgVariant Ty) : Prop where
  functionName : v'.functionName = v.functionName
  msgAttr : v'.msgAttr = v.msgAttr
  fields : List.Forall₂ SameField v.fields v'.fields

theorem sameFields_types {fs fs' : List (MsgField Ty)} (h : List.Forall₂ SameField fs fs') :
    fs'.map MsgField.ty = fs.map MsgField.ty := by
  induction h with
  | nil => rfl
  | cons h _ ih => rw [List.map_cons, List.map_cons, h.1, ih]

theorem sameFields_marked {fs fs' : List (MsgField Ty)} (h : List.Forall₂ SameField fs fs') :
    isPayloadMarked fs' = isPayloadMarked fs := by
  unfold isPayloadMarked
  induction h with
  | nil => rfl
  | cons h _ ih => rw [List.any_cons, List.any_cons, h.2, ih]

namespace Renamed

variable {v v' : MsgVariant Ty}

theorem replyOn (h : Renamed v v') : v'.replyOn = v.replyOn := congrArg MsgAttr.replyOn h.msgAttr

theorem handlerNames (h : Renamed v v') : handlerNames v' = handlerNames v := by
  simp only [Contract.handlerNames, asVariantHandlersPair, h.msgAttr, h.functionName]
  split <;> simp [Function.comp_def]

theorem dataOf (h : Renamed v v') : Option.Rel SameField (dataOf v) (dataOf v') := by
  cases ho : v.replyOn with
  | success =>
    rw [dataOf_success ho, dataOf_success (h.replyOn.trans ho)]
    have hfields := h.fields
    generalize v.fields = fs, v'.fields = fs' at hfields ⊢
    cases hfields with
    | nil => exact .none
    | cons hf _ =>
      simp only [hf.2]
      split
      · exact .some hf
      · exact .none
  | error | always =>
    rw [dataOf_of_ne_success (by rw [ho]; decide), dataOf_of_ne_success (by rw [h.replyOn, ho]; decide)]
    exact .none

theorem payloadOf (h : Renamed v v') : List.Forall₂ SameField (payloadOf v) (payloadOf v') := by
  have hsome : (Contract.dataOf v').isSome = (Contract.dataOf v).isSome := by
    have hdata := h.dataOf
    generalize Contract.dataOf v = d, Contract.dataOf v' = d' at hdata ⊢
    cases hdata <;> rfl
  unfold Contract.payloadOf payloadFields
  rw [hsome, h.replyOn]
  split
  · exact List.forall₂_drop _ h.fields
  · exact h.fields

theorem leadArgs (h : Renamed v v') (c : Codec Ty V) (env : Env) (r : SubMsgResult) :
    leadArgs c v' env r = leadArgs c v env r := by
  unfold Contract.leadArgs
  rw [h.replyOn]
  cases v.replyOn with
  | success =>
    cases r with
    | ok resp =>
      have hdata := h.dataOf
      generalize Contract.dataOf v = d, Contract.dataOf v' = d' at hdata ⊢
      cases hdata with
      | none => rfl
      | some hf => simp only [hf.1, dataParams, hf.2]
    | err error => rfl
  | error | always => cases r <;> rfl

end Renamed

/-! ## Records of renamed methods -/

structure SameServed (s s' : Served Ty) : Prop where
  method : Renamed s.method s'.method
  handlerId : s'.handlerId = s.handlerId
  replyId : s'.replyId = s.replyId

theorem pair_eq (v : MsgVariant Ty) : asVariantHandlersPair v = (handlerNames v).map fun h => (v, h) := by
  unfold handlerNames asVariantHandlersPair
  split <;> simp [Function.comp_def]

variable {variants variants' : List (MsgVariant Ty)} {served served' : List (Served Ty)}

theorem allServed_renamed (hren : List.Forall₂ Renamed variants variants') (hs : allServed variants = some served) :
    ∃ served', allServed variants' = some served' ∧ List.Forall₂ SameServed served served' := by
  have hpairs : List.Forall₂ (fun p p' : MsgVariant Ty × Ident => Renamed p.1 p'.1 ∧ p'.2 = p.2)
      (variants.flatMap asVariantHandlersPair) (variants'.flatMap asVariantHandlersPair) := by
    refine List.rel_flatMap hren ?_
    intro v v' hv
    rw [pair_eq, pair_eq, hv.handlerNames]
    simpa [List.forall₂_map_left_iff, List.forall₂_map_right_iff, List.forall₂_same] using fun _ _ => hv
  have hserved := (mapM_some_iff _ _ _).mp hs
  unfold allServed
  clear hs
  generalize variants.flatMap asVariantHandlersPair = ps, variants'.flatMap asVariantHandlersPair = ps' at hpairs hserved
  induction hpairs generalizing served with
  | nil =>
    cases hserved
    exact ⟨[], rfl, .nil⟩
  | @cons p p' _ _ hp _ ih =>
    cases hserved with
    | cons hfirst hserved =>
      obtain ⟨rest, hrest, hsame⟩ := ih hserved
      obtain ⟨id, hid, rfl⟩ := Option.map_eq_some_iff.mp hfirst
      refine ⟨⟨p'.1, p.2, id⟩ :: rest, ?_, .cons ⟨hp.1, rfl, rfl⟩ hsame⟩
      rw [List.mapM_cons, hrest, hp.2, hid]
      rfl

theorem ofKey_renamed (h : List.Forall₂ SameServed served served') (id : Ident) :
    List.Forall₂ SameServed (ofKey Served.replyId id served) (ofKey Served.replyId id served') := by
  refine List.rel_filter ?_ h
  intro s s' hs
  show decide (s.replyId = id) = true ↔ decide (s'.replyId = id) = true
  rw [hs.replyId]

theorem head?_renamed {g g' : List (Served Ty)} (h : List.Forall₂ SameServed g g') {s s' : Served Ty}
    (hs : s ∈ g.head?) (hs' : s' ∈ g'.head?) : SameServed s s' := by
  cases h with
  | nil => cases hs
  | cons h _ =>
    obtain rfl := Option.some.inj hs
    obtain rfl := Option.some.inj hs'
    exact h

/-- Nothing that a record has to satisfy depends on the names. -/
theorem RecordOf.renamed {g g' : List (Served Ty)} (h : List.Forall₂ SameServed g g') {rd rd' : ReplyData Ty}
    (hr : RecordOf g rd) (hk : Keeps g' rd') : RecordOf g' rd' := by
  obtain ⟨first, hfirst, -, -, hpayload⟩ := hr.first
  obtain ⟨first', hfirst', -, -, hpayload'⟩ := hk.first
  have hpay : List.Forall₂ SameField rd.payload rd'.payload := by
    rw [hpayload, hpayload']
    exact (head?_renamed h hfirst hfirst').method.payloadOf
  have hons : g'.map (fun s => s.method.replyOn) = g.map fun s => s.method.replyOn := by
    clear hfirst hfirst' hr hk
    induction h with
    | nil => rfl
    | cons h _ ih => rw [List.map_cons, List.map_cons, h.method.replyOn, ih]
  have hapart : g'.Pairwise fun s t => s.method.replyOn.excludes t.method.replyOn = false := by
    have hpair : (g.map fun s => s.method.replyOn).Pairwise fun a b => a.excludes b = false :=
      List.pairwise_map.mpr hr.apart
    rw [← hons] at hpair
    exact List.pairwise_map.mp hpair
  refine ⟨hk.first, hk.all hapart, hapart, ?_, ?_, ?_⟩
  · intro s' hs'
    obtain ⟨s, hs, hsame⟩ := (forall₂_mem h).2 s' hs'
    rw [sameFields_types hsame.method.payloadOf, hr.types s hs, sameFields_types hpay]
  · intro hnil
    have hlen := hpay.length_eq
    rw [hnil, List.length_nil, List.length_eq_zero_iff] at hlen
    exact hr.nonempty hlen
  · intro hraw
    rw [← hpay.length_eq]
    exact hr.raw_alone ((sameFields_marked hpay).symm.trans hraw)

/-! ## What a method should get -/

/-- The call with the values of the reply. -/
def received (c : Codec Ty V) (payload : List (MsgField Ty)) (v : MsgVariant Ty) (env : Env) (msg : CwStd.Reply) :
    Except Stop (Tail V) :=
  (decodePayload c payload (payload.map MsgField.ty) msg.payload).bind fun args =>
    (leadArgs c v env msg.result).map fun lead =>
      Tail.call ⟨v.functionName, replyCtx v.replyOn env msg, lead ++ args⟩

/-- Every reply that the method handles is handed to it with its values. -/
def Receives (variants : List (MsgVariant Ty)) (rd : ReplyData Ty) (v : MsgVariant Ty) : Prop :=
  ∀ (V : Type) (c : Codec Ty V) (env : Env) (msg : CwStd.Reply), handles v.replyOn msg.result = true →
    rd.emitMatchArms c variants (replyScope env msg) msg.result = received c rd.payload v env msg

/-- `first`, the first method of an id, does not hide the data of `v`. -/
def KeepsData (first v : MsgVariant Ty) : Prop :=
  first.replyOn = .error → v.replyOn = .success → carriesData v = false

/-- No payload parameter of `first` has the name of a variable that the arm of `v` reads. -/
def NamesApart (first v : MsgVariant Ty) : Prop :=
  ∀ x ∈ readAfter (dataOf v) v.replyOn, x ∉ names (payloadOf first)

section Record

variable {g : List (Served Ty)} {rd : ReplyData Ty} {first s : Served Ty}

theorem RecordOf.data_of_keepsData (hg : RecordOf g rd) (hfirst : first ∈ g.head?) (hs : s ∈ g)
    (hk : KeepsData first.method s.method) (hsucc : s.method.replyOn = .success) : rd.data = dataOf s.method := by
  obtain ⟨f, hf, -, hdata, -⟩ := hg.first
  obtain rfl : f = first := Option.some.inj (hf.symm.trans hfirst)
  have hmem := List.mem_of_mem_head? hfirst
  cases ho : f.method.replyOn with
  | error =>
    rw [hdata, dataOf_of_ne_success (by rw [ho]; decide), (carriesData_iff hsucc).mp (hk ho hsucc)]
  | success | always =>
    rw [hdata, hg.unique hmem hs (r := .ok ⟨[], none, []⟩) (by rw [ho]; rfl) (by rw [hsucc]; rfl)]

theorem RecordOf.fits_of_keepsData (hg : RecordOf g rd) (hfirst : first ∈ g.head?) (hs : s ∈ g)
    (hk : KeepsData first.method s.method) :
    s.method.fields.length = leadCount rd s.method.replyOn + rd.payload.length := by
  have hlen : (payloadOf s.method).length = rd.payload.length := by simpa using congrArg List.length (hg.types s hs)
  have hpos := List.length_pos_of_ne_nil hg.nonempty
  unfold payloadOf payloadFields at hlen
  cases ho : s.method.replyOn with
  | success =>
    rw [leadCount, hg.data_of_keepsData hfirst hs hk ho]
    cases hd : (dataOf s.method).isSome <;> simp [hd, ho, numberOfAllowedDataFields] at hlen ⊢ <;> omega
  | error | always =>
    simp [ho, numberOfAllowedDataFields, leadCount] at hlen ⊢
    omega

theorem RecordOf.receives_of (hg : RecordOf g rd) (hfirst : first ∈ g.head?) (hs : s ∈ g)
    (hv : variants.find? (fun w => decide (w.functionName = s.method.functionName)) = some s.method)
    (hnames : (names rd.payload).Nodup) (hk : KeepsData first.method s.method)
    (hn : NamesApart first.method s.method) : Receives variants rd s.method := by
  intro V c env msg hsr
  refine hg.arm_eq hs c env msg hsr hv ⟨hnames, ?_⟩ (hg.fits_of_keepsData hfirst hs hk)
  obtain ⟨f, hf, -, -, hpayload⟩ := hg.first
  obtain rfl : f = first := Option.some.inj (hf.symm.trans hfirst)
  intro x hx
  rw [hpayload]
  refine hn x ?_
  cases ho : s.method.replyOn with
  | success => rwa [← hg.data_of_keepsData hfirst hs hk ho, ← ho]
  | error | always => rwa [ho] at hx

end Record

/-! ## A reply that shows it -/

/-- What no variable of an arm is. -/
def Blank (v : Val V) : Prop := v = .none ∨ ∃ b, v = .binary b

@[simp] theorem not_blank_deps : ¬ Blank (.deps : Val V) := by simp [Blank]
@[simp] theorem not_blank_env (e : Env) : ¬ Blank (.env e : Val V) := by simp [Blank]
@[simp] theorem not_blank_u64 (n : Nat) : ¬ Blank (.u64 n : Val V) := by simp [Blank]
@[simp] theorem not_blank_string (s : String) : ¬ Blank (.string s : Val V) := by simp [Blank]
@[simp] theorem not_blank_result (r : SubMsgResult) : ¬ Blank (.result r : Val V) := by simp [Blank]
@[simp] theorem not_blank_events (es : List CwStd.Event) : ¬ Blank (.events es : Val V) := by simp [Blank]
@[simp] theorem not_blank_responses (rs : List CwStd.MsgResponse) : ¬ Blank (.responses rs : Val V) := by simp [Blank]

/-- Reads everything, as `.none`; documents are arrays of `n` nulls. -/
def blankCodec (Ty : Type) (n : Nat) : Codec Ty Unit where
  wire := fun _ => ⟨fun _ => .null, fun _ => some .none, fun _ => some .none, none, none⟩
  inner := id
  print := fun _ => []
  parse := fun _ => .ok (.arr (List.replicate n .null))
  mismatch := fun _ => ""
  parseExecuteResponseData := fun b => .ok (some b)
  parseInstantiateResponseData := fun _ => .ok ⟨"", none⟩

/-- A reply that a method for `on` handles, with data if it is a success. -/
def blankReply (on : ReplyOn) : CwStd.Reply :=
  ⟨0, [], 0, if on = .error then .err "" else .ok ⟨[], some [], []⟩⟩

theorem decode_blank (n : Nat) {tys : List Ty} {js : List Json} (hlen : js.length = tys.length) :
    (blankCodec Ty n).decode tys (.arr js) = some (tys.map fun _ => .none) := by
  match tys, hlen with
  | [], hlen => simp [Codec.decode, hlen]
  | [ty], _ => rfl
  | ty :: ty' :: tys, hlen =>
    rw [Codec.decode, if_pos hlen]
    · show ((ty :: ty' :: tys).zip js).mapM (fun _ => pure Val.none) = _
      rw [List.mapM_pure, List.map_const', List.map_const', List.length_zip, hlen, Nat.min_self]
      rfl
    · simp

theorem fromJson_blank (tys : List Ty) (b : Binary) :
    (blankCodec Ty tys.length).fromJson tys b = .ok (tys.map fun _ => .none) := by
  have hparse : (blankCodec Ty tys.length).parse b = .ok (.arr (List.replicate tys.length .null)) := rfl
  simp [Codec.fromJson, hparse, decode_blank, bind, Except.bind]

theorem decodePayload_blank (payload : List (MsgField Ty)) (b : Binary)
    (hraw : isPayloadMarked payload = true → payload.length = 1) :
    ∃ args, decodePayload (blankCodec Ty payload.length) payload (payload.map MsgField.ty) b = .ok args ∧
      (names payload).length = args.length ∧ ∀ v ∈ args, Blank v := by
  unfold decodePayload
  by_cases hm : isPayloadMarked payload = true
  · exact ⟨[.binary b], by simp [hm], by simp [names, hraw hm], by simp [Blank]⟩
  · have hjson := fromJson_blank (payload.map MsgField.ty) b
    rw [List.length_map] at hjson
    exact ⟨_, by rw [if_neg hm, hjson], by simp [names], by simp [Blank]⟩

/-- Sent data is decoded, and not to what a blank one is. -/
theorem deserializeData_blank (params : DataFieldParams) (ty : Ty) (env : Env) (n : Nat) :
    ∃ d, deserializeData (blankCodec Ty n) params ty env (optBinary (some [])) = .ok d ∧
      ∀ env w, Blank w → deserializeData (blankCodec Ty n) params ty env w ≠ .ok d := by
  obtain ⟨raw, opt, instantiate⟩ := params
  cases raw <;> cases opt <;> cases instantiate <;> refine ⟨_, rfl, ?_⟩ <;> rintro env w (rfl | ⟨b, rfl⟩) <;>
    simp [deserializeData, optBinary, optData, strictData, missingDataErr]

theorem free_of_get {σ : Scope V} {xs : List Ident} {vs : List (Val V)} {x : Ident} {v : Val V}
    (hlen : xs.length = vs.length) (hblank : ∀ w ∈ vs, Blank w) (hv : (σ.bind xs vs).get x = .ok v) (hne : ¬ Blank v) :
    x ∉ xs := by
  intro hx
  obtain ⟨w, hw, hl⟩ := exists_lookup_zip hlen hx
  rw [get_bind_eq, hl] at hv
  exact hne (Except.ok.inj hv ▸ hblank w hw)

theorem emitCall_reads {method : Ident} {ctx : List (Val V)} {lead : List Ident} {payload : List (MsgField Ty)}
    {σ : Scope V} {call : ReplyCall V} (h : emitCall method ctx lead payload σ = .ok (.call call)) :
    ∃ deps' env gasUsed args args', σ.get "deps" = .ok deps' ∧ σ.get "env" = .ok env ∧ σ.get "gas_used" = .ok gasUsed ∧
      lead.mapM σ.get = .ok args ∧ call = ⟨method, deps' :: env :: gasUsed :: ctx, args ++ args'⟩ := by
  simp only [emitCall, List.mapM_append, bind_ok_iff] at h
  obtain ⟨deps', hd, env, he, gasUsed, hg, args, ⟨args₁, h₁, args₂, -, hargs⟩, hcall⟩ := h
  simp only [pure, Except.pure, Except.ok.injEq] at hargs hcall
  obtain rfl := hargs
  exact ⟨deps', env, gasUsed, args₁, args₂, hd, he, hg, h₁, (Tail.call.inj hcall).symm⟩

/-- The end of the arms of `error` and `always` methods, read back. -/
theorem payloadCall_free {c : Codec Ty V} {payload : List (MsgField Ty)} {tys : List Ty} {σ : Scope V} {b : Binary}
    {vs : List (Val V)} (hp : σ.get "payload" = .ok (.binary b))
    (hraw : isPayloadMarked payload = true → payload.length = 1) (hdec : decodePayload c payload tys b = .ok vs)
    (hlen : (names payload).length = vs.length) (hblank : ∀ v ∈ vs, Blank v) {x method : Ident}
    {ctx ctx' rest : List (Val V)} {env : Env} {gasUsed : Nat} {v : Val V} (hv : ¬ Blank v)
    (h : (do let σ ← emitPayloadDeserialization c payload tys σ
             emitCall method ctx [x] payload σ) =
      .ok (.call ⟨method, .deps :: .env env :: .u64 gasUsed :: ctx', v :: rest⟩)) :
    ∀ y ∈ ["deps", "env", "gas_used", x], y ∉ names payload := by
  rw [emitPayloadDeserialization_eq c tys hp hraw, hdec] at h
  obtain ⟨_, _, _, args, args', hd, he, hg, hx, hcall⟩ := emitCall_reads h
  simp only [ReplyCall.mk.injEq, List.cons.injEq] at hcall
  obtain ⟨-, ⟨rfl, rfl, rfl, -⟩, hargs⟩ := hcall
  have hx : (σ.bind (names payload) vs).get x = .ok v := by
    cases hget : (σ.bind (names payload) vs).get x with
    | error e => simp [hget, bind, Except.bind] at hx
    | ok w =>
      simp [hget, bind, Except.bind, pure, Except.pure] at hx
      rw [← hx] at hargs
      rw [(List.cons.inj hargs).1]
  simp only [List.mem_cons, List.not_mem_nil, or_false, forall_eq_or_imp, forall_eq]
  exact ⟨free_of_get hlen hblank hd (by simp), free_of_get hlen hblank he (by simp),
    free_of_get hlen hblank hg (by simp), free_of_get hlen hblank hx hv⟩

/-- The end of a `success` arm, read back. -/
theorem responseCall_reads {σ : Scope V} {payload : List (MsgField Ty)} {lead : List Ident} {method : Ident}
    {ctx : List (Val V)} {args : List (Val V)}
    (h : responseCall method lead payload σ = .ok (.call ⟨method, ctx, args⟩)) :
    List.Forall₂ (fun x v => σ.get x = .ok v) ["deps", "env", "gas_used", "events", "msg_responses"] ctx ∧
      ∃ leads rest, lead.mapM σ.get = .ok leads ∧ args = leads ++ rest := by
  obtain ⟨_, hevents, h⟩ := bind_ok_iff.mp h
  obtain ⟨_, hresponses, h⟩ := bind_ok_iff.mp h
  obtain ⟨_, _, _, leads, rest, hd, he, hg, hlead, hcall⟩ := emitCall_reads h
  simp only [ReplyCall.mk.injEq] at hcall
  obtain ⟨-, rfl, rfl⟩ := hcall
  exact ⟨.cons hd (.cons he (.cons hg (.cons hevents (.cons hresponses .nil)))), leads, rest, hlead, rfl⟩

theorem emitDataDeserialization_reads {c : Codec Ty V} {field : MsgField Ty} {ty : Ty} {σ σ' : Scope V}
    (h : emitDataDeserialization c field ty σ = .ok σ') : ∃ w env d, σ.get "data" = .ok w ∧
      deserializeData c (dataParams field) ty env w = .ok d ∧ σ' = σ.bind ["data"] [d] := by
  obtain ⟨w, hw, h⟩ := bind_ok_iff.mp h
  obtain ⟨e, -, h⟩ := bind_ok_iff.mp h
  cases e with
  | env env =>
    obtain ⟨d, hd, h⟩ := bind_ok_iff.mp h
    exact ⟨w, env, d, hw, hd, (Except.ok.inj h).symm⟩
  | _ => cases h

theorem free_of_reads {σ : Scope V} {xs : List Ident} {vs : List (Val V)} (hlen : xs.length = vs.length)
    (hblank : ∀ w ∈ vs, Blank w) {ys : List Ident} {ctx : List (Val V)}
    (h : List.Forall₂ (fun y v => (σ.bind xs vs).get y = .ok v) ys ctx) (hctx : ∀ v ∈ ctx, ¬ Blank v) :
    ∀ y ∈ ys, y ∉ xs := by
  intro y hy
  obtain ⟨v, hv, hget⟩ := (forall₂_mem h).1 y hy
  exact free_of_get hlen hblank hget (hctx v hv)

section

variable {c : Codec Ty V} {variants : List (MsgVariant Ty)} {v : MsgVariant Ty} {rd : ReplyData Ty} {env : Env}
  {msg : CwStd.Reply} {vs : List (Val V)}
  (hv : variants.find? (fun w => decide (w.functionName = v.functionName)) = some v)
  (hraw : isPayloadMarked rd.payload = true → rd.payload.length = 1)
  (hlen : (names rd.payload).length = vs.length) (hblank : ∀ w ∈ vs, Blank w)

include hv hraw hlen hblank

theorem successArm_free {resp : SubMsgResponse} (hfind : rd.findHandler .success = some (v.functionName, .success))
    (hn : v.fields.length = leadCount rd .success + rd.payload.length)
    (hdec : decodePayload c rd.payload ((v.fields.map MsgField.ty).drop (leadCount rd .success)) msg.payload = .ok vs)
    {args : List (Val V)}
    (hdata : ∀ field, rd.data = some field → ∃ f fs d rest, v.fields = f :: fs ∧ args = d :: rest ∧
      ∀ env w, Blank w → deserializeData c (dataParams field) f.ty env w ≠ .ok d)
    (h : rd.emitSuccessMatchArm c variants (replyScope env msg) resp = .ok (.call ⟨v.functionName,
      [.deps, .env env, .u64 msg.gasUsed, .events resp.events, .responses resp.msgResponses], args⟩)) :
    ∀ x ∈ readAfter rd.data .success, x ∉ names rd.payload := by
  have hctx : ∀ w ∈ [.deps, .env env, .u64 msg.gasUsed, .events resp.events, .responses resp.msgResponses],
      ¬ Blank (w : Val V) := by simp
  cases hd : rd.data with
  | none =>
    simp only [leadCount, hd, Option.isSome_none, Bool.false_eq_true, if_false, Nat.zero_add, List.drop_zero] at hn hdec
    simp only [successArm_plain c env msg hv hraw hfind hd hn, hdec, Except.bind] at h
    obtain ⟨hreads, -⟩ := responseCall_reads h
    exact free_of_reads hlen hblank hreads hctx
  | some field =>
    obtain ⟨f, fs, d, rest, hfs, rfl, hne⟩ := hdata field hd
    simp only [leadCount, hd, hfs, Option.isSome_some, if_true, List.map_cons, List.drop_succ_cons, List.drop_zero,
      List.length_cons] at hn hdec
    simp only [successArm_withData c env msg hv hraw hfind hd hfs (by omega), hdec, Except.bind] at h
    obtain ⟨σ2, hσ2, h⟩ := bind_ok_iff.mp h
    obtain ⟨hreads, leads, rest', hleads, hargs⟩ := responseCall_reads h
    obtain ⟨w, env', d', hw, hd', rfl⟩ := emitDataDeserialization_reads hσ2
    obtain rfl : d = d' := by
      simp [Scope.get, Scope.bind, bind, Except.bind, pure, Except.pure] at hleads
      rw [← hleads] at hargs
      exact (List.cons.inj hargs).1
    -- the variables are the ones of before the data
    have hfresh : ∀ y ∈ ["deps", "env", "gas_used", "events", "msg_responses"], y ∉ ["data"] := by decide
    have hreads := forall₂_imp_mem hreads fun y hy v hget => (get_bind_fresh (hfresh y hy)).symm.trans hget
    intro x hx
    rcases List.mem_append.mp hx with hx | hx
    · exact free_of_reads hlen hblank hreads hctx x hx
    · obtain rfl : x = "data" := by simpa using hx
      exact free_of_get hlen hblank hw fun hb => hne env' w hb hd'

theorem errorArm_free {error : String} (hfind : rd.findHandler .error = some (v.functionName, .error))
    (hn : v.fields.length = 1 + rd.payload.length)
    (hdec : decodePayload c rd.payload ((v.fields.map MsgField.ty).drop 1) msg.payload = .ok vs)
    {ctx rest : List (Val V)}
    (h : rd.emitErrorMatchArm c variants (replyScope env msg) error =
      .ok (.call ⟨v.functionName, .deps :: .env env :: .u64 msg.gasUsed :: ctx, .string error :: rest⟩)) :
    ∀ x ∈ readAfter rd.data .error, x ∉ names rd.payload := by
  simp only [ReplyData.emitErrorMatchArm, hfind, paramTypes_eq hv hn] at h
  obtain ⟨tys, htys, h⟩ := bind_ok_iff.mp h
  obtain rfl := Except.ok.inj htys
  have hpay : ((replyScope env msg : Scope V).bind ["error"] [.string error]).get "payload" = .ok (.binary msg.payload) := by
    rw [get_bind_fresh (by decide), get_payload_replyScope]
  exact payloadCall_free hpay hraw hdec hlen hblank (not_blank_string error) h

theorem alwaysArm_free (hn : v.fields.length = 1 + rd.payload.length)
    (hdec : decodePayload c rd.payload ((v.fields.map MsgField.ty).drop 1) msg.payload = .ok vs)
    {ctx rest : List (Val V)}
    (h : rd.emitAlwaysArm c variants v.functionName (replyScope env msg) =
      .ok (.call ⟨v.functionName, .deps :: .env env :: .u64 msg.gasUsed :: ctx, .result msg.result :: rest⟩)) :
    ∀ x ∈ readAfter rd.data .always, x ∉ names rd.payload := by
  simp only [ReplyData.emitAlwaysArm, paramTypes_eq hv hn] at h
  obtain ⟨tys, htys, h⟩ := bind_ok_iff.mp h
  obtain rfl := Except.ok.inj htys
  exact payloadCall_free (get_payload_replyScope env msg) hraw hdec hlen hblank (not_blank_result msg.result) h

end

section Record

variable {g : List (Served Ty)} {rd : ReplyData Ty} {first s : Served Ty}

/-- An arm whose code is well typed has a parameter for each argument. -/
theorem RecordOf.fits_of_ne (hg : RecordOf g rd) (hs : s ∈ g) (c : Codec Ty V) (env : Env) (msg : CwStd.Reply)
    (hsr : handles s.method.replyOn msg.result = true)
    (hv : variants.find? (fun w => decide (w.functionName = s.method.functionName)) = some s.method)
    (hwt : rd.emitMatchArms c variants (replyScope env msg) msg.result ≠ .error .illTyped) :
    s.method.fields.length = leadCount rd s.method.replyOn + rd.payload.length := by
  rcases handler_of_apart hg.apart hg.handlers hs hsr with ⟨resp, hr, ho, hfind⟩ | ⟨error, hr, ho, hfind⟩ | ⟨ho, hsucc, herr⟩
  · simp only [hr, ReplyData.emitMatchArms, ReplyData.emitSuccessMatchArm, hfind, dataLead_length] at hwt
    rw [ho]
    exact Contract.fits_of_ne hv hwt
  · simp only [hr, ReplyData.emitMatchArms, ReplyData.emitErrorMatchArm, hfind] at hwt
    rw [ho]
    exact Contract.fits_of_ne hv hwt
  · simp only [emitMatchArms_always hsucc herr, ReplyData.emitAlwaysArm] at hwt
    rw [ho]
    exact Contract.fits_of_ne hv hwt

theorem handles_blankReply (on : ReplyOn) : handles on (blankReply on).result = true := by cases on <;> rfl

/-- On `blankReply` every method gets what precedes the payload. -/
theorem leadArgs_blank (v : MsgVariant Ty) (env : Env) (n : Nat) :
    ∃ lead, leadArgs (blankCodec Ty n) v env (blankReply v.replyOn).result = .ok lead ∧
      ∀ field, dataOf v = some field → ∃ d, lead = [d] ∧
        ∀ env w, Blank w → deserializeData (blankCodec Ty n) (dataParams field) field.ty env w ≠ .ok d := by
  have hdata (hne : v.replyOn ≠ .success) (field : MsgField Ty) (hf : dataOf v = some field) : False := by
    rw [dataOf_of_ne_success hne] at hf
    cases hf
  unfold leadArgs
  cases ho : v.replyOn with
  | error => exact ⟨_, rfl, fun field hf => (hdata (by rw [ho]; decide) field hf).elim⟩
  | always => exact ⟨_, rfl, fun field hf => (hdata (by rw [ho]; decide) field hf).elim⟩
  | success =>
    cases hd : dataOf v with
    | none => exact ⟨[], rfl, by simp⟩
    | some f =>
      obtain ⟨d, hdec, hne⟩ := deserializeData_blank (dataParams f) f.ty env n
      refine ⟨[d], ?_, ?_⟩
      · simp only [blankReply, reduceCtorEq, if_false, hdec, Except.map]
      · intro field hf
        obtain rfl := Option.some.inj hf
        exact ⟨d, rfl, hne⟩

theorem RecordOf.apart_of_receives (hg : RecordOf g rd) (hfirst : first ∈ g.head?) (hs : s ∈ g)
    (hv : variants.find? (fun w => decide (w.functionName = s.method.functionName)) = some s.method)
    (h : Receives variants rd s.method) : KeepsData first.method s.method ∧ NamesApart first.method s.method := by
  obtain ⟨f, hf, -, hdata, hpayload⟩ := hg.first
  obtain rfl : f = first := Option.some.inj (hf.symm.trans hfirst)
  obtain ⟨vs, hdec, hlen, hblank⟩ := decodePayload_blank rd.payload [] hg.raw_alone
  obtain ⟨lead, hlead, hleadne⟩ := leadArgs_blank s.method ⟨0, none⟩ rd.payload.length
  have hsr := handles_blankReply s.method.replyOn
  have hcall : rd.emitMatchArms (blankCodec Ty rd.payload.length) variants
      (replyScope ⟨0, none⟩ (blankReply s.method.replyOn)) (blankReply s.method.replyOn).result =
      .ok (.call ⟨s.method.functionName, replyCtx s.method.replyOn ⟨0, none⟩ (blankReply s.method.replyOn),
        lead ++ vs⟩) := by
    have hpay : (blankReply s.method.replyOn).payload = [] := rfl
    rw [h _ _ _ _ hsr, received, hpay, hdec, hlead]
    rfl
  have hfits := hg.fits_of_ne hs _ _ _ hsr hv (by rw [hcall]; simp)
  refine ⟨?_, ?_⟩
  · intro herr hsucc
    rw [hsucc] at hfits
    rw [carriesData_iff hsucc, ← hg.data_eq hs hsucc hfits, hdata, dataOf_of_ne_success (by rw [herr]; decide)]
  unfold NamesApart
  rw [← hpayload]
  rw [← hg.payload_types hs hfits] at hdec
  rcases handler_of_apart hg.apart hg.handlers hs hsr with ⟨resp, hr, ho, hfind⟩ | ⟨error, hr, ho, hfind⟩ | ⟨ho, hsucc, herr⟩
  · rw [ho] at hcall hfits hdec
    have hdataOf := hg.data_eq hs ho hfits
    rw [ho, ← hdataOf]
    refine successArm_free hv hg.raw_alone hlen hblank hfind hfits hdec ?_ hcall
    intro field hfield
    obtain ⟨d, rfl, hne⟩ := hleadne field (hdataOf.symm.trans hfield)
    obtain ⟨rest, hfs⟩ := List.head?_eq_some_iff.mp (dataOf_head (hdataOf.symm.trans hfield))
    exact ⟨field, rest, d, vs, hfs, rfl, hne⟩
  · rw [ho] at hcall hfits hdec hlead ⊢
    simp only [leadArgs, ho] at hlead
    obtain rfl := Except.ok.inj hlead
    exact errorArm_free hv hg.raw_alone hlen hblank hfind hfits hdec hcall
  · rw [emitMatchArms_always hsucc herr] at hcall
    rw [ho] at hcall hfits hdec hlead ⊢
    simp only [leadArgs, ho] at hlead
    obtain rfl := Except.ok.inj hlead
    exact alwaysArm_free hv hg.raw_alone hlen hblank hfits hdec hcall

end Record

theorem functionNames_renamed (hren : List.Forall₂ Renamed variants variants') :
    variants'.map MsgVariant.functionName = variants.map MsgVariant.functionName := by
  induction hren with
  | nil => rfl
  | cons h _ ih => rw [List.map_cons, List.map_cons, h.functionName, ih]

/-- Under any other names for the parameters, a reply is handed to its method with its
    values exactly when no payload parameter of the id's first method has the name of a
    variable that the method's arm reads, and that first method does not hide the method's
    data. -/
theorem payload_names_iff [DecidableEq Ty] {out : Emit (List (ReplyData Ty))} (built : asReplyData variants = some out)
    (accepted : out.Clean) (hfn : (variants.map MsgVariant.functionName).Nodup)
    (hren : List.Forall₂ Renamed variants variants') (hnames : ∀ v ∈ variants', (names (payloadOf v)).Nodup) :
    ∃ served' out', allServed variants' = some served' ∧ asReplyData variants' = some out' ∧
      ∀ s ∈ served', ∃ first ∈ (ofKey Served.replyId s.replyId served').head?, ∃ rd ∈ out'.val, rd.replyId = s.replyId ∧
        (Receives variants' rd s.method ↔ KeepsData first.method s.method ∧ NamesApart first.method s.method) := by
  obtain ⟨served, hs, hgrp⟩ := asReplyData_grouped built accepted
  obtain ⟨served', hs', hsame⟩ := allServed_renamed hren hs
  refine ⟨served', records served', hs', asReplyData_eq hs', ?_⟩
  intro s' hmem'
  obtain ⟨s, hmem, hss⟩ := (forall₂_mem hsame).2 s' hmem'
  obtain ⟨rd, hrd, hkey⟩ := hgrp.has_record s hmem
  obtain ⟨rd', hrd', hkey'⟩ := (records_grouped served').has_record s' hmem'
  have hg := hgrp.describes rd hrd
  have hk := (records_grouped served').describes rd' hrd'
  rw [hkey, ← hss.replyId] at hg
  rw [hkey'] at hk
  have hg' := hg.renamed (ofKey_renamed hsame s'.replyId) hk
  obtain ⟨first, hfirst, -, -, hpayload⟩ := hg'.first
  refine ⟨first, hfirst, rd', hrd', hkey', ?_⟩
  have hs'g : s' ∈ ofKey Served.replyId s'.replyId served' := mem_ofKey.mpr ⟨hmem', rfl⟩
  have hv : variants'.find? (fun w => decide (w.functionName = s'.method.functionName)) = some s'.method :=
    find?_of_nodup (by rwa [functionNames_renamed hren]) (method_of_served hs' hmem').1
  constructor
  · intro h
    exact hg'.apart_of_receives hfirst hs'g hv h
  · intro ⟨hkeeps, hapart⟩
    have hnodup : (names rd'.payload).Nodup := by
      rw [hpayload]
      exact hnames _ (method_of_served hs' (mem_ofKey.mp (List.mem_of_mem_head? hfirst)).1).1
    exact hg'.receives_of hfirst hs'g hv hnodup hkeeps hapart

/-! ## A parameter named `gas_used` -/

/-- `reply_on = error`, with one payload parameter. -/
def onFailedWith (name : Ident) : MsgVariant Unit :=
  ⟨"OnFailed", "on_failed", [⟨"error", (), []⟩, ⟨name, (), []⟩], ⟨.reply, ["sent"], .error⟩, none⟩

def failedRecord (name : Ident) : ReplyData Unit :=
  ⟨"SENT_REPLY_ID", "sent", [("on_failed", .error)], none, [⟨name, (), []⟩]⟩

theorem onFailedWith_renamed (name name' : Ident) : Renamed (onFailedWith name) (onFailedWith name') :=
  ⟨rfl, rfl, .cons ⟨rfl, rfl⟩ (.cons ⟨rfl, rfl⟩ .nil)⟩

theorem payload_names_reason : Receives [onFailedWith "reason"] (failedRecord "reason") (onFailedWith "reason") := by
  have built : asReplyData [onFailedWith "note"] = some ⟨[failedRecord "note"], []⟩ := by decide
  obtain ⟨served', out', hs', hout', h⟩ := payload_names_iff built rfl (by decide)
    (.cons (onFailedWith_renamed "note" "reason") .nil) (by decide)
  have hs : allServed [onFailedWith "reason"] = some [⟨onFailedWith "reason", "sent", "SENT_REPLY_ID"⟩] := by decide
  have hout : asReplyData [onFailedWith "reason"] = some ⟨[failedRecord "reason"], []⟩ := by decide
  obtain rfl := Option.some.inj (hs.symm.trans hs')
  obtain rfl := Option.some.inj (hout.symm.trans hout')
  obtain ⟨first, hfirst, rd, hrd, -, hiff⟩ := h _ List.mem_cons_self
  obtain rfl : rd = failedRecord "reason" := List.mem_singleton.mp hrd
  obtain rfl : _ = first := Option.some.inj hfirst
  refine hiff.mpr ⟨?_, ?_⟩
  · intro _ hsucc
    cases hsucc
  · unfold NamesApart
    decide

/-- JSON numbers without a sign. -/
def numCodec : Codec Unit Unit where
  wire := fun _ => ⟨fun v => match v with | .u64 n => .num n | _ => .null,
    fun j => match j with | .num n => some (.u64 n.toNat) | _ => none,
    fun v => match v with | .num n => some (.u64 n.toNat) | _ => none, none, none⟩
  inner := id
  print := fun _ => []
  parse := fun b => .ok (.num (b.foldl (fun n d => 10 * n + (d.toNat - 48)) 0 : Nat))
  mismatch := fun _ => "Invalid type"
  parseExecuteResponseData := fun b => .ok (some b)
  parseInstantiateResponseData := fun _ => .error "failed to decode Protobuf message"

/-- Accepted under both names; as `gas_used: u64`, the payload parameter is what the method
    finds in its context: 5 and not the 7 of the reply. -/
theorem gas_used_captured : asReplyData [onFailedWith "note"] = some ⟨[failedRecord "note"], []⟩ ∧
    asReplyData [onFailedWith "gas_used"] = some ⟨[failedRecord "gas_used"], []⟩ ∧
    Renamed (onFailedWith "note") (onFailedWith "gas_used") ∧
    (failedRecord "gas_used").emitMatchArms numCodec [onFailedWith "gas_used"]
      (replyScope ⟨12, none⟩ ⟨0, [53], 7, .err "out of gas"⟩) (.err "out of gas") =
      .ok (.call ⟨"on_failed", [.deps, .env ⟨12, none⟩, .u64 5, .events [], .responses []],
        [.string "out of gas", .u64 5]⟩) ∧
    ¬ Receives [onFailedWith "gas_used"] (failedRecord "gas_used") (onFailedWith "gas_used") := by
  refine ⟨by decide, by decide, onFailedWith_renamed _ _, rfl, ?_⟩
  intro h
  have hcall := h Unit numCodec ⟨12, none⟩ ⟨0, [53], 7, .err "out of gas"⟩ rfl
  have hgas : (5 : Nat) = 7 := by
    have := Tail.call.inj (Except.ok.inj hcall)
    injection this with _ hctx _
    injection hctx with _ hctx
    injection hctx with _ hctx
    injection hctx with hgas _
    exact Val.u64.inj hgas
  cases hgas

end Sylvia.Contract
