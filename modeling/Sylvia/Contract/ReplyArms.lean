/-
  Sylvia.Contract.ReplyArms — what the generated reply code does, arm by arm.

  Proved:
  - `payload_round_trip`: what a sub-message carries is decoded to the values it was given.
  - `alwaysArm_eq`, `errorArm_eq`, `successArm_eq`: the call an arm makes when no payload
    parameter has the name of one of its variables.
  - `dispatchReply_eq`: a reply goes to the record at the index that is its id.
-/
import Sylvia.Contract.ReplyDispatch

namespace Sylvia.Contract

open Sylvia.Base Sylvia.Parser Sylvia.Types
open Sylvia.CwStd (Binary Event StdError SubMsg CosmosMsg MsgResponse SubMsgResponse SubMsgResult Env Payloads)

variable {Ty V : Type} {P : Payloads} {T : Type}

/-! ## Looking names up -/

theorem lookup_bind_fresh {σ : Scope V} {x : Ident} : ∀ {xs : List Ident} {vs : List (Val V)}, x ∉ xs →
    (σ.bind xs vs).lookup x = σ.lookup x
  | [], _, _ => rfl
  | _ :: _, [], _ => rfl
  | y :: xs, v :: vs, h => by
    rw [List.mem_cons, not_or] at h
    have hne : (x == y) = false := by simpa using h.1
    have ih : (σ.bind xs vs).lookup x = σ.lookup x := lookup_bind_fresh h.2
    simpa [Scope.bind, List.lookup_cons, hne] using ih

theorem get_bind_fresh {σ : Scope V} {x : Ident} {xs : List Ident} {vs : List (Val V)} (h : x ∉ xs) :
    (σ.bind xs vs).get x = σ.get x := by
  rw [Scope.get, Scope.get, lookup_bind_fresh h]

theorem mapM_get_congr {σ σ' : Scope V} {xs : List Ident} (h : ∀ x ∈ xs, σ.get x = σ'.get x) :
    xs.mapM σ.get = xs.mapM σ'.get := by
  induction xs with
  | nil => rfl
  | cons x xs ih =>
    rw [List.mapM_cons, List.mapM_cons, h x List.mem_cons_self, ih fun y hy => h y (List.mem_cons_of_mem _ hy)]

theorem get_bind {σ : Scope V} {xs : List Ident} (hn : xs.Nodup) {vs : List (Val V)} (hlen : xs.length = vs.length) :
    xs.mapM (σ.bind xs vs).get = .ok vs := by
  induction xs generalizing vs σ with
  | nil => cases vs with
    | nil => rfl
    | cons => cases hlen
  | cons x xs ih =>
    cases vs with
    | nil => cases hlen
    | cons v vs =>
      obtain ⟨hx, hn⟩ := List.nodup_cons.mp hn
      have hrest : xs.mapM (σ.bind (x :: xs) (v :: vs)).get = .ok vs := by
        rw [← ih (σ := σ) hn (by simpa using hlen)]
        apply mapM_get_congr
        intro y hy
        have hne : (y == x) = false := by
          rw [beq_eq_false_iff_ne]
          rintro rfl; exact hx hy
        simp [Scope.get, Scope.bind, List.lookup_cons, hne]
      rw [List.mapM_cons, hrest]
      simp [Scope.get, Scope.bind, bind, Except.bind, pure, Except.pure]

/-- The variables of the arms. -/
def armVariables : List Ident :=
  ["deps", "env", "id", "payload", "gas_used", "result", "events", "data", "msg_responses", "error"]

/-- Distinct payload parameters, none named like a variable of the arms. -/
structure FreshPayload (payload : List (MsgField Ty)) : Prop where
  nodup : (names payload).Nodup
  fresh : ∀ x ∈ armVariables, x ∉ names payload

/-- The variables that an arm of a method for `on` reads once the payload is bound. -/
def readAfter (data : Option (MsgField Ty)) : ReplyOn → List Ident
  | .success => ["deps", "env", "gas_used", "events", "msg_responses"] ++ if data.isSome then ["data"] else []
  | .error => ["deps", "env", "gas_used", "error"]
  | .always => ["deps", "env", "gas_used", "result"]

/-- Distinct payload parameters, none named like one of the variables. -/
structure Uncaptured (vars : List Ident) (payload : List (MsgField Ty)) : Prop where
  nodup : (names payload).Nodup
  free : ∀ x ∈ vars, x ∉ names payload

theorem FreshPayload.uncaptured {payload : List (MsgField Ty)} (h : FreshPayload payload) (data : Option (MsgField Ty))
    (on : ReplyOn) : Uncaptured (readAfter data on) payload := by
  have hsub : ∀ x ∈ readAfter data on, x ∈ armVariables := by
    cases on <;> cases hd : data.isSome <;> simp only [readAfter, hd] <;> decide
  exact ⟨h.nodup, fun x hx => h.fresh x (hsub x hx)⟩

/-- A scope in which the reply's own variables are what they were bound to. -/
structure Reads (σ : Scope V) (env : Env) (gasUsed : Nat) : Prop where
  deps : σ.get "deps" = .ok .deps
  env : σ.get "env" = .ok (.env env)
  gasUsed : σ.get "gas_used" = .ok (.u64 gasUsed)

theorem reads_replyScope (env : Env) (msg : CwStd.Reply) : Reads (replyScope env msg : Scope V) env msg.gasUsed :=
  ⟨by simp [Scope.get, replyScope, List.lookup], by simp [Scope.get, replyScope, List.lookup],
    by simp [Scope.get, replyScope, List.lookup]⟩

theorem get_payload_replyScope (env : Env) (msg : CwStd.Reply) :
    (replyScope env msg : Scope V).get "payload" = .ok (.binary msg.payload) := by
  simp [Scope.get, replyScope, List.lookup]

theorem Reads.bind {σ : Scope V} {env : Env} {gasUsed : Nat} (h : Reads σ env gasUsed) {xs : List Ident}
    {vs : List (Val V)} (hd : "deps" ∉ xs) (he : "env" ∉ xs) (hg : "gas_used" ∉ xs) :
    Reads (σ.bind xs vs) env gasUsed :=
  ⟨by rw [get_bind_fresh hd, h.deps], by rw [get_bind_fresh he, h.env], by rw [get_bind_fresh hg, h.gasUsed]⟩

theorem Reads.bindPayload {σ : Scope V} {env : Env} {gasUsed : Nat} (h : Reads σ env gasUsed)
    {payload : List (MsgField Ty)} {vars : List Ident}
    (hf : Uncaptured ("deps" :: "env" :: "gas_used" :: vars) payload) (vs : List (Val V)) :
    Reads (σ.bind (names payload) vs) env gasUsed :=
  h.bind (hf.free _ (by simp)) (hf.free _ (by simp)) (hf.free _ (by simp))

/-- A scope in which a success response is taken apart. -/
structure ReadsResponse (σ : Scope V) (resp : SubMsgResponse) : Prop where
  events : σ.get "events" = .ok (.events resp.events)
  responses : σ.get "msg_responses" = .ok (.responses resp.msgResponses)

theorem ReadsResponse.bind {σ : Scope V} {resp : SubMsgResponse} (h : ReadsResponse σ resp) {xs : List Ident}
    {vs : List (Val V)} (he : "events" ∉ xs) (hm : "msg_responses" ∉ xs) : ReadsResponse (σ.bind xs vs) resp :=
  ⟨by rw [get_bind_fresh he, h.events], by rw [get_bind_fresh hm, h.responses]⟩

/-! ## The payload -/

/-- What the payload variables are bound to. -/
def decodePayload (c : Codec Ty V) (payload : List (MsgField Ty)) (tys : List Ty) (b : Binary) :
    Except Stop (List (Val V)) :=
  if isPayloadMarked payload then .ok [.binary b]
  else match c.fromJson tys b with
    | .ok vs => .ok vs
    | .error e => .error (.returned (.genericErr e))

theorem emitPayloadDeserialization_eq (c : Codec Ty V) {payload : List (MsgField Ty)} (tys : List Ty) {σ : Scope V}
    {b : Binary} (hp : σ.get "payload" = .ok (.binary b)) (hraw : isPayloadMarked payload = true → payload.length = 1) :
    emitPayloadDeserialization c payload tys σ =
      (decodePayload c payload tys b).map fun vs => σ.bind (names payload) vs := by
  simp only [emitPayloadDeserialization, hp, decodePayload, Except.bind, bind]
  by_cases hm : isPayloadMarked payload = true
  · obtain ⟨f, rfl⟩ := List.length_eq_one_iff.mp (hraw hm)
    simp [hm, names, Except.map]
  · simp only [hm, Bool.false_eq_true, if_false]
    cases c.fromJson tys b <;> rfl

theorem decode_length {c : Codec Ty V} {tys : List Ty} {j : Json} {vs : List (Val V)} (h : c.decode tys j = some vs) :
    vs.length = tys.length := by
  unfold Codec.decode at h
  split at h
  · obtain ⟨v, -, rfl⟩ := Option.map_eq_some_iff.mp h
    rfl
  · split at h
    · rename_i hlen
      have := ((mapM_some_iff _ _ _).mp h).length_eq
      rw [← this, List.length_zip]
      omega
    · cases h
  · cases h

theorem fromJson_length {c : Codec Ty V} {tys : List Ty} {b : Binary} {vs : List (Val V)}
    (h : c.fromJson tys b = .ok vs) : vs.length = tys.length := by
  unfold Codec.fromJson at h
  cases hj : c.parse b with
  | error e => simp [hj, bind, Except.bind] at h
  | ok j =>
    cases hd : c.decode tys j with
    | none => simp [hj, hd, bind, Except.bind] at h
    | some ws =>
      obtain rfl : ws = vs := by simpa [hj, hd, bind, Except.bind] using h
      exact decode_length hd

theorem decodePayload_length {c : Codec Ty V} {payload : List (MsgField Ty)} {tys : List Ty} {b : Binary}
    {vs : List (Val V)} (h : decodePayload c payload tys b = .ok vs)
    (hraw : isPayloadMarked payload = true → payload.length = 1) (htys : tys.length = payload.length) :
    vs.length = payload.length := by
  unfold decodePayload at h
  split at h
  · rename_i hm
    rw [hraw hm, ← Except.ok.inj h]
    rfl
  · split at h
    · rename_i ws hws
      rw [← Except.ok.inj h, fromJson_length hws, htys]
    · cases h

/-- The values fit the payload parameters: a binary for a raw one, else values that
    their types read back from what they write. -/
def Sendable (c : Codec Ty V) (payload : List (MsgField Ty)) (vs : List (Val V)) : Prop :=
  if isPayloadMarked payload then ∃ b, vs = [.binary b]
  else List.Forall₂ (fun ty v => (c.wire ty).de ((c.wire ty).ser v) = some v) (payload.map MsgField.ty) vs ∧
    c.parse (c.toJsonBinary (payload.map MsgField.ty) vs) = .ok (c.toJson (payload.map MsgField.ty) vs)

theorem decode_toJson {c : Codec Ty V} {tys : List Ty} {vs : List (Val V)}
    (h : List.Forall₂ (fun ty v => (c.wire ty).de ((c.wire ty).ser v) = some v) tys vs) :
    c.decode tys (c.toJson tys vs) = some vs := by
  have pairs : (tys.zip (List.zipWith (fun ty v => (c.wire ty).ser v) tys vs)).mapM
      (fun p => (c.wire p.1).de p.2) = some vs := by
    rw [mapM_some_iff]
    induction h with
    | nil => exact .nil
    | cons h _ ih => exact .cons h ih
  have hlen := h.length_eq
  match tys, vs, h with
  | [], [], _ => rfl
  | [ty], [v], h =>
    have hv : (c.wire ty).de ((c.wire ty).ser v) = some v := by simpa using h
    simp [Codec.toJson, Codec.decode, hv]
  | ty :: ty' :: tys, v :: v' :: vs, _ =>
    rw [Codec.toJson, Codec.decode, if_pos (by simp at hlen ⊢; omega)]
    · exact pairs
    all_goals simp

/-- What a sub-message carries is decoded to the values it was given. -/
theorem payload_round_trip {c : Codec Ty V} {payload : List (MsgField Ty)} {vs : List (Val V)}
    (hn : (names payload).Nodup) (hraw : isPayloadMarked payload = true → payload.length = 1)
    (h : Sendable c payload vs) :
    ∃ b, emitPayloadSerialization c payload (Scope.bind [] (names payload) vs) = .ok b ∧
      decodePayload c payload (payload.map MsgField.ty) b = .ok vs := by
  unfold Sendable at h
  unfold emitPayloadSerialization decodePayload
  split at h
  · rename_i hm
    obtain ⟨b, rfl⟩ := h
    obtain ⟨f, rfl⟩ := List.length_eq_one_iff.mp (hraw hm)
    exact ⟨b, by simp [hm, names, Scope.bind, Scope.get, bind, Except.bind], by simp [hm]⟩
  · rename_i hm
    obtain ⟨hrt, hparse⟩ := h
    have hlen : (names payload).length = vs.length := by simpa [names] using hrt.length_eq
    refine ⟨c.toJsonBinary (payload.map MsgField.ty) vs, ?_, ?_⟩
    · simp [hm, get_bind hn hlen, bind, Except.bind]
    · simp [hm, Codec.fromJson, hparse, decode_toJson hrt, bind, Except.bind]

/-! ## The arms -/

theorem emitCall_eq {σ : Scope V} {env : Env} {gasUsed : Nat} (hr : Reads σ env gasUsed) {payload : List (MsgField Ty)}
    {vs : List (Val V)} (hvs : (names payload).mapM σ.get = .ok vs) {lead : List Ident} {leadVals : List (Val V)}
    (hlead : lead.mapM σ.get = .ok leadVals) (method : Ident) (ctx : List (Val V)) :
    emitCall method ctx lead payload σ =
      .ok (.call ⟨method, .deps :: .env env :: .u64 gasUsed :: ctx, leadVals ++ vs⟩) := by
  simp [emitCall, hr.deps, hr.env, hr.gasUsed, List.mapM_append, hlead, hvs, bind, Except.bind, pure, Except.pure]

/-- The end of the arms of `error` and `always` methods. -/
theorem payloadCall_eq (c : Codec Ty V) {payload : List (MsgField Ty)} {tys : List Ty} {σ : Scope V} {env : Env}
    {gasUsed : Nat} {b : Binary} (hr : Reads σ env gasUsed) (hp : σ.get "payload" = .ok (.binary b))
    {x : Ident} (hf : Uncaptured ["deps", "env", "gas_used", x] payload)
    (hraw : isPayloadMarked payload = true → payload.length = 1) (htys : tys.length = payload.length) {v : Val V}
    (hxv : σ.get x = .ok v)
    (method : Ident) (ctx : List (Val V)) :
    (do let σ ← emitPayloadDeserialization c payload tys σ
        emitCall method ctx [x] payload σ) =
      (decodePayload c payload tys b).map fun vs =>
        Tail.call ⟨method, .deps :: .env env :: .u64 gasUsed :: ctx, v :: vs⟩ := by
  rw [emitPayloadDeserialization_eq c tys hp hraw]
  cases hd : decodePayload c payload tys b with
  | error e => rfl
  | ok vs =>
    have hlen : (names payload).length = vs.length := by
      simp [names, decodePayload_length hd hraw htys]
    have hlead : [x].mapM (σ.bind (names payload) vs).get = .ok [v] := by
      simp [get_bind_fresh (hf.free x (by simp)), hxv, bind, Except.bind, pure, Except.pure]
    simpa [Except.map, bind, Except.bind] using
      emitCall_eq (hr.bindPayload hf vs) (get_bind hf.nodup hlen) hlead method ctx

theorem paramTypes_eq {variants : List (MsgVariant Ty)} {v : MsgVariant Ty}
    (hv : variants.find? (fun w => decide (w.functionName = v.functionName)) = some v) {n : Nat}
    (hn : v.fields.length = n) : paramTypes variants v.functionName n = .ok (v.fields.map MsgField.ty) := by
  simp [paramTypes, hv, hn]

/-- The end of a `success` arm. -/
def responseCall (method : Ident) (lead : List Ident) (payload : List (MsgField Ty)) (σ : Scope V) :
    Except Stop (Tail V) := do
  let events ← σ.get "events"
  let msgResponses ← σ.get "msg_responses"
  emitCall method [events, msgResponses] lead payload σ

theorem responseCall_eq {σ : Scope V} {env : Env} {gasUsed : Nat} (hr : Reads σ env gasUsed) {resp : SubMsgResponse}
    (hresp : ReadsResponse σ resp) {payload : List (MsgField Ty)} {vs : List (Val V)}
    (hvs : (names payload).mapM σ.get = .ok vs) {lead : List Ident} {leadVals : List (Val V)}
    (hlead : lead.mapM σ.get = .ok leadVals) (method : Ident) :
    responseCall method lead payload σ =
      .ok (.call ⟨method, [.deps, .env env, .u64 gasUsed, .events resp.events, .responses resp.msgResponses],
        leadVals ++ vs⟩) := by
  simp only [responseCall, hresp.events, hresp.responses, emitCall_eq hr hvs hlead, bind, Except.bind]

/-- What is bound in a `success` arm before the payload. -/
def successScope (env : Env) (msg : CwStd.Reply) (resp : SubMsgResponse) : Scope V :=
  (replyScope env msg).bind ["msg_responses", "data", "events"]
    [.responses resp.msgResponses, optBinary resp.data, .events resp.events]

theorem reads_successScope (env : Env) (msg : CwStd.Reply) (resp : SubMsgResponse) :
    Reads (successScope env msg resp : Scope V) env msg.gasUsed :=
  (reads_replyScope env msg).bind (by decide) (by decide) (by decide)

theorem readsResponse_successScope (env : Env) (msg : CwStd.Reply) (resp : SubMsgResponse) :
    ReadsResponse (successScope env msg resp : Scope V) resp :=
  ⟨by simp [successScope, Scope.get, Scope.bind, List.lookup], by simp [successScope, Scope.get, Scope.bind]⟩

theorem get_payload_successScope (env : Env) (msg : CwStd.Reply) (resp : SubMsgResponse) :
    (successScope env msg resp : Scope V).get "payload" = .ok (.binary msg.payload) := by
  rw [successScope, get_bind_fresh (by decide), get_payload_replyScope]

theorem get_data_successScope (env : Env) (msg : CwStd.Reply) (resp : SubMsgResponse) :
    (successScope env msg resp : Scope V).get "data" = .ok (optBinary resp.data) := by
  simp [successScope, Scope.get, Scope.bind, List.lookup]

/-- The data's parameter stands before the payload's. -/
theorem fields_of_data {rd : ReplyData Ty} {field : MsgField Ty} {fields : List (MsgField Ty)} {n : Nat}
    (hdata : rd.data = some field) (hn : fields.length = (if rd.data.isSome then 1 else 0) + n) :
    ∃ f fs, fields = f :: fs ∧ fs.length = n := by
  cases fields with
  | nil => simp [hdata] at hn; omega
  | cons f fs => exact ⟨f, fs, rfl, by simp [hdata] at hn; omega⟩

section Arms

variable (c : Codec Ty V) {variants : List (MsgVariant Ty)} {v : MsgVariant Ty} {rd : ReplyData Ty} (env : Env)
  (msg : CwStd.Reply)
  (hv : variants.find? (fun w => decide (w.functionName = v.functionName)) = some v)
  (hraw : isPayloadMarked rd.payload = true → rd.payload.length = 1)

include hv hraw

theorem alwaysArm_eq (hf : Uncaptured (readAfter rd.data .always) rd.payload)
    (hn : v.fields.length = 1 + rd.payload.length) :
    rd.emitAlwaysArm c variants v.functionName (replyScope env msg) =
      (decodePayload c rd.payload ((v.fields.map MsgField.ty).drop 1) msg.payload).map fun vs =>
        Tail.call ⟨v.functionName, [.deps, .env env, .u64 msg.gasUsed, .events [], .responses []],
          .result msg.result :: vs⟩ := by
  simp only [ReplyData.emitAlwaysArm, paramTypes_eq hv hn, bind, Except.bind]
  exact payloadCall_eq c (reads_replyScope env msg) (get_payload_replyScope env msg) hf hraw (by simp [hn])
    (by simp [Scope.get, replyScope]) _ _

theorem errorArm_eq (hf : Uncaptured (readAfter rd.data .error) rd.payload) (error : String)
    (hfind : rd.findHandler .error = some (v.functionName, .error))
    (hn : v.fields.length = 1 + rd.payload.length) :
    rd.emitErrorMatchArm c variants (replyScope env msg) error =
      (decodePayload c rd.payload ((v.fields.map MsgField.ty).drop 1) msg.payload).map fun vs =>
        Tail.call ⟨v.functionName, [.deps, .env env, .u64 msg.gasUsed, .events [], .responses []],
          .string error :: vs⟩ := by
  simp only [ReplyData.emitErrorMatchArm, hfind, paramTypes_eq hv hn, bind, Except.bind]
  have hr : Reads ((replyScope env msg : Scope V).bind ["error"] [.string error]) env msg.gasUsed :=
    (reads_replyScope env msg).bind (by decide) (by decide) (by decide)
  exact payloadCall_eq c hr (by rw [get_bind_fresh (by decide), get_payload_replyScope]) hf hraw (by simp [hn])
    (by simp [Scope.get, Scope.bind]) _ _

/-- A `success` arm without data, once the payload is decoded. -/
theorem successArm_plain {resp : SubMsgResponse} (hfind : rd.findHandler .success = some (v.functionName, .success))
    (hdata : rd.data = none) (hn : v.fields.length = rd.payload.length) :
    rd.emitSuccessMatchArm c variants (replyScope env msg) resp =
      (decodePayload c rd.payload (v.fields.map MsgField.ty) msg.payload).bind fun vs =>
        responseCall v.functionName [] rd.payload ((successScope env msg resp).bind (names rd.payload) vs) := by
  have hdec := emitPayloadDeserialization_eq c (v.fields.map MsgField.ty) (get_payload_successScope env msg resp) hraw
  simp only [successScope] at hdec ⊢
  simp only [ReplyData.emitSuccessMatchArm, hfind, hdata, Option.isSome_none, Bool.false_eq_true, if_false,
    List.length_nil, Nat.zero_add, paramTypes_eq hv hn, List.drop_zero, hdec, bind, Except.bind]
  cases decodePayload c rd.payload (v.fields.map MsgField.ty) msg.payload <;> rfl

/-- A `success` arm with data, once the payload is decoded. -/
theorem successArm_withData {resp : SubMsgResponse} (hfind : rd.findHandler .success = some (v.functionName, .success))
    {field f : MsgField Ty} {fs : List (MsgField Ty)} (hdata : rd.data = some field) (hfs : v.fields = f :: fs)
    (hn : fs.length = rd.payload.length) :
    rd.emitSuccessMatchArm c variants (replyScope env msg) resp =
      (decodePayload c rd.payload (fs.map MsgField.ty) msg.payload).bind fun vs =>
        emitDataDeserialization c field f.ty ((successScope env msg resp).bind (names rd.payload) vs) >>=
          responseCall v.functionName ["data"] rd.payload := by
  have hdec := emitPayloadDeserialization_eq c (fs.map MsgField.ty) (get_payload_successScope env msg resp) hraw
  have hlen : v.fields.length = 1 + rd.payload.length := by simp [hfs, hn, Nat.add_comm]
  simp only [successScope] at hdec ⊢
  simp only [ReplyData.emitSuccessMatchArm, hfind, hdata, Option.isSome_some, if_true, paramTypes_eq hv hlen, hfs,
    List.map_cons, List.length_singleton, List.drop_succ_cons, List.drop_zero, hdec, bind, Except.bind]
  cases decodePayload c rd.payload (fs.map MsgField.ty) msg.payload <;> rfl

/-- The data is decoded after the payload, into a variable of its own. -/
theorem successArm_eq (hf : Uncaptured (readAfter rd.data .success) rd.payload) (resp : SubMsgResponse)
    (hfind : rd.findHandler .success = some (v.functionName, .success))
    (hn : v.fields.length = (if rd.data.isSome then 1 else 0) + rd.payload.length) :
    rd.emitSuccessMatchArm c variants (replyScope env msg) resp =
      (decodePayload c rd.payload ((v.fields.map MsgField.ty).drop (if rd.data.isSome then 1 else 0)) msg.payload).bind
        fun vs => (leadData c rd.data v.fields env resp.data).map fun lead =>
          Tail.call ⟨v.functionName, [.deps, .env env, .u64 msg.gasUsed, .events resp.events, .responses resp.msgResponses],
            lead ++ vs⟩ := by
  have hr := (reads_successScope (V := V) env msg resp).bindPayload hf
  have hresp (vs : List (Val V)) : ReadsResponse ((successScope env msg resp).bind (names rd.payload) vs) resp :=
    (readsResponse_successScope env msg resp).bind (hf.free _ (by simp [readAfter])) (hf.free _ (by simp [readAfter]))
  have hvs {tys : List Ty} {vs : List (Val V)} (hd : decodePayload c rd.payload tys msg.payload = .ok vs)
      (htys : tys.length = rd.payload.length) :
      (names rd.payload).mapM ((successScope env msg resp).bind (names rd.payload) vs).get = .ok vs :=
    get_bind hf.nodup (by simp [names, decodePayload_length hd hraw htys])
  cases hdata : rd.data with
  | none =>
    have hn : v.fields.length = rd.payload.length := by simpa [hdata] using hn
    rw [successArm_plain c env msg hv hraw hfind hdata hn]
    simp only [Option.isSome_none, Bool.false_eq_true, if_false, List.drop_zero]
    cases hd : decodePayload c rd.payload (v.fields.map MsgField.ty) msg.payload with
    | error e => rfl
    | ok vs =>
      have hnone : ([] : List Ident).mapM ((successScope env msg resp).bind (names rd.payload) vs).get = .ok [] := rfl
      exact responseCall_eq (hr vs) (hresp vs) (hvs hd (by simp [hn])) hnone v.functionName
  | some field =>
    have hfree : "data" ∉ names rd.payload := hf.free _ (by simp [readAfter, hdata])
    obtain ⟨f, fs, hfs, hn⟩ := fields_of_data hdata hn
    rw [successArm_withData c env msg hv hraw hfind hdata hfs hn]
    simp only [hfs, Option.isSome_some, if_true, List.map_cons, List.drop_succ_cons, List.drop_zero]
    cases hd : decodePayload c rd.payload (fs.map MsgField.ty) msg.payload with
    | error e => rfl
    | ok vs =>
      have hdata1 : ((successScope env msg resp).bind (names rd.payload) vs).get "data" = .ok (optBinary resp.data) := by
        rw [get_bind_fresh hfree, get_data_successScope]
      simp only [Except.bind, emitDataDeserialization, hdata1, (hr vs).env, leadData, bind]
      cases deserializeData c (dataParams field) f.ty env (optBinary resp.data) with
      | error e => rfl
      | ok d =>
        -- the decoded data hides the response's
        set σ := ((successScope env msg resp).bind (names rd.payload) vs).bind ["data"] [d] with hσ
        have hvsd : (names rd.payload).mapM σ.get = .ok vs := by
          rw [← hvs hd (by simp [hn])]
          refine mapM_get_congr fun x hx => get_bind_fresh ?_
          simp only [List.mem_singleton]
          rintro rfl
          exact hfree hx
        have hlead : ["data"].mapM σ.get = .ok [d] := by
          simp [hσ, Scope.get, Scope.bind, bind, Except.bind, pure, Except.pure]
        exact responseCall_eq ((hr vs).bind (by decide) (by decide) (by decide)) ((hresp vs).bind (by decide) (by decide))
          hvsd hlead v.functionName

end Arms

/-! ## The dispatch -/

theorem constant_getElem {rds : List (ReplyData Ty)} (hn : (rds.map ReplyData.replyId).Nodup) {id : Nat}
    {rd : ReplyData Ty} (hi : rds[id]? = some rd) : constant rds rd = some id :=
  lookup_zipIdx hn (by simp [hi])

theorem find?_constant {rds : List (ReplyData Ty)} (hn : (rds.map ReplyData.replyId).Nodup) {id : Nat}
    {rd : ReplyData Ty} (hi : rds[id]? = some rd) :
    (rds.find? fun rd => decide (constant rds rd = some id)) = some rd := by
  refine find?_unique (List.mem_of_getElem? hi) (by simp [constant_getElem hn hi]) ?_
  intro rd' hrd' h
  obtain ⟨j, hj⟩ := List.mem_iff_getElem?.mp hrd'
  have hjid := of_decide_eq_true h
  rw [constant_getElem hn hj, Option.some.injEq] at hjid
  rw [hjid, hi] at hj
  exact (Option.some.inj hj).symm

theorem dispatchReply_eq (c : Codec Ty V) (variants : List (MsgVariant Ty)) {rds : List (ReplyData Ty)}
    (hn : (rds.map ReplyData.replyId).Nodup) (env : Env) {msg : CwStd.Reply} {rd : ReplyData Ty}
    (hi : rds[msg.id]? = some rd) :
    dispatchReply c variants rds env msg = rd.emitMatchArms c variants (replyScope env msg) msg.result := by
  simp only [dispatchReply, find?_constant hn hi]

end Sylvia.Contract
