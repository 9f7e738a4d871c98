/-
  Sylvia.Contract.ReplyReached — which method a reply reaches when its parameters may
  have any names.

  A payload parameter that shares a name with a variable of the arm hides it. The code
  then compiles only if the types agree by chance; what is called stays the same. So
  nothing is asked of the names here: the code is not ill-typed on the reply, and what
  the arm decodes does decode.

  Proved: `RecordOf.reached`: the method that handles the result is called.
-/
import Sylvia.Contract.Replies

namespace Sylvia.Contract

open Sylvia.Base Sylvia.Parser Sylvia.Types
open Sylvia.CwStd (Binary SubMsgResponse SubMsgResult Env)

variable {Ty V : Type}

/-! ## Bound variables -/

def Scope.Bound (σ : Scope V) (x : Ident) : Prop := ∃ v, σ.get x = .ok v

theorem get_bind_eq (σ : Scope V) (xs : List Ident) (vs : List (Val V)) (x : Ident) :
    (σ.bind xs vs).get x = match (xs.zip vs).lookup x with
      | some v => .ok v
      | none => σ.get x := by
  simp only [Scope.get, Scope.bind, List.lookup_append]
  cases (xs.zip vs).lookup x <;> rfl

theorem Scope.Bound.bind {σ : Scope V} {x : Ident} (h : σ.Bound x) (xs : List Ident) (vs : List (Val V)) :
    (σ.bind xs vs).Bound x := by
  unfold Scope.Bound
  rw [get_bind_eq]
  cases (xs.zip vs).lookup x with
  | some v => exact ⟨v, rfl⟩
  | none => exact h

theorem bound_of_mem {σ : Scope V} {x : Ident} {xs : List Ident} {vs : List (Val V)} (hlen : xs.length = vs.length)
    (hx : x ∈ xs) : (σ.bind xs vs).Bound x := by
  obtain ⟨v, -, hv⟩ := exists_lookup_zip hlen hx
  exact ⟨v, by rw [get_bind_eq, hv]⟩

theorem bound_replyScope (env : Env) (msg : CwStd.Reply) {x : Ident}
    (hx : x ∈ ["deps", "env", "id", "payload", "gas_used", "result"]) : (replyScope env msg : Scope V).Bound x := by
  fin_cases hx <;> exact ⟨_, by simp [Scope.get, replyScope, List.lookup]; rfl⟩

theorem emitCall_reached {σ : Scope V} (hd : σ.Bound "deps") (he : σ.Bound "env") (hg : σ.Bound "gas_used")
    {lead : List Ident} (hl : ∀ x ∈ lead, σ.Bound x) {payload : List (MsgField Ty)} (hp : ∀ x ∈ names payload, σ.Bound x)
    (method : Ident) (ctx : List (Val V)) :
    ∃ call, emitCall method ctx lead payload σ = .ok (.call call) ∧ call.function = method := by
  obtain ⟨vd, hvd⟩ := hd
  obtain ⟨ve, hve⟩ := he
  obtain ⟨vg, hvg⟩ := hg
  obtain ⟨args, hargs⟩ := exists_mapM_ok_iff.mpr fun x hx => (List.mem_append.mp hx).elim (hl x) (hp x)
  exact ⟨⟨method, vd :: ve :: vg :: ctx, args⟩, by simp [emitCall, hvd, hve, hvg, hargs, bind, Except.bind], rfl⟩

theorem responseCall_reached {σ : Scope V} (hev : σ.Bound "events") (hr : σ.Bound "msg_responses")
    (hd : σ.Bound "deps") (he : σ.Bound "env") (hg : σ.Bound "gas_used") {lead : List Ident}
    (hl : ∀ x ∈ lead, σ.Bound x) {payload : List (MsgField Ty)} (hp : ∀ x ∈ names payload, σ.Bound x) (method : Ident) :
    ∃ call, responseCall method lead payload σ = .ok (.call call) ∧ call.function = method := by
  obtain ⟨events, hevents⟩ := hev
  obtain ⟨responses, hresponses⟩ := hr
  simp only [responseCall, hevents, hresponses, bind, Except.bind]
  exact emitCall_reached hd he hg hl hp _ _

/-! ## Arms -/

variable {variants : List (MsgVariant Ty)} {v : MsgVariant Ty} {rd : ReplyData Ty}

/-- Code that is not ill-typed has as many arguments as parameters. -/
theorem fits_of_ne {α : Type} {n : Nat} {k : List Ty → Except Stop α}
    (hv : variants.find? (fun w => decide (w.functionName = v.functionName)) = some v)
    (h : (paramTypes variants v.functionName n).bind k ≠ .error .illTyped) : v.fields.length = n := by
  by_contra hn
  simp [paramTypes, hv, hn, Except.bind] at h

/-- What `data` is bound to once the payload is: a parameter of that name hides the
    response's. -/
def dataVar (payload : List (MsgField Ty)) (vs : List (Val V)) (sent : Option Binary) : Val V :=
  (((names payload).zip vs).lookup "data").getD (optBinary sent)

theorem payloadCall_reached (c : Codec Ty V) {payload : List (MsgField Ty)} {tys : List Ty} {σ : Scope V} {b : Binary}
    {vs : List (Val V)} (hd : σ.Bound "deps") (he : σ.Bound "env") (hg : σ.Bound "gas_used")
    (hp : σ.get "payload" = .ok (.binary b)) (hraw : isPayloadMarked payload = true → payload.length = 1)
    (htys : tys.length = payload.length) (hdec : decodePayload c payload tys b = .ok vs) {x : Ident} (hx : σ.Bound x)
    (method : Ident) (ctx : List (Val V)) :
    ∃ call, (do let σ ← emitPayloadDeserialization c payload tys σ
                emitCall method ctx [x] payload σ) = .ok (.call call) ∧ call.function = method := by
  have hlen : (names payload).length = vs.length := by simp [names, decodePayload_length hdec hraw htys]
  rw [emitPayloadDeserialization_eq c tys hp hraw, hdec]
  refine emitCall_reached (hd.bind _ _) (he.bind _ _) (hg.bind _ _) (fun y hy => ?_) (fun y hy => bound_of_mem hlen hy) _ _
  rw [List.mem_singleton.mp hy]
  exact hx.bind _ _

section

variable (c : Codec Ty V) (env : Env) (msg : CwStd.Reply) {vs : List (Val V)}
  (hv : variants.find? (fun w => decide (w.functionName = v.functionName)) = some v)
  (hraw : isPayloadMarked rd.payload = true → rd.payload.length = 1)

include hv hraw

theorem alwaysArm_reached (hwt : rd.emitAlwaysArm c variants v.functionName (replyScope env msg) ≠ .error .illTyped)
    (hdec : decodePayload c rd.payload ((v.fields.map MsgField.ty).drop 1) msg.payload = .ok vs) :
    ∃ call, rd.emitAlwaysArm c variants v.functionName (replyScope env msg) = .ok (.call call) ∧
      call.function = v.functionName := by
  have hn := fits_of_ne hv hwt
  simp only [ReplyData.emitAlwaysArm, paramTypes_eq hv hn]
  exact payloadCall_reached c (bound_replyScope env msg (by simp)) (bound_replyScope env msg (by simp))
    (bound_replyScope env msg (by simp)) (get_payload_replyScope env msg) hraw (by simp [hn]) hdec
    (bound_replyScope env msg (by simp)) _ _

theorem errorArm_reached {error : String} (hfind : rd.findHandler .error = some (v.functionName, .error))
    (hwt : rd.emitErrorMatchArm c variants (replyScope env msg) error ≠ .error .illTyped)
    (hdec : decodePayload c rd.payload ((v.fields.map MsgField.ty).drop 1) msg.payload = .ok vs) :
    ∃ call, rd.emitErrorMatchArm c variants (replyScope env msg) error = .ok (.call call) ∧
      call.function = v.functionName := by
  simp only [ReplyData.emitErrorMatchArm, hfind] at hwt ⊢
  have hn := fits_of_ne hv hwt
  rw [paramTypes_eq hv hn]
  have hb {x : Ident} (hx : x ∈ ["deps", "env", "id", "payload", "gas_used", "result"]) :
      ((replyScope env msg : Scope V).bind ["error"] [.string error]).Bound x := (bound_replyScope env msg hx).bind _ _
  exact payloadCall_reached c (hb (by simp)) (hb (by simp)) (hb (by simp))
    (by rw [get_bind_fresh (by decide), get_payload_replyScope]) hraw (by simp [hn]) hdec
    (bound_of_mem rfl (by simp)) _ _

theorem successArm_reached {resp : SubMsgResponse} (hfind : rd.findHandler .success = some (v.functionName, .success))
    (hwt : rd.emitSuccessMatchArm c variants (replyScope env msg) resp ≠ .error .illTyped)
    (hdec : decodePayload c rd.payload ((v.fields.map MsgField.ty).drop (leadCount rd .success)) msg.payload = .ok vs)
    (hdata : ∀ field, rd.data = some field → ∀ f, v.fields.head? = some f →
      ∃ d, ∀ env, deserializeData c (dataParams field) f.ty env (dataVar rd.payload vs resp.data) = .ok d) :
    ∃ call, rd.emitSuccessMatchArm c variants (replyScope env msg) resp = .ok (.call call) ∧
      call.function = v.functionName := by
  have hn : v.fields.length = leadCount rd .success + rd.payload.length := by
    simp only [ReplyData.emitSuccessMatchArm, hfind, dataLead_length] at hwt
    exact fits_of_ne hv hwt
  have hlen : (names rd.payload).length = vs.length := by
    simp [names, decodePayload_length hdec hraw (by simp [hn])]
  set σ : Scope V := (successScope env msg resp).bind (names rd.payload) vs with hσ
  have hb {x : Ident} (hx : x ∈ ["deps", "env", "id", "payload", "gas_used", "result"]) : σ.Bound x :=
    ((bound_replyScope env msg hx).bind _ _).bind _ _
  have hb' {x : Ident} (hx : x ∈ ["msg_responses", "data", "events"]) : σ.Bound x := (bound_of_mem rfl hx).bind _ _
  have hnames : ∀ x ∈ names rd.payload, σ.Bound x := fun x hx => bound_of_mem hlen hx
  cases hd : rd.data with
  | none =>
    simp only [leadCount, hd, Option.isSome_none, Bool.false_eq_true, if_false, Nat.zero_add, List.drop_zero] at hn hdec
    simp only [successArm_plain c env msg hv hraw hfind hd hn, hdec, Except.bind]
    exact responseCall_reached (hb' (by simp)) (hb' (by simp)) (hb (by simp)) (hb (by simp)) (hb (by simp)) (by simp)
      hnames v.functionName
  | some field =>
    obtain ⟨f, fs, hfs, hn⟩ := fields_of_data hd hn
    simp only [leadCount, hd, hfs, Option.isSome_some, if_true, List.map_cons, List.drop_succ_cons, List.drop_zero] at hdec
    have hvar : σ.get "data" = .ok (dataVar rd.payload vs resp.data) := by
      rw [hσ, get_bind_eq, dataVar, get_data_successScope]
      cases ((names rd.payload).zip vs).lookup "data" <;> rfl
    obtain ⟨e, he⟩ := hb (x := "env") (by simp)
    obtain ⟨d, hdec'⟩ := hdata field hd f (by rw [hfs]; rfl)
    simp only [successArm_withData c env msg hv hraw hfind hd hfs hn, hdec, Except.bind, ← hσ, emitDataDeserialization,
      hvar, he, bind] at hwt ⊢
    -- a parameter that hides `env` makes the arm ill-typed
    cases e with
    | env env' =>
      simp only [hdec']
      have hb2 {x : Ident} (hx : σ.Bound x) : (σ.bind ["data"] [d]).Bound x := hx.bind _ _
      exact responseCall_reached (hb2 (hb' (by simp))) (hb2 (hb' (by simp))) (hb2 (hb (by simp))) (hb2 (hb (by simp)))
        (hb2 (hb (by simp))) (fun x hx => bound_of_mem rfl hx) (fun x hx => hb2 (hnames x hx)) v.functionName
    | _ => exact absurd rfl hwt

end

/-- A reply that a method of the record handles calls it, unless what the arm decodes
    does not decode. -/
theorem RecordOf.reached {g : List (Served Ty)} (hg : RecordOf g rd) {s : Served Ty} (hs : s ∈ g) (c : Codec Ty V)
    (env : Env) (msg : CwStd.Reply) (hsr : handles s.method.replyOn msg.result = true)
    (hv : variants.find? (fun w => decide (w.functionName = s.method.functionName)) = some s.method) {vs : List (Val V)}
    (hwt : rd.emitMatchArms c variants (replyScope env msg) msg.result ≠ .error .illTyped)
    (hdec : decodePayload c rd.payload ((s.method.fields.map MsgField.ty).drop (leadCount rd s.method.replyOn))
      msg.payload = .ok vs)
    (hdata : ∀ resp, msg.result = .ok resp → s.method.replyOn = .success → ∀ field, rd.data = some field →
      ∀ f, s.method.fields.head? = some f →
        ∃ d, ∀ env, deserializeData c (dataParams field) f.ty env (dataVar rd.payload vs resp.data) = .ok d) :
    ∃ call, rd.emitMatchArms c variants (replyScope env msg) msg.result = .ok (.call call) ∧
      call.function = s.method.functionName := by
  have hraw := hg.raw_alone
  rcases handler_of_apart hg.apart hg.handlers hs hsr with ⟨resp, hr, ho, hfind⟩ | ⟨error, hr, ho, hfind⟩ | ⟨ho, hsucc, herr⟩
  · rw [ho] at hdec
    simp only [hr, ReplyData.emitMatchArms] at hwt ⊢
    exact successArm_reached c env msg hv hraw hfind hwt hdec (hdata resp hr ho)
  · rw [ho] at hdec
    simp only [hr, ReplyData.emitMatchArms] at hwt ⊢
    exact errorArm_reached c env msg hv hraw hfind hwt hdec
  · rw [ho] at hdec
    rw [emitMatchArms_always hsucc herr] at hwt ⊢
    exact alwaysArm_reached c env msg hv hraw hwt hdec

end Sylvia.Contract
