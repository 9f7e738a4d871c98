/-
  Sylvia.Contract.DataModes — what a `success` method gets for its `sv::data` parameter
  (`contract/communication/reply.rs`: `emit_data_deserialization`).

  The arm rebinds `data` before the call. Six pieces of code do it, one for each legal
  combination of the flags; the `opt` ones are written out next to the strict ones.

  Proved:
  - `dataParams_legal`: an accepted parameter has one of the six combinations.
  - `data_modes`: what each of them makes of the data, that an `opt` mode is its strict
    mode under `Some`, that nothing is called where the data is refused, and that the
    method is called with what `data` is otherwise.
-/
import Sylvia.Contract.Replies

namespace Sylvia.Contract

open Sylvia.Base Sylvia.Parser Sylvia.Types
open Sylvia.CwStd (Binary SubMsgResponse Env)

variable {Ty V : Type}

/-! ## Legal modes -/

def legalModes : List DataFieldParams :=
  [⟨false, false, false⟩, ⟨false, true, false⟩, ⟨true, false, false⟩, ⟨true, true, false⟩, ⟨false, false, true⟩,
    ⟨false, true, true⟩]

theorem mem_legalModes (params : DataFieldParams) :
    params ∈ legalModes ↔ (params.instantiate && params.raw) = false := by
  obtain ⟨raw, opt, inst⟩ := params
  cases raw <;> cases opt <;> cases inst <;> decide

/-- The attributes are read in order: the last `sv::data` counts. -/
theorem parsed_data {attrs : List ParamAttr} {params : DataFieldParams} (h : (parsed attrs).data = some params) :
    .data params ∈ attrs := by
  induction attrs using List.reverseRecOn with
  | nil => simp [parsed] at h
  | append_singleton attrs attr ih =>
    simp only [parsed, List.foldl_append, List.foldl_cons, List.foldl_nil] at h ih
    cases attr with
    | data p => simp at h; simp [h]
    | _ => exact List.mem_append_left _ (ih h)

theorem parsed_data_isSome {attrs : List ParamAttr} {params : DataFieldParams} (h : .data params ∈ attrs) :
    (parsed attrs).data.isSome := by
  induction attrs using List.reverseRecOn with
  | nil => cases h
  | append_singleton attrs attr ih =>
    simp only [parsed, List.foldl_append, List.foldl_cons, List.foldl_nil] at ih ⊢
    rcases List.mem_append.mp h with hm | hm
    · cases attr with
      | data p => rfl
      | _ => exact ih hm
    · obtain rfl := List.mem_singleton.mp hm
      rfl

/-- The mode is the one that the parameter's `sv::data` names. -/
theorem dataParams_eq {field : MsgField Ty} {params : DataFieldParams} (h : .data params ∈ field.attrs)
    (hone : ∀ params', .data params' ∈ field.attrs → params' = params) : dataParams field = params := by
  obtain ⟨params', hp⟩ := Option.isSome_iff_exists.mp (parsed_data_isSome h)
  rw [dataParams, hp, Option.getD_some]
  exact hone params' (parsed_data hp)

theorem dataParams_legal {field : MsgField Ty} (h : Emit.Clean (parseErrors field.attrs)) :
    dataParams field ∈ legalModes := by
  rw [mem_legalModes]
  unfold dataParams
  cases hd : (parsed field.attrs).data with
  | none => rfl
  | some params =>
    unfold parseErrors at h
    have := Emit.clean_forM.mp h _ (parsed_data hd)
    simpa using this

/-! ## The value of `data` -/

/-- What `data` is bound to after the code that deserializes it. -/
def dataYield (c : Codec Ty V) (field : MsgField Ty) (ty : Ty) (σ : Scope V) : Except Stop (Val V) :=
  emitDataDeserialization c field ty σ >>= fun σ => σ.get "data"

variable (c : Codec Ty V) {σ : Scope V} {env : Env} {data : Option Binary}

theorem emitDataDeserialization_eq (hdata : σ.get "data" = .ok (optBinary data)) (henv : σ.get "env" = .ok (.env env))
    (field : MsgField Ty) (ty : Ty) : emitDataDeserialization c field ty σ =
      (deserializeData c (dataParams field) ty env (optBinary data)).map fun d => σ.bind ["data"] [d] := by
  simp only [emitDataDeserialization, hdata, henv, bind, Except.bind]
  cases deserializeData c (dataParams field) ty env (optBinary data) <;> rfl

theorem dataYield_eq (hdata : σ.get "data" = .ok (optBinary data)) (henv : σ.get "env" = .ok (.env env))
    (field : MsgField Ty) (ty : Ty) :
    dataYield c field ty σ = deserializeData c (dataParams field) ty env (optBinary data) := by
  rw [dataYield, emitDataDeserialization_eq c hdata henv]
  cases deserializeData c (dataParams field) ty env (optBinary data) with
  | error e => rfl
  | ok d => simp [Except.map, bind, Except.bind, Scope.get, Scope.bind]

/-- The JSON inside an execute response. -/
theorem executeData_eq (ty : Ty) (env : Env) (b : Binary) : executeData c ty env b =
    match c.parseExecuteResponseData b with
    | .error err => .error (protobufErr err)
    | .ok none => .error missingDataErr
    | .ok (some inner) => match c.parse inner with
      | .error err => .error (invalidReplyDataErr env err)
      | .ok j => match (c.wire ty).de j with
        | some v => .ok v
        | none => .error (invalidReplyDataErr env (c.mismatch j)) := by
  unfold executeData
  cases c.parseExecuteResponseData b with
  | error err => rfl
  | ok inner =>
    cases inner with
    | none => rfl
    | some inner =>
      unfold Codec.fromJson Codec.decode
      cases hp : c.parse inner with
      | error err => simp [hp, bind, Except.bind]
      | ok j => cases hd : (c.wire ty).de j <;> simp [hp, hd, bind, Except.bind]

/-- An `opt` mode is its strict mode under `Some`. -/
theorem deserializeData_opt {params params' : DataFieldParams} (hopt : params = { params' with opt := true })
    (hstrict : params'.opt = false) (ty : Ty) (env : Env) (data : Option Binary) :
    deserializeData c params ty env (optBinary data) =
      match data with
      | some b => (deserializeData c params' (c.inner ty) env (optBinary (some b))).map .some
      | none => .ok .none := by
  obtain ⟨raw, opt, inst⟩ := params'
  obtain rfl : opt = false := hstrict
  subst hopt
  cases raw <;> cases inst <;> cases data <;> rfl

theorem emitData_ok_or_error (field : MsgField Ty) (ty : Ty) (σ : Scope V) :
    (∃ d, emitDataDeserialization c field ty σ = .ok (σ.bind ["data"] [d]) ∧ dataYield c field ty σ = .ok d) ∨
      ∃ e, emitDataDeserialization c field ty σ = .error e ∧ dataYield c field ty σ = .error e := by
  cases he : emitDataDeserialization c field ty σ with
  | error e => exact Or.inr ⟨e, rfl, by rw [dataYield, he]; rfl⟩
  | ok τ =>
    have hτ := he
    unfold emitDataDeserialization at hτ
    obtain ⟨data, -, hτ⟩ := bind_ok_iff.mp hτ
    obtain ⟨env, -, hτ⟩ := bind_ok_iff.mp hτ
    split at hτ
    · obtain ⟨d, -, hτ⟩ := bind_ok_iff.mp hτ
      obtain rfl := Except.ok.inj hτ
      refine Or.inl ⟨d, rfl, ?_⟩
      rw [dataYield, he]
      simp [bind, Except.bind, Scope.get, Scope.bind]
    · cases hτ

/-- The call of a `success` arm with data gets what `data` is bound to, first. -/
theorem emitCall_data {σ : Scope V} {d : Val V} (hd : σ.get "data" = .ok d) {method : Ident} {ctx : List (Val V)}
    {payload : List (MsgField Ty)} {call : ReplyCall V}
    (h : emitCall method ctx ["data"] payload σ = .ok (.call call)) : call.args.head? = some d := by
  unfold emitCall at h
  obtain ⟨deps', -, h⟩ := bind_ok_iff.mp h
  obtain ⟨env, -, h⟩ := bind_ok_iff.mp h
  obtain ⟨gasUsed, -, h⟩ := bind_ok_iff.mp h
  obtain ⟨args, hargs, h⟩ := bind_ok_iff.mp h
  cases h
  cases (mapM_ok_iff _ _ _).mp hargs with
  | cons hfirst _ =>
    rw [hd] at hfirst
    rw [Except.ok.inj hfirst]
    rfl

theorem get_error {σ : Scope V} {x : Ident} {e : Stop} (h : σ.get x = .error e) : e = .illTyped := by
  unfold Scope.get at h
  split at h
  · cases h
  · exact (Except.error.inj h).symm

theorem mapM_get_error {σ : Scope V} {xs : List Ident} {e : Stop} (h : xs.mapM σ.get = .error e) : e = .illTyped := by
  induction xs with
  | nil => cases h
  | cons x xs ih =>
    rw [List.mapM_cons] at h
    cases hx : σ.get x with
    | error e' =>
      rw [hx] at h
      obtain rfl := Except.error.inj h
      exact get_error hx
    | ok v =>
      cases hxs : xs.mapM σ.get with
      | error e' =>
        rw [hx, hxs] at h
        obtain rfl := Except.error.inj h
        exact ih hxs
      | ok vs =>
        rw [hx, hxs] at h
        cases h

/-- Well-typed code gets past a step that can only be ill-typed. -/
theorem bind_typed {α β : Type} {x : Except Stop α} {f : α → Except Stop β} (hx : ∀ {e}, x = .error e → e = .illTyped)
    (h : (x >>= f) ≠ .error .illTyped) : ∃ a, x = .ok a ∧ f a ≠ .error .illTyped := by
  cases x with
  | ok a => exact ⟨a, rfl, h⟩
  | error e =>
    obtain rfl := hx rfl
    exact absurd rfl h

/-- A well-typed call is made. -/
theorem responseCall_typed {method : Ident} {lead : List Ident} {payload : List (MsgField Ty)} {σ : Scope V}
    (h : responseCall method lead payload σ ≠ .error .illTyped) :
    ∃ call, responseCall method lead payload σ = .ok (.call call) ∧ call.function = method := by
  unfold responseCall emitCall at h
  obtain ⟨events, hevents, h⟩ := bind_typed get_error h
  obtain ⟨responses, hresponses, h⟩ := bind_typed get_error h
  obtain ⟨deps', hdeps, h⟩ := bind_typed get_error h
  obtain ⟨env, henv, h⟩ := bind_typed get_error h
  obtain ⟨gasUsed, hgas, h⟩ := bind_typed get_error h
  obtain ⟨args, hargs, -⟩ := bind_typed mapM_get_error h
  refine ⟨⟨method, deps' :: env :: gasUsed :: [events, responses], args⟩, ?_, rfl⟩
  simp only [responseCall, emitCall, hevents, hresponses, hdeps, henv, hgas, hargs, bind, Except.bind]

/-- A `success` arm stops where the data is refused; else, if it is well typed, it calls the
    method and hands the data on. -/
theorem successArm_data {variants : List (MsgVariant Ty)} {rd : ReplyData Ty} {σ₀ σ : Scope V} {resp : SubMsgResponse}
    {method : Ident} {field : MsgField Ty} {ty : Ty} {tys : List Ty}
    (hfind : rd.findHandler .success = some (method, .success)) (hfield : rd.data = some field)
    (htys : paramTypes variants method (1 + rd.payload.length) = .ok (ty :: tys))
    (hpayload : emitPayloadDeserialization c rd.payload tys (σ₀.bind ["msg_responses", "data", "events"]
      [.responses resp.msgResponses, optBinary resp.data, .events resp.events]) = .ok σ) :
    (∀ e, dataYield c field ty σ = .error e → rd.emitSuccessMatchArm c variants σ₀ resp = .error e) ∧
      (∀ d call, dataYield c field ty σ = .ok d → rd.emitSuccessMatchArm c variants σ₀ resp = .ok (.call call) →
        call.args.head? = some d) ∧
      ∀ d, dataYield c field ty σ = .ok d → rd.emitSuccessMatchArm c variants σ₀ resp ≠ .error .illTyped →
        ∃ call, rd.emitSuccessMatchArm c variants σ₀ resp = .ok (.call call) ∧ call.function = method := by
  have harm : rd.emitSuccessMatchArm c variants σ₀ resp =
      emitDataDeserialization c field ty σ >>= responseCall method ["data"] rd.payload := by
    simp only [ReplyData.emitSuccessMatchArm, responseCall, hfind, hfield, Option.isSome_some, if_true, List.length_singleton, htys,
      bind, Except.bind]
    rw [show (ty :: tys).drop 1 = tys from rfl, hpayload]
  rw [harm]
  rcases emitData_ok_or_error c field ty σ with ⟨d, hok, hy⟩ | ⟨e, herr, hy⟩
  · rw [hok, hy]
    refine ⟨by simp, ?_, fun _ _ htyped => responseCall_typed htyped⟩
    intro d' call hd hcall
    obtain rfl := Except.ok.inj hd
    obtain ⟨τ, hτ, hcall⟩ := bind_ok_iff.mp hcall
    obtain ⟨events, -, hcall⟩ := bind_ok_iff.mp hcall
    obtain ⟨msgResponses, -, hcall⟩ := bind_ok_iff.mp hcall
    obtain rfl := Except.ok.inj hτ
    exact emitCall_data (by simp [Scope.get, Scope.bind]) hcall
  · rw [herr, hy]
    refine ⟨?_, by simp, by simp⟩
    intro e' he
    rw [Except.error.inj he]
    rfl

theorem data_modes (field : MsgField Ty) (ty : Ty) :
    σ.get "data" = .ok (optBinary data) → σ.get "env" = .ok (.env env) →
    (Emit.Clean (parseErrors field.attrs) → dataParams field ∈ legalModes) ∧
    -- the mode is what the attribute says
    (∀ params, .data params ∈ field.attrs → (∀ params', .data params' ∈ field.attrs → params' = params) →
      dataParams field = params) ∧
    -- raw, opt
    (dataParams field = ⟨true, true, false⟩ → dataYield c field ty σ = .ok (optBinary data)) ∧
    -- raw
    (dataParams field = ⟨true, false, false⟩ → dataYield c field ty σ = match data with
      | some b => .ok (.binary b)
      | none => .error missingDataErr) ∧
    -- instantiate
    (dataParams field = ⟨false, false, true⟩ → dataYield c field ty σ = match data with
      | some b => match c.parseInstantiateResponseData b with
        | .ok r => .ok (.instantiated r)
        | .error err => .error (protobufErr err)
      | none => .error missingDataErr) ∧
    -- no mode
    (dataParams field = ⟨false, false, false⟩ → dataYield c field ty σ = match data with
      | some b => match c.parseExecuteResponseData b with
        | .error err => .error (protobufErr err)
        | .ok none => .error missingDataErr
        | .ok (some inner) => match c.parse inner with
          | .error err => .error (invalidReplyDataErr env err)
          | .ok j => match (c.wire ty).de j with
            | some v => .ok v
            | none => .error (invalidReplyDataErr env (c.mismatch j))
      | none => .error missingDataErr) ∧
    -- an `opt` mode and its strict mode
    (∀ strict : MsgField Ty, dataParams field = { dataParams strict with opt := true } →
      (dataParams strict).opt = false → dataYield c field ty σ = match data with
        | some _ => (dataYield c strict (c.inner ty) σ).map .some
        | none => .ok .none) ∧
    -- the arm
    ∀ (variants : List (MsgVariant Ty)) (rd : ReplyData Ty) (σ₀ : Scope V) (resp : SubMsgResponse) (method : Ident)
      (tys : List Ty), rd.findHandler .success = some (method, .success) → rd.data = some field →
      paramTypes variants method (1 + rd.payload.length) = .ok (ty :: tys) →
      emitPayloadDeserialization c rd.payload tys (σ₀.bind ["msg_responses", "data", "events"]
        [.responses resp.msgResponses, optBinary resp.data, .events resp.events]) = .ok σ →
      (∀ e, dataYield c field ty σ = .error e → rd.emitSuccessMatchArm c variants σ₀ resp = .error e) ∧
        (∀ d call, dataYield c field ty σ = .ok d → rd.emitSuccessMatchArm c variants σ₀ resp = .ok (.call call) →
          call.args.head? = some d) ∧
        ∀ d, dataYield c field ty σ = .ok d → rd.emitSuccessMatchArm c variants σ₀ resp ≠ .error .illTyped →
          ∃ call, rd.emitSuccessMatchArm c variants σ₀ resp = .ok (.call call) ∧ call.function = method := by
  intro hdata henv
  have hyield := dataYield_eq c hdata henv
  refine ⟨dataParams_legal, fun _ => dataParams_eq, ?_, ?_, ?_, ?_, ?_, ?_⟩
  · intro hp
    rw [hyield, hp]
    rfl
  · intro hp
    rw [hyield, hp]
    cases data <;> rfl
  · intro hp
    rw [hyield, hp]
    cases data with
    | none => rfl
    | some b =>
      show instantiateData c b = match c.parseInstantiateResponseData b with
        | .ok r => .ok (.instantiated r)
        | .error err => .error (protobufErr err)
      unfold instantiateData
      split <;> simp [*]
  · intro hp
    rw [hyield, hp]
    cases data with
    | none => rfl
    | some b => exact executeData_eq c ty env b
  · intro strict hopt hstrict
    rw [hyield, hyield, deserializeData_opt c hopt hstrict]
    cases data <;> rfl
  · intro variants rd σ₀ resp method tys hfind hfield htys hpayload
    exact successArm_data c hfind hfield htys hpayload

/-- `"sent"`, as JSON. -/
def sentBytes : Binary := asciiCodec.print (.str "sent")

/-- A reply that carries it. -/
def sentReply : CwStd.Reply := ⟨0, asciiCodec.print (.str "memo"), 7, .ok ⟨[], some sentBytes, []⟩⟩

/-- What is bound when its data is deserialized. -/
def sentScope : Scope Unit := (successScope ⟨12, none⟩ sentReply ⟨[], some sentBytes, []⟩).bind ["memo"] [.string "memo"]

/-- Without a mode the data is decoded and handed to the method; the codec parses no
    instantiate response, so in that mode the method is not called. -/
theorem data_modes_sent :
    (dataYield asciiCodec (⟨"data", (), [.data ⟨false, false, false⟩]⟩ : MsgField Unit) () sentScope = .ok (.string "sent") ∧
      ∃ call, (sentRecord ⟨false, false, false⟩ [("on_sent", .success)]).emitSuccessMatchArm asciiCodec
          [onSent ⟨false, false, false⟩] (replyScope ⟨12, none⟩ sentReply) ⟨[], some sentBytes, []⟩ = .ok (.call call) ∧
        call.function = "on_sent" ∧ call.args.head? = some (.string "sent")) ∧
    (sentRecord ⟨false, false, true⟩ [("on_sent", .success)]).emitSuccessMatchArm asciiCodec
      [onSent ⟨false, false, true⟩] (replyScope ⟨12, none⟩ sentReply) ⟨[], some sentBytes, []⟩ =
        .error (protobufErr "failed to decode Protobuf message") := by
  have hdata : sentScope.get "data" = .ok (optBinary (some sentBytes)) := rfl
  have henv : sentScope.get "env" = .ok (.env ⟨12, none⟩) := rfl
  constructor
  · obtain ⟨-, hmode, -, -, -, hplain, -, harm⟩ :=
      data_modes asciiCodec ⟨"data", (), [.data ⟨false, false, false⟩]⟩ () hdata henv
    have hyield := hplain (hmode _ (List.mem_singleton_self _) (by simp))
    refine ⟨hyield, ?_⟩
    obtain ⟨-, hargs, hcalled⟩ := harm [onSent ⟨false, false, false⟩]
      (sentRecord ⟨false, false, false⟩ [("on_sent", .success)]) (replyScope ⟨12, none⟩ sentReply)
      ⟨[], some sentBytes, []⟩ "on_sent" [()] rfl rfl rfl rfl
    obtain ⟨call, hcall, hfunction⟩ := hcalled _ hyield (by rintro ⟨⟩)
    exact ⟨call, hcall, hfunction, hargs _ _ hyield hcall⟩
  · obtain ⟨-, hmode, -, -, hinst, -, -, harm⟩ :=
      data_modes asciiCodec ⟨"data", (), [.data ⟨false, false, true⟩]⟩ () hdata henv
    have hyield := hinst (hmode _ (List.mem_singleton_self _) (by simp))
    obtain ⟨hstops, -⟩ := harm [onSent ⟨false, false, true⟩]
      (sentRecord ⟨false, false, true⟩ [("on_sent", .success)]) (replyScope ⟨12, none⟩ sentReply)
      ⟨[], some sentBytes, []⟩ "on_sent" [()] rfl rfl rfl rfl
    exact hstops _ hyield

end Sylvia.Contract
