/-
  Sylvia.Contract.Replies — a reply from the sub-message to the method.

  A handler's sub-message method is the one of its record: it writes the payload the way
  the first method of the handler describes it. The method that answers may be the
  second. What makes the two ends meet is `RecordOf`: the methods of a handler have the
  same payload types and no two of them handle one outcome.

  Proved:
  - `repliesTo_iff`: the chain is asked to reply exactly where a method answers.
  - `replies_answered`: the reply to a handler's sub-message reaches the one method that
    is registered for its outcome, with the values that were sent.
  - `missing_data_not_dispatched`: but a `success` method that declares data it does not
    get is not called.
-/
import Sylvia.Contract.ReplyArms

namespace Sylvia.Contract

open Sylvia.Base Sylvia.Parser Sylvia.Types
open Sylvia.CwStd (Binary Event StdError SubMsg CosmosMsg MsgResponse SubMsgResponse SubMsgResult Env Payloads)

variable {Ty V : Type} {P : Payloads} {T : Type}

/-! ## What a handler is for -/

/-- A method for `on` answers the result. -/
def handles : ReplyOn → SubMsgResult → Bool
  | .always, _ => true
  | .success, .ok _ => true
  | .error, .err _ => true
  | _, _ => false

def handlerNames (v : MsgVariant Ty) : List Ident := (asVariantHandlersPair v).map Prod.snd

/-- A method is registered for the handler and the result. -/
def Registered (variants : List (MsgVariant Ty)) (h : Ident) (r : SubMsgResult) : Prop :=
  ∃ v ∈ variants, h ∈ handlerNames v ∧ handles v.replyOn r = true

/-- No two handlers share a constant's name. -/
def DistinctHandlers (variants : List (MsgVariant Ty)) : Prop :=
  ∀ h ∈ variants.flatMap handlerNames, ∀ h' ∈ variants.flatMap handlerNames,
    toCase .upperSnake h = toCase .upperSnake h' → h = h'

/-- The handler's reply id: the value of its constant. -/
def replyIdOf (rds : List (ReplyData Ty)) (h : Ident) : Option Nat :=
  (asReplyId h).bind fun replyId => (emitReplyIds rds).lookup replyId

/-- The arguments an arm's call has before the payload. -/
def leadCount (rd : ReplyData Ty) : ReplyOn → Nat
  | .success => if rd.data.isSome then 1 else 0
  | .error | .always => 1

theorem dataLead_length (rd : ReplyData Ty) :
    (if rd.data.isSome then ["data"] else []).length = leadCount rd .success := by
  unfold leadCount
  split <;> rfl

/-- Every arm's call has as many arguments as its method has parameters. -/
def CallsFit (variants : List (MsgVariant Ty)) (rds : List (ReplyData Ty)) : Prop :=
  ∀ rd ∈ rds, ∀ h ∈ rd.handlers, ∀ v ∈ variants, v.functionName = h.1 →
    v.fields.length = leadCount rd h.2 + rd.payload.length

/-- What a method gets before the payload: the data it declares, the error, or the
    whole result. -/
def leadArgs (c : Codec Ty V) (v : MsgVariant Ty) (env : Env) (r : SubMsgResult) : Except Stop (List (Val V)) :=
  match v.replyOn, r with
  | .success, .ok resp =>
    match dataOf v with
    | some f => (deserializeData c (dataParams f) f.ty env (optBinary resp.data)).map fun d => [d]
    | none => .ok []
  | .error, .err error => .ok [.string error]
  | _, r => .ok [.result r]

def replyCtx (on : ReplyOn) (env : Env) (msg : CwStd.Reply) : List (Val V) :=
  .deps :: .env env :: .u64 msg.gasUsed :: match on, msg.result with
    | .success, .ok resp => [.events resp.events, .responses resp.msgResponses]
    | _, _ => [.events [], .responses []]

/-- The parameters of the sub-message method `h`. -/
def payloadParams (rds : List (ReplyData Ty)) (h : Ident) : List (MsgField Ty) :=
  ((rds.find? (·.handlerId = h)).map ReplyData.payload).getD []

/-! ## Served handlers -/

variable {variants : List (MsgVariant Ty)} {served : List (Served Ty)}

theorem fst_of_mem_pair {v : MsgVariant Ty} {p : MsgVariant Ty × Ident} (hp : p ∈ asVariantHandlersPair v) : p.1 = v := by
  unfold asVariantHandlersPair at hp
  split at hp
  · rw [List.mem_singleton.mp hp]
  · obtain ⟨h, -, he⟩ := List.mem_map.mp hp
    rw [← he]

theorem method_of_served (hs : allServed variants = some served) {s : Served Ty} (hmem : s ∈ served) :
    s.method ∈ variants ∧ s.handlerId ∈ handlerNames s.method ∧ asReplyId s.handlerId = some s.replyId := by
  obtain ⟨p, hp, he⟩ := (mapM_some_mem hs).2 s hmem
  obtain ⟨v, hv, hpv⟩ := List.mem_flatMap.mp hp
  obtain ⟨x, hx, rfl⟩ := Option.map_eq_some_iff.mp he
  dsimp only
  rw [fst_of_mem_pair hpv]
  exact ⟨hv, List.mem_map_of_mem hpv, hx⟩

theorem served_of_method (hs : allServed variants = some served) {v : MsgVariant Ty} (hv : v ∈ variants) {h : Ident}
    (hh : h ∈ handlerNames v) : ∃ s ∈ served, s.method = v ∧ s.handlerId = h := by
  obtain ⟨p, hp, rfl⟩ := List.mem_map.mp hh
  obtain ⟨s, hmem, he⟩ := (mapM_some_mem hs).1 p (List.mem_flatMap.mpr ⟨v, hv, hp⟩)
  obtain ⟨x, -, rfl⟩ := Option.map_eq_some_iff.mp he
  exact ⟨_, hmem, fst_of_mem_pair hp, rfl⟩

/-- Methods with handlers of one reply id. -/
theorem served_of_same_id (hs : allServed variants = some served) {v w : MsgVariant Ty} (hv : v ∈ variants)
    (hw : w ∈ variants) {x y : Ident} (hx : x ∈ handlerNames v) (hy : y ∈ handlerNames w)
    (hxy : asReplyId x = asReplyId y) :
    ∃ s ∈ served, ∃ t ∈ served, s.method = v ∧ t.method = w ∧ s.replyId = t.replyId := by
  obtain ⟨s, hsm, rfl, rfl⟩ := served_of_method hs hv hx
  obtain ⟨t, htm, rfl, rfl⟩ := served_of_method hs hw hy
  rw [(method_of_served hs hsm).2.2, (method_of_served hs htm).2.2] at hxy
  exact ⟨s, hsm, t, htm, rfl, rfl, Option.some.inj hxy⟩

/-! ## The methods of a record -/

theorem excludes_comm (a b : ReplyOn) : a.excludes b = b.excludes a := by cases a <;> cases b <;> rfl

theorem excludes_of_handles {a b : ReplyOn} {r : SubMsgResult} (ha : handles a r = true) (hb : handles b r = true) :
    a.excludes b = true := by
  cases r <;> cases a <;> cases b <;> simp_all [handles, ReplyOn.excludes]

section Record

variable {g : List (Served Ty)} {rd : ReplyData Ty}

theorem RecordOf.mem_handlers (hg : RecordOf g rd) {s : Served Ty} (hs : s ∈ g) :
    (s.method.functionName, s.method.replyOn) ∈ rd.handlers := by
  rw [hg.handlers]
  exact List.mem_map_of_mem hs

theorem RecordOf.of_mem_handlers (hg : RecordOf g rd) {h : Ident × ReplyOn} (hh : h ∈ rd.handlers) :
    ∃ s ∈ g, (s.method.functionName, s.method.replyOn) = h := by
  rw [hg.handlers] at hh
  exact List.mem_map.mp hh

/-- Of methods that share no outcome, two that handle one result are the same. -/
theorem unique_of_apart (hapart : g.Pairwise fun s t => s.method.replyOn.excludes t.method.replyOn = false)
    {r : SubMsgResult} {s t : Served Ty} (hs : s ∈ g) (ht : t ∈ g) (hsr : handles s.method.replyOn r = true)
    (htr : handles t.method.replyOn r = true) : s = t := by
  by_contra hne
  have hsym : Std.Symm fun s t : Served Ty => s.method.replyOn.excludes t.method.replyOn = false :=
    ⟨fun s t h => by simpa only [excludes_comm] using h⟩
  have := hapart.forall hs ht hne
  rw [excludes_of_handles hsr htr] at this
  cases this

theorem findHandler_of_apart (hapart : g.Pairwise fun s t => s.method.replyOn.excludes t.method.replyOn = false)
    (hh : rd.handlers = g.map fun s => (s.method.functionName, s.method.replyOn)) {r : SubMsgResult} {s : Served Ty}
    (hs : s ∈ g) (hsr : handles s.method.replyOn r = true) {on : ReplyOn}
    (hon : ∀ o : ReplyOn, (o == on || o == .always) = true ↔ handles o r = true) :
    rd.findHandler on = some (s.method.functionName, s.method.replyOn) := by
  have hmem : (s.method.functionName, s.method.replyOn) ∈ rd.handlers := by
    rw [hh]
    exact List.mem_map_of_mem hs
  apply find?_unique hmem ((hon _).mpr hsr)
  intro h hmem hr
  rw [hh] at hmem
  obtain ⟨t, ht, rfl⟩ := List.mem_map.mp hmem
  rw [unique_of_apart hapart ht hs ((hon _).mp hr) hsr]

theorem findHandler_none (hh : rd.handlers = g.map fun s => (s.method.functionName, s.method.replyOn)) {r : SubMsgResult}
    (hno : ∀ s ∈ g, handles s.method.replyOn r ≠ true) {on : ReplyOn}
    (hon : ∀ o : ReplyOn, (o == on || o == .always) = true ↔ handles o r = true) : rd.findHandler on = none := by
  apply List.find?_eq_none.mpr
  intro h hmem hr
  rw [hh] at hmem
  obtain ⟨s, hs, rfl⟩ := List.mem_map.mp hmem
  exact hno s hs ((hon _).mp hr)

/-- Two methods of a record that handle one result are the same. -/
theorem RecordOf.unique (hg : RecordOf g rd) {r : SubMsgResult} {s t : Served Ty} (hs : s ∈ g) (ht : t ∈ g)
    (hsr : handles s.method.replyOn r = true) (htr : handles t.method.replyOn r = true) : s = t :=
  unique_of_apart hg.apart hs ht hsr htr

theorem success_or_always (resp : SubMsgResponse) (o : ReplyOn) :
    (o == .success || o == .always) = true ↔ handles o (.ok resp) = true := by
  cases o <;> simp [handles]

theorem error_or_always (error : String) (o : ReplyOn) :
    (o == .error || o == .always) = true ↔ handles o (.err error) = true := by
  cases o <;> simp [handles]

/-- The handlers that are found for a result when a method of the record handles it. -/
theorem handler_of_apart (hapart : g.Pairwise fun s t => s.method.replyOn.excludes t.method.replyOn = false)
    (hh : rd.handlers = g.map fun s => (s.method.functionName, s.method.replyOn)) {r : SubMsgResult} {s : Served Ty}
    (hs : s ∈ g) (hsr : handles s.method.replyOn r = true) :
    (∃ resp, r = .ok resp ∧ s.method.replyOn = .success ∧
      rd.findHandler .success = some (s.method.functionName, .success)) ∨
    (∃ error, r = .err error ∧ s.method.replyOn = .error ∧
      rd.findHandler .error = some (s.method.functionName, .error)) ∨
    (s.method.replyOn = .always ∧ rd.findHandler .success = some (s.method.functionName, .always) ∧
      rd.findHandler .error = some (s.method.functionName, .always)) := by
  have hok (resp : SubMsgResponse) (h : handles s.method.replyOn (.ok resp) = true) :=
    findHandler_of_apart hapart hh hs h (success_or_always resp)
  have herr (error : String) (h : handles s.method.replyOn (.err error) = true) :=
    findHandler_of_apart hapart hh hs h (error_or_always error)
  cases ho : s.method.replyOn with
  | always =>
    rw [ho] at hok herr
    exact .inr (.inr ⟨rfl, hok ⟨[], none, []⟩ rfl, herr "" rfl⟩)
  | success =>
    cases r with
    | ok resp => exact .inl ⟨resp, rfl, rfl, ho ▸ hok resp hsr⟩
    | err error => rw [ho] at hsr; cases hsr
  | error =>
    cases r with
    | ok resp => rw [ho] at hsr; cases hsr
    | err error => exact .inr (.inl ⟨error, rfl, rfl, ho ▸ herr error hsr⟩)

theorem emitMatchArms_always {method : Ident} (hsucc : rd.findHandler .success = some (method, .always))
    (herr : rd.findHandler .error = some (method, .always)) (c : Codec Ty V) (variants : List (MsgVariant Ty))
    (σ : Scope V) (r : SubMsgResult) : rd.emitMatchArms c variants σ r = rd.emitAlwaysArm c variants method σ := by
  cases r with
  | ok resp => simp [ReplyData.emitMatchArms, ReplyData.emitSuccessMatchArm, hsucc]
  | err error => simp [ReplyData.emitMatchArms, ReplyData.emitErrorMatchArm, herr]

theorem any_replyOn (hg : RecordOf g rd) (o : ReplyOn) :
    (rd.handlers.any fun h => h.2 == o) = true ↔ ∃ s ∈ g, s.method.replyOn = o := by
  simp [hg.handlers]

theorem repliesTo_ok (rd : ReplyData Ty) (resp : SubMsgResponse) : rd.emitCwReplyOn.repliesTo (.ok resp) =
    ((rd.handlers.any fun h => h.2 == .success) || rd.handlers.any fun h => h.2 == .always) := by
  unfold ReplyData.emitCwReplyOn
  cases rd.handlers.any fun h => h.2 == .always <;> cases rd.handlers.any fun h => h.2 == .success <;>
    cases rd.handlers.any fun h => h.2 == .error <;> rfl

theorem repliesTo_err (rd : ReplyData Ty) (error : String) : rd.emitCwReplyOn.repliesTo (.err error) =
    ((rd.handlers.any fun h => h.2 == .error) || (rd.handlers.any fun h => h.2 == .always) ||
      !rd.handlers.any fun h => h.2 == .success) := by
  unfold ReplyData.emitCwReplyOn
  cases rd.handlers.any fun h => h.2 == .always <;> cases rd.handlers.any fun h => h.2 == .success <;>
    cases rd.handlers.any fun h => h.2 == .error <;> rfl

/-- The chain is asked to reply exactly where a method answers. -/
theorem repliesTo_iff (hg : RecordOf g rd) (r : SubMsgResult) :
    rd.emitCwReplyOn.repliesTo r = true ↔ ∃ s ∈ g, handles s.method.replyOn r = true := by
  have hany := any_replyOn hg
  cases r with
  | ok resp =>
    rw [repliesTo_ok, Bool.or_eq_true, hany, hany, ← exists_or]
    simp only [← success_or_always resp, Bool.or_eq_true, beq_iff_eq, and_or_left]
  | err error =>
    simp only [← error_or_always error, Bool.or_eq_true, beq_iff_eq, and_or_left, exists_or, ← hany]
    rw [repliesTo_err, Bool.or_eq_true, Bool.or_eq_true, or_iff_left_iff_imp]
    -- without a success method there is one of the other two
    intro hnone
    obtain ⟨first, hfirst, -⟩ := hg.first
    have hmem := List.mem_of_mem_head? hfirst
    rw [hany, hany]
    cases ho : first.method.replyOn with
    | success => rw [(hany .success).mpr ⟨first, hmem, ho⟩] at hnone; cases hnone
    | error => exact .inl ⟨first, hmem, ho⟩
    | always => exact .inr ⟨first, hmem, ho⟩

/-! ## Data -/

theorem dataOf_of_ne_success {v : MsgVariant Ty} (h : v.replyOn ≠ .success) : dataOf v = none := by
  unfold dataOf asDataField
  split
  · simp [h]
  · rfl

theorem dataOf_success {v : MsgVariant Ty} (hsucc : v.replyOn = .success) : dataOf v =
    match v.fields with
    | f :: _ => if (parsed f.attrs).data.isSome then some f else none
    | [] => none := by
  unfold dataOf asDataField
  cases hfs : v.fields with
  | nil => rfl
  | cons f fs =>
    rw [List.zipIdx_cons, List.find?_cons]
    by_cases hf : (parsed f.attrs).data.isSome = true
    · simp [hf, hsucc]
    · simp only [hf, Bool.false_eq_true, if_false, hsucc]
      split
      · rename_i field index hfind
        have hmem := List.mem_zipIdx (List.mem_of_find?_eq_some hfind)
        have hpos : index ≠ 0 := by omega
        simp [hpos]
      · rfl

theorem dataOf_head {v : MsgVariant Ty} {f : MsgField Ty} (h : dataOf v = some f) : v.fields.head? = some f := by
  unfold dataOf asDataField at h
  split at h
  · rename_i field index hfind
    split at h
    · rename_i hc
      obtain rfl : field = f := by simpa using h
      obtain ⟨-, rfl⟩ := hc
      have := List.mk_mem_zipIdx_iff_getElem?.mp (List.mem_of_find?_eq_some hfind)
      rwa [List.head?_eq_getElem?]
    · split at h <;> simp at h
  · simp at h

/-- A record's data is that of the `success` method whose call fits. -/
theorem RecordOf.data_eq (hg : RecordOf g rd) {s : Served Ty} (hs : s ∈ g) (hsucc : s.method.replyOn = .success)
    (hn : s.method.fields.length = leadCount rd .success + rd.payload.length) : rd.data = dataOf s.method := by
  obtain ⟨first, hfirst, -, hdata, -⟩ := hg.first
  have hmem := List.mem_of_mem_head? hfirst
  by_cases hf : first.method.replyOn = .success
  · rw [hdata, hg.unique hmem hs (r := .ok ⟨[], none, []⟩) (by rw [hf]; rfl) (by rw [hsucc]; rfl)]
  · -- the record has no data, so the method has none to be given
    have hnone : rd.data = none := by rw [hdata, dataOf_of_ne_success hf]
    have hlen : (payloadOf s.method).length = rd.payload.length := by simpa using congrArg List.length (hg.types s hs)
    have hpos := List.length_pos_of_ne_nil hg.nonempty
    rw [hnone]
    cases hd : dataOf s.method with
    | none => rfl
    | some f =>
      simp [payloadOf, payloadFields, hd, numberOfAllowedDataFields] at hlen
      simp [leadCount, hnone] at hn
      omega

theorem RecordOf.payload_types (hg : RecordOf g rd) {s : Served Ty} (hs : s ∈ g)
    (hn : s.method.fields.length = leadCount rd s.method.replyOn + rd.payload.length) :
    (s.method.fields.map MsgField.ty).drop (leadCount rd s.method.replyOn) = rd.payload.map MsgField.ty := by
  rw [← hg.types s hs, payloadOf, payloadFields]
  cases ho : s.method.replyOn with
  | success =>
    rw [ho] at hn
    simp only [leadCount, hg.data_eq hs ho hn]
    cases hd : dataOf s.method <;> simp [numberOfAllowedDataFields]
  | error => simp [leadCount, numberOfAllowedDataFields]
  | always => simp [leadCount, numberOfAllowedDataFields]

theorem leadData_eq (c : Codec Ty V) {v : MsgVariant Ty} (hsucc : v.replyOn = .success) (env : Env)
    (resp : SubMsgResponse) : leadData c (dataOf v) v.fields env resp.data = leadArgs c v env (.ok resp) := by
  simp only [leadArgs, hsucc]
  cases hd : dataOf v with
  | none => rfl
  | some f =>
    obtain ⟨rest, hfs⟩ : ∃ rest, v.fields = f :: rest := List.head?_eq_some_iff.mp (dataOf_head hd)
    rw [hfs]
    rfl

/-- The arm of a result that a method of the record handles decodes the payload, then
    what the method gets before it, and calls the method. -/
theorem RecordOf.arm_eq (hg : RecordOf g rd) {s : Served Ty} (hs : s ∈ g) (c : Codec Ty V) (env : Env)
    (msg : CwStd.Reply) (hsr : handles s.method.replyOn msg.result = true)
    (hv : variants.find? (fun w => decide (w.functionName = s.method.functionName)) = some s.method)
    (hf : Uncaptured (readAfter rd.data s.method.replyOn) rd.payload)
    (hn : s.method.fields.length = leadCount rd s.method.replyOn + rd.payload.length) :
    rd.emitMatchArms c variants (replyScope env msg) msg.result =
      (decodePayload c rd.payload (rd.payload.map MsgField.ty) msg.payload).bind fun args =>
        (leadArgs c s.method env msg.result).map fun lead =>
          Tail.call ⟨s.method.functionName, replyCtx s.method.replyOn env msg, lead ++ args⟩ := by
  have hraw := hg.raw_alone
  rw [← hg.payload_types hs hn]
  rcases handler_of_apart hg.apart hg.handlers hs hsr with ⟨resp, hr, ho, hfind⟩ | ⟨error, hr, ho, hfind⟩ | ⟨ho, hsucc, herr⟩
  · simp only [ho, leadCount] at hn
    have hlead := leadData_eq c ho env resp
    rw [← hg.data_eq hs ho (by simpa [leadCount] using hn)] at hlead
    simp only [hr, ho, ReplyData.emitMatchArms, successArm_eq c env msg hv hraw (ho ▸ hf) resp hfind hn, hlead, replyCtx,
      leadCount]
  · simp only [ho, leadCount] at hn
    simp only [hr, ho, ReplyData.emitMatchArms, errorArm_eq c env msg hv hraw (ho ▸ hf) error hfind hn, leadCount]
    cases decodePayload c rd.payload ((s.method.fields.map MsgField.ty).drop 1) msg.payload <;>
      simp [leadArgs, ho, replyCtx, Except.map, Except.bind]
  · simp only [ho, leadCount] at hn
    rw [ho, emitMatchArms_always hsucc herr, alwaysArm_eq c env msg hv hraw (ho ▸ hf) hn]
    simp only [leadCount]
    cases decodePayload c rd.payload ((s.method.fields.map MsgField.ty).drop 1) msg.payload <;>
      cases msg.result <;> simp [leadArgs, ho, replyCtx, Except.map, Except.bind]

/-- A result that no method handles is forwarded. -/
theorem RecordOf.forwarded (hg : RecordOf g rd) (c : Codec Ty V) (σ : Scope V) {r : SubMsgResult}
    (hno : ∀ s ∈ g, handles s.method.replyOn r ≠ true) : ∃ tail, rd.emitMatchArms c variants σ r = .ok tail := by
  have hnone (on : ReplyOn) (hon : ∀ o : ReplyOn, (o == on || o == .always) = true ↔ handles o r = true) :
      rd.findHandler on = none := findHandler_none hg.handlers hno hon
  cases r with
  | ok resp => exact ⟨_, by simp [ReplyData.emitMatchArms, ReplyData.emitSuccessMatchArm, hnone _ (success_or_always resp)]; rfl⟩
  | err error => exact ⟨_, by simp [ReplyData.emitMatchArms, ReplyData.emitErrorMatchArm, hnone _ (error_or_always error)]; rfl⟩

end Record

/-! ## From the handler to its record -/

section Accepted

variable {rds : List (ReplyData Ty)}

/-- All that is known about a handler's record. -/
structure HandlerRecord (served : List (Served Ty)) (rds : List (ReplyData Ty)) (h : Ident) (g : List (Served Ty))
    (rd : ReplyData Ty) (id : Nat) : Prop where
  index : rds[id]? = some rd
  methods : ∀ s, s ∈ g ↔ s ∈ served ∧ s.handlerId = h
  of : RecordOf g rd
  method : subMsgMethod rds h = .ok (rd, id)
  replyId : replyIdOf rds h = some id
  params : payloadParams rds h = rd.payload

/-- A record names the handler and the reply id of its first method. -/
theorem served_of_record (hgrp : Grouped Served.replyId ReplyData.replyId RecordOf served rds) {rd : ReplyData Ty}
    (hrd : rd ∈ rds) : ∃ t ∈ served, t.replyId = rd.replyId ∧ rd.handlerId = t.handlerId := by
  obtain ⟨t, ht, hth, -⟩ := (hgrp.describes rd hrd).first
  obtain ⟨htm, htk⟩ := mem_ofKey.mp (List.mem_of_mem_head? ht)
  exact ⟨t, htm, htk, hth⟩

theorem exists_record (hs : allServed variants = some served) (hnames : DistinctHandlers variants)
    (hgrp : Grouped Served.replyId ReplyData.replyId RecordOf served rds) {h : Ident}
    (hh : h ∈ variants.flatMap handlerNames) : ∃ g rd id, HandlerRecord served rds h g rd id := by
  have hid : ∀ s ∈ served, ∀ t ∈ served, s.replyId = t.replyId ↔ s.handlerId = t.handlerId := by
    intro s hsm t htm
    obtain ⟨hsv, hsn, hsi⟩ := method_of_served hs hsm
    obtain ⟨htv, htn, hti⟩ := method_of_served hs htm
    constructor
    · intro he
      refine hnames _ (List.mem_flatMap.mpr ⟨_, hsv, hsn⟩) _ (List.mem_flatMap.mpr ⟨_, htv, htn⟩) ?_
      rw [asReplyId_some hsi, asReplyId_some hti] at he
      exact String.append_left_inj _ |>.mp he
    · intro he
      rw [he, hti] at hsi
      exact (Option.some.inj hsi).symm
  obtain ⟨v, hv, hhv⟩ := List.mem_flatMap.mp hh
  obtain ⟨s, hsm, rfl, rfl⟩ := served_of_method hs hv hhv
  obtain ⟨rd, hrd, hkey⟩ := hgrp.has_record s hsm
  obtain ⟨id, hi⟩ := List.mem_iff_getElem?.mp hrd
  have hfind : (rds.find? fun rd' => decide (rd'.handlerId = s.handlerId)) = some rd := by
    refine find?_unique hrd ?_ fun rd' hrd' he => ?_
    · obtain ⟨t, htm, htk, hth⟩ := served_of_record hgrp hrd
      simpa [hth] using (hid t htm s hsm).mp (htk.trans hkey)
    · obtain ⟨t, htm, htk, hth⟩ := served_of_record hgrp hrd'
      have hts : t.replyId = s.replyId := (hid t htm s hsm).mpr (hth ▸ of_decide_eq_true he)
      exact List.inj_on_of_nodup_map hgrp.nodup hrd' hrd (by rw [← htk, hts, hkey])
  have hconst := constant_getElem hgrp.nodup hi
  refine ⟨ofKey Served.replyId rd.replyId served, rd, id, hi, fun t => ?_, hgrp.describes rd hrd, ?_, ?_, ?_⟩
  · rw [mem_ofKey, hkey]
    exact and_congr_right fun htm => hid t htm s hsm
  · simp [subMsgMethod, hfind, hconst]
  · rw [replyIdOf, (method_of_served hs hsm).2.2, Option.bind_some, ← hkey]
    exact hconst
  · simp [payloadParams, hfind]

theorem exists_handler (hs : allServed variants = some served)
    (hgrp : Grouped Served.replyId ReplyData.replyId RecordOf served rds) {rd : ReplyData Ty} (hrd : rd ∈ rds) :
    ∃ h ∈ variants.flatMap handlerNames, replyIdOf rds h = constant rds rd := by
  obtain ⟨t, htm, htk, -⟩ := served_of_record hgrp hrd
  obtain ⟨hv, hh, hid⟩ := method_of_served hs htm
  refine ⟨t.handlerId, List.mem_flatMap.mpr ⟨_, hv, hh⟩, ?_⟩
  rw [replyIdOf, hid, Option.bind_some, htk]
  rfl

end Accepted

/-! ## End to end -/

/-- What holds of a sub-message that the handler's method made of `args`. -/
structure Answered (c : Codec Ty V) (variants : List (MsgVariant Ty)) (rds : List (ReplyData Ty)) (h : Ident)
    (args : List (Val V)) (sub : SubMsg P T) : Prop where
  replyId : replyIdOf rds h = some sub.id
  replyOn : ∀ r, sub.replyOn.repliesTo r = true ↔ Registered variants h r
  one : ∀ r, ∀ v ∈ variants, ∀ w ∈ variants, h ∈ handlerNames v → h ∈ handlerNames w →
    handles v.replyOn r = true → handles w.replyOn r = true → v = w
  /-- The reply calls the registered method with the values that were sent. -/
  called : ∀ env msg, msg.id = sub.id → msg.payload = sub.payload →
    ∀ v ∈ variants, h ∈ handlerNames v → handles v.replyOn msg.result = true → ∀ lead,
    leadArgs c v env msg.result = .ok lead →
      dispatchReply c variants rds env msg = .ok (.call ⟨v.functionName, replyCtx v.replyOn env msg, lead ++ args⟩)
  /-- Only the data that a `success` method declares can keep it from being called. -/
  undecoded : ∀ env msg, msg.id = sub.id → msg.payload = sub.payload →
    ∀ v ∈ variants, h ∈ handlerNames v → handles v.replyOn msg.result = true → ∀ stop,
    leadArgs c v env msg.result = .error stop →
      dispatchReply c variants rds env msg = .error stop ∧ v.replyOn = .success ∧ (dataOf v).isSome ∧
        ∃ e, stop = .returned e

theorem executeData_error {c : Codec Ty V} {ty : Ty} {env : Env} {b : Binary} {stop : Stop}
    (h : executeData c ty env b = .error stop) : ∃ e, stop = .returned e := by
  unfold executeData at h
  split at h
  · exact ⟨_, (Except.error.inj h).symm⟩
  · exact ⟨_, (Except.error.inj h).symm⟩
  · split at h
    · cases h
    · -- one type is read as one value
      rename_i vs hne hvs
      obtain ⟨v, rfl⟩ := List.length_eq_one_iff.mp (fromJson_length hvs)
      exact absurd rfl (hne v)
    · exact ⟨_, (Except.error.inj h).symm⟩

theorem instantiateData_error {c : Codec Ty V} {b : Binary} {stop : Stop} (h : instantiateData c b = .error stop) :
    ∃ e, stop = .returned e := by
  unfold instantiateData at h
  split at h
  · exact ⟨_, (Except.error.inj h).symm⟩
  · cases h

theorem strictData_error {f : Binary → Except Stop (Val V)} {data : Option Binary} {stop : Stop}
    (hf : ∀ b s, f b = .error s → ∃ e, s = .returned e) (h : strictData f (optBinary data) = .error stop) :
    ∃ e, stop = .returned e := by
  cases data with
  | none => exact ⟨_, (Except.error.inj h).symm⟩
  | some b => exact hf b stop h

theorem optData_error {f : Binary → Except Stop (Val V)} {data : Option Binary} {stop : Stop}
    (hf : ∀ b s, f b = .error s → ∃ e, s = .returned e) (h : optData f (optBinary data) = .error stop) :
    ∃ e, stop = .returned e := by
  cases data with
  | none => cases h
  | some b =>
    simp only [optData, optBinary] at h
    cases hfb : f b with
    | error s => exact hf b stop (by rw [hfb] at h ⊢; exact h)
    | ok v => rw [hfb] at h; cases h

/-- Data is never of a type that the generated code does not expect. -/
theorem deserializeData_error {c : Codec Ty V} {params : DataFieldParams} {ty : Ty} {env : Env} {data : Option Binary}
    {stop : Stop} (h : deserializeData c params ty env (optBinary data) = .error stop) : ∃ e, stop = .returned e := by
  unfold deserializeData at h
  split at h
  · cases h
  split at h
  · cases data with
    | none => exact ⟨_, (Except.error.inj h).symm⟩
    | some b => cases h
  split at h
  · exact optData_error (fun _ _ => instantiateData_error) h
  split at h
  · exact strictData_error (fun _ _ => instantiateData_error) h
  split at h
  · exact optData_error (fun _ _ => executeData_error) h
  · exact strictData_error (fun _ _ => executeData_error) h

theorem leadArgs_error {c : Codec Ty V} {v : MsgVariant Ty} {env : Env} {r : SubMsgResult} {stop : Stop}
    (h : leadArgs c v env r = .error stop) : v.replyOn = .success ∧ (dataOf v).isSome ∧ ∃ e, stop = .returned e := by
  unfold leadArgs at h
  split at h
  · rename_i resp hsucc
    split at h
    · rename_i f hd
      refine ⟨hsucc, by rw [hd]; rfl, ?_⟩
      cases hdata : deserializeData c (dataParams f) f.ty env (optBinary resp.data) with
      | error s =>
        rw [hdata] at h
        obtain rfl : s = stop := by simpa [Except.map] using h
        exact deserializeData_error hdata
      | ok d => rw [hdata] at h; cases h
    · cases h
  · cases h
  · cases h

theorem decodePayload_error {c : Codec Ty V} {payload : List (MsgField Ty)} {tys : List Ty} {b : Binary} {stop : Stop}
    (h : decodePayload c payload tys b = .error stop) : ∃ e, stop = .returned e := by
  unfold decodePayload at h
  split at h
  · cases h
  · split at h
    · cases h
    · exact ⟨_, (Except.error.inj h).symm⟩

/-- With fresh names and calls that fit, the generated code is well typed on every reply. -/
theorem dispatchReply_typed {rds : List (ReplyData Ty)} (c : Codec Ty V) (hs : allServed variants = some served)
    (hgrp : Grouped Served.replyId ReplyData.replyId RecordOf served rds)
    (hfn : (variants.map MsgVariant.functionName).Nodup) (hfresh : ∀ rd ∈ rds, FreshPayload rd.payload)
    (hfit : CallsFit variants rds) (env : Env) (msg : CwStd.Reply) :
    dispatchReply c variants rds env msg ≠ .error .illTyped := by
  unfold dispatchReply
  split
  · rename_i rd hfind
    have hrd := List.mem_of_find?_eq_some hfind
    have hg := hgrp.describes rd hrd
    by_cases hany : ∃ s ∈ ofKey Served.replyId rd.replyId served, handles s.method.replyOn msg.result = true
    · obtain ⟨s, hsg, hsr⟩ := hany
      have hv := (method_of_served hs (mem_ofKey.mp hsg).1).1
      have hn := hfit rd hrd _ (hg.mem_handlers hsg) s.method hv rfl
      rw [hg.arm_eq hsg c env msg hsr (find?_of_nodup hfn hv) ((hfresh rd hrd).uncaptured _ _) hn]
      cases hdec : decodePayload c rd.payload (rd.payload.map MsgField.ty) msg.payload with
      | error stop =>
        obtain ⟨e, rfl⟩ := decodePayload_error hdec
        simp [Except.bind]
      | ok args =>
        cases hlead : leadArgs c s.method env msg.result with
        | error stop =>
          obtain ⟨-, -, e, rfl⟩ := leadArgs_error hlead
          simp [Except.bind, Except.map]
        | ok lead => simp [Except.bind, Except.map]
    · obtain ⟨tail, htail⟩ : ∃ tail, rd.emitMatchArms c variants (replyScope env msg) msg.result = .ok tail :=
        hg.forwarded c _ fun s hs hsr => hany ⟨s, hs, hsr⟩
      simp [htail]
  · simp

section

variable {rds : List (ReplyData Ty)} {h : Ident} {g : List (Served Ty)} {rd : ReplyData Ty} {id : Nat}

theorem HandlerRecord.registered (hs : allServed variants = some served) (hr : HandlerRecord served rds h g rd id)
    (r : SubMsgResult) : (∃ s ∈ g, handles s.method.replyOn r = true) ↔ Registered variants h r := by
  constructor
  · intro ⟨s, hsg, hsr⟩
    obtain ⟨hsm, rfl⟩ := (hr.methods s).mp hsg
    obtain ⟨hv, hh, -⟩ := method_of_served hs hsm
    exact ⟨s.method, hv, hh, hsr⟩
  · intro ⟨v, hv, hh, hvr⟩
    obtain ⟨s, hsm, rfl, rfl⟩ := served_of_method hs hv hh
    exact ⟨s, (hr.methods s).mpr ⟨hsm, rfl⟩, hvr⟩

theorem HandlerRecord.answered (hs : allServed variants = some served) (hr : HandlerRecord served rds h g rd id)
    (hids : (rds.map ReplyData.replyId).Nodup) (hfn : (variants.map MsgVariant.functionName).Nodup)
    (hfresh : FreshPayload rd.payload) (hfit : CallsFit variants rds) {c : Codec Ty V} {args : List (Val V)} {b : Binary}
    (hargs : decodePayload c rd.payload (rd.payload.map MsgField.ty) b = .ok args) {sub : SubMsg P T}
    (hid : sub.id = id) (hon : sub.replyOn = rd.emitCwReplyOn) (hb : sub.payload = b) :
    Answered c variants rds h args sub := by
  have hone : ∀ r, ∀ v ∈ variants, ∀ w ∈ variants, h ∈ handlerNames v → h ∈ handlerNames w →
      handles v.replyOn r = true → handles w.replyOn r = true → v = w := by
    intro r v hv w hw hhv hhw hvr hwr
    obtain ⟨s, hsm, rfl, hsh⟩ := served_of_method hs hv hhv
    obtain ⟨t, htm, rfl, hth⟩ := served_of_method hs hw hhw
    rw [hr.of.unique ((hr.methods s).mpr ⟨hsm, hsh⟩) ((hr.methods t).mpr ⟨htm, hth⟩) hvr hwr]
  have hdisp : ∀ env msg, msg.id = sub.id → msg.payload = sub.payload →
      ∀ v ∈ variants, h ∈ handlerNames v → handles v.replyOn msg.result = true →
      dispatchReply c variants rds env msg = (leadArgs c v env msg.result).map fun lead =>
        Tail.call ⟨v.functionName, replyCtx v.replyOn env msg, lead ++ args⟩ := by
    intro env msg hmid hmpay v hv hhv hvr
    obtain ⟨s, hsm, rfl, hsh⟩ := served_of_method hs hv hhv
    have hsg := (hr.methods s).mpr ⟨hsm, hsh⟩
    have hn := hfit rd (List.mem_of_getElem? hr.index) _ (hr.of.mem_handlers hsg) s.method hv rfl
    rw [dispatchReply_eq c variants hids env (by rw [hmid, hid, hr.index])]
    rw [hr.of.arm_eq hsg c env msg hvr (find?_of_nodup hfn hv) (hfresh.uncaptured _ _) hn, hmpay, hb, hargs]
    rfl
  refine ⟨by rw [hr.replyId, hid], ?_, hone, ?_, ?_⟩
  · intro r
    rw [hon, repliesTo_iff hr.of, hr.registered hs]
  · intro env msg hmid hmpay v hv hhv hvr lead hlead
    rw [hdisp env msg hmid hmpay v hv hhv hvr, hlead]
    rfl
  · intro env msg hmid hmpay v hv hhv hvr stop hstop
    rw [hdisp env msg hmid hmpay v hv hhv hvr, hstop]
    exact ⟨rfl, leadArgs_error hstop⟩

end

/-- A handler's sub-message is replied to exactly where a method is registered, and the
    reply reaches that method with the values that were sent, unless the data it declares
    is not there or does not decode; another id calls nothing. -/
theorem replies_answered {out : Emit (List (ReplyData Ty))} [DecidableEq Ty] (c : Codec Ty V)
    (built : asReplyData variants = some out) (accepted : out.Clean)
    (hfn : (variants.map MsgVariant.functionName).Nodup) (hnames : DistinctHandlers variants)
    (hfresh : ∀ rd ∈ out.val, FreshPayload rd.payload) (hfit : CallsFit variants out.val) :
    (∀ h ∈ variants.flatMap handlerNames, ∀ args, Sendable c (payloadParams out.val h) args →
      (∀ self : SubMsg P T, ∃ sub, sendSubMsg c out.val h self args = .ok sub ∧ sub.msg = self.msg ∧
        sub.gasLimit = self.gasLimit ∧ Answered c variants out.val h args sub) ∧
      ∀ msg : CosmosMsg P T, ∃ sub, sendMsg c out.val h msg args = .ok sub ∧ sub.msg = msg ∧
        sub.gasLimit = none ∧ Answered c variants out.val h args sub) ∧
    ∀ env msg, (∀ h ∈ variants.flatMap handlerNames, replyIdOf out.val h ≠ some msg.id) →
      dispatchReply c variants out.val env msg =
        .error (.returned (.genericErr ("Unknown reply id: " ++ toString msg.id ++ "."))) := by
  obtain ⟨served, hs, hgrp⟩ := asReplyData_grouped built accepted
  constructor
  · intro h hh args hsend
    obtain ⟨g, rd, id, hr⟩ := exists_record hs hnames hgrp hh
    have hfr := hfresh rd (List.mem_of_getElem? hr.index)
    rw [hr.params] at hsend
    obtain ⟨b, hser, hdec⟩ := payload_round_trip hfr.nodup hr.of.raw_alone hsend
    refine ⟨fun self => ⟨⟨id, b, self.msg, self.gasLimit, rd.emitCwReplyOn⟩, ?_, rfl, rfl,
        hr.answered hs hgrp.nodup hfn hfr hfit hdec rfl rfl rfl⟩,
      fun msg => ⟨⟨id, b, msg, none, rd.emitCwReplyOn⟩, ?_, rfl, rfl,
        hr.answered hs hgrp.nodup hfn hfr hfit hdec rfl rfl rfl⟩⟩
    · simp [sendSubMsg, hr.method, ReplyData.emitSubmsgSetter, hser, bind, Except.bind]
    · simp [sendMsg, hr.method, ReplyData.emitSubmsgConverter, hser, bind, Except.bind]
  · intro env msg hid
    have hnone : (out.val.find? fun rd => decide (constant out.val rd = some msg.id)) = none := by
      apply List.find?_eq_none.mpr
      intro rd hrd hc
      obtain ⟨h, hh, he⟩ := exists_handler hs hgrp hrd
      exact hid h hh (he.trans (of_decide_eq_true hc))
    simp only [dispatchReply, hnone]

/-! ## A handler with two methods -/

/-- JSON strings of printable ASCII, without escapes; no data is ever parsed. -/
def asciiCodec : Codec Unit Unit where
  wire := fun _ => ⟨fun v => match v with | .string s => .str s | _ => .null,
    fun j => match j with | .str s => some (.string s) | _ => none,
    fun v => match v with | .string s => some (.string s) | _ => none, none, none⟩
  inner := id
  print := fun j => match j with
    | .str s => 34 :: s.toList.map (fun c => UInt8.ofNat c.toNat) ++ [34]
    | _ => [110, 117, 108, 108]
  parse := fun b => .ok (.str (String.ofList ((b.drop 1).dropLast.map fun u => Char.ofNat u.toNat)))
  mismatch := fun _ => "Invalid type"
  parseExecuteResponseData := fun b => .ok (some b)
  parseInstantiateResponseData := fun _ => .error "failed to decode Protobuf message"

/-- `reply_on = success`, with `sv::data` in the mode `params`. -/
def onSent (params : DataFieldParams) : MsgVariant Unit :=
  ⟨"OnSent", "on_sent", [⟨"data", (), [.data params]⟩, ⟨"memo", (), []⟩], ⟨.reply, ["sent"], .success⟩, none⟩

def onFailed : MsgVariant Unit :=
  ⟨"OnFailed", "on_failed", [⟨"error", (), []⟩, ⟨"note", (), []⟩], ⟨.reply, ["sent"], .error⟩, none⟩

def sentRecord (params : DataFieldParams) (handlers : List (Ident × ReplyOn)) : ReplyData Unit :=
  ⟨"SENT_REPLY_ID", "sent", handlers, some ⟨"data", (), [.data params]⟩, [⟨"memo", (), []⟩]⟩

def noPayloads : Payloads := ⟨Unit, Unit, Unit, Unit, Unit, Unit, Unit, Unit⟩

theorem replies_answered_sent : ∃ sub : SubMsg noPayloads Unit,
    sendMsg asciiCodec [sentRecord ⟨true, true, false⟩ [("on_sent", .success), ("on_failed", .error)]] "sent"
      (.wasm ()) [.string "memo"] = .ok sub ∧ sub.replyOn.repliesTo (.err "out of gas") = true ∧
    dispatchReply asciiCodec [onSent ⟨true, true, false⟩, onFailed]
      [sentRecord ⟨true, true, false⟩ [("on_sent", .success), ("on_failed", .error)]] ⟨12, none⟩
      ⟨sub.id, sub.payload, 7, .err "out of gas"⟩ =
      .ok (.call ⟨"on_failed", [.deps, .env ⟨12, none⟩, .u64 7, .events [], .responses []],
        [.string "out of gas", .string "memo"]⟩) := by
  have hmem : onFailed ∈ [onSent ⟨true, true, false⟩, onFailed] := by simp
  have built : asReplyData [onSent ⟨true, true, false⟩, onFailed] =
      some ⟨[sentRecord ⟨true, true, false⟩ [("on_sent", .success), ("on_failed", .error)]], []⟩ := by decide
  have hfresh : ∀ rd ∈ [sentRecord ⟨true, true, false⟩ [("on_sent", .success), ("on_failed", .error)]],
      FreshPayload rd.payload := fun rd hrd => by
    obtain rfl := List.mem_singleton.mp hrd
    exact ⟨by decide, by decide⟩
  have hsend : Sendable asciiCodec (payloadParams [sentRecord ⟨true, true, false⟩ [("on_sent", .success),
      ("on_failed", .error)]] "sent") [.string "memo"] :=
    ⟨.cons rfl .nil, rfl⟩
  obtain ⟨h, -⟩ := replies_answered (P := noPayloads) (T := Unit) asciiCodec built rfl (by decide)
    (by unfold DistinctHandlers; decide) hfresh (by unfold CallsFit; decide)
  obtain ⟨sub, hsub, -, -, ha⟩ := (h "sent" (by decide) [.string "memo"] hsend).2 (.wasm ())
  refine ⟨sub, hsub, (ha.replyOn _).mpr ⟨onFailed, hmem, by decide, rfl⟩, ?_⟩
  exact ha.called ⟨12, none⟩ ⟨sub.id, sub.payload, 7, .err "out of gas"⟩ rfl rfl onFailed hmem (by decide) rfl
    [.string "out of gas"] rfl

/-- A `success` method whose data is not there is not called, though the chain replied
    because of it. -/
theorem missing_data_not_dispatched :
    asReplyData [onSent ⟨true, false, false⟩] = some ⟨[sentRecord ⟨true, false, false⟩ [("on_sent", .success)]], []⟩ ∧
    ∃ sub : SubMsg noPayloads Unit,
      sendMsg asciiCodec [sentRecord ⟨true, false, false⟩ [("on_sent", .success)]] "sent" (.wasm ())
        [.string "memo"] = .ok sub ∧ sub.replyOn.repliesTo (.ok ⟨[], none, []⟩) = true ∧
      dispatchReply asciiCodec [onSent ⟨true, false, false⟩] [sentRecord ⟨true, false, false⟩ [("on_sent", .success)]]
        ⟨12, none⟩ ⟨sub.id, sub.payload, 7, .ok ⟨[], none, []⟩⟩ =
        .error (.returned (.genericErr "Missing reply data field.")) :=
  ⟨by decide, _, rfl, rfl, rfl⟩

end Sylvia.Contract
