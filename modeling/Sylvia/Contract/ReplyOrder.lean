/-
  Sylvia.Contract.ReplyOrder — the arms of a handler, and the order in which its methods
  are declared (`as_reply_data`, `ReplyData::merge`, `emit_match_arms`).

  Both arms are emitted from one record, and the record describes its first method only:
  `merge` compares the payload types of a second one and keeps its name. So the second
  method's own `sv::data` parameter is lost, and whether its payload is raw. With an
  `error` method first, a `success` method that declares data is called without it.

  Proved: `reply_order_iff`: the arms call every method with what it declares, whatever
  the order, exactly when no handler has an `error` method and a `success` one with data,
  and each `error` or `always` method has a parameter for what it is given.
-/
import Sylvia.Contract.ArmCalls
import Sylvia.Contract.Replies
import Sylvia.Contract.ReplyGroups

namespace Sylvia.Contract

open Sylvia.Base Sylvia.Parser Sylvia.Types
open Sylvia.CwStd (SubMsgResponse SubMsgResult)

variable {Ty : Type}

/-- The first parameter is marked with `sv::data`. -/
def carriesData (v : MsgVariant Ty) : Bool :=
  match v.fields with
  | f :: _ => (parsed f.attrs).data.isSome
  | [] => false

/-- What a method's parameters after the context are for. -/
def declared (v : MsgVariant Ty) : List (ArgKind Ty) :=
  match v.replyOn, v.fields with
  | .success, f :: fs =>
    if (parsed f.attrs).data.isSome then .data (dataParams f) :: payloadKinds fs else payloadKinds (f :: fs)
  | .error, _ :: fs => .error :: payloadKinds fs
  | .always, _ :: fs => .result :: payloadKinds fs
  | _, [] => []

/-- The call of the arm for a handler and a result. -/
def armOf (rds : List (ReplyData Ty)) (h : Ident) (r : SubMsgResult) : Option (ArmCall Ty) :=
  (asReplyId h).bind fun id => (rds.find? (·.replyId = id)).bind (·.armCall r)

/-- Without `marks`, a raw payload and a decoded one are of one kind. -/
def ArgKind.seen (marks : Bool) : ArgKind Ty → ArgKind Ty
  | .payload raw ty => .payload (raw && marks) ty
  | kind => kind

def ArmCall.seen (marks : Bool) (call : ArmCall Ty) : ArmCall Ty := ⟨call.method, call.args.map (ArgKind.seen marks)⟩

/-- In every order of the methods, the arms make the same calls, each of a method that is
    for the handler and the result, with what the method declares. -/
def OrderFree [DecidableEq Ty] (marks : Bool) (variants : List (MsgVariant Ty)) : Prop :=
  ∀ variants', variants'.Perm variants → ∃ out out', asReplyData variants = some out ∧
    asReplyData variants' = some out' ∧ ∀ h ∈ variants.flatMap handlerNames, ∀ r,
      (armOf out'.val h r).map (ArmCall.seen marks) = (armOf out.val h r).map (ArmCall.seen marks) ∧
      ∀ call, armOf out'.val h r = some call → ∃ v ∈ variants, (∃ h' ∈ handlerNames v, asReplyId h' = asReplyId h) ∧
        handles v.replyOn r = true ∧ v.functionName = call.method ∧
        call.args.map (ArgKind.seen marks) = (declared v).map (ArgKind.seen marks)

/-- Two methods of one id share no outcome and have the same payload types. -/
def Compatible (s t : Served Ty) : Prop :=
  s.replyId = t.replyId → s.method.replyOn.excludes t.method.replyOn = false ∧
    (payloadOf s.method).map MsgField.ty = (payloadOf t.method).map MsgField.ty

/-- No id is for an `error` method and for a `success` one with data. -/
def NoDataAfterError (variants : List (MsgVariant Ty)) : Prop :=
  ∀ v ∈ variants, ∀ w ∈ variants, ∀ h ∈ handlerNames v, ∀ h' ∈ handlerNames w, asReplyId h = asReplyId h' →
    v.replyOn = .error → w.replyOn = .success → carriesData w = false

/-- There is a parameter for the error or the result. -/
def TakesOutcome (variants : List (MsgVariant Ty)) : Prop :=
  ∀ v ∈ variants, v.replyOn ≠ .success → v.fields ≠ []

/-- The methods of one id agree on `sv::payload(raw)`. -/
def SameMarks (variants : List (MsgVariant Ty)) : Prop :=
  ∀ v ∈ variants, ∀ w ∈ variants, ∀ h ∈ handlerNames v, ∀ h' ∈ handlerNames w, asReplyId h = asReplyId h' →
    isPayloadMarked (payloadOf v) = isPayloadMarked (payloadOf w)

/-! ## What a method declares -/

theorem carriesData_iff {v : MsgVariant Ty} (hsucc : v.replyOn = .success) :
    carriesData v = false ↔ dataOf v = none := by
  rw [dataOf_success hsucc]
  unfold carriesData
  cases v.fields with
  | nil => simp
  | cons f fs => by_cases hf : (parsed f.attrs).data.isSome = true <;> simp [hf]

/-- A record of the method alone would call it with what it declares. -/
theorem declared_eq {v : MsgVariant Ty} (hv : v.replyOn ≠ .success → v.fields ≠ []) :
    declared v = leadKinds (dataOf v) v.replyOn ++ payloadKinds (payloadOf v) := by
  unfold declared payloadOf payloadFields
  cases ho : v.replyOn with
  | success =>
    rw [dataOf_success ho]
    cases v.fields with
    | nil => rfl
    | cons f fs =>
      by_cases hf : (parsed f.attrs).data.isSome = true <;>
        simp [hf, leadKinds, numberOfAllowedDataFields]
  | error | always =>
    cases hfs : v.fields with
    | nil => exact absurd hfs (hv (by simp [ho]))
    | cons f fs => simp [leadKinds, numberOfAllowedDataFields]

/-! ## Served in another order -/

variable {variants variants' : List (MsgVariant Ty)} {served served' : List (Served Ty)}

theorem Compatible.symm {s t : Served Ty} (h : Compatible s t) : Compatible t s := by
  intro hid
  obtain ⟨hex, hty⟩ := h hid.symm
  exact ⟨by rw [excludes_comm]; exact hex, hty.symm⟩

theorem allServed_perm (hp : variants'.Perm variants) (hs : allServed variants = some served) :
    ∃ served', allServed variants' = some served' ∧ served'.Perm served :=
  mapM_some_perm (hp.flatMap_right asVariantHandlersPair) hs

theorem handlerNames_perm (hp : variants'.Perm variants) {h : Ident} (hh : h ∈ variants.flatMap handlerNames) :
    h ∈ variants'.flatMap handlerNames :=
  (hp.flatMap_right handlerNames).mem_iff.mpr hh

theorem apart_of_compatible (hc : served.Pairwise Compatible) (id : Ident) :
    (ofKey Served.replyId id served).Pairwise fun s t => s.method.replyOn.excludes t.method.replyOn = false := by
  refine (hc.filter _).imp_of_mem ?_
  intro s t hs ht hst
  exact (hst ((mem_ofKey.mp hs).2.trans (mem_ofKey.mp ht).2.symm)).1

theorem types_of_compatible (hc : served.Pairwise Compatible) {s t : Served Ty} (hs : s ∈ served) (ht : t ∈ served)
    (hid : s.replyId = t.replyId) : (payloadOf s.method).map MsgField.ty = (payloadOf t.method).map MsgField.ty := by
  by_cases hst : s = t
  · rw [hst]
  · have hsym : Std.Symm (@Compatible Ty) := ⟨fun _ _ h => h.symm⟩
    exact (hc.forall hs ht hst hid).2

variable [DecidableEq Ty]

theorem asReplyData_eq (hs : allServed variants = some served) : asReplyData variants = some (records served) := by
  simp only [asReplyData, hs, Option.bind_eq_bind, Option.bind_some]
  rfl

/-- The arms of a handler come from the first method of its id. -/
theorem armOf_eq (hs : allServed variants = some served) (hc : served.Pairwise Compatible) {h : Ident}
    (hh : h ∈ variants.flatMap handlerNames) : ∃ id f, asReplyId h = some id ∧
      f ∈ (ofKey Served.replyId id served).head? ∧
      (∀ r, ∀ s ∈ ofKey Served.replyId id served, handles s.method.replyOn r = true →
        armOf (records served).val h r = some ⟨s.method.functionName,
          leadKinds (dataOf f.method) s.method.replyOn ++ payloadKinds (payloadOf f.method)⟩) ∧
      ∀ r, (∀ s ∈ ofKey Served.replyId id served, handles s.method.replyOn r ≠ true) →
        armOf (records served).val h r = none := by
  obtain ⟨v, hv, hhv⟩ := List.mem_flatMap.mp hh
  obtain ⟨s₀, hs₀, -, rfl⟩ := served_of_method hs hv hhv
  have hid := (method_of_served hs hs₀).2.2
  have hgrp := records_grouped served
  obtain ⟨rd, hrd, hkey⟩ := hgrp.has_record s₀ hs₀
  have hk := hgrp.describes rd hrd
  rw [hkey] at hk
  obtain ⟨f, hf, -, hdata, hpayload⟩ := hk.first
  have hapart := apart_of_compatible hc s₀.replyId
  have hhandlers := hk.all hapart
  have harm (r : SubMsgResult) : armOf (records served).val s₀.handlerId r = rd.armCall r := by
    have hfind : ((records served).val.find? fun rd' => decide (rd'.replyId = s₀.replyId)) = some rd := by
      apply find?_unique hrd (by simpa using hkey)
      intro rd' hrd' he
      exact List.inj_on_of_nodup_map hgrp.nodup hrd' hrd ((of_decide_eq_true he).trans hkey.symm)
    rw [armOf, hid, Option.bind_some, hfind, Option.bind_some]
  refine ⟨s₀.replyId, f, hid, hf, ?_, ?_⟩
  · intro r s hsg hsr
    rw [harm, ← hdata, ← hpayload]
    rcases handler_of_apart hapart hhandlers hsg hsr with ⟨resp, rfl, ho, hfind⟩ | ⟨error, rfl, ho, hfind⟩ | ⟨ho, hsucc, herr⟩
    · simp [ReplyData.armCall, hfind, ReplyData.callOf, ho]
    · simp [ReplyData.armCall, hfind, ReplyData.callOf, ho]
    · cases r <;> simp [ReplyData.armCall, hsucc, herr, ReplyData.callOf, ho]
  · intro r hno
    rw [harm]
    cases r with
    | ok resp => simp [ReplyData.armCall, findHandler_none hhandlers hno (success_or_always resp)]
    | err error => simp [ReplyData.armCall, findHandler_none hhandlers hno (error_or_always error)]

/-! ## What a method is called with -/

section Calls

variable {marks : Bool} (hs : allServed variants = some served) (hc : served.Pairwise Compatible) {f s : Served Ty}
  (hf : f ∈ served) (hmem : s ∈ served) (hid : f.replyId = s.replyId)

include hs hc hf hmem hid

omit [DecidableEq Ty] in
/-- The first method's data is the method's own, unless an `error` method hides it. -/
theorem lead_eq (hno : NoDataAfterError variants) :
    leadKinds (dataOf f.method) s.method.replyOn = leadKinds (dataOf s.method) s.method.replyOn := by
  cases ho : s.method.replyOn with
  | error | always => rfl
  | success =>
    have hsame (hr : handles f.method.replyOn (.ok ⟨[], none, []⟩) = true) : f = s :=
      unique_of_apart (apart_of_compatible hc s.replyId) (mem_ofKey.mpr ⟨hf, hid⟩) (mem_ofKey.mpr ⟨hmem, rfl⟩) hr
        (by rw [ho]; rfl)
    cases hof : f.method.replyOn with
    | success | always => rw [hsame (by rw [hof]; rfl)]
    | error =>
      obtain ⟨hfv, hfh, hfi⟩ := method_of_served hs hf
      obtain ⟨hsv, hsh, hsi⟩ := method_of_served hs hmem
      have hcarries := hno _ hfv _ hsv _ hfh _ hsh (by rw [hfi, hsi, hid]) hof ho
      rw [(carriesData_iff ho).mp hcarries, dataOf_of_ne_success (by rw [hof]; decide)]

omit [DecidableEq Ty] hs in
theorem payloadKinds_seen_iff : (payloadKinds (payloadOf f.method)).map (ArgKind.seen marks) =
    (payloadKinds (payloadOf s.method)).map (ArgKind.seen marks) ↔
      (marks = true → isPayloadMarked (payloadOf f.method) = isPayloadMarked (payloadOf s.method)) := by
  have htys := types_of_compatible hc hf hmem hid
  have hkinds (payload : List (MsgField Ty)) : (payloadKinds payload).map (ArgKind.seen marks) =
      (payload.map MsgField.ty).map (ArgKind.payload (isPayloadMarked payload && marks)) := by
    simp [payloadKinds, ArgKind.seen]
  rw [hkinds, hkinds, htys]
  cases marks with
  | false => simp
  | true =>
    cases hp : payloadOf s.method with
    | nil =>
      rw [hp, List.map_nil, List.map_eq_nil_iff] at htys
      simp [htys]
    | cons p ps => simpa using fun h _ _ => h

end Calls

/-- With the methods apart in what they are given, each gets what it declares. -/
theorem orderFree_of {marks : Bool} (hs : allServed variants = some served) (hc : served.Pairwise Compatible)
    (hno : NoDataAfterError variants) (htakes : TakesOutcome variants) (hmarks : marks = true → SameMarks variants) :
    OrderFree marks variants := by
  intro variants' hp
  obtain ⟨served', hs', hps⟩ := allServed_perm hp hs
  have hc' : served'.Pairwise Compatible := (hps.pairwise_iff Compatible.symm).mpr hc
  -- what the first method of an id makes of the call of another
  have hcall {f s : Served Ty} (hf : f ∈ served) (hmem : s ∈ served) (hid : f.replyId = s.replyId) :
      (leadKinds (dataOf f.method) s.method.replyOn ++ payloadKinds (payloadOf f.method)).map (ArgKind.seen marks) =
        (declared s.method).map (ArgKind.seen marks) := by
    obtain ⟨hfv, hfh, hfi⟩ := method_of_served hs hf
    obtain ⟨hsv, hsh, hsi⟩ := method_of_served hs hmem
    rw [declared_eq (htakes _ hsv), List.map_append, List.map_append, lead_eq hs hc hf hmem hid hno,
      (payloadKinds_seen_iff hc hf hmem hid).mpr]
    intro hm
    exact hmarks hm _ hfv _ hsv _ hfh _ hsh (by rw [hfi, hsi, hid])
  refine ⟨records served, records served', asReplyData_eq hs, asReplyData_eq hs', ?_⟩
  intro h hh r
  obtain ⟨id, f, hid, hf, hsome, hnone⟩ := armOf_eq hs hc hh
  obtain ⟨id', f', hid', hf', hsome', hnone'⟩ := armOf_eq hs' hc' (handlerNames_perm hp hh)
  obtain rfl : id' = id := Option.some.inj (hid'.symm.trans hid)
  obtain ⟨hfm, hfk⟩ := mem_ofKey.mp (List.mem_of_mem_head? hf)
  obtain ⟨hfm', hfk'⟩ := mem_ofKey.mp (List.mem_of_mem_head? hf')
  by_cases hany : ∃ s ∈ ofKey Served.replyId id' served, handles s.method.replyOn r = true
  · obtain ⟨s, hsg, hsr⟩ := hany
    obtain ⟨hsm, hsk⟩ := mem_ofKey.mp hsg
    have hsg' : s ∈ ofKey Served.replyId id' served' := mem_ofKey.mpr ⟨hps.mem_iff.mpr hsm, hsk⟩
    have hdecl := hcall hfm hsm (hfk.trans hsk.symm)
    have hdecl' := hcall (hps.mem_iff.mp hfm') hsm (hfk'.trans hsk.symm)
    rw [hsome r s hsg hsr, hsome' r s hsg' hsr]
    refine ⟨by simp only [Option.map_some, ArmCall.seen, hdecl, hdecl'], ?_⟩
    intro call hcall
    obtain rfl := Option.some.inj hcall
    obtain ⟨hv, hh', hi⟩ := method_of_served hs hsm
    exact ⟨s.method, hv, ⟨s.handlerId, hh', by rw [hi, hid, hsk]⟩, hsr, rfl, hdecl'⟩
  · have hnot : ∀ s ∈ ofKey Served.replyId id' served, handles s.method.replyOn r ≠ true :=
      fun s hs hr => hany ⟨s, hs, hr⟩
    have hnot' : ∀ s ∈ ofKey Served.replyId id' served', handles s.method.replyOn r ≠ true := by
      intro s hsg hsr
      obtain ⟨hsm, hsk⟩ := mem_ofKey.mp hsg
      exact hnot s (mem_ofKey.mpr ⟨hps.mem_iff.mp hsm, hsk⟩) hsr
    rw [hnone r hnot, hnone' r hnot']
    exact ⟨rfl, by simp⟩

/-! ## An order that shows it -/

/-- A method can be declared first. -/
theorem exists_first (hs : allServed variants = some served) {s : Served Ty} (hmem : s ∈ served) :
    ∃ variants' served', variants'.Perm variants ∧ allServed variants' = some served' ∧ served'.Perm served ∧
      ∃ f ∈ (ofKey Served.replyId s.replyId served').head?, f.method = s.method := by
  obtain ⟨hv, hh, hi⟩ := method_of_served hs hmem
  have hp : (s.method :: variants.erase s.method).Perm variants := (List.perm_cons_erase hv).symm
  obtain ⟨served', hs', hps⟩ := allServed_perm hp hs
  refine ⟨_, served', hp, hs', hps, ?_⟩
  -- the method's own handlers are served before the others
  have hsplit := hs'
  rw [allServed, List.flatMap_cons, List.mapM_append] at hsplit
  obtain ⟨own, hown, hrest⟩ := Option.bind_eq_some_iff.mp hsplit
  obtain ⟨rest, -, hrest⟩ := Option.bind_eq_some_iff.mp hrest
  obtain rfl : own ++ rest = served' := Option.some.inj hrest
  have hfirst : ∃ f ∈ own, f.replyId = s.replyId := by
    obtain ⟨p, hpm, hph⟩ := List.mem_map.mp hh
    obtain ⟨f, hf, he⟩ := (mapM_some_mem hown).1 p hpm
    rw [hph, hi] at he
    obtain rfl := Option.some.inj he
    exact ⟨_, hf, rfl⟩
  obtain ⟨f₀, hf₀, hk₀⟩ := hfirst
  have hne : ofKey Served.replyId s.replyId own ≠ [] := List.ne_nil_of_mem (mem_ofKey.mpr ⟨hf₀, hk₀⟩)
  obtain ⟨f, fs, hfs⟩ := List.exists_cons_of_ne_nil hne
  refine ⟨f, ?_, ?_⟩
  · rw [ofKey, List.filter_append, ← ofKey, hfs]
    rfl
  · have hf : f ∈ own := (mem_ofKey.mp (hfs ▸ List.mem_cons_self : f ∈ ofKey Served.replyId s.replyId own)).1
    obtain ⟨p, hpm, he⟩ := (mapM_some_mem hown).2 f hf
    obtain ⟨x, -, rfl⟩ := Option.map_eq_some_iff.mp he
    exact fst_of_mem_pair hpm

theorem exists_handled (on : ReplyOn) : ∃ r, handles on r = true := by
  cases on with
  | success | always => exact ⟨.ok ⟨[], none, []⟩, rfl⟩
  | error => exact ⟨.err "", rfl⟩

/-- Arms that do not depend on the order call each method with what it declares, whichever
    method of its id is first. -/
theorem OrderFree.calls_declared {marks : Bool} (h : OrderFree marks variants) (hs : allServed variants = some served)
    (hc : served.Pairwise Compatible) (hp : variants'.Perm variants) (hs' : allServed variants' = some served')
    (hps : served'.Perm served) {s f : Served Ty} (hmem : s ∈ served)
    (hf : f ∈ (ofKey Served.replyId s.replyId served').head?) :
    (leadKinds (dataOf f.method) s.method.replyOn ++ payloadKinds (payloadOf f.method)).map (ArgKind.seen marks) =
      (declared s.method).map (ArgKind.seen marks) := by
  have hc' : served'.Pairwise Compatible := (hps.pairwise_iff Compatible.symm).mpr hc
  obtain ⟨hv, hh, hi⟩ := method_of_served hs hmem
  have hnames : s.handlerId ∈ variants.flatMap handlerNames := List.mem_flatMap.mpr ⟨_, hv, hh⟩
  obtain ⟨r, hr⟩ := exists_handled s.method.replyOn
  obtain ⟨id, f', hid, hf', hsome, -⟩ := armOf_eq hs' hc' (handlerNames_perm hp hnames)
  obtain rfl : id = s.replyId := Option.some.inj (hid.symm.trans hi)
  obtain rfl : f' = f := Option.some.inj (hf'.symm.trans hf)
  have hcall := hsome r s (mem_ofKey.mpr ⟨hps.mem_iff.mpr hmem, rfl⟩) hr
  obtain ⟨out, out', -, hout', harms⟩ := h variants' hp
  rw [asReplyData_eq hs', Option.some.injEq] at hout'
  rw [hout'] at hcall
  obtain ⟨v, hv', ⟨h', hh', hi'⟩, hvr, -, hargs⟩ := (harms _ hnames r).2 _ hcall
  obtain ⟨t, ht, rfl, rfl⟩ := served_of_method hs hv' hh'
  have hti := (method_of_served hs ht).2.2
  have htk : t.replyId = s.replyId := by
    rw [hti, hi] at hi'
    exact Option.some.inj hi'
  rw [unique_of_apart (apart_of_compatible hc s.replyId) (mem_ofKey.mpr ⟨ht, htk⟩) (mem_ofKey.mpr ⟨hmem, rfl⟩) hvr hr]
    at hargs
  exact hargs

theorem OrderFree.takesOutcome {marks : Bool} (h : OrderFree marks variants) (hs : allServed variants = some served)
    (hc : served.Pairwise Compatible) : TakesOutcome variants := by
  intro v hv hne hnil
  obtain ⟨x, hx⟩ : ∃ x, x ∈ handlerNames v := by
    unfold handlerNames asVariantHandlersPair
    cases hl : v.msgAttr.handlers with
    | nil => exact ⟨v.functionName, by simp⟩
    | cons y ys => exact ⟨y, by simp⟩
  obtain ⟨s, hmem, rfl, -⟩ := served_of_method hs hv hx
  have hgroup : ofKey Served.replyId s.replyId served ≠ [] := List.ne_nil_of_mem (mem_ofKey.mpr ⟨hmem, rfl⟩)
  obtain ⟨f, fs, hfs⟩ := List.exists_cons_of_ne_nil hgroup
  have hargs := h.calls_declared hs hc (List.Perm.refl _) hs (List.Perm.refl _) hmem (f := f) (by rw [hfs]; rfl)
  -- the call has the error or the result, the method no parameter
  have hdecl : declared s.method = [] := by
    unfold declared
    rw [hnil]
    cases s.method.replyOn <;> rfl
  rw [hdecl, List.map_nil, List.map_eq_nil_iff, List.append_eq_nil_iff] at hargs
  cases ho : s.method.replyOn with
  | success => exact hne ho
  | error | always =>
    rw [ho] at hargs
    cases hargs.1

theorem OrderFree.noDataAfterError {marks : Bool} (h : OrderFree marks variants) (hs : allServed variants = some served)
    (hc : served.Pairwise Compatible) : NoDataAfterError variants := by
  intro v hv w hw x hx y hy hxy herr hsucc
  obtain ⟨s, hsm, t, htm, rfl, rfl, hk⟩ := served_of_same_id hs hv hw hx hy hxy
  -- the `error` method first
  obtain ⟨variants', served', hp, hs', hps, f, hf, hfs⟩ := exists_first hs hsm
  rw [hk] at hf
  have hargs := h.calls_declared hs hc hp hs' hps htm hf
  rw [hfs, dataOf_of_ne_success (by rw [herr]; decide), declared_eq (fun hne => absurd hsucc hne), hsucc] at hargs
  rw [carriesData_iff hsucc]
  cases hd : dataOf t.method with
  | none => rfl
  | some field =>
    -- no data in the call
    have hmem : ArgKind.data (dataParams field) ∈ (payloadKinds (payloadOf s.method)).map (ArgKind.seen marks) := by
      rw [hd] at hargs
      show _ ∈ (leadKinds none .success ++ payloadKinds (payloadOf s.method)).map (ArgKind.seen marks)
      rw [hargs]
      exact List.mem_cons_self
    simp [payloadKinds, ArgKind.seen] at hmem

theorem OrderFree.sameMarks (h : OrderFree true variants) (hs : allServed variants = some served)
    (hc : served.Pairwise Compatible) : SameMarks variants := by
  have hno := h.noDataAfterError hs hc
  have htakes := h.takesOutcome hs hc
  -- every method has the marks of the first of its id
  have hfirst {s f : Served Ty} (hmem : s ∈ served) (hf : f ∈ (ofKey Served.replyId s.replyId served).head?) :
      isPayloadMarked (payloadOf f.method) = isPayloadMarked (payloadOf s.method) := by
    obtain ⟨hfm, hfk⟩ := mem_ofKey.mp (List.mem_of_mem_head? hf)
    have hargs := h.calls_declared hs hc (List.Perm.refl _) hs (List.Perm.refl _) hmem hf
    rw [declared_eq (htakes _ (method_of_served hs hmem).1), lead_eq hs hc hfm hmem hfk hno, List.map_append,
      List.map_append, List.append_cancel_left_eq] at hargs
    exact (payloadKinds_seen_iff hc hfm hmem hfk).mp hargs rfl
  intro v hv w hw x hx y hy hxy
  obtain ⟨s, hsm, t, htm, rfl, rfl, hk⟩ := served_of_same_id hs hv hw hx hy hxy
  have hgroup : ofKey Served.replyId s.replyId served ≠ [] := List.ne_nil_of_mem (mem_ofKey.mpr ⟨hsm, rfl⟩)
  obtain ⟨f, fs, hfs⟩ := List.exists_cons_of_ne_nil hgroup
  rw [← hfirst hsm (by rw [hfs]; rfl : f ∈ _), ← hfirst htm (by rw [← hk, hfs]; rfl : f ∈ _)]

/-- The arms do not depend on the order of the methods exactly when no id is for an `error`
    method and a `success` one with data, and each `error` or `always` method takes the
    error or the result; where a raw payload is told from a decoded one, the methods of an
    id must agree on that too. -/
theorem reply_order_iff (hs : allServed variants = some served) (hc : served.Pairwise Compatible) (marks : Bool) :
    OrderFree marks variants ↔
      NoDataAfterError variants ∧ TakesOutcome variants ∧ (marks = true → SameMarks variants) := by
  constructor
  · intro h
    refine ⟨h.noDataAfterError hs hc, h.takesOutcome hs hc, ?_⟩
    intro hm
    rw [hm] at h
    exact h.sameMarks hs hc
  · intro ⟨hno, htakes, hmarks⟩
    exact orderFree_of hs hc hno htakes hmarks

/-! ## Data after an error method -/

/-- `reply_on = success` without data. -/
def onPaid : MsgVariant Unit := ⟨"OnPaid", "on_paid", [⟨"memo", (), []⟩], ⟨.reply, ["sent"], .success⟩, none⟩

theorem reply_order_paid : OrderFree true [onFailed, onPaid] := by
  have hs : allServed [onFailed, onPaid] = some [⟨onFailed, "sent", "SENT_REPLY_ID"⟩, ⟨onPaid, "sent", "SENT_REPLY_ID"⟩] := by
    decide
  refine (reply_order_iff hs ?_ true).mpr ⟨?_, ?_, fun _ => ?_⟩
  · unfold Compatible
    decide
  · unfold NoDataAfterError
    decide
  · unfold TakesOutcome
    decide
  · unfold SameMarks
    decide

/-- Accepted in both orders; with the `error` method first, the `success` one is called
    without its data. -/
theorem data_lost_after_error :
    asReplyData [onSent ⟨true, true, false⟩, onFailed] =
      some ⟨[sentRecord ⟨true, true, false⟩ [("on_sent", .success), ("on_failed", .error)]], []⟩ ∧
    asReplyData [onFailed, onSent ⟨true, true, false⟩] =
      some ⟨[⟨"SENT_REPLY_ID", "sent", [("on_failed", .error), ("on_sent", .success)], none, [⟨"note", (), []⟩]⟩], []⟩ ∧
    declared (onSent ⟨true, true, false⟩) = [.data ⟨true, true, false⟩, .payload false ()] ∧
    (armOf [⟨"SENT_REPLY_ID", "sent", [("on_failed", .error), ("on_sent", .success)], none, [⟨"note", (), []⟩]⟩] "sent"
      (.ok ⟨[], none, []⟩) : Option (ArmCall Unit)) = some ⟨"on_sent", [.payload false ()]⟩ ∧
    ¬ OrderFree false [onSent ⟨true, true, false⟩, onFailed] := by
  refine ⟨by decide, by decide, by decide, by decide, ?_⟩
  intro h
  have hs : allServed [onSent ⟨true, true, false⟩, onFailed] =
      some [⟨onSent ⟨true, true, false⟩, "sent", "SENT_REPLY_ID"⟩, ⟨onFailed, "sent", "SENT_REPLY_ID"⟩] := by decide
  have hno := h.noDataAfterError hs (by unfold Compatible; decide)
  exact absurd (hno onFailed (by simp) (onSent ⟨true, true, false⟩) (by simp) "sent" (by decide) "sent" (by decide) rfl rfl rfl)
    (by decide)

end Sylvia.Contract
