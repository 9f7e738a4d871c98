/-
  Sylvia.Contract.Reply — reply handlers grouped by reply id
  (`contract/communication/reply.rs`: `as_reply_data`, `ReplyData::new`, `merge`, and what
  they check).

  A reply method serves the handlers it lists, or the one of its own name. The first
  method of a handler makes its record, with the method's data and payload parameters; a
  second one, for the other outcome, is merged: its payload types must match, and only
  its name is kept. Equal outcomes, or one with `always`, are reported as duplicates.
  `Ident::new` panics on an id that is no identifier (`none`).

  Proved: `asReplyData_grouped`: when nothing is reported, there is one record for each
  id, and it is a `RecordOf` the methods of that id, in order.
-/
import Sylvia.Base.Grouping
import Sylvia.Types.MsgVariant

namespace Sylvia.Contract

open Sylvia.Base Sylvia.Parser Sylvia.Types

variable {Ty : Type}

def numberOfAllowedDataFields : Nat := 1

def numberOfAllowedRawPayloadFields : Nat := 1

/-- `AsReplyId::as_reply_id`. -/
def asReplyId (ident : Ident) : Option Ident := identNew (toCase .upperSnake ident ++ "_REPLY_ID")

/-- No parameter may stand beside a payload marked raw. -/
def assertNoRedundantParams (payload : List (MsgField Ty)) : Emit Unit :=
  let payloadParam := payload.zipIdx.find? fun p => (parsed p.1.attrs).payload
  if payload.length = numberOfAllowedRawPayloadFields then pure ()
  else match payloadParam with
    | none => pure ()
    | some (_, index) =>
      if index = 0 then
        Emit.emitError "Redundant payload parameter."
          ["Expected no parameters after the parameter marked with `#[sv::payload(raw)]`."]
      else
        Emit.emitError "Redundant payload parameter."
          ["Expected no parameters between the parameter marked with `#[sv::data]` and `#[sv::payload(raw)]`."]

def asVariantHandlersPair (v : MsgVariant Ty) : List (MsgVariant Ty × Ident) :=
  if v.msgAttr.handlers.isEmpty then [(v, v.functionName)] else v.msgAttr.handlers.map fun handler => (v, handler)

/-- The first parameter, marked with `sv::data`, of a `success` method. -/
def asDataField (v : MsgVariant Ty) : Emit (Option (MsgField Ty)) :=
  match v.fields.zipIdx.find? fun p => (parsed p.1.attrs).data.isSome with
  | some (field, index) =>
    if v.replyOn = .success ∧ index = 0 then pure (some field)
    else if v.replyOn = .success then do
      Emit.emitError "Wrong usage of `#[sv::data]` attribute."
        ["The `#[sv::data]` attribute can only be used on the first parameter after the `ReplyCtx`."]
      pure none
    else do
      Emit.emitError "Wrong usage of `#[sv::data]` attribute."
        ["The `#[sv::data]` attribute can only be used in `success` scenario.",
          "Found usage in `" ++ v.replyOn.toText ++ "` scenario."]
      pure none
  | none => pure none

def validateFieldsAttributes (v : MsgVariant Ty) : Emit Unit := parseErrors (v.fields.flatMap MsgField.attrs)

structure ReplyData (Ty : Type) where
  replyId : Ident
  handlerId : Ident
  handlers : List (Ident × ReplyOn)
  data : Option (MsgField Ty)
  payload : List (MsgField Ty)
  deriving DecidableEq, Repr

/-- The parameters that a method's payload is made of. -/
def payloadFields (v : MsgVariant Ty) (data : Option (MsgField Ty)) : List (MsgField Ty) :=
  if data.isSome || v.replyOn ≠ .success then v.fields.drop numberOfAllowedDataFields else v.fields

namespace ReplyData

def new (replyId : Ident) (v : MsgVariant Ty) (handlerId : Ident) : Emit (ReplyData Ty) := do
  let data ← asDataField v
  validateFieldsAttributes v
  let payload := payloadFields v data
  Emit.errorIf payload.isEmpty "Missing payload parameter."
    ["Expected at least one payload parameter at the end of parameter list."]
  assertNoRedundantParams payload
  pure ⟨replyId, handlerId, [(v.functionName, v.replyOn)], data, payload⟩

def merge [DecidableEq Ty] (self : ReplyData Ty) (newHandler : MsgVariant Ty) : Emit (ReplyData Ty) :=
  match self.handlers with
  | [] => pure self
  | _ :: _ => do
    let newReplyData ← new self.replyId newHandler self.handlerId
    Emit.errorIf (self.payload.length != newReplyData.payload.length) "Mismatched quantity of method parameters."
      ["Both `" ++ self.handlerId ++ "` handlers should have the same number of parameters.",
        "Previous definition of " ++ self.handlerId ++ " handler."]
    (self.payload.zip newReplyData.payload).forM fun (currentField, newField) =>
      Emit.errorIf (currentField.ty != newField.ty) "Mismatched parameter in reply handlers."
        ["Parameters for the `" ++ self.handlerId ++ "` handler have to be the same.",
          "Previous parameter defined for the `" ++ self.handlerId ++ "` handler."]
    pure { self with handlers := self.handlers ++ [(newHandler.functionName, newHandler.replyOn)] }

end ReplyData

/-- A method, one of its handlers and the handler's reply id. -/
structure Served (Ty : Type) where
  method : MsgVariant Ty
  handlerId : Ident
  replyId : Ident
  deriving DecidableEq, Repr

def Served.make (s : Served Ty) : Emit (ReplyData Ty) := ReplyData.new s.replyId s.method s.handlerId

def Served.addTo [DecidableEq Ty] (existing : ReplyData Ty) (s : Served Ty) : Emit (ReplyData Ty) :=
  if existing.handlers.any fun h => h.2.excludes s.method.replyOn then do
    existing.handlers.forM fun h =>
      Emit.emitError "Duplicated reply handler."
        ["Previous definition of handler=`" ++ existing.replyId ++ "` for reply_on=`" ++ h.2.toText ++
          "` defined on `fn " ++ h.1 ++ "()`"]
    pure existing
  else existing.merge s.method

/-- Every method with each of its handlers. -/
def allServed (variants : List (MsgVariant Ty)) : Option (List (Served Ty)) :=
  (variants.flatMap asVariantHandlersPair).mapM fun p => (asReplyId p.2).map fun id => ⟨p.1, p.2, id⟩

def asReplyData [DecidableEq Ty] (variants : List (MsgVariant Ty)) : Option (Emit (List (ReplyData Ty))) := do
  let served ← allServed variants
  some (groupAll Served.replyId ReplyData.replyId Served.make Served.addTo served)

/-! ## What a method is made for -/

theorem asReplyId_some {h x : Ident} (hx : asReplyId h = some x) : x = toCase .upperSnake h ++ "_REPLY_ID" := by
  unfold asReplyId identNew at hx
  split at hx
  · exact (Option.some.inj hx).symm
  · cases hx

/-- A method is served once for each handler it names, or for its own name. -/
theorem allServed_declared {variants : List (MsgVariant Ty)} {served : List (Served Ty)}
    (h : allServed variants = some served) :
    served.map (fun s => (s.method, s.handlerId)) = variants.flatMap (fun v =>
        (if v.msgAttr.handlers = [] then [v.functionName] else v.msgAttr.handlers).map fun handler => (v, handler)) ∧
      ∀ s ∈ served, s.replyId = toCase .upperSnake s.handlerId ++ "_REPLY_ID" := by
  have hpairs : variants.flatMap (fun v =>
      (if v.msgAttr.handlers = [] then [v.functionName] else v.msgAttr.handlers).map fun handler => (v, handler)) =
        variants.flatMap asVariantHandlersPair := by
    refine List.flatMap_congr fun v _ => ?_
    unfold asVariantHandlersPair
    cases v.msgAttr.handlers <;> simp
  rw [hpairs]
  have hall := (mapM_some_iff _ _ _).mp h
  clear h hpairs
  generalize variants.flatMap asVariantHandlersPair = pairs at hall
  induction hall with
  | nil => simp
  | cons hs _ ih =>
    obtain ⟨id, hid, rfl⟩ := Option.map_eq_some_iff.mp hs
    rw [List.map_cons, ih.1, List.forall_mem_cons]
    exact ⟨rfl, asReplyId_some hid, ih.2⟩

/-! ## What a record is made of -/

/-- A method's data and payload parameters, as its own record would have them. -/
def dataOf (v : MsgVariant Ty) : Option (MsgField Ty) := (asDataField v).val

def payloadOf (v : MsgVariant Ty) : List (MsgField Ty) := payloadFields v (dataOf v)

/-- The record of the methods `g` of one reply id. -/
structure RecordOf (g : List (Served Ty)) (rd : ReplyData Ty) : Prop where
  first : ∃ s ∈ g.head?, rd.handlerId = s.handlerId ∧ rd.data = dataOf s.method ∧ rd.payload = payloadOf s.method
  handlers : rd.handlers = g.map fun s => (s.method.functionName, s.method.replyOn)
  /-- No two methods handle one outcome. -/
  apart : g.Pairwise fun s t => s.method.replyOn.excludes t.method.replyOn = false
  types : ∀ s ∈ g, (payloadOf s.method).map MsgField.ty = rd.payload.map MsgField.ty
  nonempty : rd.payload ≠ []
  raw_alone : rd.payload.any (fun f => (parsed f.attrs).payload) = true → rd.payload.length = 1

theorem raw_payload_alone {payload : List (MsgField Ty)} (h : Emit.Clean (assertNoRedundantParams payload))
    (hany : payload.any (fun f => (parsed f.attrs).payload) = true) : payload.length = 1 := by
  unfold assertNoRedundantParams at h
  split at h
  · assumption
  · obtain ⟨f, hf, hp⟩ := List.any_eq_true.mp hany
    dsimp only at h
    split at h
    · rename_i hnone
      obtain ⟨i, hi⟩ := List.mem_iff_getElem?.mp hf
      exact absurd hp (List.find?_eq_none.mp hnone (f, i) (List.mk_mem_zipIdx_iff_getElem?.mpr hi))
    · split at h <;> simp at h

theorem new_clean {replyId handlerId : Ident} {v : MsgVariant Ty} (h : Emit.Clean (ReplyData.new replyId v handlerId)) :
    payloadOf v ≠ [] ∧
      ((payloadOf v).any (fun f => (parsed f.attrs).payload) = true → (payloadOf v).length = 1) := by
  simp only [ReplyData.new, Emit.clean_bind] at h
  obtain ⟨-, -, hempty, hred, -⟩ := h
  exact ⟨fun hnil => by rw [payloadOf, dataOf] at hnil; simp [hnil] at hempty, raw_payload_alone hred⟩

@[simp] theorem new_val (replyId handlerId : Ident) (v : MsgVariant Ty) :
    (ReplyData.new replyId v handlerId).val =
      ⟨replyId, handlerId, [(v.functionName, v.replyOn)], dataOf v, payloadOf v⟩ := rfl

theorem make_recordOf {s : Served Ty} (h : Emit.Clean s.make) :
    s.make.val.replyId = s.replyId ∧ RecordOf [s] s.make.val := by
  obtain ⟨hne, hraw⟩ := new_clean h
  exact ⟨rfl, ⟨⟨s, rfl, rfl, rfl, rfl⟩, rfl, List.pairwise_singleton _ _, by simp [Served.make], hne, hraw⟩⟩

/-- Only the name of a merged method is kept. -/
theorem merge_val [DecidableEq Ty] {rd : ReplyData Ty} (hh : rd.handlers ≠ []) (v : MsgVariant Ty) :
    (rd.merge v).val = { rd with handlers := rd.handlers ++ [(v.functionName, v.replyOn)] } := by
  obtain ⟨h0, hs, hhs⟩ := List.exists_cons_of_ne_nil hh
  simp only [ReplyData.merge, hhs]
  rfl

theorem merge_clean [DecidableEq Ty] {rd : ReplyData Ty} {v : MsgVariant Ty} (hh : rd.handlers ≠ [])
    (h : Emit.Clean (rd.merge v)) : (payloadOf v).map MsgField.ty = rd.payload.map MsgField.ty := by
  obtain ⟨h0, hs, hhs⟩ := List.exists_cons_of_ne_nil hh
  simp only [ReplyData.merge, hhs] at h
  simp only [Emit.clean_bind, new_val] at h
  obtain ⟨-, hlen, hty, -⟩ := h
  have hlen : rd.payload.length = (payloadOf v).length := by simpa using hlen
  rw [Emit.clean_forM] at hty
  refine List.ext_getElem (by simp [hlen]) ?_
  intro i hi hi'
  simp only [List.length_map] at hi hi'
  have hmem : (rd.payload[i], (payloadOf v)[i]) ∈ rd.payload.zip (payloadOf v) := by
    have hz : i < (rd.payload.zip (payloadOf v)).length := by rw [List.length_zip]; omega
    rw [← List.getElem_zip (h := hz)]
    exact List.getElem_mem hz
  have hsame : rd.payload[i].ty = (payloadOf v)[i].ty := by simpa using hty _ hmem
  simp [hsame]

theorem addTo_recordOf [DecidableEq Ty] {g : List (Served Ty)} {rd : ReplyData Ty} {s : Served Ty}
    (h : Emit.Clean (s.addTo rd)) (hg : RecordOf g rd) :
    (s.addTo rd).val.replyId = rd.replyId ∧ RecordOf (g ++ [s]) (s.addTo rd).val := by
  obtain ⟨first, hfirst, hid, hdata, hpay⟩ := hg.first
  have hgne : g ≠ [] := by
    intro hnil
    rw [hnil] at hfirst
    cases hfirst
  have hne : rd.handlers ≠ [] := by rw [hg.handlers]; simpa using hgne
  unfold Served.addTo at h ⊢
  by_cases hexcl : rd.handlers.any (fun h => h.2.excludes s.method.replyOn) = true
  · -- a duplicate: one error at least
    obtain ⟨h0, hs, hhs⟩ := List.exists_cons_of_ne_nil hne
    rw [if_pos hexcl, Emit.clean_bind, Emit.clean_forM, hhs] at h
    exact absurd (h.1 h0 List.mem_cons_self) (Emit.not_clean_emitError _ _)
  · rw [if_neg hexcl] at h ⊢
    have htys := merge_clean hne h
    rw [merge_val hne]
    refine ⟨rfl, ⟨⟨first, ?_, hid, hdata, hpay⟩, ?_, ?_, ?_, hg.nonempty, hg.raw_alone⟩⟩
    · rw [List.head?_append_of_ne_nil _ hgne]; exact hfirst
    · simp [hg.handlers]
    · refine List.pairwise_append.mpr ⟨hg.apart, List.pairwise_singleton _ _, ?_⟩
      intro t ht u hu
      obtain rfl := List.mem_singleton.mp hu
      rw [hg.handlers] at hexcl
      simpa using fun hex => hexcl (List.any_eq_true.mpr ⟨_, List.mem_map_of_mem ht, hex⟩)
    · simp only [List.mem_append, List.mem_singleton]
      rintro t (ht | rfl)
      · exact hg.types t ht
      · exact htys

theorem asReplyData_grouped [DecidableEq Ty] {variants : List (MsgVariant Ty)} {out : Emit (List (ReplyData Ty))}
    (h : asReplyData variants = some out) (hclean : out.Clean) : ∃ served, allServed variants = some served ∧
      Grouped Served.replyId ReplyData.replyId RecordOf served out.val := by
  obtain ⟨served, hs, hout⟩ := Option.bind_eq_some_iff.mp h
  obtain rfl := Option.some.inj hout
  refine ⟨served, hs, ?_⟩
  apply grouped_of_clean _ _ hclean
  · intro s _ hc
    exact make_recordOf hc
  · intro s _ g rd hc hd hk
    rw [← hk]
    exact addTo_recordOf hc hd

end Sylvia.Contract
