/-
  Sylvia.IntoResponse — an interface's response made into one of a contract with custom
  messages (`sylvia/src/into_response.rs`).

  `intoMsg` moves the payload of every variant it knows, refuses a custom message, and
  answers any other variant with the text that asks to report it. How a sub-message is
  printed is the parameter `debug`.

  Proved:
  - `intoMsg_same`, `intoMsg_ok_iff`: a converted sub-message is the same, and all but
    custom and `Stargate` ones are converted.
  - `into_response_lossless`: the conversion is accepted exactly without custom messages,
    and then keeps everything, for the responses where a custom message is sent or none
    is a `Stargate` message, and for no others.
  - `stargate_refused`: a response with one `Stargate` message is refused.
-/
import Sylvia.Base.Lists
import Sylvia.CwStd

namespace Sylvia.IntoResponse

open Sylvia.Base Sylvia.CwStd

variable {P : Payloads} {T : Type}

/-- `SubMsg<Empty>::into_msg`; `Empty` is `Unit`. -/
def intoMsg (debug : SubMsg P Unit → String) (self : SubMsg P Unit) : Except StdError (SubMsg P T) := do
  let msg ← match self.msg with
    | .wasm wasm => .ok (.wasm wasm)
    | .bank bank => .ok (.bank bank)
    | .staking staking => .ok (.staking staking)
    | .distribution distribution => .ok (.distribution distribution)
    | .custom _ => .error (.genericErr "Custom Empty message should not be sent")
    | .ibc ibc => .ok (.ibc ibc)
    | .any any => .ok (.any any)
    | .gov msg => .ok (.gov msg)
    | _ => .error (.genericErr ("Unknown message variant: " ++ debug self ++ ". Please make sure you are using " ++
        "up-to-date Sylvia version, and if so please issue this bug on the Sylvia repository."))
  .ok ⟨self.id, self.payload, msg, self.gasLimit, self.replyOn⟩

/-- `Response<Empty>::into_response`. -/
def intoResponse (debug : SubMsg P Unit → String) (self : Response P Unit) : Except StdError (Response P T) := do
  let messages ← self.messages.mapM (intoMsg debug)
  let resp := ((Response.new.addSubmessages messages).addEvents self.events).addAttributes self.attributes
  .ok { resp with data := self.data }

/-! ## The same message for another chain -/

/-- One message, whatever the custom type. -/
inductive SameMsg {T : Type} : CosmosMsg P Unit → CosmosMsg P T → Prop
  | bank (m : P.Bank) : SameMsg (.bank m) (.bank m)
  | staking (m : P.Staking) : SameMsg (.staking m) (.staking m)
  | distribution (m : P.Distribution) : SameMsg (.distribution m) (.distribution m)
  | stargate (m : P.Stargate) : SameMsg (.stargate m) (.stargate m)
  | any (m : P.Any) : SameMsg (.any m) (.any m)
  | ibc (m : P.Ibc) : SameMsg (.ibc m) (.ibc m)
  | wasm (m : P.Wasm) : SameMsg (.wasm m) (.wasm m)
  | gov (m : P.Gov) : SameMsg (.gov m) (.gov m)

structure SameSubMsg (a : SubMsg P Unit) (b : SubMsg P T) : Prop where
  msg : SameMsg a.msg b.msg
  id : b.id = a.id
  payload : b.payload = a.payload
  gasLimit : b.gasLimit = a.gasLimit
  replyOn : b.replyOn = a.replyOn

/-- The same sub-messages in the same order, the same events, attributes and data. -/
structure SameResponse (a : Response P Unit) (b : Response P T) : Prop where
  messages : List.Forall₂ SameSubMsg a.messages b.messages
  attributes : b.attributes = a.attributes
  events : b.events = a.events
  data : b.data = a.data

def IsCustom (m : SubMsg P Unit) : Prop := ∃ c, m.msg = .custom c

def IsStargate (m : SubMsg P Unit) : Prop := ∃ s, m.msg = .stargate s

/-- `into_response` accepts exactly the responses without a custom message, and loses
    nothing of them. -/
def Lossless (T : Type) (debug : SubMsg P Unit → String) (r : Response P Unit) : Prop :=
  ((∃ r' : Response P T, intoResponse debug r = .ok r') ↔ ∀ m ∈ r.messages, ¬ IsCustom m) ∧
    ∀ r' : Response P T, intoResponse debug r = .ok r' → SameResponse r r'

/-! ## What is converted -/

theorem intoMsg_same {debug : SubMsg P Unit → String} {m : SubMsg P Unit} {m' : SubMsg P T}
    (h : intoMsg debug m = .ok m') : SameSubMsg m m' := by
  obtain ⟨id, payload, msg, gasLimit, replyOn⟩ := m
  cases msg <;> simp only [intoMsg, bind, Except.bind, Except.ok.injEq, reduceCtorEq] at h <;> subst h <;>
    exact ⟨by constructor, rfl, rfl, rfl, rfl⟩

theorem intoMsg_ok_iff (debug : SubMsg P Unit → String) (m : SubMsg P Unit) :
    (∃ m' : SubMsg P T, intoMsg debug m = .ok m') ↔ ¬ IsCustom m ∧ ¬ IsStargate m := by
  obtain ⟨id, payload, msg, gasLimit, replyOn⟩ := m
  cases msg <;> simp [intoMsg, bind, Except.bind, IsCustom, IsStargate]

theorem intoResponse_ok {debug : SubMsg P Unit → String} {r : Response P Unit} {r' : Response P T} :
    intoResponse debug r = .ok r' ↔ ∃ ms, r.messages.mapM (intoMsg debug) = .ok ms ∧
      r' = ⟨ms, r.attributes, r.events, r.data⟩ := by
  cases h : (r.messages.mapM (intoMsg debug) : Except StdError (List (SubMsg P T))) with
  | error e => simp [intoResponse, h, bind, Except.bind]
  | ok ms =>
    simp [intoResponse, h, bind, Except.bind, Response.new, Response.addSubmessages, Response.addEvents,
      Response.addAttributes, eq_comm]

theorem intoResponse_same {debug : SubMsg P Unit → String} {r : Response P Unit} {r' : Response P T}
    (h : intoResponse debug r = .ok r') : SameResponse r r' := by
  obtain ⟨ms, hms, rfl⟩ := intoResponse_ok.mp h
  exact ⟨((mapM_ok_iff _ _ _).mp hms).imp fun _ _ => intoMsg_same, rfl, rfl, rfl⟩

theorem intoResponse_ok_iff (debug : SubMsg P Unit → String) (r : Response P Unit) :
    (∃ r' : Response P T, intoResponse debug r = .ok r') ↔ ∀ m ∈ r.messages, ¬ IsCustom m ∧ ¬ IsStargate m := by
  have hmap : (∃ ms : List (SubMsg P T), r.messages.mapM (intoMsg debug) = .ok ms) ↔
      ∀ m ∈ r.messages, ¬ IsCustom m ∧ ¬ IsStargate m := by
    rw [exists_mapM_ok_iff]
    simp only [intoMsg_ok_iff]
  rw [← hmap]
  simp only [intoResponse_ok]
  exact ⟨fun ⟨_, ms, hms, _⟩ => ⟨ms, hms⟩, fun ⟨ms, hms⟩ => ⟨_, ms, hms, rfl⟩⟩

/-- Converting loses nothing, and is refused only for a custom message, exactly when the
    response holds a custom message or no `Stargate` message. -/
theorem into_response_lossless (debug : SubMsg P Unit → String) (r : Response P Unit) :
    Lossless T debug r ↔ (∃ m ∈ r.messages, IsCustom m) ∨ ∀ m ∈ r.messages, ¬ IsStargate m := by
  rw [Lossless, intoResponse_ok_iff]
  constructor
  · intro ⟨h, _⟩
    by_cases hc : ∃ m ∈ r.messages, IsCustom m
    · exact Or.inl hc
    · have hno : ∀ m ∈ r.messages, ¬ IsCustom m := fun m hm hcm => hc ⟨m, hm, hcm⟩
      exact Or.inr fun m hm => (h.mpr hno m hm).2
  · intro h
    refine ⟨⟨fun hall m hm => (hall m hm).1, fun hno m hm => ⟨hno m hm, ?_⟩⟩, fun _ => intoResponse_same⟩
    rcases h with ⟨m', hm', hc⟩ | h
    · exact absurd hc (hno m' hm')
    · exact h m hm

/-- A response with one `Stargate` message. -/
def stargateOnly : Response ⟨Unit, Unit, Unit, Unit, Unit, Unit, Unit, Unit⟩ Unit :=
  ⟨[⟨0, [], .stargate (), none, .never⟩], [], [], none⟩

theorem stargate_refused : (∀ m ∈ stargateOnly.messages, ¬ IsCustom m) ∧
    ¬ Lossless Nat (fun _ => "") stargateOnly := by
  have hno : ∀ m ∈ stargateOnly.messages, ¬ IsCustom m := by simp [stargateOnly, IsCustom]
  refine ⟨hno, fun ⟨hiff, _⟩ => ?_⟩
  obtain ⟨r', h⟩ := hiff.mpr hno
  simp [intoResponse, stargateOnly, intoMsg, bind, Except.bind] at h

end Sylvia.IntoResponse
