/-
  Sylvia.Contract.Mt — the multitest `Contract` implementation of a contract
  (`contract/mt.rs`: `emit_impl_contract`), beside its entry points on chain.

  Both are built from the same attributes and methods, apart from each other. What they
  do with an input is an `Outcome`: the function that is called, the context and what it
  is handed. `from_json` decodes a document and is given no reply (`illTyped`). On chain
  a kind that an attribute names is served by the overriding function itself.

  Proved:
  - `overrides_hit_named_iff`: every attribute acts on the kind it names exactly when
    none names `query`.
  - `mt_agrees_iff`: multitest and chain do the same exactly when none names `query` or
    `reply`, and a reply method that is called by name has the name it is given back.
-/
import Sylvia.CwStd
import Sylvia.EntryPoints

namespace Sylvia.Contract

open Sylvia.Base Sylvia.Parser Sylvia.Types

variable {Ty : Type}

namespace ContractInput

/-! ## The generated implementation -/

/-- The body of the function of a kind; `none` is a panic. -/
def emitImplContract (c : ContractInput Ty) (msgTy : MsgType) : Option Body :=
  match getEntryPoint c.overrideEntryPoints msgTy with
  | some o => some (.overriding o)
  | none =>
    match msgTy with
    | .instantiate | .exec | .query | .sudo => some (.dispatch msgTy)
    | .migrate =>
      if (getOnlyVariant (c.variants .migrate)).isSome then some (.dispatch .migrate)
      else some (.bail "migrate not implemented for contract")
    | .reply =>
      match getOnlyVariant (c.variants .reply) with
      | some reply =>
        if c.svFeatures.replies then some .dispatchReply
        else (svToCase .snake reply.name).map fun replyName => .method (some replyName)
      | none => some (.bail "reply not implemented for contract")

/-! ## Overrides -/

/-- The first attribute that names the kind. -/
def firstNaming (c : ContractInput Ty) (msgTy : MsgType) : Option OverrideAttr :=
  c.overrideAttrs.find? (·.Names msgTy)

def withoutOverrides (c : ContractInput Ty) : ContractInput Ty := { c with overrideAttrs := [] }

/-- The attributes act on the kind as they name it: the first that does replaces the
    default by its function, and without one the default stays. -/
structure OverridesHitNamed (c : ContractInput Ty) (msgTy : MsgType) : Prop where
  omitted : ∀ a, c.firstNaming msgTy = some a → c.emitDefaultEntryPoint msgTy ∉ c.emitEntryPoints
  called : ∀ a, c.firstNaming msgTy = some a → ∃ o, c.emitImplContract msgTy = some (.overriding o) ∧
    o.entryPoint = a.entryPoint ∧ o.msgName = a.msgName
  kept : c.firstNaming msgTy = none →
    (c.emitDefaultEntryPoint msgTy ∈ c.emitEntryPoints ↔ c.HasDefault msgTy) ∧
      c.emitImplContract msgTy = c.withoutOverrides.emitImplContract msgTy

theorem emitDefault_inj {c : ContractInput Ty} {ty ty' : MsgType}
    (h : c.emitDefaultEntryPoint ty = c.emitDefaultEntryPoint ty') : ty = ty' :=
  congrArg EntryPoint.msgTy h

theorem default_mem_emit {c : ContractInput Ty} {msgTy : MsgType} :
    c.emitDefaultEntryPoint msgTy ∈ c.emitEntryPoints ↔
      getEntryPoint c.overrideEntryPoints msgTy = none ∧ c.HasDefault msgTy := by
  rw [mem_emit]
  constructor
  · intro ⟨msgTy', he, h⟩
    rwa [emitDefault_inj he]
  · exact fun h => ⟨msgTy, rfl, h⟩

/-- Without an attribute that names `query`, a kind is overridden by the first that names it. -/
theorem getEntryPoint_of_no_query {c : ContractInput Ty} (hq : ∀ a ∈ c.overrideAttrs, ¬ a.Names .query)
    (msgTy : MsgType) : getEntryPoint c.overrideEntryPoints msgTy =
      (c.firstNaming msgTy).map fun a => ⟨a.entryPoint, a.msgName, msgTy⟩ := by
  rw [overrideEntryPoints, getEntryPoint_eq, firstNaming]
  refine congrArg (Option.map _) (List.find?_congr fun a ha => ?_)
  have hnot := hq a ha
  rw [Bool.eq_iff_iff, OverrideAttr.hits_iff, decide_eq_true_iff]
  constructor
  · intro h
    rcases h with h | h
    · exact h.1
    · exact absurd h.1 hnot
  · intro h
    exact .inl ⟨h, fun he => hnot (he ▸ h)⟩

theorem getEntryPoint_query (c : ContractInput Ty) : getEntryPoint c.overrideEntryPoints .query = none := by
  rw [overrideEntryPoints, getEntryPoint_eq, Option.map_eq_none_iff, List.find?_eq_none]
  exact fun a _ => by simp [a.not_hits_query]

theorem firstNaming_isSome {c : ContractInput Ty} {msgTy : MsgType} {a : OverrideAttr} (ha : a ∈ c.overrideAttrs)
    (hn : a.Names msgTy) : ∃ b, c.firstNaming msgTy = some b := by
  rw [firstNaming, ← Option.isSome_iff_exists, List.find?_isSome]
  exact ⟨a, ha, decide_eq_true hn⟩

theorem emitImplContract_congr {c : ContractInput Ty} {msgTy : MsgType}
    (h : getEntryPoint c.overrideEntryPoints msgTy = none) :
    c.emitImplContract msgTy = c.withoutOverrides.emitImplContract msgTy := by
  have hnone : getEntryPoint c.withoutOverrides.overrideEntryPoints msgTy = none := rfl
  simp only [emitImplContract, h, hnone]
  rfl

end ContractInput

open ContractInput in
/-- Overrides act on the kinds they name exactly when no attribute names `query`. -/
theorem overrides_hit_named_iff (c : ContractInput Ty) :
    (∀ msgTy, c.OverridesHitNamed msgTy) ↔ ∀ a ∈ c.overrideAttrs, ¬ a.Names .query := by
  constructor
  · intro h a ha hn
    obtain ⟨b, hb⟩ := firstNaming_isSome ha hn
    exact (h .query).omitted b hb (default_mem_emit.mpr ⟨c.getEntryPoint_query, trivial⟩)
  · intro hq msgTy
    have hget := getEntryPoint_of_no_query hq msgTy
    refine ⟨?_, ?_, ?_⟩
    · intro a ha
      rw [default_mem_emit, hget, ha]
      exact fun h => Option.some_ne_none _ h.1
    · intro a ha
      rw [ha] at hget
      exact ⟨⟨a.entryPoint, a.msgName, msgTy⟩, by simp [emitImplContract, hget], rfl, rfl⟩
    · intro hnone
      rw [hnone] at hget
      exact ⟨by rw [default_mem_emit, hget]; simp, emitImplContract_congr hget⟩

/-- A block with an `instantiate` and a `query` method and the given attributes. -/
def block (overrideAttrs : List OverrideAttr) (replies : Bool) : ContractInput Unit where
  name := "Contract"
  generics := []
  source := [⟨none, none, ⟨"new", []⟩⟩,
    ⟨some ⟨.instantiate, [], .always⟩, none, ⟨"instantiate", [.receiver [], .typed (some "ctx") () []]⟩⟩,
    ⟨some ⟨.query, [], .always⟩, none, ⟨"count", [.receiver [], .typed (some "ctx") () []]⟩⟩]
  overrideAttrs := overrideAttrs
  svFeatures := ⟨replies⟩
  variants := fun msgTy => match msgTy with
    | .instantiate => [⟨"Instantiate", "instantiate", [], ⟨.instantiate, [], .always⟩, none⟩]
    | .query => [⟨"Count", "count", [], ⟨.query, [], .always⟩, none⟩]
    | _ => []
  built := fun msgTy => by cases msgTy <;> decide

/-- An override of `query` leaves the default in place and replaces `instantiate`. -/
theorem query_override_hits_instantiate :
    (¬ (block [⟨"query", "crate::query", "QueryMsg"⟩] false).OverridesHitNamed .query) ∧
      (block [⟨"query", "crate::query", "QueryMsg"⟩] false).emitImplContract .instantiate =
        some (.overriding ⟨"crate::query", "QueryMsg", .instantiate⟩) := by
  refine ⟨fun h => h.omitted ⟨"query", "crate::query", "QueryMsg"⟩ rfl ?_, rfl⟩
  decide

/-! ## Inputs and outcomes -/

/-- A reply arrives decoded, any other message as a document. -/
inductive Input where
  | document (doc : Json)
  | reply (msg : CwStd.Reply)

def Input.Fits (msgTy : MsgType) : Input → Prop
  | .document _ => msgTy ≠ .reply
  | .reply _ => msgTy = .reply

/-- A message type that is decoded. -/
inductive MsgName where
  /-- The contract's own, `ContractApi::Exec` and the like. -/
  | assoc (msgTy : MsgType)
  | named (msgName : String)
  deriving DecidableEq, Repr

inductive Function where
  | dispatch (msgTy : MsgType)
  | dispatchReply
  | method (function : Ident)
  | path (entryPoint : String)
  deriving DecidableEq, Repr

/-- What a function is handed beside the context. -/
inductive Handed where
  | decoded (msgName : MsgName) (doc : Json)
  | reply (msg : CwStd.Reply)

inductive Outcome where
  | calls (function : Function) (ctx : List Ident) (msg : Handed)
  /-- The document is not of the type. -/
  | undecoded
  | bails (text : String)
  | illTyped

variable (decodes : MsgName → Json → Bool)

/-- `from_json`, and the call it is for. -/
def fromJsonCall (msgName : MsgName) (function : Function) (ctx : List Ident) : Input → Outcome
  | .document doc => if decodes msgName doc then .calls function ctx (.decoded msgName doc) else .undecoded
  | .reply _ => .illTyped

def handReply (function : Function) : Input → Outcome
  | .reply msg => .calls function (MsgType.emitCtxValues .reply) (.reply msg)
  | .document _ => .illTyped

def Body.run : Body → Input → Outcome
  | .dispatch msgTy => fromJsonCall decodes (.assoc msgTy) (.dispatch msgTy) msgTy.emitCtxValues
  | .overriding o => fromJsonCall decodes (.named o.msgName) (.path o.entryPoint) o.msgType.emitCtxValues
  | .dispatchReply => handReply .dispatchReply
  | .method (some f) => handReply (.method f)
  | .method none => fun _ => .illTyped
  | .bail text => fun _ => .bails text

/-- An overriding function as the entry point of `msgTy`. -/
def OverrideAttr.run (a : OverrideAttr) (msgTy : MsgType) : Input → Outcome
  | .document doc => fromJsonCall decodes (.named a.msgName) (.path a.entryPoint) msgTy.emitCtxValues (.document doc)
  | .reply msg => handReply (.path a.entryPoint) (.reply msg)

namespace ContractInput

/-- What the chain runs: the overriding function, or the generated entry point. -/
def deployed (c : ContractInput Ty) (msgTy : MsgType) : Option (Input → Outcome) :=
  match c.firstNaming msgTy with
  | some a => some (OverrideAttr.run decodes a msgTy)
  | none => (c.generated msgTy).map fun ep => ep.body.run decodes

/-- Multitest runs what the chain runs, and fails where the chain runs nothing. -/
def MtAgrees (c : ContractInput Ty) (msgTy : MsgType) : Prop :=
  ∀ (decodes : MsgName → Json → Bool) (input : Input), input.Fits msgTy →
    match c.deployed decodes msgTy with
    | some run => (c.emitImplContract msgTy).map (·.run decodes input) = some (run input)
    | none => ∃ text, (c.emitImplContract msgTy).map (·.run decodes input) = some (.bails text)

/-- A reply method that is called by name is found under its variant's name. -/
def ReplyNameReturns (c : ContractInput Ty) : Prop :=
  c.svFeatures.replies = true ∨
    ∀ v, getOnlyVariant (c.variants .reply) = some v → svToCase .snake v.name = some v.functionName

/-- An overriding function gets the document it would get on chain, but never a reply. -/
theorem agrees_of_named {c : ContractInput Ty} {msgTy : MsgType} {a : OverrideAttr} (hn : c.firstNaming msgTy = some a)
    (hget : getEntryPoint c.overrideEntryPoints msgTy = some ⟨a.entryPoint, a.msgName, msgTy⟩) :
    c.MtAgrees msgTy ↔ msgTy ≠ .reply := by
  have hmt : c.emitImplContract msgTy = some (.overriding ⟨a.entryPoint, a.msgName, msgTy⟩) := by
    simp [emitImplContract, hget]
  simp only [MtAgrees, deployed, hn, hmt, Option.map_some, Option.some.injEq]
  constructor
  · intro h hty
    subst hty
    have := h (fun _ _ => true) (.reply ⟨0, [], 0, .err ""⟩) rfl
    cases this
  · intro hty decodes input hfit
    cases input with
    | document doc => rfl
    | reply msg => exact absurd hfit hty

theorem agrees_of_default {c : ContractInput Ty} {msgTy : MsgType} (hn : c.firstNaming msgTy = none)
    (hget : getEntryPoint c.overrideEntryPoints msgTy = none) (hty : msgTy ≠ .reply) : c.MtAgrees msgTy := by
  intro decodes input hfit
  by_cases hdef : c.HasDefault msgTy
  · have hmt : c.emitImplContract msgTy = some (.dispatch msgTy) := by
      simp only [emitImplContract, hget]
      cases msgTy with
      | reply => exact absurd rfl hty
      | migrate => rw [if_pos (getOnlyVariant_isSome.mpr hdef)]
      | _ => rfl
    have hbody : (c.emitDefaultEntryPoint msgTy).body = .dispatch msgTy := by
      cases msgTy with
      | reply => exact absurd rfl hty
      | _ => rfl
    simp only [deployed, hn, generated_some hget hdef, hmt, hbody, Option.map_some]
  · -- only `migrate` may have no entry point
    cases msgTy with
    | reply => exact absurd rfl hty
    | migrate =>
      simp only [deployed, hn, generated_none fun h => hdef h.2, Option.map_none]
      refine ⟨"migrate not implemented for contract", ?_⟩
      simp only [emitImplContract, hget]
      rw [if_neg (mt getOnlyVariant_isSome.mp hdef)]
      rfl
    | _ => exact absurd trivial hdef

theorem reply_agrees_iff {c : ContractInput Ty} (hn : c.firstNaming .reply = none)
    (hget : getEntryPoint c.overrideEntryPoints .reply = none) : c.MtAgrees .reply ↔ c.ReplyNameReturns := by
  cases hv : c.variants .reply with
  | nil =>
    have hgen : c.generated .reply = none := generated_none fun h => h.2 hv
    have hname : c.ReplyNameReturns := .inr fun v h => by rw [hv] at h; cases h
    refine iff_of_true (fun decodes input _ => ?_) hname
    simp only [deployed, hn, hgen, Option.map_none, emitImplContract, hget, hv]
    exact ⟨_, rfl⟩
  | cons v vs =>
    have hdef : c.HasDefault .reply := by simp [HasDefault, hv]
    have hgen := generated_some hget hdef
    have hreply : c.reply = some v.functionName := by simp [reply, hv]
    simp only [MtAgrees, deployed, hn, hgen, Option.map_some, emitImplContract, hget, hv, getOnlyVariant,
      List.head?_cons, emitDefaultEntryPoint, hreply, ReplyNameReturns, Option.some.injEq, forall_eq']
    by_cases hfeat : c.svFeatures.replies = true
    · simp [hfeat]
    · simp only [hfeat, Bool.false_eq_true, if_false, false_or]
      constructor
      · intro h
        have := h (fun _ _ => true) (.reply ⟨0, [], 0, .err ""⟩) rfl
        cases hname : svToCase .snake v.name with
        | none => simp [hname] at this
        | some n => simpa [hname, Body.run, handReply] using this
      · intro hname decodes input hfit
        simp [hname]

end ContractInput

open ContractInput in
/-- Multitest and chain agree on every kind exactly when no attribute names `query` or
    `reply` and a reply method called by name is found. -/
theorem mt_agrees_iff (c : ContractInput Ty) : (∀ msgTy, c.MtAgrees msgTy) ↔
    (∀ a ∈ c.overrideAttrs, ¬ a.Names .query) ∧ (∀ a ∈ c.overrideAttrs, ¬ a.Names .reply) ∧ c.ReplyNameReturns := by
  constructor
  · intro h
    have hq : ∀ a ∈ c.overrideAttrs, ¬ a.Names .query := by
      intro a ha hn
      obtain ⟨b, hb⟩ := firstNaming_isSome ha hn
      have := h .query (fun _ _ => true) (.document .null) (by simp [Input.Fits])
      simp [deployed, hb, emitImplContract, c.getEntryPoint_query, Body.run, OverrideAttr.run, fromJsonCall] at this
    have hr : ∀ a ∈ c.overrideAttrs, ¬ a.Names .reply := by
      intro a ha hn
      obtain ⟨b, hb⟩ := firstNaming_isSome ha hn
      have hget := getEntryPoint_of_no_query hq .reply
      rw [hb] at hget
      exact (agrees_of_named hb hget).mp (h .reply) rfl
    have hnone : c.firstNaming .reply = none := List.find?_eq_none.mpr fun a ha => by simpa using hr a ha
    have hget := getEntryPoint_of_no_query hq .reply
    rw [hnone] at hget
    exact ⟨hq, hr, (reply_agrees_iff hnone hget).mp (h .reply)⟩
  · intro ⟨hq, hr, hname⟩ msgTy
    have hget := getEntryPoint_of_no_query hq msgTy
    cases hn : c.firstNaming msgTy with
    | some a =>
      rw [hn] at hget
      refine (agrees_of_named hn hget).mpr ?_
      rintro rfl
      have hp := List.find?_some hn
      exact hr a (List.mem_of_find?_eq_some hn) (of_decide_eq_true hp)
    | none =>
      rw [hn] at hget
      by_cases hty : msgTy = .reply
      · subst hty
        exact (reply_agrees_iff hn hget).mpr hname
      · exact agrees_of_default hn hget hty

/-- Two reply methods without `sv::features(replies)`. -/
def legacy : ContractInput Unit where
  name := "Contract"
  generics := []
  source := [⟨none, none, ⟨"new", []⟩⟩,
    ⟨some ⟨.instantiate, [], .always⟩, none, ⟨"instantiate", [.receiver [], .typed (some "ctx") () []]⟩⟩,
    ⟨some ⟨.reply, [], .always⟩, none,
      ⟨"reply2", [.receiver [], .typed (some "ctx") () [], .typed (some "reply") () []]⟩⟩,
    ⟨some ⟨.reply, [], .always⟩, none,
      ⟨"on_timeout", [.receiver [], .typed (some "ctx") () [], .typed (some "reply") () []]⟩⟩]
  overrideAttrs := []
  svFeatures := ⟨false⟩
  variants := fun msgTy => match msgTy with
    | .instantiate => [⟨"Instantiate", "instantiate", [], ⟨.instantiate, [], .always⟩, none⟩]
    | .reply => [⟨"Reply2", "reply2", [⟨"reply", (), []⟩], ⟨.reply, [], .always⟩, none⟩,
      ⟨"OnTimeout", "on_timeout", [⟨"reply", (), []⟩], ⟨.reply, [], .always⟩, none⟩]
    | _ => []
  built := fun msgTy => by cases msgTy <;> decide

/-- On chain `reply2` gets the reply, in multitest `reply_2` would. -/
theorem legacy_reply_renamed :
    legacy.generated .reply = some ⟨"reply", .reply, .method (some "reply2")⟩ ∧
      legacy.emitImplContract .reply = some (.method (some "reply_2")) ∧ ¬ legacy.MtAgrees .reply := by
  have hgen : legacy.generated .reply = some ⟨"reply", .reply, .method (some "reply2")⟩ := by decide
  have hmt : legacy.emitImplContract .reply = some (.method (some "reply_2")) := by decide
  refine ⟨hgen, hmt, ?_⟩
  intro h
  have := h (fun _ _ => true) (.reply ⟨0, [], 0, .err ""⟩) rfl
  have hname : legacy.firstNaming .reply = none := rfl
  simp [ContractInput.deployed, hname, hgen, hmt, Body.run, handReply] at this

end Sylvia.Contract
