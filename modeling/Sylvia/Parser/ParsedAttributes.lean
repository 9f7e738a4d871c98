/-
  Sylvia.Parser.ParsedAttributes — all attributes of an item, sorted by what they are and
  parsed (`sylvia-derive/src/parser/attributes/mod.rs`).

  An attribute of sylvia has two segments, `sv` and a known name. Those written as a list
  are parsed; a bare `sv::data` stands for no parameters. The first of the attributes
  that may be given once is kept, of those without such a check the last is, and the rest
  are collected in order. A parser's error is reported and leaves the result as it was;
  so does a panic, which nothing outlives.

  `syn`'s parsers of paths and types, and the text of what they read, are parameters.

  Proved:
  - `attributes_exact`: what the attributes are parsed to, and that no error is reported
    exactly when they are `WellFormed`.
  - `attributes_order`: well-formed attributes mean the same in any order, as long as
    those of which the last is kept are written once.
-/
import Sylvia.Parser.FieldParams
import Sylvia.Parser.Messages
import Sylvia.Parser.OverrideEntryPoint

namespace Sylvia.Parser

open Sylvia.Base Sylvia.Syn

/-- What follows an attribute's path. -/
inductive Content where
  | path
  | list (tokens : List Token)
  | nameValue

structure Attribute where
  path : List Ident
  content : Content

inductive SylviaAttribute where
  | custom
  | error
  | messages
  | msg
  | overrideEntryPoint
  | variantAttrs
  | msgAttrs
  | payload
  | data
  | features
  deriving DecidableEq, Repr

namespace SylviaAttribute

def matchAttribute (segment : Ident) : Option SylviaAttribute :=
  match segment with
  | "custom" => some .custom
  | "error" => some .error
  | "messages" => some .messages
  | "msg" => some .msg
  | "override_entry_point" => some .overrideEntryPoint
  | "attr" => some .variantAttrs
  | "msg_attr" => some .msgAttrs
  | "payload" => some .payload
  | "data" => some .data
  | "features" => some .features
  | _ => none

def new (attr : Attribute) : Option SylviaAttribute :=
  match attr.path with
  | [sv, segment] => if sv = "sv" then matchAttribute segment else none
  | _ => none

/-- Reported as redefined if there is one already. -/
def Single : SylviaAttribute → Bool
  | .custom | .error | .msg => true
  | _ => false

end SylviaAttribute

/-- What is parsed by `syn`. -/
structure Grammar (T : Type) where
  path : PathSyntax
  ty : ItemParser T
  pathText : Syn.Path → String
  typeText : T → String

variable {α T : Type}

/-! ## The parsers -/

/-- `ContractErrorAttr::parse`. -/
def parseErrorType (ty : ItemParser T) (input : List Token) : Except Failure (Parsed T) :=
  match ty.parse input with
  | .ok (error, rest) => .ok ⟨error, rest, false⟩
  | .error e => .error e

/-- `OverrideEntryPoint::parse`; the kind is looked up last. -/
def parseOverride (G : Grammar T) (input : List Token) : Except Failure (Parsed OverrideEntryPoint) :=
  match parseIdent input with
  | .ok (ty, .punct '=' _ :: input) =>
    match G.path.parse input with
    | .ok (entryPoint, .group .parenthesis msgContent :: input) =>
      match G.ty.parse msgContent with
      | .ok (msgName, left) =>
        match OverrideEntryPoint.parse ⟨ty, G.pathText entryPoint, G.typeText msgName⟩ with
        | .ok o => .ok ⟨o, input, !left.isEmpty⟩
        | .error text => .error (.err text)
      | .error e => .error e
    | .ok _ => .error .syn
    | .error e => .error e
  | .ok _ => .error .syn
  | .error e => .error e

/-- The error as reported; `syn`'s own texts are left out. -/
def Failure.text : Failure → String
  | .err text => text
  | .syn => "syn"
  | .panic => "proc macro panicked"

/-- `new` of an attribute: an error is reported. -/
def report (result : Except Failure α) : Emit (Option α) :=
  match result with
  | .ok a => pure (some a)
  | .error e => do
    Emit.emitError (Failure.text e) []
    pure none

/-- `DataFieldParams::new`. -/
def DataFieldParams.new (tokens : List Token) : Emit (Option DataFieldParams) := do
  let data ← report (parse2 DataFieldParams.parse tokens)
  Emit.errorIf (data.any fun data => data.instantiate && data.raw)
    "The `instantiate` cannot be used in pair with `raw` parameter."
    ["Use any combination of [`raw`, `opt`] or [`instantiate`, `opt`] pairs."]
  pure data

/-! ## All of them -/

structure ParsedSylviaAttributes (T : Type) where
  customAttr : Option (CustomTypes T)
  errorAttrs : Option T
  messagesAttrs : List ContractMessageAttr
  msgAttr : Option ParsedMsgAttr
  overrideEntryPointAttrs : List OverrideEntryPoint
  variantAttrsForward : List (List Token)
  msgAttrsForward : List MsgAttrForwarding
  svFeatures : SylviaFeatures
  data : Option DataFieldParams
  payload : Option PUnit

/-- The first one is kept; another is an error, and is not parsed. -/
def define (name entity : String) (old : Option α) (new : Except Failure α) : Emit (Option α) :=
  if old.isNone then report new
  else do
    Emit.emitError ("The attribute `sv::" ++ name ++ "` is redefined")
      ["Previous definition of the attribute `sv::" ++ name ++ "`",
        "Only one `sv::" ++ name ++ "` attribute can exist on a single " ++ entity]
    pure old

/-- One more. -/
def push (old : List α) (new : Except Failure α) : Emit (List α) := do
  let a ← report new
  pure (old ++ a.toList)

namespace ParsedSylviaAttributes

def default : ParsedSylviaAttributes T := ⟨none, none, [], none, [], [], [], ⟨false⟩, none, none⟩

variable (G : Grammar T)

def matchAttribute (self : ParsedSylviaAttributes T) (attr : List Token) :
    SylviaAttribute → Emit (ParsedSylviaAttributes T)
  | .custom => do
    let customAttr ← define "custom" "sylvia entity" self.customAttr (parse2 (CustomTypes.parse G.ty) attr)
    pure { self with customAttr }
  | .error => do
    let errorAttrs ← define "error" "method" self.errorAttrs (parse2 (parseErrorType G.ty) attr)
    pure { self with errorAttrs }
  | .messages => do
    let messagesAttrs ← push self.messagesAttrs (ContractMessageAttr.new G.path attr)
    pure { self with messagesAttrs }
  | .msg => do
    let msgAttr ← define "msg" "method" self.msgAttr (ParsedMsgAttr.new attr)
    pure { self with msgAttr }
  | .overrideEntryPoint => do
    let overrideEntryPointAttrs ← push self.overrideEntryPointAttrs (parse2 (parseOverride G) attr)
    pure { self with overrideEntryPointAttrs }
  | .variantAttrs => pure { self with variantAttrsForward := self.variantAttrsForward ++ [attr] }
  | .msgAttrs => do
    let msgAttrsForward ← push self.msgAttrsForward (parse2 MsgAttrForwarding.parse attr)
    pure { self with msgAttrsForward }
  | .payload => do
    let payload ← report (parse2 parsePayload attr)
    pure { self with payload := payload.or self.payload }
  | .data => do
    let data ← DataFieldParams.new attr
    pure { self with data := data.or self.data }
  | .features => do
    let features ← report (parse2 SylviaFeatures.parse attr)
    pure { self with svFeatures := features.getD self.svFeatures }

def step (self : ParsedSylviaAttributes T) (attr : Attribute) : Emit (ParsedSylviaAttributes T) :=
  match SylviaAttribute.new attr, attr.content with
  | some sylviaAttr, .list tokens => self.matchAttribute G tokens sylviaAttr
  | some .data, _ => pure { self with data := some DataFieldParams.default }
  | some .payload, _ => do
    Emit.emitError "Missing parameters for `sv::payload`" ["Expected `#[sv::payload(raw)]`"]
    pure self
  | _, _ => pure self

/-- A struct message has no variant to forward attributes to. -/
def checkForward (self : ParsedSylviaAttributes T) : Emit Unit :=
  match self.variantAttrsForward, self.msgAttr with
  | _ :: _, some msgAttr =>
    match msgAttr.msgType with
    | .instantiate => Emit.emitError "The attribute `sv::attr` is not supported for `instantiate`"
      ["Message `instantiate` is a structure, use `#[sv::msg_attr] instead`"]
    | .migrate => Emit.emitError "The attribute `sv::attr` is not supported for `migrate`"
      ["Message `migrate` is a structure, use `#[sv::msg_attr] instead`"]
    | _ => pure ()
  | _, _ => pure ()

def new (attrs : List Attribute) : Emit (ParsedSylviaAttributes T) := do
  let result ← attrs.foldlM (step G) default
  checkForward result
  pure result

end ParsedSylviaAttributes

/-! ## What is written -/

/-- The tokens of the attribute, if it is one of the kind, written as a list. -/
def Attribute.tokensOf (kind : SylviaAttribute) (attr : Attribute) : Option (List Token) :=
  match attr.content with
  | .list tokens => if SylviaAttribute.new attr = some kind then some tokens else none
  | _ => none

/-- The lists of a kind, in order. -/
def written (kind : SylviaAttribute) (attrs : List Attribute) : List (List Token) :=
  attrs.filterMap (Attribute.tokensOf kind)

/-- The values of those that are accepted. -/
def accepted (parse : List Token → Except Failure α) (kind : SylviaAttribute) (attrs : List Attribute) : List α :=
  (written kind attrs).filterMap fun tokens => (parse tokens).toOption

/-- The parameters of a `sv::data`; a bare one has none. -/
def Attribute.dataOf (attr : Attribute) : Option DataFieldParams :=
  match SylviaAttribute.new attr, attr.content with
  | some .data, .list tokens => (parse2 DataFieldParams.parse tokens).toOption
  | some .data, _ => some DataFieldParams.default
  | _, _ => none

/-- The parser of the kind accepts the tokens. -/
def SylviaAttribute.Reads (G : Grammar T) (tokens : List Token) : SylviaAttribute → Prop
  | .custom => ∃ a, parse2 (CustomTypes.parse G.ty) tokens = .ok a
  | .error => ∃ a, parse2 (parseErrorType G.ty) tokens = .ok a
  | .messages => ∃ a, ContractMessageAttr.new G.path tokens = .ok a
  | .msg => ∃ a, ParsedMsgAttr.new tokens = .ok a
  | .overrideEntryPoint => ∃ a, parse2 (parseOverride G) tokens = .ok a
  | .variantAttrs => True
  | .msgAttrs => ∃ a, parse2 MsgAttrForwarding.parse tokens = .ok a
  | .payload => ∃ a, parse2 parsePayload tokens = .ok a
  | .data => ∃ a, parse2 DataFieldParams.parse tokens = .ok a ∧ (a.instantiate && a.raw) = false
  | .features => ∃ a, parse2 SylviaFeatures.parse tokens = .ok a

def Attribute.Parses (G : Grammar T) (attr : Attribute) : Prop :=
  match SylviaAttribute.new attr, attr.content with
  | some sylviaAttr, .list tokens => sylviaAttr.Reads G tokens
  | some .payload, _ => False
  | _, _ => True

/-- Every attribute is accepted, those that may be given once are, and nothing is forwarded
    to the variant of a struct message. -/
structure WellFormed (G : Grammar T) (attrs : List Attribute) : Prop where
  parses : ∀ attr ∈ attrs, attr.Parses G
  single : ∀ kind, kind.Single = true → (written kind attrs).length ≤ 1
  forwards : written .variantAttrs attrs ≠ [] → ∀ a ∈ accepted ParsedMsgAttr.new .msg attrs,
    a.msgType ≠ .instantiate ∧ a.msgType ≠ .migrate

/-- What the attributes are parsed to. -/
structure Summary (G : Grammar T) (attrs : List Attribute) (x : ParsedSylviaAttributes T) : Prop where
  customAttr : x.customAttr = (accepted (parse2 (CustomTypes.parse G.ty)) .custom attrs).head?
  errorAttrs : x.errorAttrs = (accepted (parse2 (parseErrorType G.ty)) .error attrs).head?
  messagesAttrs : x.messagesAttrs = accepted (ContractMessageAttr.new G.path) .messages attrs
  msgAttr : x.msgAttr = (accepted ParsedMsgAttr.new .msg attrs).head?
  overrideEntryPointAttrs : x.overrideEntryPointAttrs = accepted (parse2 (parseOverride G)) .overrideEntryPoint attrs
  variantAttrsForward : x.variantAttrsForward = written .variantAttrs attrs
  msgAttrsForward : x.msgAttrsForward = accepted (parse2 MsgAttrForwarding.parse) .msgAttrs attrs
  svFeatures : x.svFeatures = (accepted (parse2 SylviaFeatures.parse) .features attrs).getLast?.getD ⟨false⟩
  data : x.data = (attrs.filterMap Attribute.dataOf).getLast?
  payload : x.payload = (accepted (parse2 parsePayload) .payload attrs).getLast?

/-! ## One attribute -/

@[simp] theorem val_report (r : Except Failure α) : (report r).val = r.toOption := by cases r <;> rfl

@[simp] theorem clean_report {r : Except Failure α} : (report r).Clean ↔ ∃ a, r = .ok a := by
  cases r <;> simp [report]

@[simp] theorem val_define (name entity : String) (old : Option α) (new : Except Failure α) :
    (define name entity old new).val = old.or new.toOption := by
  cases old <;> simp [define]

@[simp] theorem clean_define {name entity : String} {old : Option α} {new : Except Failure α} :
    (define name entity old new).Clean ↔ old = none ∧ ∃ a, new = .ok a := by
  cases old <;> simp [define]

@[simp] theorem val_push (old : List α) (new : Except Failure α) : (push old new).val = old ++ new.toOption.toList := by
  simp [push]

@[simp] theorem clean_push {old : List α} {new : Except Failure α} : (push old new).Clean ↔ ∃ a, new = .ok a := by
  simp [push]

@[simp] theorem val_data_new (tokens : List Token) :
    (DataFieldParams.new tokens).val = (parse2 DataFieldParams.parse tokens).toOption := by
  simp [DataFieldParams.new]

@[simp] theorem clean_data_new {tokens : List Token} : (DataFieldParams.new tokens).Clean ↔
    ∃ a, parse2 DataFieldParams.parse tokens = .ok a ∧ (a.instantiate && a.raw) = false := by
  unfold DataFieldParams.new
  cases parse2 DataFieldParams.parse tokens <;> simp [Except.toOption]

theorem tokensOf_list {attr : Attribute} {kind : SylviaAttribute} {tokens : List Token}
    (hkind : SylviaAttribute.new attr = some kind) (hlist : attr.content = .list tokens) (kind' : SylviaAttribute) :
    attr.tokensOf kind' = if kind = kind' then some tokens else none := by
  simp [Attribute.tokensOf, hlist, hkind]

/-- No list of a known kind. -/
theorem tokensOf_none {attr : Attribute} (h : SylviaAttribute.new attr = none ∨ ∀ tokens, attr.content ≠ .list tokens)
    (kind : SylviaAttribute) : attr.tokensOf kind = none := by
  unfold Attribute.tokensOf
  split
  · rename_i tokens hlist
    rcases h with h | h
    · simp [h]
    · exact absurd hlist (h tokens)
  · rfl

theorem written_snoc (kind : SylviaAttribute) (attrs : List Attribute) (attr : Attribute) :
    written kind (attrs ++ [attr]) = written kind attrs ++ (attr.tokensOf kind).toList := by
  unfold written
  rw [List.filterMap_append]
  cases h : attr.tokensOf kind <;> simp [h]

theorem accepted_snoc (parse : List Token → Except Failure α) (kind : SylviaAttribute) (attrs : List Attribute)
    (attr : Attribute) : accepted parse kind (attrs ++ [attr]) =
      accepted parse kind attrs ++ ((attr.tokensOf kind).bind fun tokens => (parse tokens).toOption).toList := by
  unfold accepted
  rw [written_snoc, List.filterMap_append]
  cases attr.tokensOf kind with
  | none => rfl
  | some tokens => cases h : (parse tokens).toOption <;> simp [h]

@[simp] theorem getLast?_toList (x : Option α) : x.toList.getLast? = x := by cases x <;> rfl

/-- An attribute of a known kind written as a list is parsed; any other adds at most data. -/
theorem step_cases (G : Grammar T) (x : ParsedSylviaAttributes T) (attr : Attribute) :
    (∃ kind tokens, SylviaAttribute.new attr = some kind ∧ attr.content = .list tokens ∧
      x.step G attr = x.matchAttribute G tokens kind) ∨
    (∀ kind, attr.tokensOf kind = none) ∧ (x.step G attr).val = { x with data := attr.dataOf.or x.data } ∧
      ((x.step G attr).Clean ↔ attr.Parses G) := by
  obtain ⟨path, content⟩ := attr
  cases hkind : SylviaAttribute.new ⟨path, content⟩ with
  | none =>
    right
    exact ⟨tokensOf_none (.inl hkind), by simp [ParsedSylviaAttributes.step, Attribute.dataOf, hkind],
      by simp [ParsedSylviaAttributes.step, Attribute.Parses, hkind]⟩
  | some kind =>
    cases content with
    | list tokens => exact .inl ⟨kind, tokens, rfl, rfl, by simp [ParsedSylviaAttributes.step, hkind]⟩
    | path | nameValue =>
      right
      refine ⟨tokensOf_none (.inr fun _ h => by cases h), ?_, ?_⟩
      · cases kind <;> simp [ParsedSylviaAttributes.step, Attribute.dataOf, hkind]
      · cases kind <;> simp [ParsedSylviaAttributes.step, Attribute.Parses, hkind]

theorem Summary.matchAttribute {G : Grammar T} {attrs : List Attribute} {x : ParsedSylviaAttributes T}
    (h : Summary G attrs x) {attr : Attribute} {kind : SylviaAttribute} {tokens : List Token}
    (hkind : SylviaAttribute.new attr = some kind) (hlist : attr.content = .list tokens) :
    Summary G (attrs ++ [attr]) (x.matchAttribute G tokens kind).val := by
  obtain ⟨hcustom, herror, hmessages, hmsg, hoverride, hvariant, hmsgAttrs, hfeatures, hdata, hpayload⟩ := h
  have htokens := tokensOf_list hkind hlist
  have hdataOf : attr.dataOf =
      if kind = .data then (parse2 DataFieldParams.parse tokens).toOption else none := by
    cases kind <;> simp [Attribute.dataOf, hkind, hlist]
  cases kind <;> constructor <;>
    simp [ParsedSylviaAttributes.matchAttribute, accepted_snoc, written_snoc, *]

theorem Summary.step {G : Grammar T} {attrs : List Attribute} {x : ParsedSylviaAttributes T} (h : Summary G attrs x)
    (attr : Attribute) : Summary G (attrs ++ [attr]) (x.step G attr).val := by
  rcases step_cases G x attr with ⟨kind, tokens, hkind, hlist, hstep⟩ | ⟨hnone, hval, -⟩
  · rw [hstep]
    exact h.matchAttribute hkind hlist
  · obtain ⟨hcustom, herror, hmessages, hmsg, hoverride, hvariant, hmsgAttrs, hfeatures, hdata, hpayload⟩ := h
    rw [hval]
    constructor <;> simp [accepted_snoc, written_snoc, *]

theorem summary_foldlM (G : Grammar T) (attrs : List Attribute) :
    Summary G attrs (attrs.foldlM (ParsedSylviaAttributes.step G) .default).val := by
  induction attrs using List.reverseRecOn with
  | nil => constructor <;> rfl
  | append_singleton attrs attr ih =>
    rw [List.foldlM_append, Emit.val_bind, List.foldlM_cons, Emit.val_bind]
    exact ih.step attr

/-! ## Errors -/

theorem mem_written {kind : SylviaAttribute} {attrs : List Attribute} {tokens : List Token}
    (h : tokens ∈ written kind attrs) :
    ∃ attr ∈ attrs, SylviaAttribute.new attr = some kind ∧ attr.content = .list tokens := by
  obtain ⟨attr, hmem, htokens⟩ := List.mem_filterMap.mp h
  refine ⟨attr, hmem, ?_⟩
  unfold Attribute.tokensOf at htokens
  split at htokens
  · rename_i ts hlist
    split at htokens
    · rename_i hkind
      exact ⟨hkind, by rw [hlist, Option.some.inj htokens]⟩
    · cases htokens
  · cases htokens

theorem reads_written {G : Grammar T} {attrs : List Attribute} (h : ∀ attr ∈ attrs, attr.Parses G)
    (kind : SylviaAttribute) : ∀ tokens ∈ written kind attrs, kind.Reads G tokens := by
  intro tokens htokens
  obtain ⟨attr, hmem, hkind, hlist⟩ := mem_written htokens
  have := h attr hmem
  rwa [Attribute.Parses, hkind, hlist] at this

theorem accepted_eq_nil {parse : List Token → Except Failure α} {kind : SylviaAttribute} {attrs : List Attribute}
    (h : ∀ tokens ∈ written kind attrs, ∃ a, parse tokens = .ok a) :
    (accepted parse kind attrs).head? = none ↔ written kind attrs = [] := by
  rw [List.head?_eq_none_iff, accepted, List.filterMap_eq_nil_iff, List.eq_nil_iff_forall_not_mem]
  refine forall₂_congr fun tokens hmem => ?_
  obtain ⟨a, ha⟩ := h tokens hmem
  simp [ha, Except.toOption]

/-- An attribute written as a list reports no error exactly if it is accepted and not a
    redefinition. -/
theorem clean_matchAttribute {G : Grammar T} {attrs : List Attribute} {x : ParsedSylviaAttributes T}
    (h : Summary G attrs x) (hparses : ∀ attr ∈ attrs, attr.Parses G) (tokens : List Token) (kind : SylviaAttribute) :
    (x.matchAttribute G tokens kind).Clean ↔
      kind.Reads G tokens ∧ (kind.Single = true → written kind attrs = []) := by
  have hcustom := h.customAttr.symm ▸ accepted_eq_nil (reads_written hparses .custom)
  have herror := h.errorAttrs.symm ▸ accepted_eq_nil (reads_written hparses .error)
  have hmsg := h.msgAttr.symm ▸ accepted_eq_nil (reads_written hparses .msg)
  cases kind <;> simp [ParsedSylviaAttributes.matchAttribute, SylviaAttribute.Reads, SylviaAttribute.Single, and_comm, *]

theorem clean_step {G : Grammar T} {attrs : List Attribute} {x : ParsedSylviaAttributes T} (h : Summary G attrs x)
    (hparses : ∀ attr ∈ attrs, attr.Parses G) (attr : Attribute) : (x.step G attr).Clean ↔
      attr.Parses G ∧ ∀ kind, kind.Single = true → attr.tokensOf kind ≠ none → written kind attrs = [] := by
  rcases step_cases G x attr with ⟨kind, tokens, hkind, hlist, hstep⟩ | ⟨hnone, -, hclean⟩
  · rw [hstep, clean_matchAttribute h hparses]
    have hparse : attr.Parses G ↔ kind.Reads G tokens := by simp [Attribute.Parses, hkind, hlist]
    rw [hparse]
    refine and_congr_right fun _ => ⟨?_, fun hall hsingle => hall kind hsingle (by simp [tokensOf_list hkind hlist])⟩
    intro hsingle kind' hsingle' htokens
    rw [tokensOf_list hkind hlist] at htokens
    split at htokens
    · rename_i heq
      exact heq ▸ hsingle (heq.symm ▸ hsingle')
    · exact absurd rfl htokens
  · simp [hclean, hnone]

/-- One more of a kind that was written at most once. -/
theorem written_snoc_length {kind : SylviaAttribute} {attrs : List Attribute} {attr : Attribute} :
    (written kind (attrs ++ [attr])).length ≤ 1 ↔
      (written kind attrs).length ≤ 1 ∧ (attr.tokensOf kind ≠ none → written kind attrs = []) := by
  rw [written_snoc, ← List.length_eq_zero_iff]
  cases attr.tokensOf kind with
  | none => simp
  | some tokens =>
    have hsome : some tokens ≠ none := Option.some_ne_none tokens
    simp only [Option.toList_some, List.length_append, List.length_singleton, ne_eq, hsome, not_false_eq_true, true_imp_iff]
    omega

theorem clean_foldlM {G : Grammar T} {attrs : List Attribute} :
    (attrs.foldlM (ParsedSylviaAttributes.step G) .default).Clean ↔
      (∀ attr ∈ attrs, attr.Parses G) ∧ ∀ kind, kind.Single = true → (written kind attrs).length ≤ 1 := by
  induction attrs using List.reverseRecOn with
  | nil => simp [written]
  | append_singleton attrs attr ih =>
    rw [List.foldlM_append, Emit.clean_bind, List.foldlM_cons, Emit.clean_bind, ih]
    simp only [List.foldlM_nil, Emit.clean_pure, and_true, List.forall_mem_append, List.forall_mem_singleton,
      written_snoc_length]
    constructor
    · rintro ⟨⟨hparses, hsingle⟩, hclean⟩
      obtain ⟨hattr, hnew⟩ := (clean_step (summary_foldlM G attrs) hparses attr).mp hclean
      exact ⟨⟨hparses, hattr⟩, fun kind hkind => ⟨hsingle kind hkind, hnew kind hkind⟩⟩
    · rintro ⟨⟨hparses, hattr⟩, hsingle⟩
      exact ⟨⟨hparses, fun kind hkind => (hsingle kind hkind).1⟩,
        (clean_step (summary_foldlM G attrs) hparses attr).mpr ⟨hattr, fun kind hkind => (hsingle kind hkind).2⟩⟩

theorem clean_checkForward {x : ParsedSylviaAttributes T} : x.checkForward.Clean ↔
    (x.variantAttrsForward ≠ [] → ∀ a, x.msgAttr = some a → a.msgType ≠ .instantiate ∧ a.msgType ≠ .migrate) := by
  unfold ParsedSylviaAttributes.checkForward
  cases x.variantAttrsForward with
  | nil => simp
  | cons ts tss =>
    cases x.msgAttr with
    | none => simp
    | some a => cases hty : a.msgType <;> simp [hty]

/-! ## The results -/

theorem clean_new {G : Grammar T} {attrs : List Attribute} :
    (ParsedSylviaAttributes.new G attrs).Clean ↔ WellFormed G attrs := by
  have hsum := summary_foldlM G attrs
  simp only [ParsedSylviaAttributes.new, Emit.clean_bind, Emit.clean_pure, and_true, clean_foldlM, clean_checkForward,
    hsum.variantAttrsForward, hsum.msgAttr]
  constructor
  · rintro ⟨⟨hparses, hsingle⟩, hforwards⟩
    refine ⟨hparses, hsingle, fun hne a ha => hforwards hne a ?_⟩
    have hlen : (accepted ParsedMsgAttr.new .msg attrs).length ≤ 1 :=
      (List.length_filterMap_le _ _).trans (hsingle .msg rfl)
    cases haccepted : accepted ParsedMsgAttr.new .msg attrs with
    | nil =>
      rw [haccepted] at ha
      cases ha
    | cons b rest =>
      rw [haccepted] at ha hlen
      obtain rfl : rest = [] := by simpa using hlen
      rw [List.mem_singleton.mp ha]
      rfl
  · rintro ⟨hparses, hsingle, hforwards⟩
    exact ⟨⟨hparses, hsingle⟩, fun hne a ha => hforwards hne a (List.mem_of_head? ha)⟩

/-- The attributes of an item. They are parsed to the values of their kinds, the first of
    those given once, the last of those replaced, all of the others in order; and no error
    is reported exactly when they are well-formed. -/
theorem attributes_exact (G : Grammar T) (attrs : List Attribute) :
    Summary G attrs (ParsedSylviaAttributes.new G attrs).val ∧
      ((ParsedSylviaAttributes.new G attrs).Clean ↔ WellFormed G attrs) :=
  ⟨summary_foldlM G attrs, clean_new⟩

theorem written_perm {attrs attrs' : List Attribute} (h : attrs.Perm attrs') (kind : SylviaAttribute) :
    (written kind attrs).Perm (written kind attrs') := h.filterMap _

theorem accepted_perm {attrs attrs' : List Attribute} (h : attrs.Perm attrs') (parse : List Token → Except Failure α)
    (kind : SylviaAttribute) : (accepted parse kind attrs).Perm (accepted parse kind attrs') :=
  (written_perm h kind).filterMap _

theorem WellFormed.perm {G : Grammar T} {attrs attrs' : List Attribute} (h : attrs.Perm attrs') (hw : WellFormed G attrs) :
    WellFormed G attrs' := by
  refine ⟨fun attr hattr => hw.parses attr (h.mem_iff.mpr hattr),
    fun kind hkind => (written_perm h kind).length_eq ▸ hw.single kind hkind, ?_⟩
  intro hne a ha
  refine hw.forwards ?_ a ((accepted_perm h _ _).mem_iff.mpr ha)
  intro hnil
  have := (written_perm h .variantAttrs).length_eq
  rw [hnil] at this
  exact hne (List.eq_nil_of_length_eq_zero this.symm)

/-- Lists of at most one element that are permutations are equal. -/
theorem perm_eq_of_length {xs ys : List α} (h : xs.Perm ys) (hlen : xs.length ≤ 1) : xs = ys := by
  match xs, hlen with
  | [], _ => exact (List.nil_perm.mp h).symm
  | [x], _ => exact List.singleton_perm.mp h

/-- Written at most once, with or without parameters. -/
def Once (kind : SylviaAttribute) (attrs : List Attribute) : Prop :=
  (attrs.filter fun attr => SylviaAttribute.new attr = some kind).length ≤ 1

theorem Once.filterMap {kind : SylviaAttribute} {attrs : List Attribute} (h : Once kind attrs) {f : Attribute → Option α}
    (hf : ∀ attr, SylviaAttribute.new attr ≠ some kind → f attr = none) : (attrs.filterMap f).length ≤ 1 := by
  have : attrs.filterMap f = (attrs.filter fun attr => SylviaAttribute.new attr = some kind).filterMap f := by
    rw [List.filterMap_filter]
    refine List.filterMap_congr fun attr _ => ?_
    split
    · rfl
    · rename_i hne
      exact hf attr (by simpa using hne)
  rw [this]
  exact (List.length_filterMap_le _ _).trans h

theorem Once.accepted {kind : SylviaAttribute} {attrs : List Attribute} (h : Once kind attrs)
    (parse : List Token → Except Failure α) : (accepted parse kind attrs).length ≤ 1 := by
  refine (List.length_filterMap_le _ _).trans (h.filterMap fun attr hne => ?_)
  unfold Attribute.tokensOf
  split
  · rw [if_neg hne]
  · rfl

/-- The order of attributes. If no error is reported, none is in any other order; what may
    be given once is the same, the rest is the same up to order, and so are the data and
    the features if they are written once. -/
theorem attributes_order (G : Grammar T) {attrs attrs' : List Attribute} (h : attrs.Perm attrs')
    (hclean : (ParsedSylviaAttributes.new G attrs).Clean) :
    let x := (ParsedSylviaAttributes.new G attrs).val
    let x' := (ParsedSylviaAttributes.new G attrs').val
    (ParsedSylviaAttributes.new G attrs').Clean ∧
      x.customAttr = x'.customAttr ∧ x.errorAttrs = x'.errorAttrs ∧ x.msgAttr = x'.msgAttr ∧ x.payload = x'.payload ∧
      x.messagesAttrs.Perm x'.messagesAttrs ∧ x.overrideEntryPointAttrs.Perm x'.overrideEntryPointAttrs ∧
      x.variantAttrsForward.Perm x'.variantAttrsForward ∧ x.msgAttrsForward.Perm x'.msgAttrsForward ∧
      (Once .data attrs → x.data = x'.data) ∧ (Once .features attrs → x.svFeatures = x'.svFeatures) := by
  intro x x'
  have hw := clean_new.mp hclean
  have hx : Summary G attrs x := summary_foldlM G attrs
  have hx' : Summary G attrs' x' := summary_foldlM G attrs'
  have single {β : Type} (parse : List Token → Except Failure β) (kind : SylviaAttribute) (hkind : kind.Single = true) :
      accepted parse kind attrs = accepted parse kind attrs' :=
    perm_eq_of_length (accepted_perm h parse kind) ((List.length_filterMap_le _ _).trans (hw.single kind hkind))
  refine ⟨clean_new.mpr (hw.perm h), ?_, ?_, ?_, ?_, ?_, ?_, ?_, ?_, ?_, ?_⟩
  · rw [hx.customAttr, hx'.customAttr, single _ .custom rfl]
  · rw [hx.errorAttrs, hx'.errorAttrs, single _ .error rfl]
  · rw [hx.msgAttr, hx'.msgAttr, single _ .msg rfl]
  · rw [hx.payload, hx'.payload]
    have hlen := (accepted_perm h (parse2 parsePayload) .payload).length_eq
    cases hp : accepted (parse2 parsePayload) .payload attrs <;>
      cases hp' : accepted (parse2 parsePayload) .payload attrs' <;> simp_all [List.getLast?_cons]
  · rw [hx.messagesAttrs, hx'.messagesAttrs]
    exact accepted_perm h _ _
  · rw [hx.overrideEntryPointAttrs, hx'.overrideEntryPointAttrs]
    exact accepted_perm h _ _
  · rw [hx.variantAttrsForward, hx'.variantAttrsForward]
    exact written_perm h _
  · rw [hx.msgAttrsForward, hx'.msgAttrsForward]
    exact accepted_perm h _ _
  · intro honce
    rw [hx.data, hx'.data]
    refine congrArg _ (perm_eq_of_length (h.filterMap _) (honce.filterMap fun attr hne => ?_))
    unfold Attribute.dataOf
    split <;> simp_all
  · intro honce
    rw [hx.svFeatures, hx'.svFeatures, perm_eq_of_length (accepted_perm h _ .features) (honce.accepted _)]

/-! ## The attributes of a parameter -/

/-- The attribute as the later passes see it; `serdeDefault` is whether it is serde's. -/
def Attribute.asParam (serdeDefault : Attribute → Bool) (attr : Attribute) : ParamAttr :=
  match SylviaAttribute.new attr with
  | none => if serdeDefault attr then .serdeDefault else .other
  | some .data =>
    match attr.dataOf with
    | some params => .data params
    | none => .sylvia
  | some .payload =>
    match attr.tokensOf .payload with
    | some tokens => if (parse2 parsePayload tokens).toOption.isSome then .payload else .sylvia
    | none => .sylvia
  | some _ => .sylvia

theorem asParam_isSylvia (serdeDefault : Attribute → Bool) (attr : Attribute) :
    (attr.asParam serdeDefault).isSylvia = (SylviaAttribute.new attr).isSome := by
  unfold Attribute.asParam
  split
  · rename_i h
    cases hd : serdeDefault attr <;> simp [ParamAttr.isSylvia, h]
  · rename_i h
    cases hd : attr.dataOf <;> simp [ParamAttr.isSylvia, h]
  · rename_i h
    split
    · split <;> simp [ParamAttr.isSylvia, h]
    · simp [ParamAttr.isSylvia, h]
  · rename_i h
    simp [ParamAttr.isSylvia, h]

theorem dataOf_none (attr : Attribute) (h : SylviaAttribute.new attr ≠ some .data) : attr.dataOf = none := by
  unfold Attribute.dataOf
  split <;> simp_all

theorem tokensOf_ne (attr : Attribute) (kind : SylviaAttribute) (h : SylviaAttribute.new attr ≠ some kind) :
    attr.tokensOf kind = none := by
  unfold Attribute.tokensOf
  split
  · rw [if_neg h]
  · rfl

/-- The parsed payload parameter, if the attribute is one. -/
def Attribute.payloadOf (attr : Attribute) : Option PUnit :=
  (attr.tokensOf .payload).bind fun tokens => (parse2 parsePayload tokens).toOption

/-- A parameter's attribute has data, or a payload, or neither. -/
theorem asParam_cases (serdeDefault : Attribute → Bool) (attr : Attribute) :
    (∃ params, attr.asParam serdeDefault = .data params ∧ attr.dataOf = some params ∧ attr.payloadOf = none) ∨
    (attr.asParam serdeDefault = .payload ∧ attr.dataOf = none ∧ attr.payloadOf = some ⟨⟩) ∨
    (attr.asParam serdeDefault ∈ [.sylvia, .serdeDefault, .other] ∧ attr.dataOf = none ∧ attr.payloadOf = none) := by
  unfold Attribute.asParam Attribute.payloadOf
  split
  · rename_i h
    have hdata := dataOf_none attr (by simp [h])
    have htokens := tokensOf_ne attr .payload (by simp [h])
    cases serdeDefault attr <;> simp [hdata, htokens]
  · rename_i h
    have htokens := tokensOf_ne attr .payload (by simp [h])
    cases hdata : attr.dataOf <;> simp [htokens]
  · rename_i h
    have hdata := dataOf_none attr (by simp [h])
    cases htokens : attr.tokensOf .payload with
    | none => simp [hdata]
    | some tokens => cases hparse : (parse2 parsePayload tokens).toOption <;> simp [hdata, hparse]
  · rename_i kind hne hpayload h
    have hdata := dataOf_none attr (by simp_all)
    have htokens := tokensOf_ne attr .payload (by simp_all)
    simp [hdata, htokens]

theorem parsed_snoc (attrs : List ParamAttr) (attr : ParamAttr) : parsed (attrs ++ [attr]) = match attr with
    | .data params => { parsed attrs with data := some params }
    | .payload => { parsed attrs with payload := true }
    | _ => parsed attrs := by
  rw [parsed, List.foldl_append]
  rfl

/-- The data and payload that the later passes read are the ones parsed. -/
theorem parsed_asParam (G : Grammar T) (serdeDefault : Attribute → Bool) (attrs : List Attribute) :
    let x := (ParsedSylviaAttributes.new G attrs).val
    parsed (attrs.map (Attribute.asParam serdeDefault)) = ⟨x.data, x.payload.isSome⟩ := by
  have hx : Summary G attrs (ParsedSylviaAttributes.new G attrs).val := summary_foldlM G attrs
  simp only [hx.data, hx.payload]
  clear hx
  induction attrs using List.reverseRecOn with
  | nil => rfl
  | append_singleton attrs attr ih =>
    have hpayload : (attr.tokensOf .payload).bind (fun tokens => (parse2 parsePayload tokens).toOption) =
      attr.payloadOf := rfl
    rw [List.map_append, List.map_singleton, parsed_snoc, ih, accepted_snoc, List.filterMap_append, hpayload]
    rcases asParam_cases serdeDefault attr with ⟨params, hparam, hdata, hpay⟩ | ⟨hparam, hdata, hpay⟩ | ⟨hparam, hdata, hpay⟩
    · simp [hparam, hdata, hpay]
    · simp [hparam, hdata, hpay]
    · simp only [List.mem_cons, List.not_mem_nil, or_false] at hparam
      rcases hparam with hparam | hparam | hparam <;> simp [hparam, hdata, hpay]

/-! ## The attributes of a method -/

/-- Paths and types of one identifier. -/
def identGrammar : Grammar Ident := ⟨identPath, identItem, fun _ => "", id⟩

/-- `#[sv::msg(exec)] #[sv::attr(cached)] #[inline] #[sv::data]` -/
def methodAttrs : List Attribute :=
  [⟨["sv", "msg"], .list [.ident "exec"]⟩, ⟨["sv", "attr"], .list [.ident "cached"]⟩, ⟨["inline"], .path⟩,
    ⟨["sv", "data"], .path⟩]

theorem methodAttrs_clean : (ParsedSylviaAttributes.new identGrammar methodAttrs).Clean := by decide

theorem attributes_order_method : (ParsedSylviaAttributes.new identGrammar methodAttrs.reverse).Clean ∧
    (ParsedSylviaAttributes.new identGrammar methodAttrs).val.msgAttr =
      (ParsedSylviaAttributes.new identGrammar methodAttrs.reverse).val.msgAttr ∧
    (ParsedSylviaAttributes.new identGrammar methodAttrs).val.data =
      (ParsedSylviaAttributes.new identGrammar methodAttrs.reverse).val.data := by
  obtain ⟨hclean, -, -, hmsg, -, -, -, -, -, hdata, -⟩ :=
    attributes_order identGrammar (List.reverse_perm methodAttrs).symm methodAttrs_clean
  exact ⟨hclean, hmsg, hdata (by unfold Once; decide)⟩

end Sylvia.Parser
