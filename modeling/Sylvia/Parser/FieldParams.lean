/-
  Sylvia.Parser.FieldParams — the parsers of the small attributes: `sv::data`,
  `sv::features`, `sv::payload`, `sv::msg_attr`, `sv::custom`
  (`sylvia-derive/src/parser/attributes/{data,features,payload,attr,custom}.rs`).

  `sv::data` and `sv::features` are lists of flags, `sv::custom` a list of types under
  their names; a flag may be repeated, and a later type replaces an earlier one.
  `syn::Type::parse` is a parameter.

  Proved: `field_params_exact`: which token sequences each of the first four accepts, and
  as what.
-/
import Sylvia.Parser.MsgAttr

namespace Sylvia.Parser

open Sylvia.Base Sylvia.Syn

/-! ## Flags -/

/-- One of the known names. -/
def parseFlag (known : List Ident) (invalid : String) (tokens : List Token) : Except Failure (Ident × List Token) :=
  match parseIdent tokens with
  | .error e => .error e
  | .ok (option, rest) => if option ∈ known then .ok (option, rest) else .error (.err invalid)

theorem parseFlag_ok_iff {known : List Ident} {invalid : String} {tokens rest : List Token} {x : Ident} :
    parseFlag known invalid tokens = .ok (x, rest) ↔ x ∈ known ∧ parseIdent tokens = .ok (x, rest) := by
  unfold parseFlag
  cases parseIdent tokens with
  | error e => simp
  | ok r =>
    obtain ⟨y, rest'⟩ := r
    by_cases hy : y ∈ known
    · simp only [hy, if_true, Except.ok.injEq, Prod.mk.injEq]
      constructor
      · rintro ⟨rfl, rfl⟩
        exact ⟨hy, rfl, rfl⟩
      · exact fun h => h.2
    · simp only [hy, if_false, reduceCtorEq, Except.ok.injEq, Prod.mk.injEq, false_iff]
      rintro ⟨hx, rfl, -⟩
      exact hy hx

def flagItem (known : List Ident) (invalid : String) : ItemParser Ident where
  parse := parseFlag known invalid
  consumes h := identItem.consumes (parseFlag_ok_iff.mp h).2

/-- The tokens of a flag. -/
def FlagTokens (known : List Ident) (x : Ident) (tokens : List Token) : Prop := x ∈ known ∧ IdentTokens x tokens

theorem flagItem_exact (known : List Ident) (invalid : String) : (flagItem known invalid).Exact (FlagTokens known) where
  sound := by
    intro tokens rest x h
    obtain ⟨hx, h⟩ := parseFlag_ok_iff.mp h
    obtain ⟨its, rfl, hits⟩ := identItem_exact.sound h
    exact ⟨its, rfl, hx, hits⟩
  complete := by
    rintro its x ⟨hx, hits⟩
    obtain ⟨hlast, hcomma⟩ := identItem_exact.complete hits
    exact ⟨parseFlag_ok_iff.mpr ⟨hx, hlast⟩, fun joint rest => parseFlag_ok_iff.mpr ⟨hx, hcomma joint rest⟩⟩

variable {α : Type}

/-- A list of flags, each of them set. -/
def parseFlags (known : List Ident) (invalid : String) (set : α → Ident → α) (default : α) (input : List Token) :
    Except Failure (Parsed α) :=
  match commaLoop (flagItem known invalid) input with
  | .error e => .error e
  | .ok (options, rest) => .ok ⟨options.foldl set default, rest, false⟩

theorem parseFlags_ok_iff {known : List Ident} {invalid : String} {set : α → Ident → α} {default : α}
    {tokens : List Token} {a : α} : parse2 (parseFlags known invalid set default) tokens = .ok a ↔
      ∃ options, CommaList (FlagTokens known) options tokens ∧ options.foldl set default = a := by
  simp only [parse2_ok_iff, parseFlags, ← commaLoop_iff (flagItem_exact known invalid)]
  cases commaLoop (flagItem known invalid) tokens with
  | error e => simp
  | ok r =>
    obtain ⟨options, rest⟩ := r
    simp only [Except.ok.injEq, Parsed.mk.injEq, and_true, Prod.mk.injEq]
    constructor
    · rintro ⟨rfl, rfl⟩
      exact ⟨options, ⟨rfl, rfl⟩, rfl⟩
    · rintro ⟨_, ⟨rfl, rfl⟩, rfl⟩
      exact ⟨rfl, rfl⟩

namespace DataFieldParams

def set (data : DataFieldParams) (option : Ident) : DataFieldParams :=
  match option with
  | "raw" => { data with raw := true }
  | "opt" => { data with opt := true }
  | "instantiate" => { data with instantiate := true }
  | _ => data

def parse (input : List Token) : Except Failure (Parsed DataFieldParams) :=
  parseFlags ["raw", "opt", "instantiate"]
    "Invalid data parameter.\n\n  = note: Expected one of [`raw`, `opt`, `instantiate`] comma separated.\n"
    set default input

end DataFieldParams

namespace SylviaFeatures

def set (features : SylviaFeatures) (feature : Ident) : SylviaFeatures :=
  match feature with
  | "replies" => { features with replies := true }
  | _ => features

def parse (input : List Token) : Except Failure (Parsed SylviaFeatures) :=
  parseFlags ["replies"] "Invalid feature.\n= note: Supported features for contract macro: [`replies`].\n"
    set ⟨false⟩ input

end SylviaFeatures

/-! ## The other two -/

/-- `PayloadFieldParam::parse`. -/
def parsePayload (input : List Token) : Except Failure (Parsed PUnit) :=
  match parseIdent input with
  | .error e => .error e
  | .ok (option, input) =>
    if option ≠ "raw" then .error (.err "Invalid payload parameter.\n= note: Expected [`raw`].\n")
    else if !input.isEmpty then
      .error (.err "Unexpected tokens inside `sv::payload` attribute.\n= note: Expected parameters: [`raw`] `.\n")
    else .ok ⟨⟨⟩, input, false⟩

/-- What `sv::msg_attr` forwards, to the message of a kind. -/
structure MsgAttrForwarding where
  msgType : MsgType
  attrs : List Token

namespace MsgAttrForwarding

def parse (input : List Token) : Except Failure (Parsed MsgAttrForwarding) :=
  let errorMsg := "Expected attribute of the form: `#[sv::msg_attr(msg_type, attribute_to_forward)]`"
  match parseIdent input with
  | .ok (msgType, .punct ',' _ :: attrs) =>
    if attrs.isEmpty then .error (.err errorMsg)
    else
      match MsgType.new msgType with
      | .ok msgType => .ok ⟨⟨msgType, attrs⟩, [], false⟩
      | .error _ => .error (.err
          "Invalid message type, expected one of: `exec`, `query`, `instantiate`, `migrate`, `reply` or `sudo`.")
  | _ => .error (.err errorMsg)

end MsgAttrForwarding

/-! ## Types under a name -/

variable {T : Type}

/-- `sv::custom`; `Custom` in the source. -/
structure CustomTypes (T : Type) where
  msg : Option T
  query : Option T

/-- `msg=Type` or `query=Type`. -/
def parseCustomType (ty : ItemParser T) (tokens : List Token) : Except Failure ((Ident × T) × List Token) :=
  match parseIdent tokens with
  | .ok (name, .punct '=' _ :: rest) =>
    if name ∈ ["msg", "query"] then (ty.parse rest).map fun r => ((name, r.1), r.2)
    else .error (.err "Invalid custom type.\n\n  = note: Expected `#[sv::custom(msg=SomeMsg, query=SomeQuery)]`.\n")
  | .ok _ => .error .syn
  | .error e => .error e

theorem parseCustomType_consumes (ty : ItemParser T) {tokens rest : List Token} {a : Ident × T}
    (h : parseCustomType ty tokens = .ok (a, rest)) : rest.length < tokens.length := by
  unfold parseCustomType at h
  split at h
  · rename_i name joint more hname
    have hlen := identItem.consumes hname
    split at h
    · cases hty : ty.parse more with
      | error e => simp [hty, Except.map] at h
      | ok r =>
        have hmore := ty.consumes (show ty.parse more = .ok (r.1, r.2) from hty)
        simp only [hty, Except.map, Except.ok.injEq, Prod.mk.injEq] at h
        obtain ⟨-, rfl⟩ := h
        simp only [List.length_cons] at hlen
        omega
    · cases h
  · cases h
  · cases h

namespace CustomTypes

def set (custom : CustomTypes T) (entry : Ident × T) : CustomTypes T :=
  match entry.1 with
  | "msg" => { custom with msg := some entry.2 }
  | _ => { custom with query := some entry.2 }

def parse (ty : ItemParser T) (input : List Token) : Except Failure (Parsed (CustomTypes T)) :=
  match commaLoop ⟨parseCustomType ty, parseCustomType_consumes ty⟩ input with
  | .error e => .error e
  | .ok (entries, rest) => .ok ⟨entries.foldl set ⟨none, none⟩, rest, false⟩

end CustomTypes

/-! ## What is accepted -/

theorem DataFieldParams.foldl_set (options : List Ident) (p : DataFieldParams) : options.foldl set p =
    ⟨p.raw || options.contains "raw", p.opt || options.contains "opt", p.instantiate || options.contains "instantiate"⟩ := by
  induction options generalizing p with
  | nil => simp
  | cons x options ih =>
    rw [List.foldl_cons, ih]
    unfold set
    split <;> simp_all [eq_comm]

theorem SylviaFeatures.foldl_set (options : List Ident) (p : SylviaFeatures) :
    options.foldl set p = ⟨p.replies || options.contains "replies"⟩ := by
  induction options generalizing p with
  | nil => simp
  | cons x options ih =>
    rw [List.foldl_cons, ih]
    unfold set
    split <;> simp_all [eq_comm]

theorem data_iff {tokens : List Token} {p : DataFieldParams} : parse2 DataFieldParams.parse tokens = .ok p ↔
    ∃ options, CommaList (FlagTokens ["raw", "opt", "instantiate"]) options tokens ∧
      p = ⟨options.contains "raw", options.contains "opt", options.contains "instantiate"⟩ := by
  refine parseFlags_ok_iff.trans ?_
  simp [DataFieldParams.foldl_set, DataFieldParams.default, eq_comm]

theorem features_iff {tokens : List Token} {p : SylviaFeatures} : parse2 SylviaFeatures.parse tokens = .ok p ↔
    ∃ options, CommaList (FlagTokens ["replies"]) options tokens ∧ p = ⟨options.contains "replies"⟩ := by
  refine parseFlags_ok_iff.trans ?_
  simp [SylviaFeatures.foldl_set, eq_comm]

theorem payload_iff {tokens : List Token} : parse2 parsePayload tokens = .ok ⟨⟩ ↔ tokens = [.ident "raw"] := by
  rw [parse2_ok_iff]
  constructor
  · intro h
    unfold parsePayload at h
    split at h
    · cases h
    · rename_i option input hident
      obtain ⟨-, rfl⟩ := parseIdent_ok_iff.mp hident
      split at h
      · cases h
      · rename_i hraw
        split at h
        · cases h
        · obtain ⟨-, rfl, -⟩ := Parsed.mk.inj (Except.ok.inj h)
          rw [not_not.mp hraw]
  · rintro rfl
    rfl

theorem msg_attr_iff {tokens : List Token} {p : MsgAttrForwarding} : parse2 MsgAttrForwarding.parse tokens = .ok p ↔
    p.attrs ≠ [] ∧ ∃ joint, tokens = .ident p.msgType.text :: .punct ',' joint :: p.attrs := by
  rw [parse2_ok_iff]
  constructor
  · intro h
    unfold MsgAttrForwarding.parse at h
    split at h
    · rename_i text joint attrs hident
      obtain ⟨-, rfl⟩ := parseIdent_ok_iff.mp hident
      split at h
      · cases h
      · rename_i hattrs
        split at h
        · rename_i msgType hty
          obtain ⟨rfl, -, -⟩ := Parsed.mk.inj (Except.ok.inj h)
          rw [msgType_new_ok.mp hty]
          exact ⟨by simpa using hattrs, joint, rfl⟩
        · cases h
    · cases h
  · rintro ⟨hattrs, joint, rfl⟩
    have hident := parseIdent_ok_iff.mpr ⟨acceptAsIdent_text p.msgType, Eq.refl
      (Token.ident p.msgType.text :: .punct ',' joint :: p.attrs)⟩
    have hne : p.attrs.isEmpty = false := by simpa using hattrs
    simp only [MsgAttrForwarding.parse, hident, hne, Bool.false_eq_true, if_false, msgType_new_ok.mpr rfl]

/-- What the small attributes accept. `sv::data` and `sv::features` accept the
    comma-separated lists of their flags, a comma after the last allowed, and a flag is set
    exactly if it is listed; `sv::payload` accepts `raw` alone; `sv::msg_attr` accepts a
    kind, a comma and at least one token, and forwards what follows the comma. -/
theorem field_params_exact (tokens : List Token) :
    (∀ p, parse2 DataFieldParams.parse tokens = .ok p ↔
      ∃ options, CommaList (FlagTokens ["raw", "opt", "instantiate"]) options tokens ∧
        p = ⟨options.contains "raw", options.contains "opt", options.contains "instantiate"⟩) ∧
    (∀ p, parse2 SylviaFeatures.parse tokens = .ok p ↔
      ∃ options, CommaList (FlagTokens ["replies"]) options tokens ∧ p = ⟨options.contains "replies"⟩) ∧
    (parse2 parsePayload tokens = .ok ⟨⟩ ↔ tokens = [.ident "raw"]) ∧
    ∀ p, parse2 MsgAttrForwarding.parse tokens = .ok p ↔
      p.attrs ≠ [] ∧ ∃ joint, tokens = .ident p.msgType.text :: .punct ',' joint :: p.attrs :=
  ⟨fun _ => data_iff, fun _ => features_iff, payload_iff, fun _ => msg_attr_iff⟩

end Sylvia.Parser
