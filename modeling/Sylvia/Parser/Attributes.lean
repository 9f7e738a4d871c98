/-
  Sylvia.Parser.Attributes — the `sv::` attributes as the generators see them once
  parsed (`sylvia-derive/src/parser/attributes/`).

  A method carries at most one `sv::msg`; what it forwards to its variant is kept only
  as far as serde reads it here, a `rename`. A parameter's attributes are kept in order:
  `ParamAttrs.parsed` reads them the way `ParsedSylviaAttributes::new` does, a later
  `sv::data` replacing an earlier one.
-/
import Mathlib.Data.String.Basic
import Sylvia.Base.Effects

namespace Sylvia.Parser

open Sylvia.Base

/-- An identifier over ASCII. -/
abbrev Ident := String

inductive MsgType where
  | exec
  | query
  | instantiate
  | migrate
  | reply
  | sudo
  deriving DecidableEq, Repr

namespace MsgType

def new (msgType : String) : Except String MsgType :=
  match msgType with
  | "exec" => .ok .exec
  | "query" => .ok .query
  | "instantiate" => .ok .instantiate
  | "migrate" => .ok .migrate
  | "reply" => .ok .reply
  | "sudo" => .ok .sudo
  | _ => .error ("Invalid message type, expected one of: `exec`, `query`, `instantiate`, `migrate`, `reply` " ++
      "or `sudo`.")

/-- The kinds whose message is an enum with one variant a method. -/
def IsEnum : MsgType → Prop
  | .exec | .query | .sudo => True
  | .instantiate | .migrate | .reply => False

instance : DecidablePred IsEnum := fun ty => by cases ty <;> unfold IsEnum <;> infer_instance

def emitEpName : MsgType → String
  | .exec => "execute"
  | .instantiate => "instantiate"
  | .migrate => "migrate"
  | .sudo => "sudo"
  | .reply => "reply"
  | .query => "query"

/-- The variables of the context. -/
def emitCtxValues : MsgType → List Ident
  | .exec | .instantiate => ["deps", "env", "info"]
  | .migrate | .reply | .query | .sudo => ["deps", "env"]

end MsgType

inductive ReplyOn where
  | success
  | error
  | always
  deriving DecidableEq, Repr

namespace ReplyOn

def toText : ReplyOn → String
  | success => "success"
  | error => "error"
  | always => "always"

def new (replyOn : String) : Except String ReplyOn :=
  match replyOn with
  | "success" => .ok .success
  | "error" => .ok .error
  | "always" => .ok .always
  | _ => .error "Invalid argument type, expected one of `success`, `error` or `always`."

/-- Equal, or one of them is `always`. -/
def excludes (a b : ReplyOn) : Bool := a == b || (a == always || b == always)

end ReplyOn

structure MsgAttr where
  msgType : MsgType
  handlers : List Ident
  replyOn : ReplyOn
  deriving DecidableEq, Repr

structure DataFieldParams where
  raw : Bool
  opt : Bool
  instantiate : Bool
  deriving DecidableEq, Repr

/-- `DataFieldParams::default`, a bare `#[sv::data]`. -/
def DataFieldParams.default : DataFieldParams := ⟨false, false, false⟩

structure SylviaFeatures where
  replies : Bool
  deriving DecidableEq, Repr

/-! ## A parameter's attributes -/

inductive ParamAttr where
  | data (params : DataFieldParams)
  | payload
  /-- Another `sv::` attribute. -/
  | sylvia
  | serdeDefault
  | other
  deriving DecidableEq, Repr

namespace ParamAttr

/-- `SylviaAttribute::new(attr).is_some()`. -/
def isSylvia : ParamAttr → Bool
  | data _ | payload | sylvia => true
  | serdeDefault | other => false

end ParamAttr

structure ParsedParam where
  data : Option DataFieldParams
  payload : Bool
  deriving DecidableEq, Repr

def parsed (attrs : List ParamAttr) : ParsedParam :=
  attrs.foldl (fun result attr => match attr with
    | .data params => { result with data := some params }
    | .payload => { result with payload := true }
    | _ => result) ⟨none, false⟩

/-- What parsing the attributes reports. -/
def parseErrors (attrs : List ParamAttr) : Emit Unit :=
  attrs.forM fun attr => match attr with
    | .data params =>
      Emit.errorIf (params.instantiate && params.raw)
        "The `instantiate` cannot be used in pair with `raw` parameter."
        ["Use any combination of [`raw`, `opt`] or [`instantiate`, `opt`] pairs."]
    | _ => pure ()

end Sylvia.Parser
