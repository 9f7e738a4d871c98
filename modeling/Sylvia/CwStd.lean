/-
  Sylvia.CwStd — the `cosmwasm_std` types that replies and responses are made of, with
  the message variants of the features `staking`, `stargate` and `cosmwasm_2_0`.

  What a message variant carries is a parameter (`Payloads`). Ids and gas are `Nat`: they
  are only passed on.
-/
namespace Sylvia.CwStd

abbrev Binary := List UInt8

structure Attribute where
  key : String
  value : String
  deriving DecidableEq, Repr

structure Event where
  ty : String
  attributes : List Attribute
  deriving DecidableEq, Repr

/-- `StdError::generic_err`. -/
inductive StdError where
  | genericErr (msg : String)
  deriving DecidableEq, Repr

/-- The types a message variant carries. -/
structure Payloads where
  Wasm : Type
  Bank : Type
  Staking : Type
  Distribution : Type
  Ibc : Type
  Any : Type
  Gov : Type
  Stargate : Type

inductive CosmosMsg (P : Payloads) (T : Type) where
  | bank (msg : P.Bank)
  | custom (msg : T)
  | staking (msg : P.Staking)
  | distribution (msg : P.Distribution)
  | stargate (msg : P.Stargate)
  | any (msg : P.Any)
  | ibc (msg : P.Ibc)
  | wasm (msg : P.Wasm)
  | gov (msg : P.Gov)

inductive ReplyOn where
  | always
  | error
  | success
  | never
  deriving DecidableEq, Repr

structure SubMsg (P : Payloads) (T : Type) where
  id : Nat
  payload : Binary
  msg : CosmosMsg P T
  gasLimit : Option Nat
  replyOn : ReplyOn

structure Response (P : Payloads) (T : Type) where
  messages : List (SubMsg P T)
  attributes : List Attribute
  events : List Event
  data : Option Binary

namespace Response

variable {P : Payloads} {T : Type}

def new : Response P T := ⟨[], [], [], none⟩

def addSubmessages (r : Response P T) (msgs : List (SubMsg P T)) : Response P T :=
  { r with messages := r.messages ++ msgs }

def addEvents (r : Response P T) (events : List Event) : Response P T := { r with events := r.events ++ events }

def addAttributes (r : Response P T) (attrs : List Attribute) : Response P T :=
  { r with attributes := r.attributes ++ attrs }

end Response

/-! ## Replies -/

structure MsgResponse where
  typeUrl : String
  value : Binary
  deriving DecidableEq, Repr

structure SubMsgResponse where
  events : List Event
  data : Option Binary
  msgResponses : List MsgResponse
  deriving DecidableEq, Repr

inductive SubMsgResult where
  | ok (resp : SubMsgResponse)
  | err (error : String)
  deriving DecidableEq, Repr

structure Reply where
  id : Nat
  payload : Binary
  gasUsed : Nat
  result : SubMsgResult
  deriving DecidableEq, Repr

/-- As far as it is read: the block's height and the transaction's index. -/
structure Env where
  blockHeight : Nat
  transaction : Option Nat
  deriving DecidableEq, Repr

/-- Does the chain send a reply for this result? -/
def ReplyOn.repliesTo : ReplyOn → SubMsgResult → Bool
  | .always, _ => true
  | .success, .ok _ => true
  | .error, .err _ => true
  | _, _ => false

end Sylvia.CwStd
