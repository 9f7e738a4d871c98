/-
  Sylvia.Cw20.State — the token contract's data: its storage, its errors, the messages
  it sends on (`examples/contracts/cw20-base/src/{contract,error,responses}.rs`,
  `examples/interfaces/cw20-*`).

  `X` is the type of expirations and `B` the chain's block. What the contract calls and
  does not define is in `Deps`.
-/
import Mathlib.Data.Prod.Lex
import Sylvia.Base.Paging
import Sylvia.CwStd.Contract

namespace Sylvia.Cw20

open Sylvia.Base Sylvia.CwStd

inductive ContractError where
  | std (e : Fault)
  | unauthorized
  | cannotSetOwnAccount
  | invalidZeroAmount
  | expired
  | noAllowance
  | cannotExceedCap
  | logoTooBig
  | invalidXmlPreamble
  | invalidPngHeader
  | invalidExpiration
  | duplicateInitialBalanceAddresses
  deriving DecidableEq, Repr

instance : FromStd ContractError := ⟨.std⟩

structure AllowanceResponse (X : Type) where
  allowance : Uint128
  expires : X
  deriving DecidableEq, Repr

structure MinterData where
  minter : Addr
  cap : Option Uint128
  deriving DecidableEq, Repr

structure TokenInfo where
  name : String
  symbol : String
  decimals : UInt8
  totalSupply : Uint128
  mint : Option MinterData
  deriving DecidableEq, Repr

def TokenInfo.getCap (info : TokenInfo) : Option Uint128 := info.mint.bind MinterData.cap

inductive EmbeddedLogo where
  | svg (data : Binary)
  | png (data : Binary)
  deriving DecidableEq, Repr

inductive Logo where
  | url (url : String)
  | embedded (logo : EmbeddedLogo)
  deriving DecidableEq, Repr

inductive LogoInfo where
  | url (url : String)
  | embedded
  deriving DecidableEq, Repr

/-- What the marketing info says of a logo. -/
def Logo.info : Logo → LogoInfo
  | .url link => .url link
  | .embedded _ => .embedded

structure MarketingInfoResponse where
  project : Option String
  description : Option String
  logo : Option LogoInfo
  marketing : Option Addr
  deriving DecidableEq, Repr

/-- `MarketingInfoResponse::default()`. -/
def MarketingInfoResponse.default : MarketingInfoResponse := ⟨none, none, none, none⟩

/-- The key of a map over two addresses. Only the order under one first address is ever used:
    in storage a shorter first address comes before a longer one. -/
abbrev Pair := Addr ×ₗ Addr

/-- The contract's storage. -/
structure Cw20Base (X : Type) where
  tokenInfo : Item TokenInfo
  marketingInfo : Item MarketingInfoResponse
  logo : Item Logo
  balances : Map Addr Uint128
  /-- By owner and spender. -/
  allowances : Map Pair (AllowanceResponse X)
  /-- By spender and owner. -/
  allowancesSpender : Map Pair (AllowanceResponse X)

def Cw20Base.new {X : Type} : Cw20Base X := ⟨none, none, none, .empty, .empty, .empty⟩

structure Cw20Coin where
  address : String
  amount : Uint128
  deriving DecidableEq, Repr

structure Cw20ReceiveMsg where
  sender : String
  amount : Uint128
  msg : Binary
  deriving DecidableEq, Repr

/-- What the contract calls and does not define. -/
structure Deps (X B : Type) where
  api : Api
  expirations : Expirations X B
  /-- `to_json_binary` of `ReceiverExecuteMsg::Receive`. -/
  toJsonBinary : Cw20ReceiveMsg → Except Fault Binary

structure ExecCtx (B : Type) where
  block : B
  sender : Addr
  deriving DecidableEq, Repr

variable {X B T : Type} {P : Payloads}

def Cw20ReceiveMsg.intoJsonBinary (deps : Deps X B) (self : Cw20ReceiveMsg) : Exec ContractError Binary :=
  match deps.toJsonBinary self with
  | .ok msg => .ok msg
  | .error e => Exec.fail (.std e)

def Cw20ReceiveMsg.intoCosmosMsg (deps : Deps X B) (self : Cw20ReceiveMsg) (contractAddr : String) :
    Exec ContractError (CosmosMsg P.withWasm T) := do
  let msg ← self.intoJsonBinary deps
  .ok (.wasm (.execute contractAddr msg []))

/-- The `Receive` message can be written. -/
def Deps.Writes (deps : Deps X B) (msg : Cw20ReceiveMsg) : Prop := ∃ bin, deps.toJsonBinary msg = .ok bin

theorem intoCosmosMsg_ok {deps : Deps X B} {self : Cw20ReceiveMsg} {addr : String} {msg : CosmosMsg P.withWasm T} :
    self.intoCosmosMsg deps addr = .ok msg ↔ ∃ bin, deps.toJsonBinary self = .ok bin ∧ .wasm (.execute addr bin []) = msg := by
  unfold Cw20ReceiveMsg.intoCosmosMsg Cw20ReceiveMsg.intoJsonBinary
  cases deps.toJsonBinary self <;> simp

@[simp] theorem intoCosmosMsg_panics {deps : Deps X B} {self : Cw20ReceiveMsg} {addr : String} :
    (self.intoCosmosMsg deps addr : Exec ContractError (CosmosMsg P.withWasm T)).Panics ↔ False := by
  unfold Cw20ReceiveMsg.intoCosmosMsg Cw20ReceiveMsg.intoJsonBinary
  cases deps.toJsonBinary self <;> simp

end Sylvia.Cw20
