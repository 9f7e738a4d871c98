/-
  Sylvia.Cw20.Contract — the token contract's own messages (`cw20-base/src/contract.rs`).

  A function takes the storage it finds and returns the one it leaves. `migrate` is told
  what cw2's `ensure_from_older_version` answered: an error, or whether the version found
  is before 0.14.0. cw2's own record is left out.
-/
import Sylvia.Cw20.Validation

namespace Sylvia.Cw20

open Sylvia.Base Sylvia.CwStd

variable {X B T : Type} {P : Payloads}

/-! ## The accounts of a new token -/

def createAccounts (deps : Deps X B) (s : Cw20Base X) (accounts : List Cw20Coin) :
    Exec ContractError (Cw20Base X × Uint128) := do
  validateAccounts accounts
  accounts.foldlM
    (fun (st : Cw20Base X × Uint128) row => do
      let address ← deps.api.validate row.address
      let balances := st.1.balances.save address row.amount
      let totalSupply ← st.2.add row.amount
      .ok ({ st.1 with balances }, totalSupply))
    (s, Uint128.zero)

structure InstantiateMarketingInfo where
  project : Option String
  description : Option String
  marketing : Option String
  logo : Option Logo
  deriving DecidableEq, Repr

/-- `MinterResponse`, as the data of a new token has it. -/
structure MinterResponse where
  minter : String
  cap : Option Uint128
  deriving DecidableEq, Repr

structure InstantiateMsgData where
  name : String
  symbol : String
  decimals : UInt8
  initialBalances : List Cw20Coin
  mint : Option MinterResponse
  marketing : Option InstantiateMarketingInfo
  deriving DecidableEq, Repr

/-- The marketing data of a new token. -/
def storeMarketing (deps : Deps X B) (s : Cw20Base X) (marketing : InstantiateMarketingInfo) :
    Exec ContractError (Cw20Base X) := do
  (match marketing.logo with
    | some logo => verifyLogo logo
    | none => .ok ⟨⟩)
  let addr ← (match marketing.marketing with
    | some addr => do
      let addr ← deps.api.validate addr
      .ok (some addr)
    | none => .ok none)
  .ok { s with
    logo := marketing.logo,
    marketingInfo := some ⟨marketing.project, marketing.description, marketing.logo.map Logo.info, addr⟩ }

def instantiate (deps : Deps X B) (data : InstantiateMsgData) : Exec ContractError (Cw20Base X × Response P.withWasm T) := do
  validateMsg data.name data.symbol data.decimals
  let (s, totalSupply) ← createAccounts deps Cw20Base.new data.initialBalances
  Exec.ensure (!((data.mint.bind MinterResponse.cap).any fun limit => decide (totalSupply.val > limit.val)))
    (.std (.generic "Initial supply greater than cap"))
  let mint ← (match data.mint with
    | some m => do
      let minter ← deps.api.validate m.minter
      .ok (some (⟨minter, m.cap⟩ : MinterData))
    | none => .ok none)
  let s := { s with tokenInfo := some ⟨data.name, data.symbol, data.decimals, totalSupply, mint⟩ }
  match data.marketing with
  | some marketing => do
    let s ← storeMarketing deps s marketing
    .ok (s, Response.new)
  | none => .ok (s, Response.new)

/-! ## Allowances -/

/-- The closure `update_fn` of `deduct_allowance`. -/
def deductFn (deps : Deps X B) (block : B) (amount : Uint128) (current : Option (AllowanceResponse X)) :
    Exec ContractError (AllowanceResponse X) := do
  let allowance ← Exec.okOr .noAllowance current
  if !deps.expirations.isExpired allowance.expires block then
    let rest ← allowance.allowance.checkedSub amount
    .ok ⟨rest, allowance.expires⟩
  else Exec.fail .expired

def deductAllowance (deps : Deps X B) (s : Cw20Base X) (owner spender : Addr) (block : B) (amount : Uint128) :
    Exec ContractError (Cw20Base X) := do
  let allowances ← s.allowances.update (toLex (owner, spender)) (deductFn deps block amount)
  let allowancesSpender ← s.allowancesSpender.update (toLex (spender, owner)) (deductFn deps block amount)
  .ok { s with allowances, allowancesSpender }

/-! ## Messages -/

def transfer (deps : Deps X B) (s : Cw20Base X) (ctx : ExecCtx B) (recipient : String) (amount : Uint128) :
    Exec ContractError (Cw20Base X × Response P.withWasm T) := do
  Exec.ensure (amount ≠ Uint128.zero) .invalidZeroAmount
  let rcptAddr ← deps.api.validate recipient
  let balances ← s.balances.update ctx.sender fun balance => (balance.getD Uint128.zero).checkedSub amount
  let balances ← balances.update rcptAddr fun balance => (balance.getD Uint128.zero).checkedAdd amount
  let res := Response.new
    |>.addAttribute "action" "transfer"
    |>.addAttribute "from" ctx.sender
    |>.addAttribute "to" recipient
    |>.addAttribute "amount" (toString amount)
  .ok ({ s with balances }, res)

def burn (s : Cw20Base X) (ctx : ExecCtx B) (amount : Uint128) :
    Exec ContractError (Cw20Base X × Response P.withWasm T) := do
  Exec.ensure (amount ≠ Uint128.zero) .invalidZeroAmount
  let balances ← s.balances.update ctx.sender fun balance => (balance.getD Uint128.zero).checkedSub amount
  let tokenInfo ← s.tokenInfo.update fun info => do
    let totalSupply ← info.totalSupply.checkedSub amount
    .ok { info with totalSupply }
  let res := Response.new
    |>.addAttribute "action" "burn"
    |>.addAttribute "from" ctx.sender
    |>.addAttribute "amount" (toString amount)
  .ok ({ s with balances, tokenInfo }, res)

def send (deps : Deps X B) (s : Cw20Base X) (ctx : ExecCtx B) (contract : String) (amount : Uint128) (msg : Binary) :
    Exec ContractError (Cw20Base X × Response P.withWasm T) := do
  Exec.ensure (amount ≠ Uint128.zero) .invalidZeroAmount
  let rcptAddr ← deps.api.validate contract
  let balances ← s.balances.update ctx.sender fun balance => (balance.getD Uint128.zero).checkedSub amount
  let balances ← balances.update rcptAddr fun balance => (balance.getD Uint128.zero).checkedAdd amount
  let res := Response.new
    |>.addAttribute "action" "send"
    |>.addAttribute "from" ctx.sender
    |>.addAttribute "to" contract
    |>.addAttribute "amount" (toString amount)
  let msg ← Cw20ReceiveMsg.intoCosmosMsg deps ⟨ctx.sender, amount, msg⟩ contract
  .ok ({ s with balances }, res.addMessage msg)

/-- `older`: is the version that cw2 found before 0.14.0? -/
def migrate (s : Cw20Base X) (older : Exec ContractError Bool) :
    Exec ContractError (Cw20Base X × Response P.withWasm T) := do
  let older ← older
  if older then
    let allowancesSpender := s.allowances.entries.foldl
      (fun m e => Store.save m (toLex ((ofLex e.1).2, (ofLex e.1).1)) e.2) s.allowancesSpender
    .ok ({ s with allowancesSpender }, Response.new)
  else .ok (s, Response.new)

/-! ## Queries -/

/-- `balance`: zero for an address without one. -/
def balance (deps : Deps X B) (s : Cw20Base X) (address : String) : Exec ContractError Uint128 := do
  let address ← deps.api.validate address
  .ok ((s.balances.lookup address).getD Uint128.zero)

structure TokenInfoResponse where
  name : String
  symbol : String
  decimals : UInt8
  totalSupply : Uint128
  deriving DecidableEq, Repr

/-- The query `token_info`. -/
def tokenInfo (s : Cw20Base X) : Exec ContractError TokenInfoResponse := do
  let info ← s.tokenInfo.load
  .ok ⟨info.name, info.symbol, info.decimals, info.totalSupply⟩

end Sylvia.Cw20
