/-
  Sylvia.Cw20.Allowances — spending on behalf of an owner (`cw20-base/src/allowances.rs`).

  `increase_allowance` applies one closure to both maps; `decrease_allowance` reads the map
  by owner and writes both. A listing gives one page of keys in ascending order.
-/
import Sylvia.Cw20.Contract

namespace Sylvia.Cw20

open Sylvia.Base Sylvia.CwStd

variable {X B T : Type} {P : Payloads}

def maxLimit : Nat := 30

def defaultLimit : Nat := 10

def calcLimit (limit : Option Nat) : Nat := min (limit.getD defaultLimit) maxLimit

/-- The closure `update_fn` of `increase_allowance`. -/
def increaseFn (deps : Deps X B) (block : B) (amount : Uint128) (expires : Option X)
    (allow : Option (AllowanceResponse X)) : Exec ContractError (AllowanceResponse X) := do
  let allow := allow.getD ⟨Uint128.zero, deps.expirations.default⟩
  let allowance ← allow.allowance.add amount
  match expires with
  | some expires =>
    if !deps.expirations.isExpired expires block then .ok ⟨allowance, expires⟩ else Exec.fail .invalidExpiration
  | none => .ok { allow with allowance }

def increaseAllowance (deps : Deps X B) (s : Cw20Base X) (ctx : ExecCtx B) (spender : String) (amount : Uint128)
    (expires : Option X) : Exec ContractError (Cw20Base X × Response P.withWasm T) := do
  let spenderAddr ← deps.api.validate spender
  Exec.ensure (spenderAddr ≠ ctx.sender) .cannotSetOwnAccount
  let updateFn := increaseFn deps ctx.block amount expires
  let allowances ← s.allowances.update (toLex (ctx.sender, spenderAddr)) updateFn
  let allowancesSpender ← s.allowancesSpender.update (toLex (spenderAddr, ctx.sender)) updateFn
  let res := Response.new
    |>.addAttribute "action" "increase_allowance"
    |>.addAttribute "owner" ctx.sender
    |>.addAttribute "spender" spender
    |>.addAttribute "amount" (toString amount)
  .ok ({ s with allowances, allowancesSpender }, res)

/-- An allowance lowered by less than it is, perhaps with a new expiration. -/
def decreaseFn (deps : Deps X B) (block : B) (amount : Uint128) (expires : Option X) (allowance : AllowanceResponse X) :
    Exec ContractError (AllowanceResponse X) := do
  let rest ← allowance.allowance.checkedSub amount
  match expires with
  | some exp => if deps.expirations.isExpired exp block then Exec.fail .invalidExpiration else .ok ⟨rest, exp⟩
  | none => .ok ⟨rest, allowance.expires⟩

/-- The spender's address is not checked: one without an allowance is not found. -/
def decreaseAllowance (deps : Deps X B) (s : Cw20Base X) (ctx : ExecCtx B) (spender : String) (amount : Uint128)
    (expires : Option X) : Exec ContractError (Cw20Base X × Response P.withWasm T) := do
  let spenderAddr : Addr := spender
  Exec.ensure (spenderAddr ≠ ctx.sender) .cannotSetOwnAccount
  let key := toLex (ctx.sender, spenderAddr)
  let reverseKey := toLex (spenderAddr, ctx.sender)
  let allowance ← s.allowances.load key
  let s ← (if amount.val < allowance.allowance.val then do
      let allowance ← decreaseFn deps ctx.block amount expires allowance
      .ok { s with
        allowances := s.allowances.save key allowance,
        allowancesSpender := s.allowancesSpender.save reverseKey allowance }
    else .ok { s with
      allowances := s.allowances.remove key,
      allowancesSpender := s.allowancesSpender.remove reverseKey })
  let res := Response.new
    |>.addAttribute "action" "decrease_allowance"
    |>.addAttribute "owner" ctx.sender
    |>.addAttribute "spender" spender
    |>.addAttribute "amount" (toString amount)
  .ok (s, res)

def transferFrom (deps : Deps X B) (s : Cw20Base X) (ctx : ExecCtx B) (owner recipient : String) (amount : Uint128) :
    Exec ContractError (Cw20Base X × Response P.withWasm T) := do
  let rcptAddr ← deps.api.validate recipient
  let ownerAddr ← deps.api.validate owner
  let res := Response.new
    |>.addAttribute "action" "transfer_from"
    |>.addAttribute "from" owner
    |>.addAttribute "to" recipient
    |>.addAttribute "by" ctx.sender
    |>.addAttribute "amount" (toString amount)
  -- a transfer from an account to itself changes nothing, and is not checked further
  if rcptAddr = ownerAddr then .ok (s, res)
  else
    let s ← (if ctx.sender ≠ ownerAddr then deductAllowance deps s ownerAddr ctx.sender ctx.block amount else .ok s)
    let balances ← s.balances.update ownerAddr fun balance => (balance.getD Uint128.zero).checkedSub amount
    let balances ← balances.update rcptAddr fun balance => (balance.getD Uint128.zero).add amount
    .ok ({ s with balances }, res)

def sendFrom (deps : Deps X B) (s : Cw20Base X) (ctx : ExecCtx B) (owner contract : String) (amount : Uint128) (msg : Binary) :
    Exec ContractError (Cw20Base X × Response P.withWasm T) := do
  let rcptAddr ← deps.api.validate contract
  let ownerAddr ← deps.api.validate owner
  let s ← deductAllowance deps s ownerAddr ctx.sender ctx.block amount
  let balances ← s.balances.update ownerAddr fun balance => (balance.getD Uint128.zero).checkedSub amount
  let balances ← balances.update rcptAddr fun balance => (balance.getD Uint128.zero).add amount
  let res := Response.new
    |>.addAttribute "action" "send_from"
    |>.addAttribute "from" owner
    |>.addAttribute "to" contract
    |>.addAttribute "by" ctx.sender
    |>.addAttribute "amount" (toString amount)
  let msg ← Cw20ReceiveMsg.intoCosmosMsg deps ⟨ctx.sender, amount, msg⟩ contract
  .ok ({ s with balances }, res.addMessage msg)

def burnFrom (deps : Deps X B) (s : Cw20Base X) (ctx : ExecCtx B) (owner : String) (amount : Uint128) :
    Exec ContractError (Cw20Base X × Response P.withWasm T) := do
  let ownerAddr ← deps.api.validate owner
  let s ← deductAllowance deps s ownerAddr ctx.sender ctx.block amount
  let balances ← s.balances.update ownerAddr fun balance => (balance.getD Uint128.zero).checkedSub amount
  let tokenInfo ← s.tokenInfo.update fun info => do
    let totalSupply ← info.totalSupply.checkedSub amount
    .ok { info with totalSupply }
  let res := Response.new
    |>.addAttribute "action" "burn_from"
    |>.addAttribute "owner" owner
    |>.addAttribute "spender" ctx.sender
    |>.addAttribute "amount" (toString amount)
  .ok ({ s with balances, tokenInfo }, res)

/-! ## Queries -/

/-- Zero, never expiring, when there is none. -/
def allowance (deps : Deps X B) (s : Cw20Base X) (owner spender : String) : Exec ContractError (AllowanceResponse X) := do
  let ownerAddr ← deps.api.validate owner
  let spenderAddr ← deps.api.validate spender
  .ok ((s.allowances.lookup (toLex (ownerAddr, spenderAddr))).getD ⟨Uint128.zero, deps.expirations.default⟩)

/-- `Map::prefix`: the entries whose key begins with `first`, by the rest of the key. -/
def keysUnder (m : Map Pair (AllowanceResponse X)) (first : Addr) : List (Addr × AllowanceResponse X) :=
  (m.entries.filter fun e => decide ((ofLex e.1).1 = first)).map fun e => ((ofLex e.1).2, e.2)

def allAllowances (deps : Deps X B) (s : Cw20Base X) (owner : String) (startAfter : Option String) (limit : Option Nat) :
    Exec ContractError (List (Addr × AllowanceResponse X)) := do
  let ownerAddr ← deps.api.validate owner
  .ok (page (keysUnder s.allowances ownerAddr) startAfter (calcLimit limit))

def allSpenderAllowances (deps : Deps X B) (s : Cw20Base X) (spender : String) (startAfter : Option String)
    (limit : Option Nat) : Exec ContractError (List (Addr × AllowanceResponse X)) := do
  let spenderAddr ← deps.api.validate spender
  .ok (page (keysUnder s.allowancesSpender spenderAddr) startAfter (calcLimit limit))

def allAccounts (s : Cw20Base X) (startAfter : Option String) (limit : Option Nat) : List Addr :=
  (page s.balances.entries startAfter (calcLimit limit)).map Prod.fst

end Sylvia.Cw20
