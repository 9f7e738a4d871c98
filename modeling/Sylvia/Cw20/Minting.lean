/-
  Sylvia.Cw20.Minting — new tokens and who may make them (`cw20-base/src/minting.rs`).

  The supply is raised with the operator `+`, before the cap is looked at.
-/
import Sylvia.Cw20.Contract

namespace Sylvia.Cw20

open Sylvia.Base Sylvia.CwStd

variable {X B T : Type} {P : Payloads}

def mint (deps : Deps X B) (s : Cw20Base X) (ctx : ExecCtx B) (recipient : String) (amount : Uint128) :
    Exec ContractError (Cw20Base X × Response P.withWasm T) := do
  Exec.ensure (amount ≠ Uint128.zero) .invalidZeroAmount
  let config ← Exec.okOr .unauthorized s.tokenInfo
  let minter ← Exec.okOr .unauthorized config.mint
  Exec.ensure (minter.minter = ctx.sender) .unauthorized
  let totalSupply ← config.totalSupply.add amount
  let config := { config with totalSupply }
  Exec.ensure (!(config.getCap.any fun limit => decide (config.totalSupply.val > limit.val))) .cannotExceedCap
  let rcptAddr ← deps.api.validate recipient
  let balances ← s.balances.update rcptAddr fun balance => (balance.getD Uint128.zero).add amount
  let res := Response.new
    |>.addAttribute "action" "mint"
    |>.addAttribute "to" recipient
    |>.addAttribute "amount" (toString amount)
  .ok ({ s with tokenInfo := some config, balances }, res)

def updateMinter (deps : Deps X B) (s : Cw20Base X) (ctx : ExecCtx B) (newMinter : Option String) :
    Exec ContractError (Cw20Base X × Response P.withWasm T) := do
  let config ← Exec.okOr .unauthorized s.tokenInfo
  let minter ← Exec.okOr .unauthorized config.mint
  Exec.ensure (minter.minter = ctx.sender) .unauthorized
  let minterData ← (match newMinter with
    | some newMinter => do
      let addr ← deps.api.validate newMinter
      .ok (some (⟨addr, minter.cap⟩ : MinterData))
    | none => .ok none)
  let config := { config with mint := minterData }
  let res := Response.new
    |>.addAttribute "action" "update_minter"
    |>.addAttribute "new_minter" ((config.mint.map MinterData.minter).getD "None")
  .ok ({ s with tokenInfo := some config }, res)

/-- The query `minter`. -/
def minter (s : Cw20Base X) : Exec ContractError (Option MinterData) := do
  let info ← s.tokenInfo.load
  .ok info.mint

end Sylvia.Cw20
