/-
  Sylvia.Cw20.Marketing — what clients show of the token (`cw20-base/src/marketing.rs`).

  A text that is empty once trimmed clears its field. `trim` drops the characters with the
  Unicode property White_Space.
-/
import Sylvia.Cw20.Contract

namespace Sylvia.Cw20

open Sylvia.Base Sylvia.CwStd

variable {X B T : Type} {P : Payloads}

/-- Unicode White_Space. -/
def isWhiteSpace (c : Char) : Bool :=
  let n := c.toNat
  (9 ≤ n && n ≤ 13) || n = 0x20 || n = 0x85 || n = 0xa0 || n = 0x1680 || (0x2000 ≤ n && n ≤ 0x200a) ||
    n = 0x2028 || n = 0x2029 || n = 0x202f || n = 0x205f || n = 0x3000

/-- `trim().is_empty()`. -/
def trimIsEmpty (text : String) : Bool := text.toList.all isWhiteSpace

/-- A field as the message changes it: absent keeps it, blank clears it. -/
def updateText (old : Option String) : Option String → Option String
  | some text => if trimIsEmpty text then none else some text
  | none => old

def updateMarketing (deps : Deps X B) (s : Cw20Base X) (ctx : ExecCtx B) (project description marketing : Option String) :
    Exec ContractError (Cw20Base X × Response P.withWasm T) := do
  let info ← Exec.okOr .unauthorized s.marketingInfo
  let owner ← Exec.okOr .unauthorized info.marketing
  Exec.ensure (owner = ctx.sender) .unauthorized
  let addr ← (match marketing with
    | some addr =>
      if trimIsEmpty addr then .ok none
      else do
        let addr ← deps.api.validate addr
        .ok (some addr)
    | none => .ok info.marketing)
  let info := { info with
    project := updateText info.project project,
    description := updateText info.description description,
    marketing := addr }
  let kept := info.project.isSome || info.description.isSome || info.marketing.isSome || info.logo.isSome
  .ok ({ s with marketingInfo := if kept then some info else none },
    Response.new |>.addAttribute "action" "update_marketing")

def uploadLogo (s : Cw20Base X) (ctx : ExecCtx B) (logo : Logo) :
    Exec ContractError (Cw20Base X × Response P.withWasm T) := do
  let info ← Exec.okOr .unauthorized s.marketingInfo
  verifyLogo logo
  let owner ← Exec.okOr .unauthorized info.marketing
  Exec.ensure (owner = ctx.sender) .unauthorized
  let info := { info with logo := some logo.info }
  .ok ({ s with logo := some logo, marketingInfo := some info }, Response.new |>.addAttribute "action" "upload_logo")

/-! ## Queries -/

def marketingInfo (s : Cw20Base X) : MarketingInfoResponse := s.marketingInfo.getD .default

structure DownloadLogoResponse where
  mimeType : String
  data : Binary
  deriving DecidableEq, Repr

def downloadLogo (s : Cw20Base X) : Exec ContractError DownloadLogoResponse := do
  let logo ← s.logo.load
  match logo with
  | .embedded (.svg data) => .ok ⟨"image/svg+xml", data⟩
  | .embedded (.png data) => .ok ⟨"image/png", data⟩
  | .url _ => Exec.fail (.std (.notFound "logo"))

end Sylvia.Cw20
