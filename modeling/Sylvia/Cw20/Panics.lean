/-
  Sylvia.Cw20.Panics — where the token contract panics.

  Four of its sums are made with the operator `+`: the recipient's balance in `transfer_from`
  and `send_from`, the supply and the recipient's balance in `mint`, and the allowance in
  `increase_allowance`. The balances stay below the supply, so the sums of balances fit; the
  supply and an allowance can overflow. The minter overflows the supply whatever the cap is,
  for the cap is looked at afterwards.

  Proved:
  - `panics_iff`: on chain a message panics exactly when it is a minter's that overflows the
    supply, or an owner's that overflows an allowance.
-/
import Sylvia.Cw20.Invariant

namespace Sylvia.Cw20

open Sylvia.Base Sylvia.CwStd

variable {X B T : Type} {P : Payloads}

/-- The message adds up to a number that is no `Uint128`. -/
def Msg.Overflows (deps : Deps X B) (s : Cw20Base X) (sender : Addr) : Msg X → Prop
  | .mint _ amount =>
    amount.val ≠ 0 ∧ (∃ cap, (token s).mint = some (sender, cap)) ∧ 2 ^ 128 ≤ (token s).supply + amount.val
  | .increaseAllowance spender amount _ =>
    deps.api.Valid spender ∧ spender ≠ sender ∧ 2 ^ 128 ≤ (token s).allowed sender spender + amount.val
  | _ => False

@[simp] theorem deductFn_panics {deps : Deps X B} {block : B} {n : Uint128} {current : Option (AllowanceResponse X)} :
    (deductFn deps block n current).Panics ↔ False := by
  simp [deductFn, Exec.ite_panics]

@[simp] theorem deductAllowance_panics {deps : Deps X B} {s : Cw20Base X} {owner spender : Addr} {block : B} {n : Uint128} :
    (deductAllowance deps s owner spender block n).Panics ↔ False := by
  simp [deductAllowance]

@[simp] theorem decreaseFn_panics {deps : Deps X B} {block : B} {n : Uint128} {expires : Option X} {g : AllowanceResponse X} :
    (decreaseFn deps block n expires g).Panics ↔ False := by
  cases expires <;> simp [decreaseFn, Exec.ite_panics]

theorem increaseFn_panics {deps : Deps X B} {block : B} {n : Uint128} {expires : Option X}
    {current : Option (AllowanceResponse X)} :
    (increaseFn deps block n expires current).Panics ↔
      2 ^ 128 ≤ (current.map fun g => g.allowance.val).getD 0 + n.val := by
  cases current <;> cases expires <;> simp [increaseFn, Exec.ite_panics]

section Messages

variable {deps : Deps X B} {s : Cw20Base X} {ctx : ExecCtx B} {amount : Uint128}

/-- A balance that is paid from another fits. -/
theorem pay_fits {s : Cw20Base X} (h : (token s).Sound) {owner dst : Addr} {m : Map Addr Uint128}
    (hle : amount.val ≤ bal s.balances owner) (hm : setBal s.balances owner (bal s.balances owner - amount.val) = m) :
    ¬ 2 ^ 128 ≤ bal m dst + amount.val := by
  subst hm
  exact not_le.mpr (room h hle)

theorem transferFrom_panics (h : Inv s) (owner recipient : String) :
    ¬ (transferFrom (P := P) (T := T) deps s ctx owner recipient amount).Panics := by
  simp only [transferFrom, Exec.bind_panics, Api.validate_panics, Exec.ite_panics, Exec.ok_panics, deductAllowance_panics,
    Map.update_panics, Uint128.checkedSub_panics, Uint128.add_panics, getD_val, lower_ok, Exec.ite_ok,
    deductAllowance_ok h.paired.mirror, Except.ok.injEq, and_false, or_false, false_or, exists_false]
  intro hpanic
  rcases hpanic with ⟨_, _, o, _, _, mid, hmid, m, ⟨hle, hm⟩, hbig⟩
  have hsound : (token mid).Sound := by
    rcases hmid with ⟨_, _, rfl⟩ | ⟨_, rfl⟩
    · exact sound_spendGrant h.sound _ _ _
    · exact h.sound
  exact pay_fits hsound hle hm hbig

theorem sendFrom_panics (h : Inv s) (owner contract : String) (msg : Binary) :
    ¬ (sendFrom (P := P) (T := T) deps s ctx owner contract amount msg).Panics := by
  simp only [sendFrom, Exec.bind_panics, Api.validate_panics, Exec.ok_panics, deductAllowance_panics, Map.update_panics,
    Uint128.checkedSub_panics, Uint128.add_panics, getD_val, lower_ok, deductAllowance_ok h.paired.mirror,
    intoCosmosMsg_panics, and_false, or_false, false_or, exists_false]
  intro hpanic
  rcases hpanic with ⟨_, _, o, _, mid, ⟨_, hmid⟩, m, ⟨hle, hm⟩, hbig⟩
  exact pay_fits (hmid ▸ sound_spendGrant h.sound _ _ _) hle hm hbig

theorem mint_panics (h : Inv s) (recipient : String) :
    (mint (P := P) (T := T) deps s ctx recipient amount).Panics ↔
      amount.val ≠ 0 ∧ (∃ cap, (token s).mint = some (ctx.sender, cap)) ∧ 2 ^ 128 ≤ (token s).supply + amount.val := by
  obtain ⟨info, hinfo⟩ := h.info
  have hminter : (∃ m, info.mint = some m ∧ m.minter = ctx.sender) ↔ ∃ cap, (token s).mint = some (ctx.sender, cap) := by
    rw [token_mint hinfo]
    cases info.mint <;> simp
  rw [token_supply hinfo, ← hminter]
  simp only [mint, Exec.bind_panics, Exec.ensure_panics, Exec.ensure_ok, Exec.okOr_panics, Exec.okOr_ok, hinfo,
    Option.some.injEq, decide_eq_true_eq, ne_zero_iff, Uint128.add_panics, Uint128.add_ok, Api.validate_panics,
    Map.update_panics, getD_val, Exec.ok_panics, and_false, or_false, false_or, exists_false, exists_eq_left',
    exists_and_left, exists_const]
  constructor
  · intro hpanic
    rcases hpanic with ⟨hzero, m, hm, hminter, hbig⟩
    refine ⟨hzero, ⟨m, hm, hminter⟩, ?_⟩
    rcases hbig with hbig | ⟨total, htotal, _, dst, _, hbig⟩
    · exact hbig
    · -- the recipient's balance is within the supply, which fits
      have hle : bal s.balances dst ≤ info.totalSupply.val := token_supply hinfo ▸ h.sound.le dst
      have := total.isLt
      omega
  · intro hspec
    rcases hspec with ⟨hzero, ⟨m, hm, hminter⟩, hbig⟩
    exact ⟨hzero, m, hm, hminter, Or.inl hbig⟩

theorem increaseAllowance_panics (h : Inv s) (spender : String) (expires : Option X) :
    (increaseAllowance (P := P) (T := T) deps s ctx spender amount expires).Panics ↔
      deps.api.Valid spender ∧ spender ≠ ctx.sender ∧ 2 ^ 128 ≤ (token s).allowed ctx.sender spender + amount.val := by
  rw [allowed_eq]
  simp only [increaseAllowance, Exec.bind_panics, Exec.ensure_panics, Exec.ensure_ok, Api.validate_panics, Api.validate_ok,
    Map.update_panics, Map.update_ok, increaseFn_panics, h.paired.mirror ctx.sender, Exec.ok_panics, decide_eq_true_eq,
    and_false, or_false, false_or, exists_false, exists_const, exists_and_left, and_assoc, exists_eq_left]
  refine and_congr_right fun _ => and_congr_right fun _ => ⟨?_, Or.inl⟩
  -- the second map would be updated with the same number
  intro hpanic
  rcases hpanic with hbig | ⟨_, _, hbig⟩
  · exact hbig
  · exact hbig

end Messages

/-- On chain, a message panics exactly when a sum of its own overflows. -/
theorem panics_iff {deps : Deps X B} {s : Cw20Base X} (h : Reach P T deps s) (ctx : ExecCtx B) (msg : Msg X) :
    (execute P T deps s ctx msg).Panics ↔ msg.Overflows deps s ctx.sender := by
  have hi := h.inv
  cases msg with
  | transfer recipient amount => simp [execute, transfer, Msg.Overflows]
  | burn amount => simp [execute, burn, Msg.Overflows]
  | send contract amount msg => simp [execute, send, Msg.Overflows]
  | increaseAllowance spender amount expires => exact increaseAllowance_panics hi spender expires
  | decreaseAllowance spender amount expires => simp [execute, decreaseAllowance, Exec.ite_panics, Map.load, Msg.Overflows]
  | transferFrom owner recipient amount => exact iff_of_false (transferFrom_panics hi owner recipient) id
  | sendFrom owner contract amount msg => exact iff_of_false (sendFrom_panics hi owner contract msg) id
  | burnFrom owner amount => simp [execute, burnFrom, Msg.Overflows]
  | mint recipient amount => exact mint_panics hi recipient
  | updateMinter newMinter => cases newMinter <;> simp [execute, updateMinter, Msg.Overflows]
  | updateMarketing project description marketing =>
    cases marketing <;> simp [execute, updateMarketing, Exec.ite_panics, Msg.Overflows]
  | uploadLogo logo => simp [execute, uploadLogo, Msg.Overflows]

/-- The cap of 2000 does not save the minter from the overflow. -/
theorem panics_minter :
    (execute bare Unit plainDeps (opened coinData) ⟨1, "minter"⟩ (.mint "addr0001" ⟨2 ^ 128 - 1, by decide⟩)).Panics :=
  (panics_iff coin_reach ⟨1, "minter"⟩ (.mint "addr0001" ⟨2 ^ 128 - 1, by decide⟩)).mpr
    ⟨by decide, ⟨some 2000, rfl⟩, by decide⟩

end Sylvia.Cw20
