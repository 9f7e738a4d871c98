/-
  Sylvia.Cw20.History — what a run of messages does to accounts, allowances and the supply.

  The senders of a run are anybody, the order is any order, and a message that fails is left
  out. What the messages that returned moved is read off the acts they did (`done`).

  Proved, from every state on chain and over every run:
  - `ledger_history`: an account has what it had and received, less what left it; the supply
    is what it was and was minted, less what was burned.
  - `allowance_history`: what a spender took and may still take of an owner's is at most
    what she could take and was granted.
  - `silent_owner`: an owner who sends nothing loses at most the allowances standing.
  - `minter_history`: the cap is what it was, and without a minter there is never one again.
-/
import Sylvia.Cw20.Invariant

namespace Sylvia.Cw20

open Sylvia.Base Sylvia.CwStd

variable {X B T : Type} {P : Payloads} {deps : Deps X B}

theorem signed_sender {e : Ev X B} {a : Signed Addr X B} (h : a ∈ e.signed) : e.sender = some a.sender := by
  cases e with
  | migrate => cases h
  | exec ctx msg =>
    obtain ⟨act, -, rfl⟩ := Option.map_eq_some_iff.mp h
    rfl

/-- What was done was asked for in the run. -/
theorem mem_done {s : Cw20Base X} {es : List (Ev X B)} {a : Signed Addr X B} (h : a ∈ done P T deps s es) :
    ∃ e ∈ es, a ∈ e.signed := by
  induction es generalizing s with
  | nil => cases h
  | cons e es ih =>
    rw [done, List.mem_append] at h
    rcases h with h | h
    · cases hok : handle P T deps s e with
      | ok => exact ⟨e, List.mem_cons_self, by simpa [hok] using h⟩
      | error => simp [hok] at h
    · obtain ⟨e', he', ha⟩ := ih h
      exact ⟨e', List.mem_cons_of_mem _ he', ha⟩

/-- Nothing comes from nowhere: accounts and supply add up over every run. -/
theorem ledger_history {s : Cw20Base X} (h : Reach P T deps s) (es : List (Ev X B)) :
    (∀ a, bal (run P T deps s es).balances a + ((done P T deps s es).map (Token.out a)).sum =
      bal s.balances a + ((done P T deps s es).map (Token.income a)).sum) ∧
    (token (run P T deps s es)).supply + ((done P T deps s es).map Token.burned).sum =
      (token s).supply + ((done P T deps s es).map Token.minted).sum :=
  have hrun := run_of_inv (P := P) (T := T) h.inv es
  ⟨hrun.balance_history, hrun.supply_history h.inv.sound⟩

theorem ledger_history_coin :
    (∀ a, bal (run bare Unit plainDeps (opened coinData) coinRun).balances a +
        ((done bare Unit plainDeps (opened coinData) coinRun).map (Token.out a)).sum =
      bal (opened (X := Option ℕ) coinData).balances a +
        ((done bare Unit plainDeps (opened coinData) coinRun).map (Token.income a)).sum) ∧
    (token (run bare Unit plainDeps (opened coinData) coinRun)).supply +
        ((done bare Unit plainDeps (opened coinData) coinRun).map Token.burned).sum =
      (token (opened (X := Option ℕ) coinData)).supply +
        ((done bare Unit plainDeps (opened coinData) coinRun).map Token.minted).sum :=
  ledger_history coin_reach coinRun

/-! ## Allowances -/

/-- A spender never takes more of an owner's than she was allowed. -/
theorem allowance_history {s : Cw20Base X} (h : Reach P T deps s) (es : List (Ev X B)) (owner spender : Addr) :
    ((done P T deps s es).map (Token.spent owner spender)).sum + (token (run P T deps s es)).allowed owner spender ≤
      (token s).allowed owner spender + ((done P T deps s es).map (Token.granted owner spender)).sum :=
  (run_of_inv h.inv es).spent_le_granted owner spender

theorem allowance_history_coin :
    ((done bare Unit plainDeps (opened coinData) coinRun).map (Token.spent "addr0001" "addr0002")).sum +
        (token (run bare Unit plainDeps (opened coinData) coinRun)).allowed "addr0001" "addr0002" ≤
      (token (opened (X := Option ℕ) coinData)).allowed "addr0001" "addr0002" +
        ((done bare Unit plainDeps (opened coinData) coinRun).map (Token.granted "addr0001" "addr0002")).sum :=
  allowance_history coin_reach coinRun "addr0001" "addr0002"

/-- An owner who sends nothing loses at most what the senders were allowed. -/
theorem silent_owner {s : Cw20Base X} (h : Reach P T deps s) {es : List (Ev X B)} {owner : Addr} {S : Finset Addr}
    (hsenders : ∀ e ∈ es, ∀ a ∈ e.sender, a ∈ S) (howner : owner ∉ S) :
    bal s.balances owner ≤ bal (run P T deps s es).balances owner + S.sum fun spender => (token s).allowed owner spender :=
  (run_of_inv (P := P) (T := T) h.inv es).owner_silent
    (fun a ha => by
      obtain ⟨e, he, hsigned⟩ := mem_done ha
      exact hsenders e he a.sender (signed_sender hsigned))
    howner

/-- The first account grants 100 and says nothing more; 40 of it is used. -/
def grantedCoin : Cw20Base (Option ℕ) := run bare Unit plainDeps (opened coinData) (coinRun.take 1)

theorem silent_owner_coin :
    bal grantedCoin.balances "addr0001" = 1000 ∧ (token grantedCoin).allowed "addr0001" "addr0002" = 100 ∧
    bal (run bare Unit plainDeps grantedCoin (coinRun.drop 1)).balances "addr0001" = 960 ∧
    bal grantedCoin.balances "addr0001" ≤ bal (run bare Unit plainDeps grantedCoin (coinRun.drop 1)).balances "addr0001" +
      ({"addr0002"} : Finset Addr).sum fun spender => (token grantedCoin).allowed "addr0001" spender := by
  refine ⟨by decide, by decide, by decide, silent_owner (coin_reach.run _) (fun e he a ha => ?_) (by decide)⟩
  obtain rfl := List.mem_singleton.mp he
  cases ha
  decide

/-! ## The minter -/

/-- The minter may change, the cap does not; without a minter there is none again and nothing is minted. -/
theorem minter_history {s : Cw20Base X} (h : Reach P T deps s) (es : List (Ev X B)) :
    ∃ info info', s.tokenInfo = some info ∧ (run P T deps s es).tokenInfo = some info' ∧
      (∀ m' ∈ info'.mint, ∃ m ∈ info.mint, m.cap = m'.cap) ∧
      (info.mint = none →
        info'.totalSupply.val + ((done P T deps s es).map Token.burned).sum = info.totalSupply.val) := by
  have hrun : Token.Run (rules deps) (token s) (done P T deps s es) (token (run P T deps s es)) := run_of_inv h.inv es
  obtain ⟨info, hinfo⟩ := h.inv.info
  obtain ⟨info', hinfo'⟩ := (h.run es).inv.info
  refine ⟨info, info', hinfo, hinfo', ?_, ?_⟩
  · intro m' hm'
    have hmint : (token (run P T deps s es)).mint = some (m'.minter, m'.cap.map Uint128.val) := by
      rw [token_mint hinfo', hm', Option.map_some]
    obtain ⟨a, ha⟩ := hrun.mint_cap hmint
    rw [token_mint hinfo] at ha
    obtain ⟨m, hm, heq⟩ := Option.map_eq_some_iff.mp ha
    exact ⟨m, hm, Option.map_injective (fun _ _ => Uint128.ext) (Prod.mk.inj heq).2⟩
  · intro hnone
    have := (hrun.no_minter h.inv.sound (by rw [token_mint hinfo, hnone, Option.map_none])).2
    rwa [token_supply hinfo, token_supply hinfo'] at this

/-- The minter hands her right on, and the next one gives it up. -/
def minterRun : List (Ev (Option ℕ) ℕ) :=
  [.exec ⟨1, "minter"⟩ (.updateMinter (some "addr0003")), .exec ⟨2, "addr0003"⟩ (.mint "addr0003" ⟨400, by decide⟩),
    .exec ⟨3, "addr0003"⟩ (.updateMinter none)]

/-- What is tried afterwards: to mint, and to burn. -/
def burnRun : List (Ev (Option ℕ) ℕ) :=
  [.exec ⟨4, "minter"⟩ (.mint "minter" ⟨1, by decide⟩), .exec ⟨5, "addr0001"⟩ (.burn ⟨30, by decide⟩)]

def unmintedCoin : Cw20Base (Option ℕ) := run bare Unit plainDeps (opened coinData) minterRun

theorem minter_history_coin :
    (∃ info info', (opened (X := Option ℕ) coinData).tokenInfo = some info ∧
      (run bare Unit plainDeps (opened coinData) (minterRun.take 2)).tokenInfo = some info' ∧
      (∃ m', info'.mint = some m' ∧ m'.minter = "addr0003") ∧ (∀ m' ∈ info'.mint, ∃ m ∈ info.mint, m.cap = m'.cap)) ∧
    ∃ info info', unmintedCoin.tokenInfo = some info ∧
      (run bare Unit plainDeps unmintedCoin burnRun).tokenInfo = some info' ∧ info.mint = none ∧
      info'.totalSupply.val + ((done bare Unit plainDeps unmintedCoin burnRun).map Token.burned).sum =
        info.totalSupply.val := by
  constructor
  · obtain ⟨info, info', hinfo, hinfo', hcap, -⟩ := minter_history coin_reach (minterRun.take 2)
    refine ⟨info, info', hinfo, hinfo', ?_, hcap⟩
    obtain rfl := Option.some.inj (hinfo'.symm.trans rfl)
    exact ⟨_, rfl, rfl⟩
  · obtain ⟨info, info', hinfo, hinfo', -, hsupply⟩ := minter_history (coin_reach.run minterRun) burnRun
    have hnone : info.mint = none := by
      obtain rfl := Option.some.inj (hinfo.symm.trans rfl)
      rfl
    exact ⟨info, info', hinfo, hinfo', hnone, hsupply hnone⟩

end Sylvia.Cw20
