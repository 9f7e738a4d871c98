/-
  Sylvia.Cw20.Instantiate — what a new token is.

  `Openable` says which data makes a token, and `opened` is the storage of the token made of
  it. The total is added up with the operator `+` as the accounts are saved, so the data of
  accounts that are too rich together panics, before cap, minter and marketing are looked at.

  Proved:
  - `createAccounts_ok`, `createAccounts_panics`: the accounts that can be made.
  - `instantiate_exact`: a token is made of the openable data, and is `opened`; a panic is
    an overflow of the total.
  - `opened_sound`: its balances add up to its supply.
-/
import Sylvia.Cw20.Ledger

namespace Sylvia.Cw20

open Sylvia.Base Sylvia.CwStd

variable {X B T : Type} {P : Payloads}

/-- What the accounts hold together. -/
def amounts (accounts : List Cw20Coin) : ℕ := (accounts.map fun row => row.amount.val).sum

def openBalances (m : Map Addr Uint128) (accounts : List Cw20Coin) : Map Addr Uint128 :=
  (accounts.map fun row => (row.address, row.amount)).foldl (fun m e => m.save e.1 e.2) m

def opened (data : InstantiateMsgData) : Cw20Base X where
  tokenInfo := some ⟨data.name, data.symbol, data.decimals, clamp (amounts data.initialBalances),
    data.mint.map fun m => ⟨m.minter, m.cap⟩⟩
  marketingInfo := data.marketing.map fun m => ⟨m.project, m.description, m.logo.map Logo.info, m.marketing⟩
  logo := data.marketing.bind InstantiateMarketingInfo.logo
  balances := openBalances .empty data.initialBalances
  allowances := .empty
  allowancesSpender := .empty

/-- What is checked before an account is made. -/
def Named (data : InstantiateMsgData) : Prop :=
  hasValidName data.name = true ∧ hasValidSymbol data.symbol = true ∧ data.decimals ≤ 18 ∧
    (data.initialBalances.map Cw20Coin.address).Nodup

structure Openable (deps : Deps X B) (data : InstantiateMsgData) : Prop where
  named : Named data
  valid : ∀ row ∈ data.initialBalances, deps.api.Valid row.address
  fits : amounts data.initialBalances < 2 ^ 128
  capped : ∀ m ∈ data.mint, ∀ limit ∈ m.cap, amounts data.initialBalances ≤ limit.val
  minter : ∀ m ∈ data.mint, deps.api.Valid m.minter
  logo : ∀ m ∈ data.marketing, ∀ logo ∈ m.logo, logo.WellFormed
  marketing : ∀ m ∈ data.marketing, ∀ addr ∈ m.marketing, deps.api.Valid addr

/-! ## The accounts -/

/-- One account more. -/
def openRow (deps : Deps X B) (st : Cw20Base X × Uint128) (row : Cw20Coin) : Exec ContractError (Cw20Base X × Uint128) := do
  let address ← deps.api.validate row.address
  let balances := st.1.balances.save address row.amount
  let totalSupply ← st.2.add row.amount
  .ok ({ st.1 with balances }, totalSupply)

theorem createAccounts_eq (deps : Deps X B) (s : Cw20Base X) (accounts : List Cw20Coin) :
    createAccounts deps s accounts = (do
      validateAccounts accounts
      accounts.foldlM (openRow deps) (s, Uint128.zero)) := rfl

theorem openRow_ok {deps : Deps X B} {st st' : Cw20Base X × Uint128} {row : Cw20Coin} :
    openRow deps st row = .ok st' ↔ deps.api.Valid row.address ∧ st'.2.val = st.2.val + row.amount.val ∧
      { st.1 with balances := st.1.balances.save row.address row.amount } = st'.1 := by
  obtain ⟨s', t'⟩ := st'
  simp only [openRow, Exec.bind_ok, Api.validate_ok, Uint128.add_ok, Except.ok.injEq, Prod.mk.injEq, and_assoc,
    exists_and_left, exists_eq_left]
  refine and_congr_right fun _ => ?_
  constructor
  · intro hok
    rcases hok with ⟨v, hv, hs, ht⟩
    exact ⟨ht ▸ hv, hs⟩
  · intro hspec
    rcases hspec with ⟨hv, hs⟩
    exact ⟨t', hv, hs, rfl⟩

theorem openRow_panics {deps : Deps X B} {st : Cw20Base X × Uint128} {row : Cw20Coin} :
    (openRow deps st row).Panics ↔ deps.api.Valid row.address ∧ 2 ^ 128 ≤ st.2.val + row.amount.val := by
  simp [openRow]

theorem foldlM_openRow_ok {deps : Deps X B} {accounts : List Cw20Coin} {st st' : Cw20Base X × Uint128} :
    accounts.foldlM (openRow deps) st = .ok st' ↔ (∀ row ∈ accounts, deps.api.Valid row.address) ∧
      st'.2.val = st.2.val + amounts accounts ∧ { st.1 with balances := openBalances st.1.balances accounts } = st'.1 := by
  induction accounts generalizing st with
  | nil =>
    obtain ⟨s, t⟩ := st
    obtain ⟨s', t'⟩ := st'
    have htotal : t = t' ↔ t'.val = t.val := by rw [Uint128.ext_iff, eq_comm]
    simp [amounts, openBalances, htotal, and_comm]
  | cons row accounts ih =>
    simp only [List.foldlM_cons, Exec.bind_ok, openRow_ok, ih, List.forall_mem_cons, and_assoc]
    constructor
    · intro hok
      rcases hok with ⟨mid, hvalid, htotal, hmid, hrest, htotal', hs⟩
      refine ⟨hvalid, hrest, ?_, ?_⟩
      · rw [htotal', htotal, Nat.add_assoc]
        rfl
      · rw [← hs, ← hmid]
        rfl
    · intro hspec
      rcases hspec with ⟨hvalid, hrest, htotal, hs⟩
      have hsum : amounts (row :: accounts) = row.amount.val + amounts accounts := rfl
      have hlt := st'.2.isLt
      have hmid : st.2.val + row.amount.val < 2 ^ 128 := by omega
      refine ⟨({ st.1 with balances := st.1.balances.save row.address row.amount }, ⟨_, hmid⟩), hvalid, rfl, rfl, hrest, ?_, hs⟩
      rw [htotal, hsum, Nat.add_assoc]

/-- The total overflows after some of the accounts, all of them valid. -/
theorem foldlM_openRow_panics {deps : Deps X B} {accounts : List Cw20Coin} {st : Cw20Base X × Uint128} :
    (accounts.foldlM (openRow deps) st).Panics ↔ ∃ front rest, accounts = front ++ rest ∧
      (∀ row ∈ front, deps.api.Valid row.address) ∧ 2 ^ 128 ≤ st.2.val + amounts front := by
  induction accounts generalizing st with
  | nil =>
    simp only [List.foldlM_nil, Exec.pure_panics, false_iff]
    intro hpanic
    rcases hpanic with ⟨front, rest, hsplit, _, hbig⟩
    rw [(List.append_eq_nil_iff.mp hsplit.symm).1] at hbig
    exact absurd st.2.isLt (not_lt.mpr hbig)
  | cons row accounts ih =>
    simp only [List.foldlM_cons, Exec.bind_panics, openRow_panics, openRow_ok, ih]
    constructor
    · intro h
      rcases h with ⟨hvalid, hbig⟩ | ⟨mid, ⟨hvalid, htotal, _⟩, front, rest, hsplit, hfront, hbig⟩
      · exact ⟨[row], accounts, rfl, by simpa using hvalid, by simpa [amounts] using hbig⟩
      · refine ⟨row :: front, rest, by rw [hsplit]; rfl, List.forall_mem_cons.mpr ⟨hvalid, hfront⟩, ?_⟩
        rw [htotal, Nat.add_assoc] at hbig
        exact hbig
    · intro hspec
      rcases hspec with ⟨front, rest, hsplit, hfront, hbig⟩
      cases front with
      | nil => exact absurd st.2.isLt (not_lt.mpr hbig)
      | cons first front =>
        obtain ⟨rfl, hrest⟩ := List.cons.inj hsplit
        obtain ⟨hvalid, hfront⟩ := List.forall_mem_cons.mp hfront
        by_cases hrow : 2 ^ 128 ≤ st.2.val + row.amount.val
        · exact Or.inl ⟨hvalid, hrow⟩
        · refine Or.inr ⟨({ st.1 with balances := st.1.balances.save row.address row.amount }, ⟨_, not_le.mp hrow⟩),
            ⟨hvalid, rfl, rfl⟩, front, rest, hrest, hfront, ?_⟩
          have hsum : amounts (row :: front) = row.amount.val + amounts front := rfl
          simp only
          omega

@[simp] theorem validateAccounts_panics {accounts : List Cw20Coin} : (validateAccounts accounts).Panics ↔ False := by
  simp [validateAccounts, Exec.ite_panics]

theorem createAccounts_ok {deps : Deps X B} {s s' : Cw20Base X} {accounts : List Cw20Coin} {total : Uint128} :
    createAccounts deps s accounts = .ok (s', total) ↔ (accounts.map Cw20Coin.address).Nodup ∧
      (∀ row ∈ accounts, deps.api.Valid row.address) ∧ total.val = amounts accounts ∧
        { s with balances := openBalances s.balances accounts } = s' := by
  simp [createAccounts_eq, validateAccounts_ok, foldlM_openRow_ok]

theorem createAccounts_panics {deps : Deps X B} {s : Cw20Base X} {accounts : List Cw20Coin} :
    (createAccounts deps s accounts).Panics ↔ (accounts.map Cw20Coin.address).Nodup ∧ ∃ front rest,
      accounts = front ++ rest ∧ (∀ row ∈ front, deps.api.Valid row.address) ∧ 2 ^ 128 ≤ amounts front := by
  simp [createAccounts_eq, validateAccounts_ok, foldlM_openRow_panics]

/-! ## The token -/

theorem validateMsg_ok {name symbol : String} {decimals : UInt8} {u : PUnit} :
    validateMsg name symbol decimals = .ok u ↔
      hasValidName name = true ∧ hasValidSymbol symbol = true ∧ decimals ≤ 18 := by
  simp [validateMsg]

@[simp] theorem validateMsg_panics {name symbol : String} {decimals : UInt8} :
    (validateMsg name symbol decimals).Panics ↔ False := by
  simp [validateMsg]

/-- The minter of a new token. -/
def openMinter (deps : Deps X B) : Option MinterResponse → Exec ContractError (Option MinterData)
  | some m => do
    let minter ← deps.api.validate m.minter
    .ok (some ⟨minter, m.cap⟩)
  | none => .ok none

def openMarketing (deps : Deps X B) (s : Cw20Base X) : Option InstantiateMarketingInfo → Exec ContractError (Cw20Base X)
  | some marketing => storeMarketing deps s marketing
  | none => .ok s

theorem openMinter_ok {deps : Deps X B} {m : Option MinterResponse} {mint : Option MinterData} :
    openMinter deps m = .ok mint ↔
      (∀ r ∈ m, deps.api.Valid r.minter) ∧ (m.map fun r => (⟨r.minter, r.cap⟩ : MinterData)) = mint := by
  cases m <;> simp [openMinter]

@[simp] theorem openMinter_panics {deps : Deps X B} {m : Option MinterResponse} : (openMinter deps m).Panics ↔ False := by
  cases m <;> simp [openMinter]

theorem openMarketing_ok {deps : Deps X B} {s s' : Cw20Base X} (hlogo : s.logo = none) (hinfo : s.marketingInfo = none)
    {m : Option InstantiateMarketingInfo} :
    openMarketing deps s m = .ok s' ↔
      (∀ r ∈ m, ∀ logo ∈ r.logo, logo.WellFormed) ∧ (∀ r ∈ m, ∀ addr ∈ r.marketing, deps.api.Valid addr) ∧
      { s with
        logo := m.bind InstantiateMarketingInfo.logo,
        marketingInfo := m.map fun r => ⟨r.project, r.description, r.logo.map Logo.info, r.marketing⟩ } = s' := by
  cases m with
  | none => simp [openMarketing, ← hlogo, ← hinfo]
  | some r =>
    obtain ⟨project, description, marketing, logo⟩ := r
    cases logo <;> cases marketing <;> simp [openMarketing, storeMarketing, verifyLogo_ok, and_assoc]

@[simp] theorem openMarketing_panics {deps : Deps X B} {s : Cw20Base X} {m : Option InstantiateMarketingInfo} :
    (openMarketing deps s m).Panics ↔ False := by
  cases m with
  | none => simp [openMarketing]
  | some r =>
    obtain ⟨project, description, marketing, logo⟩ := r
    cases logo <;> cases marketing <;> simp [openMarketing, storeMarketing]

theorem instantiate_eq (deps : Deps X B) (data : InstantiateMsgData) :
    instantiate (P := P) (T := T) deps data = (do
      validateMsg data.name data.symbol data.decimals
      let (s, totalSupply) ← createAccounts deps Cw20Base.new data.initialBalances
      Exec.ensure (!((data.mint.bind MinterResponse.cap).any fun limit => decide (totalSupply.val > limit.val)))
        (.std (.generic "Initial supply greater than cap"))
      let mint ← openMinter deps data.mint
      let s ← openMarketing deps { s with tokenInfo := some ⟨data.name, data.symbol, data.decimals, totalSupply, mint⟩ }
        data.marketing
      .ok (s, Response.new)) := by
  obtain ⟨name, symbol, decimals, accounts, mint, marketing⟩ := data
  cases mint <;> cases marketing <;> rfl

theorem cap_ok {total : Uint128} {m : Option MinterResponse} :
    (!((m.bind MinterResponse.cap).any fun limit => decide (total.val > limit.val))) = true ↔
      ∀ r ∈ m, ∀ limit ∈ r.cap, total.val ≤ limit.val := by
  cases m with
  | none => simp
  | some r => cases hc : r.cap <;> simp [hc]

theorem instantiate_ok {deps : Deps X B} {data : InstantiateMsgData} {s : Cw20Base X} :
    (∃ r : Response P.withWasm T, instantiate deps data = .ok (s, r)) ↔ Openable deps data ∧ opened data = s := by
  rw [instantiate_eq]
  simp only [Exec.bind_ok, validateMsg_ok, createAccounts_ok, Exec.ensure_ok, cap_ok, openMinter_ok, Except.ok.injEq,
    Prod.mk.injEq, Prod.exists, exists_const, exists_and_left]
  constructor
  · intro hok
    rcases hok with ⟨⟨hname, hsymbol, hdecimals⟩, _, mid, total, ⟨hnodup, hvalid, htotal, hmid⟩, hcap, mint,
      ⟨hminter, hmint⟩, s', hs', hs, _⟩
    subst hmid hmint hs
    obtain ⟨hlogo, hmarketing, rfl⟩ := (openMarketing_ok rfl rfl).mp hs'
    have hfits : amounts data.initialBalances < 2 ^ 128 := htotal ▸ total.isLt
    exact ⟨⟨⟨hname, hsymbol, hdecimals, hnodup⟩, hvalid, hfits, htotal ▸ hcap, hminter, hlogo, hmarketing⟩,
      by rw [(eq_clamp hfits).mp htotal]; rfl⟩
  · intro hspec
    rcases hspec with ⟨h, hs⟩
    obtain ⟨hname, hsymbol, hdecimals, hnodup⟩ := h.named
    have htotal := clamp_val h.fits
    exact ⟨⟨hname, hsymbol, hdecimals⟩, _, _, _, ⟨hnodup, h.valid, htotal, rfl⟩, htotal.symm ▸ h.capped, _, ⟨h.minter, rfl⟩,
      s, (openMarketing_ok rfl rfl).mpr ⟨h.logo, h.marketing, hs⟩, rfl, rfl⟩

theorem instantiate_panics {deps : Deps X B} {data : InstantiateMsgData} :
    (instantiate (P := P) (T := T) deps data).Panics ↔ Named data ∧ ∃ front rest, data.initialBalances = front ++ rest ∧
      (∀ row ∈ front, deps.api.Valid row.address) ∧ 2 ^ 128 ≤ amounts front := by
  rw [instantiate_eq]
  simp only [Exec.bind_panics, validateMsg_panics, createAccounts_panics, validateMsg_ok, Exec.ensure_panics,
    openMinter_panics, openMarketing_panics, Exec.ok_panics, exists_const, and_false, exists_false, or_false, false_or, Named,
    and_assoc]

/-- A token is made of the openable data; a panic is an overflow of the total by accounts that are all valid. -/
theorem instantiate_exact (deps : Deps X B) (data : InstantiateMsgData) :
    (∀ s, (∃ r : Response P.withWasm T, instantiate deps data = .ok (s, r)) ↔ Openable deps data ∧ opened data = s) ∧
    ((instantiate (P := P) (T := T) deps data).Panics ↔ Named data ∧ ∃ front rest, data.initialBalances = front ++ rest ∧
      (∀ row ∈ front, deps.api.Valid row.address) ∧ 2 ^ 128 ≤ amounts front) :=
  ⟨fun _ => instantiate_ok, instantiate_panics⟩

/-! ## Its balances -/

theorem opened_sum {data : InstantiateMsgData} (hn : (data.initialBalances.map Cw20Coin.address).Nodup) :
    (opened (X := X) data).balances.sum Uint128.val = amounts data.initialBalances := by
  have hkeys : ((data.initialBalances.map fun row => (row.address, row.amount)).map Prod.fst).Nodup := by
    rw [List.map_map]
    exact hn
  rw [opened, openBalances, Store.sum_foldl_save _ _ _ hkeys fun _ _ => Store.lookup_empty _, List.map_map]
  exact Nat.zero_add _

theorem opened_sound {deps : Deps X B} {data : InstantiateMsgData} (h : Openable deps data) :
    (token (opened (X := X) data)).Sound := by
  rw [sound_iff, opened_sum h.named.2.2.2]
  exact (clamp_val h.fits).symm

end Sylvia.Cw20
