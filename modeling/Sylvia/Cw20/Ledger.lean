/-
  Sylvia.Cw20.Ledger — the contract's maps as a token's balances and allowances.

  `bal` reads a balance as a number, zero without an entry, and `setBal` writes one.
  `setGrant` and `dropGrant` write an allowance into both maps. `token` is the token that a
  storage stands for: it has the balances, the supply, the allowances by owner and spender,
  and the minter; the second map of allowances is not in it.

  Proved:
  - `lower_ok`, `raise_ok`, `checkedRaise_ok`, `deductAllowance_ok`: the updates of the
    source in these terms. Of a storage whose two maps are mirror images (`Mirror`), both
    updates of an allowance succeed or fail together.
  - `token_take`, `token_give`, `token_setGrant`, `token_dropGrant`: what they do to the token.
  - `sound_iff`: the token is sound when the balances stored add up to its supply.
-/
import Sylvia.Base.Token
import Sylvia.Cw20.Allowances
import Sylvia.Cw20.Minting
import Sylvia.Cw20.Marketing

namespace Sylvia.Cw20

open Sylvia.Base Sylvia.CwStd

variable {X B E : Type} [FromStd E]

/-- The number, or the largest there is. -/
def clamp (n : ℕ) : Uint128 := ⟨min n (2 ^ 128 - 1), by omega⟩

theorem clamp_val {n : ℕ} (h : n < 2 ^ 128) : (clamp n).val = n := by
  simp only [clamp]
  omega

theorem eq_clamp {a : Uint128} {n : ℕ} (h : n < 2 ^ 128) : a.val = n ↔ a = clamp n := by
  rw [Uint128.ext_iff, clamp_val h]

/-! ## Balances -/

def bal (m : Map Addr Uint128) (a : Addr) : ℕ := m.share Uint128.val a

def setBal (m : Map Addr Uint128) (a : Addr) (n : ℕ) : Map Addr Uint128 := m.save a (clamp n)

theorem bal_lt (m : Map Addr Uint128) (a : Addr) : bal m a < 2 ^ 128 := by
  rw [bal, Store.share]
  cases m.lookup a with
  | none => simp
  | some v => exact v.isLt

theorem getD_val (m : Map Addr Uint128) (a : Addr) : ((m.lookup a).getD Uint128.zero).val = bal m a := by
  rw [bal, Store.share]
  cases m.lookup a <;> rfl

theorem bal_setBal (m : Map Addr Uint128) (a : Addr) {n : ℕ} (h : n < 2 ^ 128) :
    bal (setBal m a n) = Function.update (bal m) a n := by
  funext b
  rw [bal, setBal, Store.share_save, clamp_val h, Function.update_apply]
  rfl

theorem lower_ok {m m' : Map Addr Uint128} {a : Addr} {n : Uint128} :
    (m.update a fun b => (b.getD Uint128.zero).checkedSub n : Exec E _) = .ok m' ↔
      n.val ≤ bal m a ∧ setBal m a (bal m a - n.val) = m' := by
  have hlt : bal m a - n.val < 2 ^ 128 := Nat.lt_of_le_of_lt (Nat.sub_le _ _) (bal_lt m a)
  simp only [Map.update_ok, Uint128.checkedSub_ok, getD_val, eq_clamp hlt]
  simp [setBal]

/-- A sum is saved when it fits. -/
theorem save_fits {m m' : Map Addr Uint128} {a : Addr} {n : ℕ} :
    (∃ v : Uint128, v.val = n ∧ m.save a v = m') ↔ n < 2 ^ 128 ∧ setBal m a n = m' := by
  constructor
  · intro ⟨v, hv, hm⟩
    have hlt : n < 2 ^ 128 := hv ▸ v.isLt
    rw [eq_clamp hlt] at hv
    exact ⟨hlt, by rw [setBal, ← hv, hm]⟩
  · intro ⟨hlt, hm⟩
    exact ⟨clamp n, clamp_val hlt, hm⟩

theorem checkedRaise_ok {m m' : Map Addr Uint128} {a : Addr} {n : Uint128} :
    (m.update a fun b => (b.getD Uint128.zero).checkedAdd n : Exec E _) = .ok m' ↔
      bal m a + n.val < 2 ^ 128 ∧ setBal m a (bal m a + n.val) = m' := by
  simp only [Map.update_ok, Uint128.checkedAdd_ok, getD_val]
  exact save_fits

omit [FromStd E] in
theorem raise_ok {m m' : Map Addr Uint128} {a : Addr} {n : Uint128} :
    (m.update a fun b => (b.getD Uint128.zero).add n : Exec E _) = .ok m' ↔
      bal m a + n.val < 2 ^ 128 ∧ setBal m a (bal m a + n.val) = m' := by
  simp only [Map.update_ok, Uint128.add_ok, getD_val]
  exact save_fits

/-! ## Allowances -/

/-- The two maps of allowances are mirror images. -/
def Mirror (s : Cw20Base X) : Prop :=
  ∀ owner spender, s.allowancesSpender.lookup (toLex (spender, owner)) = s.allowances.lookup (toLex (owner, spender))

def setGrant (s : Cw20Base X) (owner spender : Addr) (a : AllowanceResponse X) : Cw20Base X :=
  { s with
    allowances := s.allowances.save (toLex (owner, spender)) a
    allowancesSpender := s.allowancesSpender.save (toLex (spender, owner)) a }

def dropGrant (s : Cw20Base X) (owner spender : Addr) : Cw20Base X :=
  { s with
    allowances := s.allowances.remove (toLex (owner, spender))
    allowancesSpender := s.allowancesSpender.remove (toLex (spender, owner)) }

theorem pair_eq {a b c d : Addr} : toLex (a, b) = toLex (c, d) ↔ a = c ∧ b = d := by
  rw [toLex_inj, Prod.mk.injEq]

theorem mirror_setGrant {s : Cw20Base X} (h : Mirror s) (owner spender : Addr) (a : AllowanceResponse X) :
    Mirror (setGrant s owner spender a) := by
  intro o sp
  simp only [setGrant, Store.lookup_save, pair_eq, h o sp, and_comm]

theorem mirror_dropGrant {s : Cw20Base X} (h : Mirror s) (owner spender : Addr) : Mirror (dropGrant s owner spender) := by
  intro o sp
  simp only [dropGrant, Store.lookup_remove, pair_eq, h o sp, and_comm]

theorem deductFn_ok {deps : Deps X B} {block : B} {n : Uint128} {current : Option (AllowanceResponse X)}
    {a : AllowanceResponse X} :
    deductFn deps block n current = .ok a ↔ ∃ g, current = some g ∧ deps.expirations.isExpired g.expires block = false ∧
      n.val ≤ g.allowance.val ∧ ⟨clamp (g.allowance.val - n.val), g.expires⟩ = a := by
  have hlt : ∀ g : AllowanceResponse X, g.allowance.val - n.val < 2 ^ 128 := fun g =>
    Nat.lt_of_le_of_lt (Nat.sub_le _ _) g.allowance.isLt
  simp only [deductFn, Exec.bind_ok, Exec.okOr_ok, Exec.ite_ok, Exec.fail_ne_ok, and_false, or_false,
    Uint128.checkedSub_ok, Except.ok.injEq, Bool.not_eq_true', eq_clamp (hlt _)]
  refine exists_congr fun g => and_congr_right fun _ => and_congr_right fun _ => ?_
  simp

/-- `deduct_allowance` as a write: the allowance lowered in both maps. -/
def spendGrant (s : Cw20Base X) (owner spender : Addr) (n : ℕ) : Cw20Base X :=
  match s.allowances.lookup (toLex (owner, spender)) with
  | some g => setGrant s owner spender ⟨clamp (g.allowance.val - n), g.expires⟩
  | none => s

theorem mirror_spendGrant {s : Cw20Base X} (h : Mirror s) (owner spender : Addr) (n : ℕ) :
    Mirror (spendGrant s owner spender n) := by
  rw [spendGrant]
  split
  · exact mirror_setGrant h _ _ _
  · exact h

/-! ## The token -/

def token (s : Cw20Base X) : Token Addr X where
  balance := bal s.balances
  supply := (s.tokenInfo.map fun info => info.totalSupply.val).getD 0
  grants owner spender := (s.allowances.lookup (toLex (owner, spender))).map fun a => ⟨a.allowance.val, a.expires⟩
  mint := (s.tokenInfo.bind TokenInfo.mint).map fun m => (m.minter, m.cap.map Uint128.val)

def rules (deps : Deps X B) : Rules X B := ⟨deps.expirations.isExpired, deps.expirations.default, 2 ^ 128⟩

theorem token_grants (s : Cw20Base X) (owner spender : Addr) :
    (token s).grants owner spender =
      (s.allowances.lookup (toLex (owner, spender))).map fun a => ⟨a.allowance.val, a.expires⟩ := rfl

theorem allowed_eq (s : Cw20Base X) (owner spender : Addr) :
    (token s).allowed owner spender =
      ((s.allowances.lookup (toLex (owner, spender))).map fun a => a.allowance.val).getD 0 := by
  simp only [Token.allowed, token, Option.map_map]
  rfl

theorem covers_iff {deps : Deps X B} {s : Cw20Base X} {block : B} {owner spender : Addr} {n : ℕ} :
    (token s).Covers (rules deps) block owner spender n ↔ ∃ g, s.allowances.lookup (toLex (owner, spender)) = some g ∧
      deps.expirations.isExpired g.expires block = false ∧ n ≤ g.allowance.val := by
  simp [Token.Covers, token, rules]

theorem token_take (s : Cw20Base X) (a : Addr) (n : ℕ) :
    token { s with balances := setBal s.balances a (bal s.balances a - n) } = (token s).take a n := by
  have hlt : bal s.balances a - n < 2 ^ 128 := Nat.lt_of_le_of_lt (Nat.sub_le _ _) (bal_lt _ a)
  simp only [token, Token.take, bal_setBal _ _ hlt]

theorem token_give (s : Cw20Base X) (a : Addr) {n : ℕ} (h : bal s.balances a + n < 2 ^ 128) :
    token { s with balances := setBal s.balances a (bal s.balances a + n) } = (token s).give a n := by
  simp only [token, Token.give, bal_setBal _ _ h]

/-- A storage stands for a sound token when its balances add up to its supply. -/
theorem sound_iff {s : Cw20Base X} : (token s).Sound ↔ s.balances.sum Uint128.val = (token s).supply := by
  have hkeys : s.balances.keys.toFinset.sum (bal s.balances) = s.balances.sum Uint128.val := by
    rw [List.sum_toFinset _ (s.balances.keys_sorted.imp ne_of_lt)]
    exact s.balances.sum_keys _
  have hout : ∀ a, a ∉ s.balances.keys.toFinset → bal s.balances a = 0 := by
    intro a ha
    rw [List.mem_toFinset, Store.mem_keys, Store.has, Bool.not_eq_true, Option.isSome_eq_false_iff] at ha
    rw [bal, Store.share, Option.isNone_iff_eq_none.mp ha]
    rfl
  constructor
  · intro hsound
    rcases hsound with ⟨S, hzero, hsum⟩
    have hleft : S.sum (bal s.balances) = (S ∪ s.balances.keys.toFinset).sum (bal s.balances) :=
      Finset.sum_subset Finset.subset_union_left fun a _ ha => hzero a ha
    have hright : s.balances.keys.toFinset.sum (bal s.balances) = (S ∪ s.balances.keys.toFinset).sum (bal s.balances) :=
      Finset.sum_subset Finset.subset_union_right fun a _ ha => hout a ha
    exact hkeys.symm.trans (hright.trans (hleft.symm.trans hsum))
  · intro h
    exact ⟨_, hout, hkeys.trans h⟩

theorem token_setGrant (s : Cw20Base X) (owner spender : Addr) (a : AllowanceResponse X) :
    token (setGrant s owner spender a) = (token s).setGrant owner spender (some ⟨a.allowance.val, a.expires⟩) := by
  have hgrants : (token (setGrant s owner spender a)).grants =
      ((token s).setGrant owner spender (some ⟨a.allowance.val, a.expires⟩)).grants := by
    funext o sp
    rw [Token.setGrant_grants]
    simp only [token, setGrant, Store.lookup_save, pair_eq]
    split <;> rfl
  exact congrArg (fun g => { token s with grants := g }) hgrants

theorem token_dropGrant (s : Cw20Base X) (owner spender : Addr) :
    token (dropGrant s owner spender) = (token s).setGrant owner spender none := by
  have hgrants : (token (dropGrant s owner spender)).grants = ((token s).setGrant owner spender none).grants := by
    funext o sp
    rw [Token.setGrant_grants]
    simp only [token, dropGrant, Store.lookup_remove, pair_eq]
    split <;> rfl
  exact congrArg (fun g => { token s with grants := g }) hgrants

theorem token_spendGrant (s : Cw20Base X) (owner spender : Addr) (n : ℕ) :
    token (spendGrant s owner spender n) = (token s).spend owner spender n := by
  rw [spendGrant, Token.spend, token_grants]
  cases h : s.allowances.lookup (toLex (owner, spender)) with
  | none =>
    have hnone : (token s).grants owner spender = none := by rw [token_grants, h]; rfl
    have hgrants : (token s).grants = ((token s).setGrant owner spender none).grants := by
      funext o sp
      rw [Token.setGrant_grants]
      split
      · rename_i hos
        rw [hos.1, hos.2, hnone]
      · rfl
    exact congrArg (fun g => { token s with grants := g }) hgrants
  | some g =>
    have hlt : g.allowance.val - n < 2 ^ 128 := Nat.lt_of_le_of_lt (Nat.sub_le _ _) g.allowance.isLt
    simp only [token_setGrant, clamp_val hlt]
    rfl

/-- In a storage with mirrored maps an allowance is deducted exactly when it covers the amount. -/
theorem deductAllowance_ok {deps : Deps X B} {s s' : Cw20Base X} (hmirror : Mirror s) {owner spender : Addr} {block : B}
    {n : Uint128} :
    deductAllowance deps s owner spender block n = .ok s' ↔
      (token s).Covers (rules deps) block owner spender n.val ∧ spendGrant s owner spender n.val = s' := by
  simp only [deductAllowance, Exec.bind_ok, Map.update_ok, hmirror owner spender, deductFn_ok, Except.ok.injEq, covers_iff]
  constructor
  · intro h
    obtain ⟨m, ⟨v, ⟨g, hg, hx, hn, hv⟩, hm⟩, m', ⟨v', ⟨g', hg', -, -, hv'⟩, hm'⟩, hs⟩ := h
    rw [hg] at hg'
    cases hg'
    subst hv hv' hm hm'
    exact ⟨⟨g, hg, hx, hn⟩, by rw [spendGrant, hg]; exact hs⟩
  · intro hspec
    rcases hspec with ⟨⟨g, hg, hx, hn⟩, hs⟩
    rw [spendGrant, hg] at hs
    exact ⟨_, ⟨_, ⟨g, hg, hx, hn, rfl⟩, rfl⟩, _, ⟨_, ⟨g, hg, hx, hn, rfl⟩, rfl⟩, hs⟩

end Sylvia.Cw20
