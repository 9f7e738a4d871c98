/-
  Sylvia.Cw20.Refinement — the token contract refines the token.

  `Inv` holds of every state on chain: the token info is there, the two maps of allowances
  are mirror images, nobody has an allowance from herself, the supply is the sum of the
  balances and within the cap.

  Proved:
  - `Refines`, for each message about tokens: of a state with `Inv` it returns exactly when
    its addresses are valid and the token allows the act it asks for, and it leaves a
    storage that stands for the token after that act; and the storage has `Inv` again.
-/
import Sylvia.Cw20.Chain

namespace Sylvia.Cw20

open Sylvia.Base Sylvia.CwStd

variable {X B T : Type} {P : Payloads}

/-- The act a message asks for; none if it is not about tokens. -/
def Msg.act : Msg X → Option (Act Addr X)
  | .transfer recipient amount => some (.pay recipient amount.val)
  | .burn amount => some (.burn amount.val)
  | .send contract amount _ => some (.pay contract amount.val)
  | .increaseAllowance spender amount expires => some (.allow spender amount.val expires)
  | .decreaseAllowance spender amount expires => some (.disallow spender amount.val expires)
  | .transferFrom owner recipient amount => some (.payFrom owner recipient amount.val)
  | .sendFrom owner contract amount _ => some (.sendFrom owner contract amount.val)
  | .burnFrom owner amount => some (.burnFrom owner amount.val)
  | .mint recipient amount => some (.mint recipient amount.val)
  | .updateMinter newMinter => some (.setMinter newMinter)
  | .updateMarketing .. | .uploadLogo _ => none

/-- The addresses the message names are valid, and the message it sends on can be written. -/
def Msg.Valid (deps : Deps X B) (sender : Addr) : Msg X → Prop
  | .transfer recipient _ | .mint recipient _ => deps.api.Valid recipient
  | .send contract amount msg => deps.api.Valid contract ∧ deps.Writes ⟨sender, amount, msg⟩
  | .increaseAllowance spender _ _ => deps.api.Valid spender
  | .transferFrom owner recipient _ => deps.api.Valid recipient ∧ deps.api.Valid owner
  | .sendFrom owner contract amount msg =>
    deps.api.Valid contract ∧ deps.api.Valid owner ∧ deps.Writes ⟨sender, amount, msg⟩
  | .burnFrom owner _ => deps.api.Valid owner
  | .updateMinter newMinter => ∀ a ∈ newMinter, deps.api.Valid a
  | .burn _ | .decreaseAllowance .. | .updateMarketing .. | .uploadLogo _ => True

/-- The part of the invariant that is about the two maps. -/
structure Paired (s : Cw20Base X) : Prop where
  mirror : Mirror s
  /-- Nobody has an allowance from herself. -/
  selfless : ∀ a, s.allowances.lookup (toLex (a, a)) = none

structure Inv (s : Cw20Base X) : Prop where
  info : ∃ info, s.tokenInfo = some info
  paired : Paired s
  sound : (token s).Sound
  capped : (token s).Capped

/-! ## What messages write -/

def lower (s : Cw20Base X) (a : Addr) (n : ℕ) : Cw20Base X :=
  { s with balances := setBal s.balances a (bal s.balances a - n) }

def raise (s : Cw20Base X) (a : Addr) (n : ℕ) : Cw20Base X :=
  { s with balances := setBal s.balances a (bal s.balances a + n) }

def setSupply (s : Cw20Base X) (info : TokenInfo) (n : ℕ) : Cw20Base X :=
  { s with tokenInfo := some { info with totalSupply := clamp n } }

theorem token_setSupply {s : Cw20Base X} {info : TokenInfo} (h : s.tokenInfo = some info) {n : ℕ} (hn : n < 2 ^ 128) :
    token (setSupply s info n) = { token s with supply := n } := by
  simp [token, setSupply, h, clamp_val hn]

theorem token_supply {s : Cw20Base X} {info : TokenInfo} (h : s.tokenInfo = some info) :
    (token s).supply = info.totalSupply.val := by
  simp [token, h]

theorem token_mint {s : Cw20Base X} {info : TokenInfo} (h : s.tokenInfo = some info) :
    (token s).mint = info.mint.map fun m => (m.minter, m.cap.map Uint128.val) := by
  simp [token, h]

theorem supply_lt (s : Cw20Base X) : (token s).supply < 2 ^ 128 := by
  rw [token]
  cases s.tokenInfo with
  | none => simp
  | some info => exact info.totalSupply.isLt

theorem paired_setGrant {s : Cw20Base X} (h : Paired s) {owner spender : Addr} (hne : owner ≠ spender)
    (a : AllowanceResponse X) : Paired (setGrant s owner spender a) := by
  refine ⟨mirror_setGrant h.mirror _ _ _, fun b => ?_⟩
  rw [setGrant, Store.lookup_save_ne, h.selfless b]
  rw [Ne, pair_eq]
  exact fun hb => hne (hb.1.symm.trans hb.2)

theorem paired_dropGrant {s : Cw20Base X} (h : Paired s) (owner spender : Addr) : Paired (dropGrant s owner spender) := by
  refine ⟨mirror_dropGrant h.mirror _ _, fun b => ?_⟩
  rw [dropGrant, Store.lookup_remove, h.selfless b, ite_self]

/-- Two balances fit into one: a raise after a lowering cannot overflow. -/
theorem room {s : Cw20Base X} (h : (token s).Sound) {a b : Addr} {n : ℕ} (hn : n ≤ bal s.balances a) :
    bal (lower s a n).balances b + n < 2 ^ 128 := by
  have hlt : bal s.balances a - n < 2 ^ 128 := Nat.lt_of_le_of_lt (Nat.sub_le _ _) (bal_lt _ a)
  rw [lower, bal_setBal _ _ hlt, Function.update_apply]
  by_cases hb : b = a
  · rw [if_pos hb, Nat.sub_add_cancel hn]
    exact bal_lt _ a
  · have hadd : bal s.balances b + bal s.balances a ≤ (token s).supply := h.add_le hb
    have := supply_lt s
    rw [if_neg hb]
    omega

theorem token_pay {s : Cw20Base X} (h : (token s).Sound) {a b : Addr} {n : ℕ} (hn : n ≤ bal s.balances a) :
    token (raise (lower s a n) b n) = ((token s).take a n).give b n := by
  rw [raise, token_give _ _ (room h hn), lower, token_take]

/-! ## What a message does -/

/-- A message does the act it asks for, exactly when it may. -/
structure Refines (deps : Deps X B) (s : Cw20Base X) (ctx : ExecCtx B)
    (run : Exec ContractError (Cw20Base X × Response P.withWasm T)) (valid : Prop) (act : Act Addr X) : Prop where
  returns : run.Returns ↔ valid ∧ (token s).Allows (rules deps) ⟨ctx.block, ctx.sender, act⟩
  token_eq : ∀ s' r, run = .ok (s', r) → token s' = (token s).act (rules deps) ⟨ctx.block, ctx.sender, act⟩
  info : ∀ s' r, run = .ok (s', r) → ∃ info, s'.tokenInfo = some info
  paired : ∀ s' r, run = .ok (s', r) → Paired s'

theorem Refines.of_iff {deps : Deps X B} {s : Cw20Base X} (post : Cw20Base X) {ctx : ExecCtx B}
    {run : Exec ContractError (Cw20Base X × Response P.withWasm T)} {valid : Prop} {act : Act Addr X}
    (hiff : ∀ s', (∃ r, run = .ok (s', r)) ↔
      valid ∧ (token s).Allows (rules deps) ⟨ctx.block, ctx.sender, act⟩ ∧ post = s')
    (hpost : (token s).Allows (rules deps) ⟨ctx.block, ctx.sender, act⟩ →
      token post = (token s).act (rules deps) ⟨ctx.block, ctx.sender, act⟩ ∧ (∃ info, post.tokenInfo = some info) ∧
        Paired post) :
    Refines deps s ctx run valid act := by
  have hok : ∀ s' r, run = .ok (s', r) → (token s).Allows (rules deps) ⟨ctx.block, ctx.sender, act⟩ ∧ post = s' :=
    fun s' r h => ((hiff s').mp ⟨r, h⟩).2
  refine ⟨⟨?_, ?_⟩, ?_, ?_, ?_⟩
  · intro ⟨sr, h⟩
    have := (hiff sr.1).mp ⟨sr.2, h⟩
    exact ⟨this.1, this.2.1⟩
  · intro ⟨hvalid, hallows⟩
    obtain ⟨r, h⟩ := (hiff post).mpr ⟨hvalid, hallows, rfl⟩
    exact ⟨(post, r), h⟩
  · intro s' r h
    obtain ⟨hallows, rfl⟩ := hok s' r h
    exact (hpost hallows).1
  · intro s' r h
    obtain ⟨hallows, rfl⟩ := hok s' r h
    exact (hpost hallows).2.1
  · intro s' r h
    obtain ⟨hallows, rfl⟩ := hok s' r h
    exact (hpost hallows).2.2

theorem ne_zero_iff {amount : Uint128} : amount ≠ Uint128.zero ↔ amount.val ≠ 0 := by
  rw [Ne, Uint128.ext_iff, Uint128.zero_val]

section Messages

variable {deps : Deps X B} {s : Cw20Base X} {ctx : ExecCtx B} {amount : Uint128}

theorem transfer_refines (h : Inv s) (recipient : String) :
    Refines deps s ctx (transfer (P := P) (T := T) deps s ctx recipient amount) (deps.api.Valid recipient)
      (.pay recipient amount.val) := by
  refine .of_iff (raise (lower s ctx.sender amount.val) recipient amount.val) (fun s' => ?_) fun hallows =>
    ⟨token_pay h.sound hallows.2, h.info, h.paired.mirror, h.paired.selfless⟩
  simp only [transfer, Exec.bind_ok, Exec.ensure_ok, decide_eq_true_eq, Api.validate_ok, lower_ok, checkedRaise_ok,
    Except.ok.injEq, Prod.mk.injEq, exists_and_left, exists_const, exists_eq', exists_eq_left', exists_eq_left, and_assoc,
    and_true, ne_zero_iff]
  constructor
  · intro hok
    rcases hok with ⟨hzero, hvalid, hle, _, hs⟩
    exact ⟨hvalid, ⟨hzero, hle⟩, hs⟩
  · intro hspec
    rcases hspec with ⟨hvalid, ⟨hzero, hle⟩, hs⟩
    exact ⟨hzero, hvalid, hle, room h.sound hle, hs⟩

theorem send_refines (h : Inv s) (contract : String) (msg : Binary) :
    Refines deps s ctx (send (P := P) (T := T) deps s ctx contract amount msg)
      (deps.api.Valid contract ∧ deps.Writes ⟨ctx.sender, amount, msg⟩) (.pay contract amount.val) := by
  refine .of_iff (raise (lower s ctx.sender amount.val) contract amount.val) (fun s' => ?_) fun hallows =>
    ⟨token_pay h.sound hallows.2, h.info, h.paired.mirror, h.paired.selfless⟩
  simp only [send, Exec.bind_ok, Exec.ensure_ok, decide_eq_true_eq, Api.validate_ok, lower_ok, checkedRaise_ok,
    intoCosmosMsg_ok, Except.ok.injEq, Prod.mk.injEq, exists_and_left, exists_const, exists_eq_left', exists_eq_left,
    and_assoc, ne_zero_iff]
  constructor
  · intro hok
    rcases hok with ⟨hzero, hvalid, hle, _, _, _, ⟨bin, hbin, _⟩, hs, _⟩
    exact ⟨hvalid, ⟨bin, hbin⟩, ⟨hzero, hle⟩, hs⟩
  · intro hspec
    rcases hspec with ⟨hvalid, ⟨bin, hbin⟩, ⟨hzero, hle⟩, hs⟩
    exact ⟨hzero, hvalid, hle, room h.sound hle, _, _, ⟨bin, hbin, rfl⟩, hs, rfl⟩

theorem burn_refines (h : Inv s) : Refines deps s ctx (burn (P := P) (T := T) s ctx amount) True (.burn amount.val) := by
  obtain ⟨info, hinfo⟩ := h.info
  have hsupply := token_supply hinfo
  have hlt : info.totalSupply.val - amount.val < 2 ^ 128 := Nat.lt_of_le_of_lt (Nat.sub_le _ _) info.totalSupply.isLt
  refine .of_iff (setSupply (lower s ctx.sender amount.val) info (info.totalSupply.val - amount.val))
    (fun s' => ?_) fun hallows => ⟨?_, ⟨_, rfl⟩, ⟨h.paired.mirror, h.paired.selfless⟩⟩
  · simp only [burn, Exec.bind_ok, Exec.ensure_ok, decide_eq_true_eq, lower_ok, Item.update_ok, hinfo, Option.some.injEq,
      Uint128.checkedSub_ok, eq_clamp hlt, Except.ok.injEq, Prod.mk.injEq, exists_and_left, exists_const,
      exists_eq', exists_eq_left', exists_eq_left, and_assoc, and_true, ne_zero_iff]
    constructor
    · intro hok
      rcases hok with ⟨hzero, hle, _, hs⟩
      exact ⟨trivial, ⟨hzero, hle⟩, hs⟩
    · intro hspec
      rcases hspec with ⟨_, ⟨hzero, hle⟩, hs⟩
      exact ⟨hzero, hle, hsupply ▸ hle.trans (h.sound.le _), hs⟩
  · have := token_setSupply (s := lower s ctx.sender amount.val) hinfo hlt
    rw [this, lower, token_take, ← hsupply]
    rfl

theorem mint_refines (h : Inv s) (recipient : String) :
    Refines deps s ctx (mint (P := P) (T := T) deps s ctx recipient amount) (deps.api.Valid recipient)
      (.mint recipient amount.val) := by
  obtain ⟨info, hinfo⟩ := h.info
  have hsupply := token_supply hinfo
  have hmint := token_mint hinfo
  have hroom : (token s).supply + amount.val < 2 ^ 128 → bal s.balances recipient + amount.val < 2 ^ 128 := fun hlt =>
    Nat.lt_of_le_of_lt (Nat.add_le_add_right (h.sound.le recipient) _) hlt
  refine .of_iff (setSupply (raise s recipient amount.val) info (info.totalSupply.val + amount.val))
    (fun s' => ?_) fun hallows => ⟨?_, ⟨_, rfl⟩, ⟨h.paired.mirror, h.paired.selfless⟩⟩
  · simp only [mint, Exec.bind_ok, Exec.ensure_ok, decide_eq_true_eq, Api.validate_ok, raise_ok, Exec.okOr_ok, hinfo,
      Option.some.injEq, Uint128.add_ok, TokenInfo.getCap, Except.ok.injEq, Prod.mk.injEq, exists_and_left, exists_const,
      exists_eq_left', exists_eq_left, and_assoc, ne_zero_iff]
    constructor
    · intro hok
      rcases hok with ⟨hzero, _, m, hm, hminter, v, hv, hcap, hvalid, _, hs, _⟩
      have hlt : info.totalSupply.val + amount.val < 2 ^ 128 := hv ▸ v.isLt
      obtain rfl := (eq_clamp hlt).mp hv
      refine ⟨hvalid, ⟨hzero, hsupply ▸ hlt, m.cap.map Uint128.val, ?_, ?_⟩, hs⟩
      · simp [hmint, hm, hminter]
      · intro c hc
        obtain ⟨limit, hlimit, rfl⟩ := Option.map_eq_some_iff.mp hc
        simpa [hm, hlimit, hsupply, clamp_val hlt] using hcap
    · intro hspec
      rcases hspec with ⟨hvalid, ⟨hzero, hlt, cap, hcap, hlim⟩, hs⟩
      have hlt' : info.totalSupply.val + amount.val < 2 ^ 128 := hsupply ▸ hlt
      rw [hmint, Option.map_eq_some_iff] at hcap
      obtain ⟨m, hm, heq⟩ := hcap
      obtain ⟨hminter, rfl⟩ := Prod.mk.inj heq
      refine ⟨hzero, _, m, hm, hminter, clamp (info.totalSupply.val + amount.val), clamp_val hlt', ?_, hvalid, hroom hlt, hs, rfl⟩
      cases hc : m.cap with
      | none => simp [hm, hc]
      | some limit => simpa [hm, hc, hsupply, clamp_val hlt'] using hlim limit.val (by simp [hc])
  · have hlt : info.totalSupply.val + amount.val < 2 ^ 128 := hsupply ▸ hallows.2.1
    have := token_setSupply (s := raise s recipient amount.val) hinfo hlt
    rw [this, raise, token_give _ _ (hroom hallows.2.1), ← hsupply]
    rfl

theorem updateMinter_refines (h : Inv s) (newMinter : Option String) :
    Refines deps s ctx (updateMinter (P := P) (T := T) deps s ctx newMinter) (∀ a ∈ newMinter, deps.api.Valid a)
      (.setMinter newMinter) := by
  obtain ⟨info, hinfo⟩ := h.info
  have hmint := token_mint hinfo
  have hsender : (token s).Allows (rules deps) ⟨ctx.block, ctx.sender, .setMinter newMinter⟩ ↔
      ∃ m, info.mint = some m ∧ m.minter = ctx.sender := by
    simp only [Token.Allows, hmint, Option.map_eq_some_iff, Prod.mk.injEq]
    constructor
    · intro hok
      rcases hok with ⟨_, m, hm, hminter, _⟩
      exact ⟨m, hm, hminter⟩
    · intro hspec
      rcases hspec with ⟨m, hm, hminter⟩
      exact ⟨_, m, hm, hminter, rfl⟩
  refine .of_iff
    { s with tokenInfo := some { info with mint := info.mint.bind fun m => newMinter.map fun a => ⟨a, m.cap⟩ } }
    (fun s' => ?_) fun hallows => ⟨?_, ⟨_, rfl⟩, ⟨h.paired.mirror, h.paired.selfless⟩⟩
  · simp only [updateMinter, Exec.bind_ok, Exec.ensure_ok, decide_eq_true_eq, Exec.okOr_ok, hinfo, Option.some.injEq,
      exists_and_left, exists_const, exists_eq_left', hsender]
    cases newMinter with
    | none =>
      simp only [Except.ok.injEq, Prod.mk.injEq, exists_eq_left']
      constructor
      · intro hok
        rcases hok with ⟨_, m, hm, hminter, hs, _⟩
        exact ⟨by simp, ⟨m, hm, hminter⟩, by simpa [hm] using hs⟩
      · intro hspec
        rcases hspec with ⟨_, ⟨m, hm, hminter⟩, hs⟩
        exact ⟨_, m, hm, hminter, by simpa [hm] using hs, rfl⟩
    | some new =>
      simp only [Exec.bind_ok, Api.validate_ok, Except.ok.injEq, Prod.mk.injEq, and_assoc, exists_and_left, exists_eq_left,
        exists_eq_left']
      constructor
      · intro hok
        rcases hok with ⟨_, m, hm, hminter, hvalid, hs, _⟩
        exact ⟨by simpa using hvalid, ⟨m, hm, hminter⟩, by simpa [hm] using hs⟩
      · intro hspec
        rcases hspec with ⟨hvalid, ⟨m, hm, hminter⟩, hs⟩
        exact ⟨_, m, hm, hminter, hvalid new rfl, by simpa [hm] using hs, rfl⟩
  · have hm : ((info.mint.bind fun m => newMinter.map fun a => (⟨a, m.cap⟩ : MinterData)).map
        fun m => (m.minter, m.cap.map Uint128.val)) = (token s).mint.bind fun m => newMinter.map fun a => (a, m.2) := by
      rw [hmint]
      cases info.mint <;> cases newMinter <;> rfl
    simp only [Token.act, ← hm]
    simp [token, hinfo]

theorem increaseFn_ok {expires : Option X} {current : Option (AllowanceResponse X)} {a : AllowanceResponse X} :
    increaseFn deps ctx.block amount expires current = .ok a ↔
      ((current.map fun g => g.allowance.val).getD 0 + amount.val < 2 ^ 128 ∧
        ∀ x ∈ expires, deps.expirations.isExpired x ctx.block = false) ∧
      ⟨clamp ((current.map fun g => g.allowance.val).getD 0 + amount.val),
        expires.getD ((current.map AllowanceResponse.expires).getD deps.expirations.default)⟩ = a := by
  have hval : (current.getD ⟨Uint128.zero, deps.expirations.default⟩).allowance.val =
      (current.map fun g => g.allowance.val).getD 0 := by cases current <;> rfl
  have hexp : (current.getD ⟨Uint128.zero, deps.expirations.default⟩).expires =
      (current.map AllowanceResponse.expires).getD deps.expirations.default := by cases current <;> rfl
  simp only [increaseFn, Exec.bind_ok, Uint128.add_ok, hval, hexp]
  generalize (current.map fun g => g.allowance.val).getD 0 = n at *
  cases expires with
  | none =>
    constructor
    · intro hok
      rcases hok with ⟨v, hv, ha⟩
      have hlt : n + amount.val < 2 ^ 128 := hv ▸ v.isLt
      obtain rfl := (eq_clamp hlt).mp hv
      exact ⟨⟨hlt, by simp⟩, by simpa using ha⟩
    · intro hspec
      rcases hspec with ⟨⟨hlt, _⟩, ha⟩
      exact ⟨_, clamp_val hlt, by simpa using ha⟩
  | some x =>
    simp only [Exec.ite_ok, Exec.fail_ne_ok, and_false, or_false, Except.ok.injEq, Bool.not_eq_true']
    constructor
    · intro hok
      rcases hok with ⟨v, hv, hx, ha⟩
      have hlt : n + amount.val < 2 ^ 128 := hv ▸ v.isLt
      obtain rfl := (eq_clamp hlt).mp hv
      exact ⟨⟨hlt, by simpa using hx⟩, by simpa using ha⟩
    · intro hspec
      rcases hspec with ⟨⟨hlt, hx⟩, ha⟩
      exact ⟨_, clamp_val hlt, hx x rfl, by simpa using ha⟩

theorem increaseAllowance_refines (h : Inv s) (spender : String) (expires : Option X) :
    Refines deps s ctx (increaseAllowance (P := P) (T := T) deps s ctx spender amount expires) (deps.api.Valid spender)
      (.allow spender amount.val expires) := by
  have hallowed := allowed_eq s ctx.sender spender
  have hgrant : ∀ d, (((token s).grants ctx.sender spender).getD ⟨0, d⟩).expires =
      ((s.allowances.lookup (toLex (ctx.sender, spender))).map AllowanceResponse.expires).getD d := fun d => by
    rw [token_grants]
    cases s.allowances.lookup (toLex (ctx.sender, spender)) <;> rfl
  have hamount : ∀ d, (((token s).grants ctx.sender spender).getD ⟨0, d⟩).amount = (token s).allowed ctx.sender spender :=
    fun d => by
      rw [hallowed, token_grants]
      cases s.allowances.lookup (toLex (ctx.sender, spender)) <;> rfl
  refine .of_iff (setGrant s ctx.sender spender ⟨clamp ((token s).allowed ctx.sender spender + amount.val),
    expires.getD (((s.allowances.lookup (toLex (ctx.sender, spender))).map AllowanceResponse.expires).getD
      deps.expirations.default)⟩) (fun s' => ?_) fun hallows => ⟨?_, h.info, paired_setGrant h.paired (Ne.symm hallows.1) _⟩
  · simp only [increaseAllowance, Exec.bind_ok, Exec.ensure_ok, decide_eq_true_eq, Api.validate_ok, Map.update_ok,
      h.paired.mirror ctx.sender spender, increaseFn_ok, ← hallowed, Except.ok.injEq, Prod.mk.injEq, exists_and_left,
      exists_const, exists_eq_left', exists_eq_left, and_assoc]
    constructor
    · intro hok
      rcases hok with ⟨hvalid, hne, hlt, hx, _, _, hs, _⟩
      exact ⟨hvalid, ⟨hne, hlt, hx⟩, hs⟩
    · intro hspec
      rcases hspec with ⟨hvalid, ⟨hne, hlt, hx⟩, hs⟩
      exact ⟨hvalid, hne, hlt, hx, hlt, hx, hs, _, rfl⟩
  · rw [token_setGrant]
    simp only [Token.act, clamp_val hallows.2.1, hgrant, hamount]
    rfl

theorem decreaseFn_ok {expires : Option X} {g a : AllowanceResponse X} (hlt : amount.val < g.allowance.val) :
    decreaseFn deps ctx.block amount expires g = .ok a ↔
      (∀ x ∈ expires, deps.expirations.isExpired x ctx.block = false) ∧
        ⟨clamp (g.allowance.val - amount.val), expires.getD g.expires⟩ = a := by
  have hrest : g.allowance.val - amount.val < 2 ^ 128 := Nat.lt_of_le_of_lt (Nat.sub_le _ _) g.allowance.isLt
  simp only [decreaseFn, Exec.bind_ok, Uint128.checkedSub_ok, eq_clamp hrest]
  cases expires with
  | none => simp [hlt.le]
  | some x => simp [hlt.le, Exec.ite_ok]

theorem decreaseAllowance_refines (h : Inv s) (spender : String) (expires : Option X) :
    Refines deps s ctx (decreaseAllowance (P := P) (T := T) deps s ctx spender amount expires) True
      (.disallow spender amount.val expires) := by
  have hallows : (token s).Allows (rules deps) ⟨ctx.block, ctx.sender, .disallow spender amount.val expires⟩ ↔
      spender ≠ ctx.sender ∧ ∃ g, s.allowances.lookup (toLex (ctx.sender, spender)) = some g ∧
        (amount.val < g.allowance.val → ∀ x ∈ expires, deps.expirations.isExpired x ctx.block = false) := by
    simp [Token.Allows, token_grants, rules]
  have hact : (token s).act (rules deps) ⟨ctx.block, ctx.sender, .disallow spender amount.val expires⟩ =
      (token s).setGrant ctx.sender spender ((s.allowances.lookup (toLex (ctx.sender, spender))).bind fun g =>
        if amount.val < g.allowance.val then some ⟨g.allowance.val - amount.val, expires.getD g.expires⟩ else none) := by
    simp only [Token.act, token_grants, Option.bind_map]
    rfl
  rw [decreaseAllowance]
  simp only [Map.load]
  cases hg : s.allowances.lookup (toLex (ctx.sender, spender)) with
  | none =>
    rw [hg] at hallows
    refine .of_iff s (fun s' => ?_) fun hc => absurd (hallows.mp hc) (by simp)
    simp [hallows, Exec.okOr, FromStd.std]
  | some g =>
    simp only [hg, Option.some.injEq, exists_eq_left'] at hallows
    rw [hg, Option.bind_some] at hact
    by_cases hlt : amount.val < g.allowance.val
    · have hrest : g.allowance.val - amount.val < 2 ^ 128 := Nat.lt_of_le_of_lt (Nat.sub_le _ _) g.allowance.isLt
      refine .of_iff (setGrant s ctx.sender spender ⟨clamp (g.allowance.val - amount.val), expires.getD g.expires⟩)
        (fun s' => ?_) fun hc => ⟨?_, h.info, paired_setGrant h.paired (Ne.symm (hallows.mp hc).1) _⟩
      · simp only [hallows, Exec.bind_ok, Exec.ensure_ok, decide_eq_true_eq, Exec.okOr_ok, Option.some.injEq,
          if_pos hlt, decreaseFn_ok hlt, Except.ok.injEq, Prod.mk.injEq, exists_and_left, exists_const, exists_eq',
          exists_eq_left', and_assoc, and_true, true_and, forall_prop_of_true hlt]
        rfl
      · rw [hact, if_pos hlt, token_setGrant, clamp_val hrest]
    · refine .of_iff (dropGrant s ctx.sender spender) (fun s' => ?_) fun hc =>
        ⟨?_, h.info, paired_dropGrant h.paired _ _⟩
      · simp only [hallows, Exec.bind_ok, Exec.ensure_ok, decide_eq_true_eq, Exec.okOr_ok, Option.some.injEq,
          if_neg hlt, Except.ok.injEq, Prod.mk.injEq, exists_and_left, exists_const, exists_eq', exists_eq_left', and_assoc,
          and_true, true_and]
        exact and_congr_right fun _ => (and_iff_right fun hc => absurd hc hlt).symm
      · rw [hact, if_neg hlt, token_dropGrant]

theorem paired_spendGrant {s : Cw20Base X} (h : Paired s) (owner spender : Addr) (n : ℕ) :
    Paired (spendGrant s owner spender n) := by
  rw [spendGrant]
  cases hg : s.allowances.lookup (toLex (owner, spender)) with
  | none => exact h
  | some g =>
    refine paired_setGrant h (fun hne => ?_) _
    rw [hne, h.selfless] at hg
    cases hg

theorem sound_spendGrant {s : Cw20Base X} (h : (token s).Sound) (owner spender : Addr) (n : ℕ) :
    (token (spendGrant s owner spender n)).Sound := by
  rw [token_spendGrant]
  exact h

theorem spendGrant_frame (s : Cw20Base X) (owner spender : Addr) (n : ℕ) :
    (spendGrant s owner spender n).balances = s.balances ∧ (spendGrant s owner spender n).tokenInfo = s.tokenInfo := by
  rw [spendGrant]
  split <;> exact ⟨rfl, rfl⟩

theorem bal_spendGrant (s : Cw20Base X) (owner spender : Addr) (n : ℕ) (a : Addr) :
    bal (spendGrant s owner spender n).balances a = bal s.balances a := by
  rw [(spendGrant_frame s owner spender n).1]

theorem sendFrom_refines (h : Inv s) (owner contract : String) (msg : Binary) :
    Refines deps s ctx (sendFrom (P := P) (T := T) deps s ctx owner contract amount msg)
      (deps.api.Valid contract ∧ deps.api.Valid owner ∧ deps.Writes ⟨ctx.sender, amount, msg⟩)
      (.sendFrom owner contract amount.val) := by
  have hinfo := (spendGrant_frame s owner ctx.sender amount.val).2
  have hbal := bal_spendGrant s owner ctx.sender amount.val owner
  have hsound := sound_spendGrant h.sound owner ctx.sender amount.val
  have hpaired := paired_spendGrant h.paired owner ctx.sender amount.val
  refine .of_iff (raise (lower (spendGrant s owner ctx.sender amount.val) owner amount.val) contract amount.val)
    (fun s' => ?_) fun hallows => ⟨?_, hinfo ▸ h.info, hpaired.mirror, hpaired.selfless⟩
  · simp only [sendFrom, Exec.bind_ok, Api.validate_ok, deductAllowance_ok h.paired.mirror, lower_ok, raise_ok,
      intoCosmosMsg_ok, Except.ok.injEq, Prod.mk.injEq, exists_and_left, exists_eq_left', exists_eq_left, and_assoc]
    constructor
    · intro hok
      rcases hok with ⟨hcontract, howner, hcovers, hle, _, _, _, ⟨bin, hbin, _⟩, hs, _⟩
      exact ⟨hcontract, howner, ⟨bin, hbin⟩, ⟨hcovers, hle.trans_eq hbal⟩, hs⟩
    · intro hspec
      rcases hspec with ⟨hcontract, howner, ⟨bin, hbin⟩, ⟨hcovers, hle⟩, hs⟩
      have hle' : amount.val ≤ bal (spendGrant s owner ctx.sender amount.val).balances owner := hle.trans_eq hbal.symm
      exact ⟨hcontract, howner, hcovers, hle', room hsound hle', _, _, ⟨bin, hbin, rfl⟩, hs, rfl⟩
  · rw [token_pay hsound (hallows.2.trans_eq hbal.symm), token_spendGrant]
    rfl

theorem burnFrom_refines (h : Inv s) (owner : String) :
    Refines deps s ctx (burnFrom (P := P) (T := T) deps s ctx owner amount) (deps.api.Valid owner)
      (.burnFrom owner amount.val) := by
  obtain ⟨info, hinfo⟩ := h.info
  have hsupply := token_supply hinfo
  have hlt : info.totalSupply.val - amount.val < 2 ^ 128 := Nat.lt_of_le_of_lt (Nat.sub_le _ _) info.totalSupply.isLt
  have hkeep := (spendGrant_frame s owner ctx.sender amount.val).2
  have hbal := bal_spendGrant s owner ctx.sender amount.val owner
  have hpaired := paired_spendGrant h.paired owner ctx.sender amount.val
  refine .of_iff (setSupply (lower (spendGrant s owner ctx.sender amount.val) owner amount.val) info
    (info.totalSupply.val - amount.val)) (fun s' => ?_) fun hallows =>
      ⟨?_, ⟨_, rfl⟩, ⟨hpaired.mirror, hpaired.selfless⟩⟩
  · simp only [burnFrom, Exec.bind_ok, Api.validate_ok, deductAllowance_ok h.paired.mirror, lower_ok, Item.update_ok,
      hkeep, hinfo, Option.some.injEq, Uint128.checkedSub_ok, eq_clamp hlt, Except.ok.injEq, Prod.mk.injEq,
      exists_and_left, exists_eq', exists_eq_left', exists_eq_left, and_assoc, and_true]
    constructor
    · intro hok
      rcases hok with ⟨howner, hcovers, hle, _, hs⟩
      exact ⟨howner, ⟨hcovers, hle.trans_eq hbal⟩, hs⟩
    · intro hspec
      rcases hspec with ⟨howner, ⟨hcovers, hle⟩, hs⟩
      exact ⟨howner, hcovers, hle.trans_eq hbal.symm, hsupply ▸ hle.trans (h.sound.le owner), hs⟩
  · have := token_setSupply (s := lower (spendGrant s owner ctx.sender amount.val) owner amount.val) (hkeep.trans hinfo) hlt
    rw [this, lower, token_take, token_spendGrant, ← hsupply]
    rfl

/-- An owner needs no allowance for her own account. -/
theorem spend_unless_owner {s' : Cw20Base X} (h : Inv s) {owner : Addr} :
    (if ctx.sender ≠ owner then deductAllowance deps s owner ctx.sender ctx.block amount else Except.ok s) = .ok s' ↔
      (ctx.sender = owner ∨ (token s).Covers (rules deps) ctx.block owner ctx.sender amount.val) ∧
        (if ctx.sender = owner then s else spendGrant s owner ctx.sender amount.val) = s' := by
  by_cases hsender : ctx.sender = owner
  · simp [hsender]
  · simp [hsender, deductAllowance_ok h.paired.mirror]

theorem transferFrom_refines (h : Inv s) (owner recipient : String) :
    Refines deps s ctx (transferFrom (P := P) (T := T) deps s ctx owner recipient amount)
      (deps.api.Valid recipient ∧ deps.api.Valid owner) (.payFrom owner recipient amount.val) := by
  have hallows : (token s).Allows (rules deps) ⟨ctx.block, ctx.sender, .payFrom owner recipient amount.val⟩ ↔
      recipient = owner ∨ (ctx.sender = owner ∨ (token s).Covers (rules deps) ctx.block owner ctx.sender amount.val) ∧
        amount.val ≤ bal s.balances owner := Iff.rfl
  by_cases hself : recipient = owner
  · -- nothing is moved, nothing is asked
    refine .of_iff s (fun s' => ?_) fun _ => ⟨by simp [Token.act, hself], h.info, h.paired⟩
    rw [hallows]
    simp [transferFrom, hself]
  · -- `mid` is the storage between the two updates of balances and the allowance
    obtain ⟨mid, hmid⟩ : ∃ mid, (if ctx.sender = owner then s else spendGrant s owner ctx.sender amount.val) = mid :=
      ⟨_, rfl⟩
    have hbal : bal mid.balances owner = bal s.balances owner := by
      rw [← hmid]
      split
      · rfl
      · exact bal_spendGrant ..
    have hinfo : ∃ info, mid.tokenInfo = some info := by
      rw [← hmid]
      split
      · exact h.info
      · exact (spendGrant_frame s owner ctx.sender amount.val).2 ▸ h.info
    have hpaired : Paired mid := by
      rw [← hmid]
      split
      · exact h.paired
      · exact paired_spendGrant h.paired _ _ _
    have hsound : (token mid).Sound := by
      rw [← hmid]
      split
      · exact h.sound
      · exact sound_spendGrant h.sound _ _ _
    have htoken : token mid = if ctx.sender = owner then token s else (token s).spend owner ctx.sender amount.val := by
      rw [← hmid]
      split
      · rfl
      · exact token_spendGrant ..
    refine .of_iff (raise (lower mid owner amount.val) recipient amount.val) (fun s' => ?_) fun hc =>
      ⟨?_, hinfo, hpaired.mirror, hpaired.selfless⟩
    · simp only [transferFrom, hallows, Exec.bind_ok, Api.validate_ok, and_assoc, exists_and_left, exists_eq_left,
        if_neg hself, spend_unless_owner h, hmid, lower_ok, raise_ok, Except.ok.injEq, Prod.mk.injEq, exists_eq_left']
      constructor
      · intro hok
        rcases hok with ⟨hvalid, howner, hcovers, hle, _, hs, _⟩
        exact ⟨hvalid, howner, Or.inr ⟨hcovers, hle.trans_eq hbal⟩, hs⟩
      · intro hspec
        rcases hspec with ⟨hvalid, howner, hmay, hs⟩
        obtain ⟨hcovers, hle⟩ := hmay.resolve_left hself
        have hle' : amount.val ≤ bal mid.balances owner := hle.trans_eq hbal.symm
        exact ⟨hvalid, howner, hcovers, hle', room hsound hle', hs, _, rfl⟩
    · have hle := ((hallows.mp hc).resolve_left hself).2
      rw [token_pay hsound (hle.trans_eq hbal.symm), htoken]
      simp only [Token.act, if_neg hself]
      split <;> rfl

end Messages

end Sylvia.Cw20
