/-
  Sylvia.Cw20.Invariant — every state of the token contract on chain is a token's, and every
  run of messages is a run of the token.

  A message about the marketing data, and a migration, leave the token as it was. The map of
  allowances by spender is written by a migration from before 0.14.0: from a storage whose
  second map has nothing the first lacks, it makes the two mirror images.

  Proved:
  - `Reach.inv`: `Inv` holds of every state on chain.
  - `refinement`: there, a message about tokens returns exactly when its addresses are valid
    and the token allows the act, and it does the act.
  - `run_simulates`: the messages of a run that returned are a run of the token.
  - `conservation`: the queries answer, the balances stored add up to the total supply, and
    that stays within the minter's cap.
  - `migrate_mirror`: the migration makes the maps mirror images, and they stay so.
-/
import Sylvia.Cw20.Instantiate
import Sylvia.Cw20.Refinement

namespace Sylvia.Cw20

open Sylvia.Base Sylvia.CwStd

variable {X B T : Type} {P : Payloads}

/-! ## A new token -/

theorem opened_inv {deps : Deps X B} {data : InstantiateMsgData} (h : Openable deps data) : Inv (opened (X := X) data) := by
  refine ⟨⟨_, rfl⟩, ⟨fun _ _ => rfl, fun _ => rfl⟩, opened_sound h, ?_⟩
  intro m c hm
  obtain ⟨md, hmd, heq⟩ := Option.map_eq_some_iff.mp hm
  obtain ⟨r, hr, rfl⟩ := Option.map_eq_some_iff.mp hmd
  obtain ⟨limit, hlimit, rfl⟩ := Option.map_eq_some_iff.mp (Prod.mk.inj heq).2
  exact (clamp_val h.fits).trans_le (h.capped r hr limit hlimit)

/-! ## Messages that are not about tokens -/

/-- Nothing but the marketing data is changed. -/
def Keeps (s s' : Cw20Base X) : Prop :=
  ∃ info logo, s' = { s with marketingInfo := info, logo := logo }

theorem updateMarketing_keeps {deps : Deps X B} {s s' : Cw20Base X} {ctx : ExecCtx B}
    {project description marketing : Option String} {r : Response P.withWasm T}
    (h : updateMarketing deps s ctx project description marketing = .ok (s', r)) : Keeps s s' := by
  simp only [updateMarketing, Exec.bind_ok, Except.ok.injEq, Prod.mk.injEq] at h
  obtain ⟨info, -, owner, -, _, -, addr, -, rfl, -⟩ := h
  exact ⟨_, s.logo, rfl⟩

theorem uploadLogo_keeps {s s' : Cw20Base X} {ctx : ExecCtx B} {logo : Logo} {r : Response P.withWasm T}
    (h : uploadLogo s ctx logo = .ok (s', r)) : Keeps s s' := by
  simp only [uploadLogo, Exec.bind_ok, Except.ok.injEq, Prod.mk.injEq] at h
  obtain ⟨info, -, _, -, owner, -, _, -, rfl, -⟩ := h
  exact ⟨_, _, rfl⟩

theorem Keeps.inv {s s' : Cw20Base X} (hs : Keeps s s') (h : Inv s) : Inv s' ∧ token s' = token s := by
  obtain ⟨info, logo, rfl⟩ := hs
  exact ⟨⟨h.info, ⟨h.paired.mirror, h.paired.selfless⟩, h.sound, h.capped⟩, rfl⟩

/-! ## Migration -/

/-- The allowances by spender and owner. -/
def reversed (s : Cw20Base X) : Map Pair (AllowanceResponse X) :=
  (s.allowances.entries.map fun e => (toLex ((ofLex e.1).2, (ofLex e.1).1), e.2)).foldl (fun m e => m.save e.1 e.2)
    s.allowancesSpender

theorem lookup_reversed (s : Cw20Base X) (owner spender : Addr) :
    (reversed s).lookup (toLex (spender, owner)) =
      (s.allowances.lookup (toLex (owner, spender))).or (s.allowancesSpender.lookup (toLex (spender, owner))) := by
  have hn : ((s.allowances.entries.map fun e => (toLex ((ofLex e.1).2, (ofLex e.1).1), e.2)).map Prod.fst).Nodup := by
    rw [List.map_map]
    refine List.pairwise_map.mpr (s.allowances.sorted.imp fun {a b} hab heq => ?_)
    obtain ⟨h1, h2⟩ := pair_eq.mp heq
    exact ne_of_lt hab (congrArg toLex (Prod.ext h2 h1 : ofLex a.1 = ofLex b.1))
  have hkey : ∀ e : Pair × AllowanceResponse X,
      decide (toLex ((ofLex e.1).2, (ofLex e.1).1) = toLex (spender, owner)) = decide (e.1 = toLex (owner, spender)) := by
    intro e
    refine decide_eq_decide.mpr ?_
    rw [pair_eq, ← pair_eq.trans and_comm]
    rfl
  rw [reversed, Store.lookup_foldl_save _ _ _ hn, List.find?_map, Option.map_map]
  simp only [Function.comp_def, hkey]
  rfl

theorem migrate_ok {s s' : Cw20Base X} {older : Exec ContractError Bool} {r : Response P.withWasm T}
    (h : migrate s older = .ok (s', r)) : s' = s ∨ older = .ok true ∧ s' = { s with allowancesSpender := reversed s } := by
  simp only [migrate, Exec.bind_ok] at h
  obtain ⟨b, hb, h⟩ := h
  cases b with
  | false =>
    simp only [Bool.false_eq_true, if_false, Except.ok.injEq, Prod.mk.injEq] at h
    exact Or.inl h.1.symm
  | true =>
    simp only [if_true, Except.ok.injEq, Prod.mk.injEq] at h
    refine Or.inr ⟨hb, ?_⟩
    rw [← h.1, reversed, List.foldl_map]

/-- A migration from before 0.14.0 makes the two maps mirror images. -/
theorem mirror_reversed {s : Cw20Base X}
    (hold : ∀ owner spender a, s.allowancesSpender.lookup (toLex (spender, owner)) = some a →
      s.allowances.lookup (toLex (owner, spender)) ≠ none) : Mirror { s with allowancesSpender := reversed s } := by
  intro owner spender
  rw [lookup_reversed]
  cases hg : s.allowances.lookup (toLex (owner, spender)) with
  | some a => rfl
  | none =>
    rw [Option.none_or]
    cases hs : s.allowancesSpender.lookup (toLex (spender, owner)) with
    | none => rfl
    | some a => exact absurd hg (hold owner spender a hs)

theorem migrate_inv {s s' : Cw20Base X} {older : Exec ContractError Bool} {r : Response P.withWasm T} (hi : Inv s)
    (h : migrate s older = .ok (s', r)) : Inv s' ∧ token s' = token s := by
  rcases migrate_ok h with rfl | ⟨-, rfl⟩
  · exact ⟨hi, rfl⟩
  · refine ⟨⟨hi.info, ⟨mirror_reversed fun owner spender a hs => ?_, hi.paired.selfless⟩, hi.sound, hi.capped⟩, rfl⟩
    rw [← hi.paired.mirror, hs]
    exact Option.some_ne_none a

/-! ## Every message -/

theorem execute_refines {deps : Deps X B} {s : Cw20Base X} (h : Inv s) (ctx : ExecCtx B) (msg : Msg X) {act : Act Addr X}
    (hact : msg.act = some act) :
    Refines deps s ctx (execute P T deps s ctx msg) (msg.Valid deps ctx.sender) act := by
  cases msg with
  | transfer recipient amount => cases hact; exact transfer_refines h recipient
  | burn amount => cases hact; exact burn_refines h
  | send contract amount msg => cases hact; exact send_refines h contract msg
  | increaseAllowance spender amount expires => cases hact; exact increaseAllowance_refines h spender expires
  | decreaseAllowance spender amount expires => cases hact; exact decreaseAllowance_refines h spender expires
  | transferFrom owner recipient amount => cases hact; exact transferFrom_refines h owner recipient
  | sendFrom owner contract amount msg => cases hact; exact sendFrom_refines h owner contract msg
  | burnFrom owner amount => cases hact; exact burnFrom_refines h owner
  | mint recipient amount => cases hact; exact mint_refines h recipient
  | updateMinter newMinter => cases hact; exact updateMinter_refines h newMinter
  | updateMarketing | uploadLogo => cases hact

/-- The act of a message that is about tokens, with who asks for it and when. -/
def Ev.signed : Ev X B → Option (Signed Addr X B)
  | .exec ctx msg => msg.act.map fun act => ⟨ctx.block, ctx.sender, act⟩
  | .migrate _ => none

/-- What a message that returned did to the token. -/
structure Done (deps : Deps X B) (s s' : Cw20Base X) (e : Ev X B) : Prop where
  inv : Inv s'
  acts : ∀ a ∈ e.signed, (token s).Allows (rules deps) a ∧ token s' = (token s).act (rules deps) a
  keeps : e.signed = none → token s' = token s

theorem handle_done {deps : Deps X B} {s s' : Cw20Base X} {e : Ev X B} {r : Response P.withWasm T} (h : Inv s)
    (hok : handle P T deps s e = .ok (s', r)) : Done deps s s' e := by
  have hkept : Inv s' ∧ token s' = token s → e.signed = none → Done deps s s' e := by
    intro ⟨hinv, htoken⟩ hnone
    exact ⟨hinv, fun a ha => by simp [hnone] at ha, fun _ => htoken⟩
  cases e with
  | migrate older => exact hkept (migrate_inv h hok) rfl
  | exec ctx msg =>
    cases hact : msg.act with
    | some act =>
      have href : Refines deps s ctx (execute P T deps s ctx msg) (msg.Valid deps ctx.sender) act :=
        execute_refines h ctx msg hact
      obtain ⟨-, hallows⟩ := href.returns.mp ⟨_, hok⟩
      have htoken := href.token_eq s' r hok
      refine ⟨⟨href.info s' r hok, href.paired s' r hok, ?_, ?_⟩, ?_, fun hnone => by simp [Ev.signed, hact] at hnone⟩
      · rw [htoken]
        exact Token.sound_step hallows h.sound
      · rw [htoken]
        exact Token.capped_step hallows h.sound h.capped
      · intro a ha
        simp only [Ev.signed, hact, Option.map_some, Option.mem_def, Option.some.injEq] at ha
        subst ha
        exact ⟨hallows, htoken⟩
    | none =>
      refine hkept ?_ (by simp [Ev.signed, hact])
      cases msg with
      | updateMarketing => exact (updateMarketing_keeps hok).inv h
      | uploadLogo => exact (uploadLogo_keeps hok).inv h
      | _ => cases hact

/-- `Inv` holds of every state on chain. -/
theorem Reach.inv {deps : Deps X B} {s : Cw20Base X} (h : Reach P T deps s) : Inv s :=
  reach_induct
    (fun hok => by
      obtain ⟨hopen, rfl⟩ := instantiate_ok.mp ⟨_, hok⟩
      exact opened_inv hopen)
    (fun hi hok => (handle_done hi hok).inv) h

/-! ## A token -/

def plainDeps : Deps (Option ℕ) ℕ := ⟨plainApi, byHeight, fun msg => .ok msg.msg⟩

def coinData : InstantiateMsgData where
  name := "Auto Gen"
  symbol := "AUTO"
  decimals := 3
  initialBalances := [⟨"addr0001", ⟨1000, by decide⟩⟩, ⟨"addr0002", ⟨500, by decide⟩⟩]
  mint := some ⟨"minter", some ⟨2000, by decide⟩⟩
  marketing := some ⟨some "Project", none, some "marketing", some (.url "url")⟩

theorem plain_valid {a : String} (h : 3 ≤ a.utf8ByteSize) : plainDeps.api.Valid a := ⟨a, if_neg (not_lt.mpr h)⟩

theorem coin_openable : Openable plainDeps coinData := by
  refine ⟨⟨by decide, by decide, by decide, by decide⟩, ?_, by decide, ?_, ?_, ?_, ?_⟩
  · intro row hrow
    exact plain_valid (by revert row; decide)
  · intro m hm limit hlimit
    cases hm
    cases hlimit
    decide
  · intro m hm
    cases hm
    exact plain_valid (by decide)
  · intro m hm logo hlogo
    cases hm
    cases hlogo
    exact trivial
  · intro m hm addr haddr
    cases hm
    cases haddr
    exact plain_valid (by decide)

theorem coin_reach : Reach bare Unit plainDeps (opened coinData) :=
  .instantiate (instantiate_ok.mpr ⟨coin_openable, rfl⟩).choose_spec

/-! ## The contract is the token -/

/-- On chain, a message about tokens returns exactly when its addresses are valid and the token
    allows the act it asks for, and it leaves the token after that act. -/
theorem refinement {deps : Deps X B} {s : Cw20Base X} (h : Reach P T deps s) (ctx : ExecCtx B) (msg : Msg X)
    {act : Act Addr X} (hact : msg.act = some act) :
    ((execute P T deps s ctx msg).Returns ↔
      msg.Valid deps ctx.sender ∧ (token s).Allows (rules deps) ⟨ctx.block, ctx.sender, act⟩) ∧
    ∀ s' r, execute P T deps s ctx msg = .ok (s', r) →
      token s' = (token s).act (rules deps) ⟨ctx.block, ctx.sender, act⟩ :=
  have href := execute_refines h.inv ctx msg hact
  ⟨href.returns, href.token_eq⟩

/-- Allowed and done: 300 of 1000. -/
theorem refinement_transfer :
    (execute bare Unit plainDeps (opened coinData) ⟨7, "addr0001"⟩ (.transfer "addr0003" ⟨300, by decide⟩)).Returns :=
  (refinement coin_reach ⟨7, "addr0001"⟩ (.transfer "addr0003" ⟨300, by decide⟩) rfl).1.mpr
    ⟨plain_valid (by decide), by decide, by decide⟩

/-- The acts of the messages that returned. -/
def done (P : Payloads) (T : Type) (deps : Deps X B) : Cw20Base X → List (Ev X B) → List (Signed Addr X B)
  | _, [] => []
  | s, e :: es =>
    (match handle P T deps s e with
      | .ok _ => e.signed.toList
      | .error _ => []) ++ done P T deps (step P T deps s e) es

theorem run_of_inv {deps : Deps X B} {s : Cw20Base X} (h : Inv s) (es : List (Ev X B)) :
    Token.Run (rules deps) (token s) (done P T deps s es) (token (run P T deps s es)) := by
  induction es generalizing s with
  | nil => exact .nil _
  | cons e es ih =>
    rw [done]
    cases hok : handle P T deps s e with
    | error =>
      have hs : step P T deps s e = s := by rw [step, hok]
      have hrun : run P T deps s (e :: es) = run P T deps s es := congrArg (run P T deps · es) hs
      rw [hrun, hs]
      exact ih h
    | ok sr =>
      have hs : step P T deps s e = sr.1 := step_ok (r := sr.2) hok
      have hdone : Done deps s sr.1 e := handle_done (r := sr.2) h hok
      have hrest := ih hdone.inv
      have hrun : run P T deps s (e :: es) = run P T deps sr.1 es := congrArg (run P T deps · es) hs
      rw [hrun, hs]
      cases he : e.signed with
      | none =>
        rw [hdone.keeps he] at hrest
        exact hrest
      | some a =>
        obtain ⟨hallows, htoken⟩ := hdone.acts a he
        rw [htoken] at hrest
        exact .cons hallows hrest

/-- Messages in any order, from any senders: those that returned are a run of the token. -/
theorem run_simulates {deps : Deps X B} {s : Cw20Base X} (h : Reach P T deps s) (es : List (Ev X B)) :
    Token.Run (rules deps) (token s) (done P T deps s es) (token (run P T deps s es)) :=
  run_of_inv h.inv es

/-- An allowance given, and a part of it spent. -/
def coinRun : List (Ev (Option ℕ) ℕ) :=
  [.exec ⟨1, "addr0001"⟩ (.increaseAllowance "addr0002" ⟨100, by decide⟩ (some (some 5))),
    .exec ⟨4, "addr0002"⟩ (.transferFrom "addr0001" "addr0003" ⟨40, by decide⟩)]

theorem run_simulates_coin :
    Token.Run (rules plainDeps) (token (opened coinData)) (done bare Unit plainDeps (opened coinData) coinRun)
      (token (run bare Unit plainDeps (opened coinData) coinRun)) :=
  run_simulates coin_reach coinRun

/-! ## The supply -/

/-- On chain the queries answer; the supply they answer is what the accounts hold, within the minter's cap. -/
theorem conservation {deps : Deps X B} {s : Cw20Base X} (h : Reach P T deps s) :
    ∃ info mint, tokenInfo s = .ok info ∧ minter s = .ok mint ∧
      s.balances.sum Uint128.val = info.totalSupply.val ∧
      ∀ cap ∈ mint.bind MinterData.cap, info.totalSupply.val ≤ cap.val := by
  obtain ⟨info, hinfo⟩ := h.inv.info
  have hsupply := token_supply hinfo
  have hload : s.tokenInfo.load (E := ContractError) = .ok info := by simp [Item.load, hinfo]
  refine ⟨_, info.mint, by rw [tokenInfo, hload]; rfl, by rw [minter, hload]; rfl,
    (sound_iff.mp h.inv.sound).trans hsupply, fun cap hcap => ?_⟩
  obtain ⟨m, hm, hcap⟩ := Option.bind_eq_some_iff.mp hcap
  have := h.inv.capped m.minter cap.val (by rw [token_mint hinfo, hm, Option.map_some, hcap, Option.map_some])
  rwa [hsupply] at this

theorem conservation_coin :
    ∃ info mint, tokenInfo (opened (X := Option ℕ) coinData) = .ok info ∧
      minter (opened (X := Option ℕ) coinData) = .ok mint ∧
      (opened (X := Option ℕ) coinData).balances.sum Uint128.val = info.totalSupply.val ∧
      ∀ cap ∈ mint.bind MinterData.cap, info.totalSupply.val ≤ cap.val :=
  conservation coin_reach

/-! ## What messages leave alone -/

/-- What no message about tokens changes. -/
def TokenInfo.naming (info : TokenInfo) : String × String × UInt8 := (info.name, info.symbol, info.decimals)

/-- The marketing data is as it was. -/
def SameMarketing (s s' : Cw20Base X) : Prop := s'.marketingInfo = s.marketingInfo ∧ s'.logo = s.logo

/-- What a message leaves alone. -/
structure Frame (msg : Msg X) (s s' : Cw20Base X) : Prop where
  mirror : Mirror s'
  naming : s'.tokenInfo.map TokenInfo.naming = s.tokenInfo.map TokenInfo.naming
  marketing : msg.act ≠ none → SameMarketing s s'
  /-- No account is ever removed. -/
  accounts : ∀ a, s.balances.has a = true → s'.balances.has a = true

theorem has_update {K V : Type} [LinearOrder K] {m m' : Map K V} {k : K} {action : Option V → Exec ContractError V}
    (h : m.update k action = .ok m') {a : K} (ha : m.has a = true) : m'.has a = true := by
  obtain ⟨v, -, rfl⟩ := Map.update_ok.mp h
  rw [Store.has_save, ha, Bool.or_true]

theorem spendGrant_marketing (s : Cw20Base X) (owner spender : Addr) (n : ℕ) :
    SameMarketing s (spendGrant s owner spender n) := by
  rw [spendGrant]
  split <;> exact ⟨rfl, rfl⟩

theorem execute_frame {deps : Deps X B} {s s' : Cw20Base X} {ctx : ExecCtx B} {msg : Msg X} {r : Response P.withWasm T}
    (h : Mirror s) (hok : execute P T deps s ctx msg = .ok (s', r)) : Frame msg s s' := by
  have hspend : ∀ o sp n, (spendGrant s o sp n).tokenInfo.map TokenInfo.naming = s.tokenInfo.map TokenInfo.naming :=
    fun o sp n => by rw [(spendGrant_frame s o sp n).2]
  have hbal : ∀ {o sp n a}, s.balances.has a = true → (spendGrant s o sp n).balances.has a = true :=
    fun {o sp n a} ha => by rwa [(spendGrant_frame s o sp n).1]
  cases msg with
  | transfer recipient amount =>
    simp only [execute, transfer, Exec.bind_ok, Except.ok.injEq, Prod.mk.injEq] at hok
    obtain ⟨_, -, _, -, _, hm, _, hm', rfl, -⟩ := hok
    exact ⟨h, rfl, fun _ => ⟨rfl, rfl⟩, fun a ha => has_update hm' (has_update hm ha)⟩
  | burn amount =>
    simp only [execute, burn, Exec.bind_ok, Item.update_ok, Except.ok.injEq, Prod.mk.injEq] at hok
    obtain ⟨_, -, _, hm, _, ⟨info, hinfo, _, ⟨_, -, rfl⟩, rfl⟩, rfl, -⟩ := hok
    exact ⟨h, by rw [hinfo]; rfl, fun _ => ⟨rfl, rfl⟩, fun a ha => has_update hm ha⟩
  | send contract amount msg =>
    simp only [execute, send, Exec.bind_ok, Except.ok.injEq, Prod.mk.injEq] at hok
    obtain ⟨_, -, _, -, _, hm, _, hm', _, -, rfl, -⟩ := hok
    exact ⟨h, rfl, fun _ => ⟨rfl, rfl⟩, fun a ha => has_update hm' (has_update hm ha)⟩
  | increaseAllowance spender amount expires =>
    simp only [execute, increaseAllowance, Exec.bind_ok, Map.update_ok, Except.ok.injEq, Prod.mk.injEq] at hok
    obtain ⟨sp, -, _, -, _, ⟨a, ha, rfl⟩, _, ⟨a', ha', rfl⟩, rfl, -⟩ := hok
    rw [h, ha] at ha'
    cases ha'
    exact ⟨mirror_setGrant h ctx.sender sp a, rfl, fun _ => ⟨rfl, rfl⟩, fun _ => id⟩
  | decreaseAllowance spender amount expires =>
    simp only [execute, decreaseAllowance, Exec.bind_ok, Exec.ite_ok, Except.ok.injEq, Prod.mk.injEq] at hok
    obtain ⟨_, -, _, -, _, ⟨-, a, -, rfl⟩ | ⟨-, rfl⟩, rfl, -⟩ := hok
    · exact ⟨mirror_setGrant h ctx.sender spender a, rfl, fun _ => ⟨rfl, rfl⟩, fun _ => id⟩
    · exact ⟨mirror_dropGrant h ctx.sender spender, rfl, fun _ => ⟨rfl, rfl⟩, fun _ => id⟩
  | transferFrom owner recipient amount =>
    simp only [execute, transferFrom, Exec.bind_ok, Exec.ite_ok, deductAllowance_ok h, Except.ok.injEq, Prod.mk.injEq] at hok
    obtain ⟨_, -, o, -, ⟨-, rfl, -⟩ | ⟨-, _, ⟨-, -, rfl⟩ | ⟨-, rfl⟩, _, hm, _, hm', rfl, -⟩⟩ := hok
    · exact ⟨h, rfl, fun _ => ⟨rfl, rfl⟩, fun _ => id⟩
    · exact ⟨mirror_spendGrant h o ctx.sender amount.val, hspend _ _ _, fun _ => spendGrant_marketing s _ _ _,
        fun a ha => has_update hm' (has_update hm (hbal ha))⟩
    · exact ⟨h, rfl, fun _ => ⟨rfl, rfl⟩, fun a ha => has_update hm' (has_update hm ha)⟩
  | sendFrom owner contract amount msg =>
    simp only [execute, sendFrom, Exec.bind_ok, deductAllowance_ok h, Except.ok.injEq, Prod.mk.injEq] at hok
    obtain ⟨_, -, o, -, _, ⟨-, rfl⟩, _, hm, _, hm', _, -, rfl, -⟩ := hok
    exact ⟨mirror_spendGrant h o ctx.sender amount.val, hspend _ _ _, fun _ => spendGrant_marketing s _ _ _,
      fun a ha => has_update hm' (has_update hm (hbal ha))⟩
  | burnFrom owner amount =>
    simp only [execute, burnFrom, Exec.bind_ok, deductAllowance_ok h, Item.update_ok, Except.ok.injEq, Prod.mk.injEq] at hok
    obtain ⟨o, -, _, ⟨-, rfl⟩, _, hm, _, ⟨info, hinfo, _, ⟨_, -, rfl⟩, rfl⟩, rfl, -⟩ := hok
    refine ⟨mirror_spendGrant h o ctx.sender amount.val, ?_, fun _ => spendGrant_marketing s _ _ _,
      fun a ha => has_update hm (hbal ha)⟩
    rw [← hspend o ctx.sender amount.val, hinfo]
    rfl
  | mint recipient amount =>
    simp only [execute, mint, Exec.bind_ok, Exec.okOr_ok, Except.ok.injEq, Prod.mk.injEq] at hok
    obtain ⟨_, -, info, hinfo, _, -, _, -, _, -, _, -, _, -, _, hm, rfl, -⟩ := hok
    exact ⟨h, by rw [hinfo]; rfl, fun _ => ⟨rfl, rfl⟩, fun a ha => has_update hm ha⟩
  | updateMinter newMinter =>
    simp only [execute, updateMinter, Exec.bind_ok, Exec.okOr_ok, Except.ok.injEq, Prod.mk.injEq] at hok
    obtain ⟨info, hinfo, _, -, _, -, _, -, rfl, -⟩ := hok
    exact ⟨h, by rw [hinfo]; rfl, fun _ => ⟨rfl, rfl⟩, fun _ => id⟩
  | updateMarketing project description marketing =>
    obtain ⟨_, _, rfl⟩ := updateMarketing_keeps hok
    exact ⟨h, rfl, fun hc => absurd rfl hc, fun _ => id⟩
  | uploadLogo logo =>
    obtain ⟨_, _, rfl⟩ := uploadLogo_keeps hok
    exact ⟨h, rfl, fun hc => absurd rfl hc, fun _ => id⟩

theorem handle_mirror {deps : Deps X B} {s s' : Cw20Base X} {e : Ev X B} {r : Response P.withWasm T}
    (h : Mirror s) (hok : handle P T deps s e = .ok (s', r)) : Mirror s' := by
  cases e with
  | exec ctx msg => exact (execute_frame h hok).mirror
  | migrate older =>
    rcases migrate_ok hok with rfl | ⟨-, rfl⟩
    · exact h
    · refine mirror_reversed fun owner spender a ha => ?_
      rw [← h, ha]
      exact Option.some_ne_none a

/-- A migration from before 0.14.0, of a storage whose second map has no key the first lacks,
    makes the two maps mirror images; whatever comes after keeps them so. -/
theorem migrate_mirror {deps : Deps X B} {s : Cw20Base X}
    (hold : ∀ owner spender, s.allowances.lookup (toLex (owner, spender)) = none →
      s.allowancesSpender.lookup (toLex (spender, owner)) = none)
    (es : List (Ev X B)) :
    Mirror (run P T deps (step P T deps s (.migrate (.ok true))) es) := by
  have hmigrate : handle P T deps s (.migrate (.ok true)) = .ok ({ s with allowancesSpender := reversed s }, Response.new) := by
    rw [handle, migrate, reversed, List.foldl_map]
    rfl
  rw [step_ok hmigrate]
  refine run_induct handle_mirror (mirror_reversed fun owner spender a ha hnone => ?_) es
  rw [hold owner spender hnone] at ha
  cases ha

/-- A storage of the time before the second map, with one allowance. -/
def oldCoin : Cw20Base (Option ℕ) :=
  { opened coinData with
    allowances := Store.empty.save (toLex ("addr0001", "addr0002")) ⟨⟨100, by decide⟩, none⟩ }

theorem migrate_mirror_old : Mirror (run bare Unit plainDeps (step bare Unit plainDeps oldCoin (.migrate (.ok true))) coinRun) :=
  migrate_mirror (fun _ _ _ => rfl) coinRun

end Sylvia.Cw20
