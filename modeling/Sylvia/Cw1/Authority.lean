/-
  Sylvia.Cw1.Authority — what the subkeys contract lets happen over runs.

  `Counts` is what is used of `cw_utils`' balances: how much of a denomination is in one. The
  contract checks each message against the whole allowance and takes nothing off it, so what
  bounds one send does not bound their sum.

  Proved:
  - `frozen_whitelist`: once frozen, the admins are what they are.
  - `send_bounded`: after any run, one send of a key that is no admin's is within what it held
    at the start and was granted by increases since.
  - `never_used_up`: what a key may send on it may send on again, any number of times, until
    an admin sends a message.
-/
import Sylvia.Cw1.Subkeys

namespace Sylvia.Cw1.Subkeys

open Sylvia.Base Sylvia.CwStd

variable {X B N T : Type} {P : Payloads} {deps : Deps X B N}

/-! ## The whitelist -/

theorem frozen_whitelist {s : Cw1Subkeys X N} (hfrozen : s.whitelist.mutable = some false) (es : List (Ev X B P T)) :
    (run deps s es).whitelist = s.whitelist := by
  refine run_induct (I := fun s' => s'.whitelist = s.whitelist) (fun {s₁ s₂ ctx msg} h hdid => ?_) rfl es
  cases hdid with
  | execute | increase | decrease | permit => exact h
  | freeze hadmin =>
    rw [← h] at hfrozen ⊢
    rw [← hfrozen]
  | update hadmin hmutable =>
    rw [h, hfrozen] at hmutable
    cases hmutable

/-! ## A chain with the balances of `cw_utils` -/

/-- A coin of another denomination stands where the order of denominations puts it. -/
def insertCoin : List Coin → Coin → List Coin
  | [], c => [c]
  | x :: xs, c => if c.denom ≤ x.denom then c :: x :: xs else x :: insertCoin xs c

def bumpCoin : List Coin → Coin → Option (List Coin)
  | [], _ => some []
  | x :: xs, c =>
    if x.denom = c.denom then
      if h : x.amount.val + c.amount.val < 2 ^ 128 then some (⟨⟨_, h⟩, x.denom⟩ :: xs) else none
    else (bumpCoin xs c).map (x :: ·)

/-- `+=`: the first coin of the denomination, or a new one. -/
def addCoin (xs : List Coin) (c : Coin) : Option (List Coin) :=
  if xs.any fun x => decide (x.denom = c.denom) then bumpCoin xs c else some (insertCoin xs c)

/-- `-` of one coin; a coin that is spent is dropped. With `saturating`, one that is too small too. -/
def subCoin (saturating : Bool) : List Coin → Coin → Except Fault (List Coin)
  | [], _ => .error .overflow
  | x :: xs, c =>
    if x.denom = c.denom then
      if c.amount.val < x.amount.val then
        .ok (⟨⟨x.amount.val - c.amount.val, Nat.lt_of_le_of_lt (Nat.sub_le _ _) x.amount.isLt⟩, x.denom⟩ :: xs)
      else if saturating ∨ c.amount.val = x.amount.val then .ok xs
      else .error .overflow
    else (subCoin saturating xs c).map (x :: ·)

def nativeBalance : Balances (List Coin) where
  default := []
  add := addCoin
  subSaturating := subCoin true
  sub x cs := cs.foldlM (subCoin false) x
  isEmpty x := x.all fun c => decide (c.amount.val = 0)

def plainDeps : Deps (Option ℕ) ℕ (List Coin) := ⟨Whitelist.plainHost, byHeight, nativeBalance⟩

def gold (n : ℕ) (h : n < 2 ^ 128 := by decide) : Coin := ⟨⟨n, h⟩, "gold"⟩

/-- An admin, and a key that holds ten pieces of gold. -/
def plainKeys : Cw1Subkeys (Option ℕ) (List Coin) where
  whitelist := ⟨Store.empty.save "alice" (), some false⟩
  permissions := .empty
  allowances := Store.empty.save "carol" ⟨[gold 10], none⟩

def sendSeven : List (CosmosMsg bare.withModules Unit) := [.bank (.send "dave" [gold 7])]

/-- The key sends gold on, the admin gives it more, and an outsider tries to become an admin. -/
def plainRun : List (Ev (Option ℕ) ℕ bare Unit) :=
  [⟨⟨1, "carol"⟩, .execute sendSeven⟩, ⟨⟨2, "alice"⟩, .increaseAllowance "carol" (gold 5) none⟩,
    ⟨⟨3, "dave"⟩, .updateAdmins ["dave"]⟩]

theorem frozen_whitelist_plain : (run plainDeps plainKeys plainRun).whitelist = plainKeys.whitelist :=
  frozen_whitelist rfl plainRun

/-! ## Allowances -/

/-- What is in coins of a denomination. -/
def total (denom : String) (coins : List Coin) : ℕ := (coins.map fun c => if c.denom = denom then c.amount.val else 0).sum

/-- How much of a denomination is in a balance. -/
structure Counts (b : Balances N) (amountOf : N → String → ℕ) : Prop where
  default : ∀ denom, amountOf b.default denom = 0
  add : ∀ x c y, b.add x c = some y → ∀ denom, amountOf y denom = amountOf x denom + total denom [c]
  subSaturating : ∀ x c y, b.subSaturating x c = .ok y → ∀ denom, amountOf y denom ≤ amountOf x denom
  sub : ∀ x cs y, b.sub x cs = .ok y → ∀ denom, total denom cs ≤ amountOf x denom

/-- What a key's allowance has of a denomination, expired or not. -/
def held (amountOf : N → String → ℕ) (s : Cw1Subkeys X N) (spender : Addr) (denom : String) : ℕ :=
  ((s.allowances.lookup spender).map fun a => amountOf a.balance denom).getD 0

/-- What a message adds to it. -/
def granted (spender : Addr) (denom : String) : Msg X P T → ℕ
  | .increaseAllowance sp amount _ => if sp = spender then total denom [amount] else 0
  | _ => 0

/-- What the messages that returned add to it. -/
def grantedBy (deps : Deps X B N) (spender : Addr) (denom : String) : Cw1Subkeys X N → List (Ev X B P T) → ℕ
  | _, [] => 0
  | s, e :: es =>
    (match exec deps s e.ctx e.msg with
      | .ok _ => granted spender denom e.msg
      | .error _ => 0) + grantedBy deps spender denom (step deps s e) es

theorem increaseFn_le {amountOf : N → String → ℕ} (hb : Counts deps.balances amountOf) {block : B} {amount : Coin}
    {expires : Option X} {allow : Option (Allowance X N)} {a : Allowance X N}
    (h : increaseFn deps block amount expires allow = .ok a) (denom : String) :
    amountOf a.balance denom ≤ (allow.map fun a => amountOf a.balance denom).getD 0 + total denom [amount] := by
  have hfilter : ∀ p : Allowance X N → Bool, amountOf ((allow.filter p).getD ⟨deps.balances.default, deps.expirations.default⟩).balance
      denom ≤ (allow.map fun a => amountOf a.balance denom).getD 0 := by
    intro p
    cases allow with
    | none => simp [hb.default]
    | some a =>
      cases hp : p a with
      | true => simp [Option.filter, hp]
      | false => simp [Option.filter, hp, hb.default]
  simp only [increaseFn, Exec.bind_ok, Except.ok.injEq] at h
  obtain ⟨mid, hmid, y, hy, rfl⟩ := h
  have hbalance : mid.balance = ((allow.filter fun a => !deps.expirations.isExpired a.expires block).getD
      ⟨deps.balances.default, deps.expirations.default⟩).balance := by
    cases expires with
    | none | some =>
      simp only [Exec.ite_ok, Exec.fail_ne_ok, and_false, false_or, Except.ok.injEq] at hmid
      rw [← hmid.2]
  have hadd : deps.balances.add mid.balance amount = some y := by
    cases hc : deps.balances.add mid.balance amount with
    | none => simp [hc] at hy
    | some b => simpa [hc] using hy
  have hle := hfilter fun a => !deps.expirations.isExpired a.expires block
  rw [← hbalance] at hle
  rw [hb.add _ _ _ hadd denom]
  exact Nat.add_le_add_right hle _

theorem decreaseFn_le {amountOf : N → String → ℕ} (hb : Counts deps.balances amountOf) {block : B} {amount : Coin}
    {expires : Option X} {allow : Option (Allowance X N)} {a : Allowance X N}
    (h : decreaseFn deps block amount expires allow = .ok a) (denom : String) :
    amountOf a.balance denom ≤ (allow.map fun a => amountOf a.balance denom).getD 0 := by
  simp only [decreaseFn, Exec.bind_ok, Exec.okOr_ok, Option.filter_eq_some_iff, Except.ok.injEq] at h
  obtain ⟨old, ⟨rfl, -⟩, mid, hmid, y, hy, rfl⟩ := h
  have hbalance : mid.balance = old.balance := by
    cases expires with
    | none =>
      cases hmid
      rfl
    | some exp =>
      simp only [Exec.ite_ok, Exec.fail_ne_ok, and_false, false_or, Except.ok.injEq] at hmid
      rw [← hmid.2]
  have hsub : deps.balances.subSaturating mid.balance amount = .ok y := by
    cases hc : deps.balances.subSaturating mid.balance amount with
    | error => simp [hc] at hy
    | ok b => simpa [hc] using hy
  rw [hbalance] at hsub
  exact hb.subSaturating _ _ _ hsub denom

theorem held_save (amountOf : N → String → ℕ) (s : Cw1Subkeys X N) (spender sp : Addr) (a : Allowance X N) (denom : String) :
    held amountOf { s with allowances := s.allowances.save sp a } spender denom =
      if spender = sp then amountOf a.balance denom else held amountOf s spender denom := by
  simp only [held, Store.lookup_save]
  split <;> rfl

/-- A message adds to an allowance at most what it grants. -/
theorem held_step {amountOf : N → String → ℕ} (hb : Counts deps.balances amountOf) {s s' : Cw1Subkeys X N} {ctx : Ctx B}
    {msg : Msg X P T} (h : Did deps s ctx msg s') (spender : Addr) (denom : String) :
    held amountOf s' spender denom ≤ held amountOf s spender denom + granted spender denom msg := by
  cases h with
  | execute | permit | freeze | update => exact Nat.le_add_right _ _
  | @increase sp amount expires a _ hfn =>
    rw [held_save, granted]
    split
    · rename_i heq
      subst heq
      rw [if_pos rfl]
      exact increaseFn_le hb hfn denom
    · exact Nat.le_add_right _ _
  | @decrease sp amount expires a _ hfn =>
    have hdrop : held amountOf { s with
          allowances := if deps.balances.isEmpty a.balance then (s.allowances.save sp a).remove sp else s.allowances.save sp a }
        spender denom ≤ held amountOf { s with allowances := s.allowances.save sp a } spender denom := by
      split
      · simp only [held, Store.lookup_remove]
        split
        · exact Nat.zero_le _
        · exact le_rfl
      · exact le_rfl
    refine hdrop.trans ?_
    rw [held_save]
    split
    · rename_i heq
      subst heq
      exact decreaseFn_le hb hfn denom
    · exact Nat.le_add_right _ _

theorem held_run {amountOf : N → String → ℕ} (hb : Counts deps.balances amountOf) (s : Cw1Subkeys X N) (es : List (Ev X B P T))
    (spender : Addr) (denom : String) :
    held amountOf (run deps s es) spender denom ≤ held amountOf s spender denom + grantedBy deps spender denom s es := by
  induction es generalizing s with
  | nil => exact Nat.le_add_right _ _
  | cons e es ih =>
    have hrest := ih (step deps s e)
    have hstep : held amountOf (step deps s e) spender denom ≤ held amountOf s spender denom +
        (match exec deps s e.ctx e.msg with
          | .ok _ => granted spender denom e.msg
          | .error _ => 0) := by
      rw [step]
      cases hexec : exec deps s e.ctx e.msg with
      | ok sr => exact held_step hb (exec_did (r := sr.2) hexec) spender denom
      | error => exact le_rfl
    rw [grantedBy]
    exact hrest.trans (by omega)

/-- One send of a key that is no admin's is within what it held and was granted since. -/
theorem send_bounded {amountOf : N → String → ℕ} (hb : Counts deps.balances amountOf) {s : Cw1Subkeys X N}
    {es : List (Ev X B P T)} (block : B) {spender : Addr} (dst : String)
    (hkey : (run deps s es).whitelist.isAdmin spender = false) {coins : List Coin}
    (hmay : isAuthorized (T := T) deps (run deps s es) block spender (.bank (.send dst coins) : CosmosMsg P.withModules T) = true)
    (denom : String) :
    total denom coins ≤ held amountOf s spender denom + grantedBy deps spender denom s es := by
  refine le_trans ?_ (held_run hb s es spender denom)
  simp only [isAuthorized, hkey, Bool.false_eq_true, if_false] at hmay
  rw [held]
  cases ha : (run deps s es).allowances.lookup spender with
  | none => simp [ha] at hmay
  | some a =>
    simp only [ha, Bool.and_eq_true] at hmay
    cases hsub : deps.balances.sub a.balance coins with
    | ok y => exact hb.sub _ _ _ hsub denom
    | error => simp [hsub, Except.isOk, Except.toBool] at hmay

/-- What a key may send on it may send on again, any number of times, after any run in which no admin sends. -/
theorem never_used_up {s : Cw1Subkeys X N} {es : List (Ev X B P T)} (hes : ∀ e ∈ es, s.whitelist.isAdmin e.ctx.sender = false)
    {ctx : Ctx B} {msgs : List (CosmosMsg P.withModules T)} (hmay : (execute deps s ctx msgs).Returns) (n : ℕ) :
    (execute deps (run deps s es) ctx (List.replicate n msgs).flatten).Returns := by
  rw [outsiders hes, execute_exact.1]
  intro msg hmsg
  obtain ⟨l, hl, hmem⟩ := List.mem_flatten.mp hmsg
  rw [List.eq_of_mem_replicate hl] at hmem
  exact execute_exact.1.mp hmay msg hmem

/-! ## Balances count -/

theorem total_insertCoin (xs : List Coin) (c : Coin) (denom : String) :
    total denom (insertCoin xs c) = total denom xs + total denom [c] := by
  induction xs with
  | nil => simp [insertCoin, total]
  | cons x xs ih =>
    simp only [total, List.map_cons, List.map_nil, List.sum_cons, List.sum_nil] at ih
    rw [insertCoin]
    split
    · simp only [total, List.map_cons, List.map_nil, List.sum_cons, List.sum_nil]
      omega
    · simp only [total, List.map_cons, List.map_nil, List.sum_cons, List.sum_nil, ih]
      omega

/-- With a coin of the denomination there, the amount is not lost. -/
theorem total_bumpCoin {xs ys : List Coin} {c : Coin} (h : bumpCoin xs c = some ys) (hc : ∃ x ∈ xs, x.denom = c.denom)
    (denom : String) : total denom ys = total denom xs + total denom [c] := by
  induction xs generalizing ys with
  | nil =>
    obtain ⟨x, hx, -⟩ := hc
    cases hx
  | cons x xs ih =>
    rw [bumpCoin] at h
    split at h
    · rename_i hdenom
      split at h
      · cases h
        by_cases hd : c.denom = denom
        · simp [total, hdenom, hd]
          omega
        · simp [total, hdenom, hd]
      · cases h
    · rename_i hdenom
      obtain ⟨zs, hzs, rfl⟩ := Option.map_eq_some_iff.mp h
      obtain ⟨x', hx', hc⟩ := hc
      have hrest : x' ∈ xs := (List.mem_cons.mp hx').resolve_left fun heq => hdenom (heq ▸ hc)
      have := ih hzs ⟨x', hrest, hc⟩
      simp only [total, List.map_cons, List.sum_cons] at this ⊢
      omega

theorem total_addCoin {xs ys : List Coin} {c : Coin} (h : addCoin xs c = some ys) (denom : String) :
    total denom ys = total denom xs + total denom [c] := by
  rw [addCoin] at h
  split at h
  · rename_i hany
    refine total_bumpCoin h ?_ denom
    simpa using hany
  · cases h
    exact total_insertCoin xs c denom

theorem total_subCoin {saturating : Bool} {xs ys : List Coin} {c : Coin} (h : subCoin saturating xs c = .ok ys) (denom : String) :
    total denom ys ≤ total denom xs ∧ (saturating = false → total denom ys + total denom [c] = total denom xs) := by
  induction xs generalizing ys with
  | nil => cases h
  | cons x xs ih =>
    rw [subCoin] at h
    split at h
    · rename_i hdenom
      split at h
      · rename_i hlt
        cases h
        by_cases hd : c.denom = denom
        · simp [total, hdenom, hd]
          omega
        · simp [total, hdenom, hd]
      · split at h
        · rename_i hc
          cases h
          by_cases hd : c.denom = denom
          · simp [total, hdenom, hd]
            grind
          · simp [total, hdenom, hd]
        · cases h
    · cases hrest : subCoin saturating xs c with
      | error e => simp [hrest, Except.map] at h
      | ok zs =>
        have := ih hrest
        simp only [hrest, Except.map, Except.ok.injEq] at h
        subst h
        simp only [total, List.map_cons, List.sum_cons] at this ⊢
        grind

theorem nativeBalance_counts : Counts nativeBalance (fun x denom => total denom x) := by
  refine ⟨fun _ => rfl, fun x c y h denom => total_addCoin h denom, fun x c y h denom => (total_subCoin h denom).1, ?_⟩
  intro x cs y h denom
  simp only [nativeBalance] at h
  induction cs generalizing x with
  | nil => exact Nat.zero_le _
  | cons c cs ih =>
    rw [List.foldlM_cons] at h
    cases hc : subCoin false x c with
    | error e => simp [hc, bind, Except.bind] at h
    | ok z =>
      have hrest := ih z (by simpa [hc, bind, Except.bind] using h)
      have hone := (total_subCoin hc denom).2 rfl
      simp only [total, List.map_cons, List.map_nil, List.sum_cons, List.sum_nil] at hone hrest ⊢
      omega

theorem send_bounded_plain :
    total "gold" [gold 15] ≤ held (fun x denom => total denom x) plainKeys "carol" "gold" +
      grantedBy plainDeps "carol" "gold" plainKeys plainRun :=
  send_bounded (P := bare) (T := Unit) nativeBalance_counts 4 "dave" (by decide) (by decide) "gold"

theorem never_used_up_plain :
    (execute plainDeps (run plainDeps plainKeys [⟨⟨1, "carol"⟩, .execute sendSeven⟩]) ⟨2, "carol"⟩
      (List.replicate 3 sendSeven).flatten).Returns :=
  never_used_up (by decide) (execute_exact.1.mpr (by decide)) 3

end Sylvia.Cw1.Subkeys
