/-
  Sylvia.Base.Token — what a fungible token is for: balances, a supply that may be raised by
  a minter up to a cap, and allowances by which an owner lets others spend.

  `A` is any type of accounts and `X` of expirations. An `Act` is asked for by a sender in a
  block; `Allows` says when it may be done and `act` what it does. Amounts are natural
  numbers; `Rules.bound` is the number they stay below.

  Proved, over every run of allowed acts:
  - `Run.balance_history`: an account holds what it had, and received, less what left it.
  - `Run.supply_history`: the supply is what it was, and was minted, less what was burned.
  - `Run.spent_le_granted`: what a spender took from an owner and what is left to take are
    together at most what the owner allowed.
  - `Run.owner_silent`: an owner who sends nothing loses at most the standing allowances.
  - `Run.mint_cap`, `capped_step`: the cap never changes and is never exceeded.
  - `Run.no_minter`: without a minter there never is one again, and the supply only falls.
-/
import Mathlib.Algebra.BigOperators.Group.Finset.Piecewise
import Mathlib.Algebra.Order.BigOperators.Group.Finset
import Mathlib.Algebra.Order.Group.Nat
import Mathlib.Algebra.Ring.Nat

namespace Sylvia.Base

structure Rules (X Bk : Type) where
  expired : X → Bk → Bool
  never : X
  bound : ℕ

structure Grant (X : Type) where
  amount : ℕ
  expires : X

structure Token (A X : Type) where
  balance : A → ℕ
  supply : ℕ
  /-- By owner and spender. -/
  grants : A → A → Option (Grant X)
  /-- The minter and the cap. -/
  mint : Option (A × Option ℕ)

inductive Act (A X : Type) where
  | pay (dst : A) (n : ℕ)
  | burn (n : ℕ)
  | allow (spender : A) (n : ℕ) (expires : Option X)
  | disallow (spender : A) (n : ℕ) (expires : Option X)
  /-- An owner may ask for it too, of her own account. -/
  | payFrom (owner dst : A) (n : ℕ)
  | sendFrom (owner dst : A) (n : ℕ)
  | burnFrom (owner : A) (n : ℕ)
  | mint (dst : A) (n : ℕ)
  | setMinter (new : Option A)

structure Signed (A X Bk : Type) where
  block : Bk
  sender : A
  act : Act A X

namespace Token

variable {A X Bk : Type} [DecidableEq A]

def allowed (t : Token A X) (owner spender : A) : ℕ := ((t.grants owner spender).map Grant.amount).getD 0

def take (t : Token A X) (a : A) (n : ℕ) : Token A X :=
  { t with balance := Function.update t.balance a (t.balance a - n) }

def give (t : Token A X) (a : A) (n : ℕ) : Token A X :=
  { t with balance := Function.update t.balance a (t.balance a + n) }

def setGrant (t : Token A X) (owner spender : A) (g : Option (Grant X)) : Token A X :=
  { t with grants := Function.update t.grants owner (Function.update (t.grants owner) spender g) }

def spend (t : Token A X) (owner spender : A) (n : ℕ) : Token A X :=
  t.setGrant owner spender ((t.grants owner spender).map fun g => { g with amount := g.amount - n })

/-- The spender has an unexpired allowance of at least the amount. -/
def Covers (r : Rules X Bk) (t : Token A X) (block : Bk) (owner spender : A) (n : ℕ) : Prop :=
  ∃ g, t.grants owner spender = some g ∧ r.expired g.expires block = false ∧ n ≤ g.amount

def Allows (r : Rules X Bk) (t : Token A X) (e : Signed A X Bk) : Prop :=
  match e.act with
  | .pay _ n | .burn n => n ≠ 0 ∧ n ≤ t.balance e.sender
  | .allow spender n expires =>
    spender ≠ e.sender ∧ t.allowed e.sender spender + n < r.bound ∧ ∀ x ∈ expires, r.expired x e.block = false
  | .disallow spender n expires =>
    spender ≠ e.sender ∧ ∃ g, t.grants e.sender spender = some g ∧
      (n < g.amount → ∀ x ∈ expires, r.expired x e.block = false)
  | .payFrom owner dst n =>
    dst = owner ∨ ((e.sender = owner ∨ Covers r t e.block owner e.sender n) ∧ n ≤ t.balance owner)
  | .sendFrom owner _ n | .burnFrom owner n => Covers r t e.block owner e.sender n ∧ n ≤ t.balance owner
  | .mint _ n =>
    n ≠ 0 ∧ t.supply + n < r.bound ∧ ∃ cap, t.mint = some (e.sender, cap) ∧ ∀ c ∈ cap, t.supply + n ≤ c
  | .setMinter _ => ∃ cap, t.mint = some (e.sender, cap)

def act (r : Rules X Bk) (t : Token A X) (e : Signed A X Bk) : Token A X :=
  match e.act with
  | .pay dst n => (t.take e.sender n).give dst n
  | .burn n => { t.take e.sender n with supply := t.supply - n }
  | .allow spender n expires =>
    let old := (t.grants e.sender spender).getD ⟨0, r.never⟩
    t.setGrant e.sender spender (some ⟨old.amount + n, expires.getD old.expires⟩)
  | .disallow spender n expires =>
    t.setGrant e.sender spender ((t.grants e.sender spender).bind fun g =>
      if n < g.amount then some ⟨g.amount - n, expires.getD g.expires⟩ else none)
  | .payFrom owner dst n =>
    if dst = owner then t
    else if e.sender = owner then (t.take owner n).give dst n
    else ((t.spend owner e.sender n).take owner n).give dst n
  | .sendFrom owner dst n => ((t.spend owner e.sender n).take owner n).give dst n
  | .burnFrom owner n => { (t.spend owner e.sender n).take owner n with supply := t.supply - n }
  | .mint dst n => { t.give dst n with supply := t.supply + n }
  | .setMinter new => { t with mint := t.mint.bind fun m => new.map fun a => (a, m.2) }

/-- Allowed acts, one after another. -/
inductive Run (r : Rules X Bk) : Token A X → List (Signed A X Bk) → Token A X → Prop
  | nil (t : Token A X) : Run r t [] t
  | cons {t t' : Token A X} {e : Signed A X Bk} {es : List (Signed A X Bk)} :
    t.Allows r e → Run r (t.act r e) es t' → Run r t (e :: es) t'

/-! ## What an act moves -/

/-- What leaves the account. -/
def out (a : A) (e : Signed A X Bk) : ℕ :=
  match e.act with
  | .pay _ n | .burn n => if e.sender = a then n else 0
  | .payFrom owner dst n => if dst ≠ owner ∧ owner = a then n else 0
  | .sendFrom owner _ n | .burnFrom owner n => if owner = a then n else 0
  | _ => 0

/-- What comes in. -/
def income (a : A) (e : Signed A X Bk) : ℕ :=
  match e.act with
  | .pay dst n | .sendFrom _ dst n | .mint dst n => if dst = a then n else 0
  | .payFrom owner dst n => if dst ≠ owner ∧ dst = a then n else 0
  | _ => 0

def minted (e : Signed A X Bk) : ℕ :=
  match e.act with
  | .mint _ n => n
  | _ => 0

def burned (e : Signed A X Bk) : ℕ :=
  match e.act with
  | .burn n | .burnFrom _ n => n
  | _ => 0

/-- What the spender takes of the owner's allowance. -/
def spent (owner spender : A) (e : Signed A X Bk) : ℕ :=
  match e.act with
  | .payFrom o dst n => if o = owner ∧ e.sender = spender ∧ dst ≠ o ∧ e.sender ≠ o then n else 0
  | .sendFrom o _ n | .burnFrom o n => if o = owner ∧ e.sender = spender then n else 0
  | _ => 0

def granted (owner spender : A) (e : Signed A X Bk) : ℕ :=
  match e.act with
  | .allow s n _ => if e.sender = owner ∧ s = spender then n else 0
  | _ => 0

/-! ## Small facts -/

theorem take_balance {t : Token A X} {a : A} {n : ℕ} (h : n ≤ t.balance a) (b : A) :
    (t.take a n).balance b + (if a = b then n else 0) = t.balance b := by
  by_cases hb : a = b
  · subst hb
    simpa [take] using Nat.sub_add_cancel h
  · simp [take, Ne.symm hb, hb]

theorem give_balance (t : Token A X) (a b : A) (n : ℕ) :
    (t.give a n).balance b = t.balance b + (if a = b then n else 0) := by
  by_cases hb : a = b
  · subst hb
    simp [give]
  · simp [give, Ne.symm hb, hb]

@[simp] theorem setGrant_balance (t : Token A X) (o s : A) (g : Option (Grant X)) :
    (t.setGrant o s g).balance = t.balance := rfl

@[simp] theorem spend_balance (t : Token A X) (o s : A) (n : ℕ) : (t.spend o s n).balance = t.balance := rfl

@[simp] theorem take_grants (t : Token A X) (a : A) (n : ℕ) : (t.take a n).grants = t.grants := rfl

@[simp] theorem give_grants (t : Token A X) (a : A) (n : ℕ) : (t.give a n).grants = t.grants := rfl

theorem setGrant_grants (t : Token A X) (o s o' s' : A) (g : Option (Grant X)) :
    (t.setGrant o s g).grants o' s' = if o' = o ∧ s' = s then g else t.grants o' s' := by
  by_cases ho : o' = o
  · subst ho
    simp [setGrant, Function.update_apply]
  · simp [setGrant, ho]

theorem setGrant_allowed (t : Token A X) (o s o' s' : A) (g : Option (Grant X)) :
    (t.setGrant o s g).allowed o' s' = if o' = o ∧ s' = s then (g.map Grant.amount).getD 0 else t.allowed o' s' := by
  rw [allowed, setGrant_grants]
  split <;> rfl

theorem spend_allowed (t : Token A X) (o s o' s' : A) (n : ℕ) :
    (t.spend o s n).allowed o' s' = if o' = o ∧ s' = s then t.allowed o s - n else t.allowed o' s' := by
  rw [spend, setGrant_allowed]
  congr 1
  rw [allowed]
  cases t.grants o s <;> simp

omit [DecidableEq A] in
theorem Covers.le {r : Rules X Bk} {t : Token A X} {block : Bk} {o s : A} {n : ℕ} (h : Covers r t block o s n) :
    n ≤ t.allowed o s := by
  obtain ⟨g, hg, -, hn⟩ := h
  simpa [allowed, hg] using hn

/-! ## One act -/

theorem balance_step {r : Rules X Bk} {t : Token A X} {e : Signed A X Bk} (h : t.Allows r e) (a : A) :
    (t.act r e).balance a + out a e = t.balance a + income a e := by
  obtain ⟨block, sender, act⟩ := e
  cases act with
  | pay dst n =>
    have htake := take_balance (a := sender) h.2 a
    simp only [Token.act, out, income, give_balance]
    omega
  | burn n => exact take_balance h.2 a
  | allow spender n expires => rfl
  | disallow spender n expires => rfl
  | payFrom owner dst n =>
    by_cases hdst : dst = owner
    · simp [Token.act, out, income, hdst]
    · have htake := take_balance (h.resolve_left hdst).2 a
      have hspend := take_balance (t := t.spend owner sender n) (h.resolve_left hdst).2 a
      rw [spend_balance] at hspend
      simp only [Token.act, out, income, hdst, ne_eq, not_false_eq_true, true_and, if_false]
      split
      · rw [give_balance]
        omega
      · rw [give_balance]
        omega
  | sendFrom owner dst n =>
    have htake := take_balance (t := t.spend owner sender n) h.2 a
    rw [spend_balance] at htake
    simp only [Token.act, out, income, give_balance]
    omega
  | burnFrom owner n => exact take_balance (t := t.spend owner sender n) h.2 a
  | mint dst n => exact give_balance t dst a n
  | setMinter new => rfl

theorem allowed_step {r : Rules X Bk} {t : Token A X} {e : Signed A X Bk} (h : t.Allows r e) (o s : A) :
    (t.act r e).allowed o s + spent o s e ≤ t.allowed o s + granted o s e := by
  obtain ⟨block, sender, act⟩ := e
  -- every spending act lowers the one allowance it names
  have hspend : ∀ owner n, n ≤ t.allowed owner sender →
      (t.spend owner sender n).allowed o s + (if owner = o ∧ sender = s then n else 0) = t.allowed o s := by
    intro owner n hn
    rw [spend_allowed]
    by_cases hos : o = owner ∧ s = sender
    · obtain ⟨rfl, rfl⟩ := hos
      simpa using Nat.sub_add_cancel hn
    · rw [if_neg hos, if_neg (fun hc => hos ⟨hc.1.symm, hc.2.symm⟩), Nat.add_zero]
  cases act with
  | allow spender n expires =>
    simp only [Token.act, spent, granted, setGrant_allowed]
    by_cases hos : o = sender ∧ s = spender
    · obtain ⟨rfl, rfl⟩ := hos
      have : ((t.grants o s).getD ⟨0, r.never⟩).amount = t.allowed o s := by
        rw [allowed]
        cases t.grants o s <;> rfl
      simp [this]
    · rw [if_neg hos]
      omega
  | disallow spender n expires =>
    simp only [Token.act, spent, granted, setGrant_allowed]
    split
    · rename_i hos
      obtain ⟨rfl, rfl⟩ := hos
      rw [allowed]
      cases t.grants o s with
      | none => simp
      | some g =>
        simp only [Option.bind_some, Option.map_some, Option.getD_some]
        split <;> simp
    · exact le_rfl
  | payFrom owner dst n =>
    simp only [Token.act, spent, granted]
    by_cases hdst : dst = owner
    · simp [hdst]
    · rw [if_neg hdst]
      by_cases hown : sender = owner
      · simp [hown, allowed]
      · obtain ⟨hc, -⟩ := h.resolve_left hdst
        have := hspend owner n (hc.resolve_left hown).le
        simp only [hdst, hown, if_false, ne_eq, not_false_eq_true, and_self, and_true]
        exact this.le
  | sendFrom owner dst n => exact (hspend owner n h.1.le).le
  | burnFrom owner n => exact (hspend owner n h.1.le).le
  | pay | burn | mint | setMinter => exact le_rfl

/-- The cap is handed from minter to minter. -/
theorem mint_step {r : Rules X Bk} {t : Token A X} {e : Signed A X Bk} {m : A} {cap : Option ℕ}
    (h : (t.act r e).mint = some (m, cap)) : ∃ m', t.mint = some (m', cap) := by
  obtain ⟨block, sender, act⟩ := e
  cases act with
  | setMinter new =>
    simp only [Token.act, Option.bind_eq_some_iff, Option.map_eq_some_iff] at h
    obtain ⟨m', hm', a, -, heq⟩ := h
    cases heq
    exact ⟨m'.1, hm'⟩
  | payFrom owner dst n =>
    simp only [Token.act] at h
    split_ifs at h <;> exact ⟨m, h⟩
  | pay | burn | allow | disallow | sendFrom | burnFrom | mint => exact ⟨m, h⟩

/-! ## The supply is what the accounts hold -/

/-- The balances of finitely many accounts make up the supply, and nobody else has any. -/
def Sound (t : Token A X) : Prop :=
  ∃ S : Finset A, (∀ a, a ∉ S → t.balance a = 0) ∧ S.sum t.balance = t.supply

omit [DecidableEq A] in
theorem Sound.le {t : Token A X} (h : t.Sound) (a : A) : t.balance a ≤ t.supply := by
  obtain ⟨S, hzero, hsum⟩ := h
  by_cases ha : a ∈ S
  · rw [← hsum]
    exact Finset.single_le_sum (fun _ _ => Nat.zero_le _) ha
  · rw [hzero a ha]
    exact Nat.zero_le _

theorem Sound.add_le {t : Token A X} (h : t.Sound) {a b : A} (hab : a ≠ b) : t.balance a + t.balance b ≤ t.supply := by
  obtain ⟨S, hzero, hsum⟩ := h
  have hpair : ({a, b} : Finset A).sum t.balance = t.balance a + t.balance b := Finset.sum_pair hab
  have hle : ({a, b} : Finset A).sum t.balance ≤ (S ∪ {a, b}).sum t.balance :=
    Finset.sum_le_sum_of_subset Finset.subset_union_right
  have hext : S.sum t.balance = (S ∪ {a, b}).sum t.balance :=
    Finset.sum_subset Finset.subset_union_left fun c _ hc => hzero c hc
  omega

/-- A burned amount was somebody's, so the supply had it. -/
theorem supply_step {r : Rules X Bk} {t : Token A X} {e : Signed A X Bk} (h : t.Allows r e) (hsound : t.Sound) :
    (t.act r e).supply + burned e = t.supply + minted e := by
  obtain ⟨block, sender, act⟩ := e
  cases act with
  | burn n => exact Nat.sub_add_cancel (h.2.trans (hsound.le sender))
  | burnFrom owner n => exact Nat.sub_add_cancel (h.2.trans (hsound.le owner))
  | payFrom owner dst n =>
    simp only [Token.act, burned, minted]
    split_ifs <;> rfl
  | pay | allow | disallow | sendFrom | mint | setMinter => rfl

/-- The accounts an act names. -/
def touched (e : Signed A X Bk) : Finset A :=
  match e.act with
  | .pay dst _ | .mint dst _ => {e.sender, dst}
  | .payFrom owner dst _ | .sendFrom owner dst _ => {owner, dst}
  | .burnFrom owner _ => {owner}
  | _ => {e.sender}

theorem untouched {e : Signed A X Bk} {a : A} (h : a ∉ touched e) : out a e = 0 ∧ income a e = 0 := by
  obtain ⟨block, sender, act⟩ := e
  cases act with
  | pay | burn | payFrom | sendFrom | burnFrom | mint =>
    simp only [touched, Finset.mem_insert, Finset.mem_singleton, not_or] at h
    simp only [out, income]
    grind
  | allow | disallow | setMinter => exact ⟨rfl, rfl⟩

/-- What leaves accounts arrives in accounts, up to what is burned and minted. -/
theorem flow (e : Signed A X Bk) {S : Finset A} (hS : touched e ⊆ S) :
    (S.sum fun a => out a e) + minted e = (S.sum fun a => income a e) + burned e := by
  obtain ⟨block, sender, act⟩ := e
  have hsum : ∀ a n, a ∈ S → (S.sum fun b => if a = b then n else 0) = n := fun a n ha => by
    rw [Finset.sum_ite_eq, if_pos ha]
  cases act with
  | pay dst n =>
    have h1 := hsum sender n (hS (by simp [touched]))
    have h2 := hsum dst n (hS (by simp [touched]))
    simp only [out, income, minted, burned]
    omega
  | burn n =>
    have h1 := hsum sender n (hS (by simp [touched]))
    simp only [out, income, minted, burned, Finset.sum_const_zero]
    omega
  | payFrom owner dst n =>
    by_cases hdst : dst = owner
    · simp [out, income, minted, burned, hdst]
    · have h1 := hsum owner n (hS (by simp [touched]))
      have h2 := hsum dst n (hS (by simp [touched]))
      simp only [out, income, minted, burned, hdst, ne_eq, not_false_eq_true, true_and]
      omega
  | sendFrom owner dst n =>
    have h1 := hsum owner n (hS (by simp [touched]))
    have h2 := hsum dst n (hS (by simp [touched]))
    simp only [out, income, minted, burned]
    omega
  | burnFrom owner n =>
    have h1 := hsum owner n (hS (by simp [touched]))
    simp only [out, income, minted, burned, Finset.sum_const_zero]
    omega
  | mint dst n =>
    have h1 := hsum dst n (hS (by simp [touched]))
    simp only [out, income, minted, burned, Finset.sum_const_zero]
    omega
  | allow | disallow | setMinter => simp [out, income, minted, burned]

theorem sound_step {r : Rules X Bk} {t : Token A X} {e : Signed A X Bk} (h : t.Allows r e) (hsound : t.Sound) :
    (t.act r e).Sound := by
  have hsupply := supply_step h hsound
  obtain ⟨S, hzero, hsum⟩ := hsound
  refine ⟨S ∪ touched e, ?_, ?_⟩
  · intro a ha
    rw [Finset.mem_union, not_or] at ha
    obtain ⟨hout, hin⟩ := untouched ha.2
    have := balance_step h a
    rw [hout, hin, hzero a ha.1] at this
    simpa using this
  · have hflow := flow e (S := S ∪ touched e) Finset.subset_union_right
    have hext : S.sum t.balance = (S ∪ touched e).sum t.balance :=
      Finset.sum_subset Finset.subset_union_left fun c _ hc => hzero c hc
    have hacc : ((S ∪ touched e).sum (t.act r e).balance) + ((S ∪ touched e).sum fun a => out a e) =
        ((S ∪ touched e).sum t.balance) + ((S ∪ touched e).sum fun a => income a e) := by
      rw [← Finset.sum_add_distrib, ← Finset.sum_add_distrib]
      exact Finset.sum_congr rfl fun a _ => balance_step h a
    omega

/-- The supply is within the cap, if there is one. -/
def Capped (t : Token A X) : Prop := ∀ m c, t.mint = some (m, some c) → t.supply ≤ c

theorem capped_step {r : Rules X Bk} {t : Token A X} {e : Signed A X Bk} (h : t.Allows r e) (hsound : t.Sound)
    (hcap : t.Capped) : (t.act r e).Capped := by
  intro m c hm
  obtain ⟨m', hm'⟩ := mint_step hm
  have hle := hcap m' c hm'
  have hsupply := supply_step h hsound
  obtain ⟨block, sender, act⟩ := e
  cases act with
  | mint dst n =>
    obtain ⟨-, -, cap, hcap', hlim⟩ := h
    rw [hm'] at hcap'
    cases hcap'
    exact hlim c rfl
  | pay | burn | allow | disallow | payFrom | sendFrom | burnFrom | setMinter =>
    simp only [minted] at hsupply
    omega

/-! ## Runs -/

namespace Run

variable {r : Rules X Bk} {t t' : Token A X} {es : List (Signed A X Bk)}

theorem balance_history (h : Run r t es t') (a : A) :
    t'.balance a + (es.map (out a)).sum = t.balance a + (es.map (income a)).sum := by
  induction h with
  | nil => rfl
  | cons hallow _ ih =>
    have := balance_step hallow a
    simp only [List.map_cons, List.sum_cons]
    omega

theorem spent_le_granted (h : Run r t es t') (o s : A) :
    (es.map (spent o s)).sum + t'.allowed o s ≤ t.allowed o s + (es.map (granted o s)).sum := by
  induction h with
  | nil => simp
  | cons hallow _ ih =>
    have := allowed_step hallow o s
    simp only [List.map_cons, List.sum_cons]
    omega

/-- The minter may change, the cap does not. -/
theorem mint_cap (h : Run r t es t') {m : A} {cap : Option ℕ} (hm : t'.mint = some (m, cap)) :
    ∃ m', t.mint = some (m', cap) := by
  induction h with
  | nil => exact ⟨m, hm⟩
  | cons _ _ ih =>
    obtain ⟨m', hm'⟩ := ih hm
    exact mint_step hm'

theorem supply_history (h : Run r t es t') (hsound : t.Sound) :
    t'.supply + (es.map burned).sum = t.supply + (es.map minted).sum := by
  induction h with
  | nil => rfl
  | cons hallow _ ih =>
    have := ih (sound_step hallow hsound)
    have := supply_step hallow hsound
    simp only [List.map_cons, List.sum_cons]
    omega

/-- Without a minter nothing is minted again. -/
theorem no_minter (h : Run r t es t') (hsound : t.Sound) (hnone : t.mint = none) :
    t'.mint = none ∧ t'.supply + (es.map burned).sum = t.supply := by
  have hminted : (es.map minted).sum = 0 := by
    induction h with
    | nil => rfl
    | @cons t t' e es hallow _ ih =>
      have hnone' : (t.act r e).mint = none := by
        cases hm : (t.act r e).mint with
        | none => rfl
        | some mc =>
          obtain ⟨m', hm'⟩ := mint_step hm (m := mc.1)
          rw [hnone] at hm'
          cases hm'
      rw [List.map_cons, List.sum_cons, ih (sound_step hallow hsound) hnone', Nat.add_zero]
      obtain ⟨block, sender, act⟩ := e
      cases act with
      | mint dst n =>
        obtain ⟨-, -, cap, hcap, -⟩ := hallow
        rw [hnone] at hcap
        cases hcap
      | pay | burn | allow | disallow | payFrom | sendFrom | burnFrom | setMinter => rfl
  refine ⟨?_, by rw [supply_history h hsound, hminted, Nat.add_zero]⟩
  cases hm : t'.mint with
  | none => rfl
  | some mc =>
    obtain ⟨m', hm'⟩ := mint_cap h hm (m := mc.1)
    rw [hnone] at hm'
    cases hm'

end Run

/-! ## An owner who sends nothing -/

/-- What leaves the account of somebody else than the sender is taken from an allowance. -/
theorem out_eq_spent {r : Rules X Bk} {t : Token A X} {e : Signed A X Bk} (h : t.Allows r e) {a : A} (ha : e.sender ≠ a) :
    out a e = spent a e.sender e := by
  obtain ⟨block, sender, act⟩ := e
  cases act with
  | pay dst n => simp [out, spent, ha]
  | burn n => simp [out, spent, ha]
  | payFrom owner dst n =>
    simp only [out, spent]
    by_cases hown : owner = a
    · subst hown
      simp [ha]
    · simp [hown]
  | sendFrom | burnFrom => simp [out, spent]
  | allow | disallow | mint | setMinter => rfl

/-- An owner who sends nothing loses at most the allowances standing before. `S` has every
    sender of the run. -/
theorem Run.owner_silent {r : Rules X Bk} {t t' : Token A X} {es : List (Signed A X Bk)} (h : Run r t es t') {a : A}
    {S : Finset A} (hS : ∀ e ∈ es, e.sender ∈ S) (ha : a ∉ S) :
    t.balance a ≤ t'.balance a + S.sum fun s => t.allowed a s := by
  -- nothing is granted in the name of `a`
  have hgranted : ∀ s, (es.map (granted a s)).sum = 0 := by
    intro s
    refine List.sum_eq_zero fun x hx => ?_
    obtain ⟨e, he, rfl⟩ := List.mem_map.mp hx
    have hne : e.sender ≠ a := fun heq => ha (heq ▸ hS e he)
    unfold granted
    split <;> simp [hne]
  have hout : (es.map (out a)).sum ≤ S.sum fun s => (es.map (spent a s)).sum := by
    clear hgranted
    induction h with
    | nil => simp
    | @cons t t' e es hallow _ ih =>
      have he : e.sender ∈ S := hS e List.mem_cons_self
      have hne : e.sender ≠ a := fun heq => ha (heq ▸ he)
      have hhead : out a e ≤ S.sum fun s => spent a s e := by
        rw [out_eq_spent hallow hne]
        exact Finset.single_le_sum (f := fun s => spent a s e) (fun _ _ => Nat.zero_le _) he
      have hrest := ih fun e' he' => hS e' (List.mem_cons_of_mem _ he')
      simp only [List.map_cons, List.sum_cons, Finset.sum_add_distrib]
      omega
  have hspent : (S.sum fun s => (es.map (spent a s)).sum) ≤ S.sum fun s => t.allowed a s := by
    refine Finset.sum_le_sum fun s _ => ?_
    have := h.spent_le_granted a s
    rw [hgranted s] at this
    omega
  have := h.balance_history a
  omega

end Token

end Sylvia.Base
