/-
  Sylvia.Cw20.Listings — the paged queries of the token contract, read while it is in use.

  A client reads a listing page by page and asks for each page after the last key it has
  seen; before each of its queries others may send any messages (`Visit`).

  Proved:
  - `browse_eq`: what the client gets are the pages of the listing as it changes.
  - `accounts_browsed`: no account is listed twice, every one listed is an account at the
    end, and once a page has room left every account there was at the start is listed.
  - `allowances_browsed`: the listing by owner and the listing by spender are both faithful
    readings of the one relation of allowances, as it is at the moments the pages are
    answered.
-/
import Sylvia.Base.Lists
import Sylvia.Cw20.Invariant

namespace Sylvia.Cw20

open Sylvia.Base Sylvia.CwStd

variable {X B T R V : Type} {P : Payloads} {deps : Deps X B}

/-- A query of a client, after what others sent before it. -/
structure Visit (X B : Type) where
  before : List (Ev X B)
  limit : Option ℕ

/-- What a client gets who asks for each page after the last key she has seen. -/
def browse (P : Payloads) (T : Type) (deps : Deps X B)
    (query : Cw20Base X → Option Addr → Option ℕ → Exec ContractError (List R)) (key : R → Addr) :
    Cw20Base X → Option Addr → List (Visit X B) → Exec ContractError (List R)
  | _, _, [] => .ok []
  | s, start, v :: vs => do
    let s := run P T deps s v.before
    let pg ← query s start v.limit
    let rest ← browse P T deps query key s ((pg.getLast?.map key).or start) vs
    .ok (pg ++ rest)

/-- A listing in ascending order of its keys. -/
structure Listing (X V : Type) where
  entries : Cw20Base X → List (Addr × V)
  sorted : ∀ s, (entries s).Pairwise fun a b => a.1 < b.1

/-- The listing as each visit finds it. -/
def requests (P : Payloads) (T : Type) (deps : Deps X B) (l : Listing X V) :
    Cw20Base X → List (Visit X B) → List (Request Addr V)
  | _, [] => []
  | s, v :: vs =>
    let s := run P T deps s v.before
    ⟨l.entries s, l.sorted s, calcLimit v.limit⟩ :: requests P T deps l s vs

/-- The storage that each visit is answered from, and the limit it asks for. -/
def moments (P : Payloads) (T : Type) (deps : Deps X B) :
    Cw20Base X → List (Visit X B) → List (Cw20Base X × Option ℕ)
  | _, [] => []
  | s, v :: vs =>
    let s := run P T deps s v.before
    (s, v.limit) :: moments P T deps s vs

/-- Everything the others sent. -/
def sent (vs : List (Visit X B)) : List (Ev X B) := vs.flatMap Visit.before

theorem browse_eq {l : Listing X V} {query : Cw20Base X → Option Addr → Option ℕ → Exec ContractError (List R)}
    {key : R → Addr} {row : Addr × V → R}
    (hquery : ∀ s start limit, query s start limit = .ok ((page (l.entries s) start (calcLimit limit)).map row))
    (hkey : ∀ e, key (row e) = e.1) (s : Cw20Base X) (start : Option Addr) (vs : List (Visit X B)) :
    browse P T deps query key s start vs = .ok ((pages (requests P T deps l s vs) start).map row) := by
  induction vs generalizing s start with
  | nil => rfl
  | cons v vs ih =>
    have hcursor : ∀ pg : List (Addr × V), ((pg.map row).getLast?.map key).or start = cursor start pg := by
      intro pg
      rw [cursor, List.getLast?_map, Option.map_map]
      exact congrArg (fun f => (pg.getLast?.map f).or start) (funext hkey)
    simp only [browse, hquery, Exec.bind_ok, Except.ok.injEq, exists_eq_left', hcursor, ih, ← List.map_append]
    rfl

/-- A visit is answered on the way. -/
theorem moments_run {s : Cw20Base X} {vs : List (Visit X B)} {m : Cw20Base X × Option ℕ}
    (hm : m ∈ moments P T deps s vs) : ∃ es es', m.1 = run P T deps s es ∧ sent vs = es ++ es' := by
  induction vs generalizing s with
  | nil => cases hm
  | cons v vs ih =>
    rcases List.mem_cons.mp hm with rfl | hm
    · exact ⟨v.before, sent vs, rfl, rfl⟩
    · obtain ⟨es, es', hrun, hsent⟩ := ih hm
      refine ⟨v.before ++ es, es', ?_, ?_⟩
      · rw [hrun, run, run, ← List.foldl_append]
        rfl
      · rw [List.append_assoc, ← hsent]
        rfl

/-- A request is the listing at its moment. -/
theorem requests_eq (l : Listing X V) (s : Cw20Base X) (vs : List (Visit X B)) :
    requests P T deps l s vs =
      (moments P T deps s vs).map fun m => ⟨l.entries m.1, l.sorted m.1, calcLimit m.2⟩ := by
  induction vs generalizing s with
  | nil => rfl
  | cons v vs ih => simp only [requests, moments, ih, List.map_cons]

/-- A visit finds the listing of a storage on the way. -/
theorem requests_state {l : Listing X V} {s : Cw20Base X} {vs : List (Visit X B)} {q : Request Addr V}
    (hq : q ∈ requests P T deps l s vs) :
    ∃ es es', q.listing = l.entries (run P T deps s es) ∧ sent vs = es ++ es' := by
  rw [requests_eq] at hq
  obtain ⟨m, hm, rfl⟩ := List.mem_map.mp hq
  obtain ⟨es, es', hrun, hsent⟩ := moments_run hm
  exact ⟨es, es', by rw [← hrun], hsent⟩

/-! ## The accounts -/

def accounts : Listing X Uint128 := ⟨fun s => s.balances.entries, fun s => s.balances.sorted⟩

theorem accounts_stay {s : Cw20Base X} (h : Reach P T deps s) (es : List (Ev X B)) {a : Addr} (ha : s.balances.has a = true) :
    (run P T deps s es).balances.has a = true := by
  have : Mirror (run P T deps s es) ∧ (run P T deps s es).balances.has a = true := by
    refine run_induct (I := fun s => Mirror s ∧ s.balances.has a = true) (fun {s s' e r} hi hok => ?_)
      ⟨h.inv.paired.mirror, ha⟩ es
    refine ⟨handle_mirror hi.1 hok, ?_⟩
    cases e with
    | exec ctx msg => exact (execute_frame hi.1 hok).accounts a hi.2
    | migrate older =>
      rcases migrate_ok hok with rfl | ⟨-, rfl⟩
      · exact hi.2
      · exact hi.2
  exact this.2

theorem mem_accounts {s : Cw20Base X} {a : Addr} : s.balances.has a = true ↔ ∃ v, (a, v) ∈ (accounts.entries s) := by
  rw [Store.has, Option.isSome_iff_exists]
  exact exists_congr fun v => (s.balances.mem_entries).symm

/-- Whatever happens between the pages: no account is listed twice, the accounts listed are accounts, and when
    a page has room left every account of the start was listed. -/
theorem accounts_browsed {s : Cw20Base X} (h : Reach P T deps s) (vs : List (Visit X B)) :
    ∃ listed, browse P T deps (fun s start limit => .ok (allAccounts s start limit)) id s none vs = .ok listed ∧
      listed.Pairwise (· < ·) ∧ (∀ a ∈ listed, (run P T deps s (sent vs)).balances.has a = true) ∧
      (Exhausted (requests P T deps accounts s vs) none → ∀ a, s.balances.has a = true → a ∈ listed) := by
  have hquery : ∀ (s : Cw20Base X) start limit, (.ok (allAccounts s start limit) : Exec ContractError (List Addr)) =
      .ok ((page (accounts.entries s) start (calcLimit limit)).map Prod.fst) := fun _ _ _ => rfl
  refine ⟨_, browse_eq hquery (fun _ => rfl) s none vs, ?_, ?_, ?_⟩
  · exact List.pairwise_map.mpr (pages_sorted _ _)
  · intro a ha
    obtain ⟨e, he, rfl⟩ := List.mem_map.mp ha
    obtain ⟨q, hq, he⟩ := mem_pages he
    obtain ⟨es, es', hlisting, hsent⟩ := requests_state hq
    have hhas : (run P T deps s es).balances.has e.1 = true := mem_accounts.mpr ⟨e.2, hlisting ▸ he⟩
    rw [hsent, run, List.foldl_append]
    exact accounts_stay (h.run es) es' hhas
  · intro hlast a ha
    refine pages_complete (fun q hq => ?_) rfl hlast
    obtain ⟨es, -, hlisting, -⟩ := requests_state hq
    rw [hlisting]
    exact mem_accounts.mp (accounts_stay h es ha)

/-- Three pages, with an allowance and a transfer from it before the second. -/
def coinVisits : List (Visit (Option ℕ) ℕ) := [⟨[], some 1⟩, ⟨coinRun, some 1⟩, ⟨[], none⟩]

theorem accounts_browsed_coin :
    ∃ listed, browse bare Unit plainDeps (fun s start limit => .ok (allAccounts s start limit)) id (opened coinData) none
        coinVisits = .ok listed ∧
      listed.Pairwise (· < ·) ∧
      (∀ a ∈ listed, (run bare Unit plainDeps (opened coinData) (sent coinVisits)).balances.has a = true) ∧
      (Exhausted (requests bare Unit plainDeps accounts (opened coinData) coinVisits) none →
        ∀ a, (opened (X := Option ℕ) coinData).balances.has a = true → a ∈ listed) :=
  accounts_browsed coin_reach coinVisits

/-! ## The allowances -/

theorem keysUnder_sorted (m : Map Pair (AllowanceResponse X)) (first : Addr) :
    (keysUnder m first).Pairwise fun a b => a.1 < b.1 := by
  refine List.pairwise_map.mpr ((m.sorted.filter _).imp_of_mem fun {a b} ha hb hab => ?_)
  have ha := of_decide_eq_true (List.mem_filter.mp ha).2
  have hb := of_decide_eq_true (List.mem_filter.mp hb).2
  rcases Prod.Lex.lt_iff.mp hab with hlt | ⟨-, hlt⟩
  · rw [ha, hb] at hlt
    exact absurd hlt (lt_irrefl _)
  · exact hlt

theorem mem_keysUnder {m : Map Pair (AllowanceResponse X)} {first second : Addr} {a : AllowanceResponse X} :
    (second, a) ∈ keysUnder m first ↔ m.lookup (toLex (first, second)) = some a := by
  rw [keysUnder, List.mem_map, ← m.mem_entries]
  constructor
  · intro ⟨e, he, heq⟩
    obtain ⟨hmem, hfirst⟩ := List.mem_filter.mp he
    obtain ⟨rfl, rfl⟩ := Prod.mk.inj heq
    rw [← of_decide_eq_true hfirst]
    exact hmem
  · intro hmem
    exact ⟨_, List.mem_filter.mpr ⟨hmem, decide_eq_true rfl⟩, rfl⟩

def spendersOf (owner : Addr) : Listing X (AllowanceResponse X) :=
  ⟨fun s => keysUnder s.allowances owner, fun _ => keysUnder_sorted _ _⟩

def ownersOf (spender : Addr) : Listing X (AllowanceResponse X) :=
  ⟨fun s => keysUnder s.allowancesSpender spender, fun _ => keysUnder_sorted _ _⟩

/-- A page by page reading of `value`: each key at most once, each page what `query` answers at its moment and
    with the values of that moment, and once `full` no key left out that had a value at every moment. -/
structure Faithful (P : Payloads) (T : Type) (deps : Deps X B) (s : Cw20Base X) (vs : List (Visit X B))
    (query : Cw20Base X → Option Addr → Option ℕ → Exec ContractError (List (Addr × V)))
    (value : Cw20Base X → Addr → Option V) (full : Prop) (listed : List (Addr × V)) : Prop where
  ascending : listed.Pairwise fun a b => a.1 < b.1
  had : ∃ pgs, listed = pgs.flatten ∧
    List.Forall₂ (fun m pg => (∃ start, query m.1 start m.2 = .ok pg) ∧ ∀ e ∈ pg, value m.1 e.1 = some e.2)
      (moments P T deps s vs) pgs
  complete : full → ∀ k, (∀ m ∈ moments P T deps s vs, value m.1 k ≠ none) → k ∈ listed.map Prod.fst

theorem pages_faithful {l : Listing X V} {query : Cw20Base X → Option Addr → Option ℕ → Exec ContractError (List (Addr × V))}
    {value : Cw20Base X → Addr → Option V} {s : Cw20Base X} {vs : List (Visit X B)}
    (hquery : ∀ s start limit, query s start limit = .ok (page (l.entries s) start (calcLimit limit)))
    (hvalue : ∀ m ∈ moments P T deps s vs, ∀ k v, (k, v) ∈ l.entries m.1 ↔ value m.1 k = some v) :
    Faithful P T deps s vs query value (Exhausted (requests P T deps l s vs) none)
      (pages (requests P T deps l s vs) none) := by
  refine ⟨pages_sorted _ _, ?_, fun hlast k hk => ?_⟩
  · obtain ⟨pgs, hpgs, hall⟩ := pages_eq_flatten (requests P T deps l s vs) none
    rw [requests_eq, List.forall₂_map_left_iff] at hall
    refine ⟨pgs, hpgs, forall₂_imp_mem hall ?_⟩
    intro m hm pg hpg
    obtain ⟨start, rfl⟩ := hpg
    refine ⟨⟨start, hquery m.1 start m.2⟩, ?_⟩
    intro e he
    exact (hvalue m hm e.1 e.2).mp ((page_sublist _ start).subset he)
  · refine pages_complete (fun q hq => ?_) rfl hlast
    rw [requests_eq] at hq
    obtain ⟨m, hm, rfl⟩ := List.mem_map.mp hq
    obtain ⟨v, hv⟩ := Option.ne_none_iff_exists'.mp (hk m hm)
    exact ⟨v, (hvalue m hm k v).mpr hv⟩

/-- Both listings of allowances are faithful readings of the allowances by owner and spender. -/
theorem allowances_browsed {s : Cw20Base X} (h : Reach P T deps s) (vs : List (Visit X B)) :
    (∀ owner, deps.api.Valid owner → ∃ listed,
      browse P T deps (fun s start limit => allAllowances deps s owner start limit) Prod.fst s none vs = .ok listed ∧
      Faithful P T deps s vs (fun s start limit => allAllowances deps s owner start limit)
        (fun s spender => s.allowances.lookup (toLex (owner, spender)))
        (Exhausted (requests P T deps (spendersOf owner) s vs) none) listed) ∧
    ∀ spender, deps.api.Valid spender → ∃ listed,
      browse P T deps (fun s start limit => allSpenderAllowances deps s spender start limit) Prod.fst s none vs = .ok listed ∧
      Faithful P T deps s vs (fun s start limit => allSpenderAllowances deps s spender start limit)
        (fun s owner => s.allowances.lookup (toLex (owner, spender)))
        (Exhausted (requests P T deps (ownersOf spender) s vs) none) listed := by
  constructor
  · intro owner hvalid
    have hquery : ∀ s start limit, allAllowances deps s owner start limit =
        .ok (page ((spendersOf owner).entries s) start (calcLimit limit)) := by
      intro s start limit
      simp [allAllowances, hvalid, spendersOf]
    have hrows : ∀ s start limit, allAllowances deps s owner start limit =
        .ok ((page ((spendersOf owner).entries s) start (calcLimit limit)).map id) := by
      simpa only [List.map_id] using hquery
    refine ⟨_, browse_eq hrows (fun _ => rfl) s none vs, ?_⟩
    rw [List.map_id]
    exact pages_faithful hquery fun m _ k v => mem_keysUnder
  · intro spender hvalid
    have hquery : ∀ s start limit, allSpenderAllowances deps s spender start limit =
        .ok (page ((ownersOf spender).entries s) start (calcLimit limit)) := by
      intro s start limit
      simp [allSpenderAllowances, hvalid, ownersOf]
    have hrows : ∀ s start limit, allSpenderAllowances deps s spender start limit =
        .ok ((page ((ownersOf spender).entries s) start (calcLimit limit)).map id) := by
      simpa only [List.map_id] using hquery
    refine ⟨_, browse_eq hrows (fun _ => rfl) s none vs, ?_⟩
    rw [List.map_id]
    refine pages_faithful hquery fun m hm k v => ?_
    obtain ⟨es, -, hrun, -⟩ := moments_run hm
    rw [ownersOf, mem_keysUnder, hrun, (h.run es).inv.paired.mirror]

theorem allowances_browsed_coin :
    (∀ owner, plainDeps.api.Valid owner → ∃ listed,
      browse bare Unit plainDeps (fun s start limit => allAllowances plainDeps s owner start limit) Prod.fst (opened coinData)
        none coinVisits = .ok listed ∧
      Faithful bare Unit plainDeps (opened coinData) coinVisits
        (fun s start limit => allAllowances plainDeps s owner start limit)
        (fun s spender => s.allowances.lookup (toLex (owner, spender)))
        (Exhausted (requests bare Unit plainDeps (spendersOf owner) (opened coinData) coinVisits) none) listed) ∧
    ∀ spender, plainDeps.api.Valid spender → ∃ listed,
      browse bare Unit plainDeps (fun s start limit => allSpenderAllowances plainDeps s spender start limit) Prod.fst
        (opened coinData) none coinVisits = .ok listed ∧
      Faithful bare Unit plainDeps (opened coinData) coinVisits
        (fun s start limit => allSpenderAllowances plainDeps s spender start limit)
        (fun s owner => s.allowances.lookup (toLex (owner, spender)))
        (Exhausted (requests bare Unit plainDeps (ownersOf spender) (opened coinData) coinVisits) none) listed :=
  allowances_browsed coin_reach coinVisits

end Sylvia.Cw20
