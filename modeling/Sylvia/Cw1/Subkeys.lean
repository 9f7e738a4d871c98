/-
  Sylvia.Cw1.Subkeys — the subkeys contract (`examples/contracts/cw1-subkeys/src`).

  The whitelist contract is embedded: its admins may send any message through the contract
  and give others allowances and permissions. `cw_utils`' balance is a parameter (`Balances`),
  and so is its expiration. Values in storage parse, so `is_authorized` answers no error.

  Proved:
  - `execute_exact`: messages are sent on exactly when each may be sent by itself, and the
    storage stays as it is: what a message spends is not taken off the allowance.
  - `exec_did`: what each message does; `outsiders`: only an admin's message changes the
    storage.
  - `spenders_browsed`, `permissions_browsed`: read page by page, whatever happens in
    between, each spender is listed at most once, with what the query for it alone answers,
    and none that stays is missed.
-/
import Sylvia.Base.Paging
import Sylvia.Cw1.Whitelist

namespace Sylvia.Cw1

open Sylvia.Base Sylvia.CwStd

structure Permissions where
  delegate : Bool
  redelegate : Bool
  undelegate : Bool
  withdraw : Bool
  deriving DecidableEq, Repr

/-- `Permissions::default()`. -/
def Permissions.default : Permissions := ⟨false, false, false, false⟩

instance : ToString Permissions := ⟨fun p =>
  s!"staking: \x7b delegate: {p.delegate}, redelegate: {p.redelegate}, undelegate: {p.undelegate}, withdraw: {p.withdraw} \x7d"⟩

/-- `cw_utils::NativeBalance`. -/
structure Balances (N : Type) where
  default : N
  /-- `+=` of a coin; it may panic. -/
  add : N → Coin → Option N
  subSaturating : N → Coin → Except Fault N
  /-- `-` of coins. -/
  sub : N → List Coin → Except Fault N
  isEmpty : N → Bool

structure Allowance (X N : Type) where
  balance : N
  expires : X
  deriving DecidableEq, Repr

/-- The contract's storage. -/
structure Cw1Subkeys (X N : Type) where
  whitelist : Whitelist
  permissions : Map Addr Permissions
  allowances : Map Addr (Allowance X N)

namespace Subkeys

inductive ContractError (X : Type) where
  | std (e : Fault)
  | unauthorized
  | contractFrozen
  | cannotSetOwnAccount
  | noAllowance
  | settingExpiredAllowance (expires : X)
  deriving DecidableEq, Repr

instance {X : Type} : FromStd (ContractError X) := ⟨.std⟩

/-- `From<WhitelistError>`. -/
def ContractError.ofWhitelist {X : Type} : Whitelist.ContractError → ContractError X
  | .unauthorized => .unauthorized
  | .contractFrozen => .contractFrozen
  | .std e => .std e

/-- What the contract calls and does not define. -/
structure Deps (X B N : Type) where
  host : Host
  expirations : Expirations X B
  balances : Balances N

structure Ctx (B : Type) where
  block : B
  sender : Addr
  deriving DecidableEq, Repr

variable {X B N T : Type} {P : Payloads}

def new : Cw1Subkeys X N := ⟨.new, .empty, .empty⟩

/-- `?` on a call of the embedded contract. -/
def call {R : Type} (x : Exec Whitelist.ContractError R) : Exec (ContractError X) R :=
  match x with
  | .ok r => .ok r
  | .error (.err e) => Exec.fail (.ofWhitelist e)
  | .error .panicked => Exec.panic

def instantiate (deps : Deps X B N) (admins : List String) (mutable : Bool) :
    Exec (ContractError X) (Cw1Subkeys X N × Response P.withModules T) := do
  let (whitelist, result) ← call (Whitelist.instantiate deps.host admins mutable)
  .ok ({ new with whitelist }, result)

/-! ## Messages of the admins -/

/-- The closure of `increase_allowance`: an allowance that has expired counts as none. -/
def increaseFn (deps : Deps X B N) (block : B) (amount : Coin) (expires : Option X) (allow : Option (Allowance X N)) :
    Exec (ContractError X) (Allowance X N) := do
  let prevExpires := (allow.map Allowance.expires).getD deps.expirations.default
  let allowance := (allow.filter fun allow => !deps.expirations.isExpired allow.expires block).getD
    ⟨deps.balances.default, deps.expirations.default⟩
  let allowance ← (match expires with
    | some exp =>
      if deps.expirations.isExpired exp block then Exec.fail (.settingExpiredAllowance exp)
      else .ok { allowance with expires := exp }
    | none =>
      if deps.expirations.isExpired prevExpires block then Exec.fail (.settingExpiredAllowance prevExpires)
      else .ok allowance)
  let balance ← (match deps.balances.add allowance.balance amount with
    | some balance => .ok balance
    | none => Exec.panic)
  .ok { allowance with balance }

def increaseAllowance (deps : Deps X B N) (s : Cw1Subkeys X N) (ctx : Ctx B) (spender : String) (amount : Coin)
    (expires : Option X) : Exec (ContractError X) (Cw1Subkeys X N × Response P.withModules T) := do
  Exec.ensure (s.whitelist.isAdmin ctx.sender) .unauthorized
  let spender ← deps.host.api.validate spender
  Exec.ensure (ctx.sender ≠ spender) .cannotSetOwnAccount
  let allowances ← s.allowances.update spender (increaseFn deps ctx.block amount expires)
  let res := Response.new
    |>.addAttribute "action" "increase_allowance"
    |>.addAttribute "owner" ctx.sender
    |>.addAttribute "spender" spender
    |>.addAttribute "denomination" amount.denom
    |>.addAttribute "amount" (toString amount.amount)
  .ok ({ s with allowances }, res)

/-- The closure of `decrease_allowance`. -/
def decreaseFn (deps : Deps X B N) (block : B) (amount : Coin) (expires : Option X) (allow : Option (Allowance X N)) :
    Exec (ContractError X) (Allowance X N) := do
  let allowance ← Exec.okOr .noAllowance (allow.filter fun allow => !deps.expirations.isExpired allow.expires block)
  let allowance ← (match expires with
    | some exp =>
      if deps.expirations.isExpired exp block then Exec.fail (.settingExpiredAllowance exp)
      else .ok { allowance with expires := exp }
    | none => .ok allowance)
  let balance ← (match deps.balances.subSaturating allowance.balance amount with
    | .ok balance => .ok balance
    | .error e => Exec.fail (.std e))
  .ok { allowance with balance }

/-- An allowance left empty is removed. -/
def decreaseAllowance (deps : Deps X B N) (s : Cw1Subkeys X N) (ctx : Ctx B) (spender : String) (amount : Coin)
    (expires : Option X) : Exec (ContractError X) (Cw1Subkeys X N × Response P.withModules T) := do
  Exec.ensure (s.whitelist.isAdmin ctx.sender) .unauthorized
  let spender ← deps.host.api.validate spender
  Exec.ensure (ctx.sender ≠ spender) .cannotSetOwnAccount
  let allowance ← decreaseFn deps ctx.block amount expires (s.allowances.lookup spender)
  let allowances := s.allowances.save spender allowance
  let allowances := if deps.balances.isEmpty allowance.balance then allowances.remove spender else allowances
  let res := Response.new
    |>.addAttribute "action" "decrease_allowance"
    |>.addAttribute "owner" ctx.sender
    |>.addAttribute "spender" spender
    |>.addAttribute "denomination" amount.denom
    |>.addAttribute "amount" (toString amount.amount)
  .ok ({ s with allowances }, res)

def setPermissions (deps : Deps X B N) (s : Cw1Subkeys X N) (ctx : Ctx B) (spender : String) (permissions : Permissions) :
    Exec (ContractError X) (Cw1Subkeys X N × Response P.withModules T) := do
  Exec.ensure (s.whitelist.isAdmin ctx.sender) .unauthorized
  let spender ← deps.host.api.validate spender
  Exec.ensure (ctx.sender ≠ spender) .cannotSetOwnAccount
  let res := Response.new
    |>.addAttribute "action" "set_permissions"
    |>.addAttribute "owner" ctx.sender
    |>.addAttribute "spender" spender
    |>.addAttribute "permissions" (toString permissions)
  .ok ({ s with permissions := s.permissions.save spender permissions }, res)

/-- `Whitelist::freeze`. -/
def freeze (s : Cw1Subkeys X N) (ctx : Ctx B) : Exec (ContractError X) (Cw1Subkeys X N × Response P.withModules T) := do
  let (whitelist, res) ← call (s.whitelist.freeze ctx.sender)
  .ok ({ s with whitelist }, res)

/-- `Whitelist::update_admins`. -/
def updateAdmins (deps : Deps X B N) (s : Cw1Subkeys X N) (ctx : Ctx B) (admins : List String) :
    Exec (ContractError X) (Cw1Subkeys X N × Response P.withModules T) := do
  let (whitelist, res) ← call (Whitelist.updateAdmins deps.host s.whitelist ctx.sender admins)
  .ok ({ s with whitelist }, res)

/-! ## Messages sent on -/

def isAuthorized (deps : Deps X B N) (s : Cw1Subkeys X N) (block : B) (sender : Addr) (msg : CosmosMsg P.withModules T) : Bool :=
  if s.whitelist.isAdmin sender then true
  else
    match msg with
    | .bank (.send _ amount) =>
      match s.allowances.lookup sender with
      | some allow =>
        !deps.expirations.isExpired allow.expires block && (deps.balances.sub allow.balance amount).isOk
      | none => false
    | .staking stakingMsg =>
      match s.permissions.lookup sender with
      | some permissions =>
        match stakingMsg with
        | .delegate .. => permissions.delegate
        | .undelegate .. => permissions.undelegate
        | .redelegate .. => permissions.redelegate
      | none => false
    | .distribution distributionMsg =>
      match s.permissions.lookup sender with
      | some permissions =>
        match distributionMsg with
        | .setWithdrawAddress _ | .withdrawDelegatorReward _ => permissions.withdraw
        | .fundCommunityPool _ => false
      | none => false
    | _ => false

/-- `Cw1::execute`. -/
def execute (deps : Deps X B N) (s : Cw1Subkeys X N) (ctx : Ctx B) (msgs : List (CosmosMsg P.withModules T)) :
    Exec (ContractError X) (Response P.withModules T) := do
  let authorized := msgs.foldl (fun acc msg => acc && isAuthorized deps s ctx.block ctx.sender msg) true
  Exec.ensure authorized .unauthorized
  .ok (Response.new
    |>.addMessages msgs
    |>.addAttribute "action" "execute"
    |>.addAttribute "owner" ctx.sender)

def canExecute (deps : Deps X B N) (s : Cw1Subkeys X N) (block : B) (sender : String) (msg : CosmosMsg P.withModules T) : Bool :=
  isAuthorized deps s block sender msg

/-! ## Queries -/

def allowance (deps : Deps X B N) (s : Cw1Subkeys X N) (block : B) (spender : String) : Allowance X N :=
  ((s.allowances.lookup spender).filter fun allow => !deps.expirations.isExpired allow.expires block).getD
    ⟨deps.balances.default, deps.expirations.default⟩

def permissions (s : Cw1Subkeys X N) (spender : String) : Permissions := (s.permissions.lookup spender).getD .default

def calcLimit (request : Option ℕ) : ℕ := min (request.getD 10) 30

def allAllowances (deps : Deps X B N) (s : Cw1Subkeys X N) (block : B) (startAfter : Option String) (limit : Option ℕ) :
    List (Addr × Allowance X N) :=
  (((s.allowances.range startAfter).filter fun e => !deps.expirations.isExpired e.2.expires block)).take (calcLimit limit)

def allPermissions (s : Cw1Subkeys X N) (startAfter : Option String) (limit : Option ℕ) : List (Addr × Permissions) :=
  (s.permissions.range startAfter).take (calcLimit limit)

/-! ## The contract on a chain -/

inductive Msg (X : Type) (P : Payloads) (T : Type) where
  | increaseAllowance (spender : String) (amount : Coin) (expires : Option X)
  | decreaseAllowance (spender : String) (amount : Coin) (expires : Option X)
  | setPermissions (spender : String) (permissions : Permissions)
  | execute (msgs : List (CosmosMsg P.withModules T))
  | freeze
  | updateAdmins (admins : List String)

def exec (deps : Deps X B N) (s : Cw1Subkeys X N) (ctx : Ctx B) :
    Msg X P T → Exec (ContractError X) (Cw1Subkeys X N × Response P.withModules T)
  | .increaseAllowance spender amount expires => increaseAllowance deps s ctx spender amount expires
  | .decreaseAllowance spender amount expires => decreaseAllowance deps s ctx spender amount expires
  | .setPermissions spender permissions => setPermissions deps s ctx spender permissions
  | .execute msgs => do
    let res ← execute deps s ctx msgs
    .ok (s, res)
  | .freeze => freeze s ctx
  | .updateAdmins admins => updateAdmins deps s ctx admins

structure Ev (X B : Type) (P : Payloads) (T : Type) where
  ctx : Ctx B
  msg : Msg X P T

/-- The storage after a message; one that fails leaves it. -/
def step (deps : Deps X B N) (s : Cw1Subkeys X N) (e : Ev X B P T) : Cw1Subkeys X N :=
  match exec deps s e.ctx e.msg with
  | .ok (s', _) => s'
  | .error _ => s

def run (deps : Deps X B N) (s : Cw1Subkeys X N) (es : List (Ev X B P T)) : Cw1Subkeys X N := es.foldl (step deps) s

/-! ## The listings -/

/-- When a page is answered. -/
structure Moment (X B N : Type) where
  storage : Cw1Subkeys X N
  block : B
  limit : Option ℕ

/-- What a client gets who asks for each page after the last key it has seen. -/
def browse {V : Type} (query : Cw1Subkeys X N → B → Option Addr → Option ℕ → List (Addr × V)) :
    List (Moment X B N) → Option Addr → List (Addr × V)
  | [], _ => []
  | m :: ms, start =>
    let pg := query m.storage m.block start m.limit
    pg ++ browse query ms (cursor start pg)

/-- The page of the last moment has room left. -/
def LastHasRoom {V : Type} (query : Cw1Subkeys X N → B → Option Addr → Option ℕ → List (Addr × V)) :
    List (Moment X B N) → Option Addr → Prop
  | [], _ => False
  | [m], start => (query m.storage m.block start m.limit).length < calcLimit m.limit
  | m :: ms, start => LastHasRoom query ms (cursor start (query m.storage m.block start m.limit))

/-- The entries of a store that `keep` lets through, as a moment finds them. -/
def Moment.request {V : Type} (m : Moment X B N) (of : Cw1Subkeys X N → Store Addr V) (keep : B → V → Bool) :
    Request Addr V :=
  ⟨(of m.storage).entries.filter fun e => keep m.block e.2, (of m.storage).sorted.filter _, calcLimit m.limit⟩

/-- A query that lists these entries is answered by the pages of the requests. -/
theorem browse_eq {V : Type} {query : Cw1Subkeys X N → B → Option Addr → Option ℕ → List (Addr × V)}
    (of : Cw1Subkeys X N → Store Addr V) (keep : B → V → Bool)
    (hquery : ∀ s block start limit, query s block start limit =
      (((of s).range start).filter fun e => keep block e.2).take (calcLimit limit))
    (ms : List (Moment X B N)) (start : Option Addr) :
    browse query ms start = pages (ms.map fun m => m.request of keep) start ∧
      (LastHasRoom query ms start ↔ Exhausted (ms.map fun m => m.request of keep) start) := by
  have hpage : ∀ (m : Moment X B N) start, query m.storage m.block start m.limit = (m.request of keep).page start := by
    intro m start
    rw [hquery, Store.range, List.filter_comm]
    rfl
  induction ms generalizing start with
  | nil => exact ⟨rfl, Iff.rfl⟩
  | cons m ms ih =>
    obtain ⟨hlisted, hroom⟩ := ih (cursor start ((m.request of keep).page start))
    constructor
    · simp only [browse, hpage, hlisted, List.map_cons, pages]
    · cases ms with
      | nil => simp only [LastHasRoom, hpage, List.map_cons, List.map_nil, Exhausted, Moment.request]
      | cons m' ms => simpa only [LastHasRoom, hpage, List.map_cons, Exhausted] using hroom

/-- Whatever happens between the pages: no key is listed twice, each with a value it had when a page was answered,
    and once a page has room left every key that was there for every page is listed. -/
theorem browsed {V : Type} {query : Cw1Subkeys X N → B → Option Addr → Option ℕ → List (Addr × V)}
    (of : Cw1Subkeys X N → Store Addr V) (keep : B → V → Bool)
    (hquery : ∀ s block start limit, query s block start limit =
      (((of s).range start).filter fun e => keep block e.2).take (calcLimit limit)) (ms : List (Moment X B N)) :
    (browse query ms none).Pairwise (fun e e' => e.1 < e'.1) ∧
    (∀ e ∈ browse query ms none, ∃ m ∈ ms, ((of m.storage).lookup e.1).filter (keep m.block) = some e.2) ∧
    (LastHasRoom query ms none → ∀ a, (∀ m ∈ ms, (((of m.storage).lookup a).filter (keep m.block)).isSome) →
      a ∈ (browse query ms none).map Prod.fst) := by
  have hentry : ∀ (m : Moment X B N) (a : Addr) (v : V), (a, v) ∈ (m.request of keep).listing ↔
      ((of m.storage).lookup a).filter (keep m.block) = some v := by
    intro m a v
    rw [Moment.request, List.mem_filter, Store.mem_entries, Option.filter_eq_some_iff]
  obtain ⟨hlisted, hroom⟩ := browse_eq of keep hquery ms none
  rw [hlisted, hroom]
  refine ⟨pages_sorted _ _, ?_, ?_⟩
  · intro e he
    obtain ⟨q, hq, he⟩ := mem_pages he
    obtain ⟨m, hm, rfl⟩ := List.mem_map.mp hq
    exact ⟨m, hm, (hentry m e.1 e.2).mp he⟩
  · intro hlast a hstay
    refine pages_complete (fun q hq => ?_) rfl hlast
    obtain ⟨m, hm, rfl⟩ := List.mem_map.mp hq
    obtain ⟨v, hv⟩ := Option.isSome_iff_exists.mp (hstay m hm)
    exact ⟨v, (hentry m a v).mpr hv⟩

/-- The allowances listed are those the query for one spender answers. -/
theorem spenders_browsed (deps : Deps X B N) (ms : List (Moment X B N)) :
    (browse (allAllowances deps) ms none).Pairwise (fun e e' => e.1 < e'.1) ∧
    (∀ e ∈ browse (allAllowances deps) ms none, ∃ m ∈ ms, allowance deps m.storage m.block e.1 = e.2) ∧
    (LastHasRoom (allAllowances deps) ms none → ∀ spender,
      (∀ m ∈ ms, ∃ a, m.storage.allowances.lookup spender = some a ∧ deps.expirations.isExpired a.expires m.block = false) →
      spender ∈ (browse (allAllowances deps) ms none).map Prod.fst) := by
  obtain ⟨hsorted, hlisted, hall⟩ := browsed Cw1Subkeys.allowances
    (fun block allow => !deps.expirations.isExpired allow.expires block) (fun _ _ _ _ => rfl) ms
  refine ⟨hsorted, fun e he => ?_, fun hlast spender hstay => hall hlast spender fun m hm => ?_⟩
  · obtain ⟨m, hm, hlookup⟩ := hlisted e he
    exact ⟨m, hm, by rw [allowance, hlookup, Option.getD_some]⟩
  · obtain ⟨a, ha, hexpires⟩ := hstay m hm
    simp [ha, hexpires]

theorem permissions_browsed (ms : List (Moment X B N)) :
    (browse (fun s _ => allPermissions s) ms none).Pairwise (fun e e' => e.1 < e'.1) ∧
    (∀ e ∈ browse (fun s _ => allPermissions s) ms none, ∃ m ∈ ms, permissions m.storage e.1 = e.2) ∧
    (LastHasRoom (fun s _ => allPermissions s) ms none → ∀ spender,
      (∀ m ∈ ms, m.storage.permissions.has spender = true) →
      spender ∈ (browse (fun s _ => allPermissions s) ms none).map Prod.fst) := by
  obtain ⟨hsorted, hlisted, hall⟩ := browsed (X := X) (B := B) (N := N) Cw1Subkeys.permissions (fun _ _ => true)
    (fun s _ start limit => show allPermissions s start limit = _ by simp [allPermissions]) ms
  refine ⟨hsorted, fun e he => ?_, fun hlast spender hstay => hall hlast spender fun m hm => ?_⟩
  · obtain ⟨m, hm, hlookup⟩ := hlisted e he
    have hlookup : m.storage.permissions.lookup e.1 = some e.2 := by simpa using hlookup
    exact ⟨m, hm, by rw [permissions, hlookup, Option.getD_some]⟩
  · have := hstay m hm
    simpa [Store.has] using this

/-! ## Sending on -/

theorem foldl_and {A : Type} (p : A → Bool) (xs : List A) (b : Bool) :
    xs.foldl (fun acc x => acc && p x) b = (b && xs.all p) := by
  induction xs generalizing b with
  | nil => simp
  | cons x xs ih => rw [List.foldl_cons, ih, List.all_cons, Bool.and_assoc]

/-- Messages are sent on exactly when each may be, in their order and with nothing else. -/
theorem execute_exact {deps : Deps X B N} {s : Cw1Subkeys X N} {ctx : Ctx B} {msgs : List (CosmosMsg P.withModules T)} :
    ((execute deps s ctx msgs).Returns ↔ ∀ msg ∈ msgs, canExecute deps s ctx.block ctx.sender msg = true) ∧
    ∀ res, execute deps s ctx msgs = .ok res → res.messages = msgs.map SubMsg.new := by
  simp only [execute, foldl_and, Bool.true_and]
  constructor
  · simp [canExecute]
  · intro res h
    simp only [Exec.bind_ok, Except.ok.injEq] at h
    obtain ⟨_, -, rfl⟩ := h
    rfl

/-! ## Who changes the storage -/

theorem call_ok {R : Type} {x : Exec Whitelist.ContractError R} {r : R} :
    (call x : Exec (ContractError X) R) = .ok r ↔ x = .ok r := by
  rcases x with (e | _) | r' <;> simp [call]

/-- What a message that returned has done. -/
inductive Did (deps : Deps X B N) (s : Cw1Subkeys X N) (ctx : Ctx B) : Msg X P T → Cw1Subkeys X N → Prop
  | execute (msgs : List (CosmosMsg P.withModules T)) : Did deps s ctx (.execute msgs) s
  | increase {spender : String} {amount : Coin} {expires : Option X} {a : Allowance X N} :
    s.whitelist.isAdmin ctx.sender = true → increaseFn deps ctx.block amount expires (s.allowances.lookup spender) = .ok a →
    Did deps s ctx (.increaseAllowance spender amount expires) { s with allowances := s.allowances.save spender a }
  | decrease {spender : String} {amount : Coin} {expires : Option X} {a : Allowance X N} :
    s.whitelist.isAdmin ctx.sender = true → decreaseFn deps ctx.block amount expires (s.allowances.lookup spender) = .ok a →
    Did deps s ctx (.decreaseAllowance spender amount expires) { s with
      allowances := if deps.balances.isEmpty a.balance then (s.allowances.save spender a).remove spender
        else s.allowances.save spender a }
  | permit {spender : String} {permissions : Permissions} : s.whitelist.isAdmin ctx.sender = true →
    Did deps s ctx (.setPermissions spender permissions) { s with permissions := s.permissions.save spender permissions }
  | freeze : s.whitelist.isAdmin ctx.sender = true →
    Did deps s ctx .freeze { s with whitelist := { s.whitelist with mutable := some false } }
  | update {admins : List String} {w : Whitelist} : s.whitelist.isAdmin ctx.sender = true →
    s.whitelist.mutable = some true → Did deps s ctx (.updateAdmins admins) { s with whitelist := w }

theorem exec_did {deps : Deps X B N} {s s' : Cw1Subkeys X N} {ctx : Ctx B} {msg : Msg X P T} {r : Response P.withModules T}
    (h : exec deps s ctx msg = .ok (s', r)) : Did deps s ctx msg s' := by
  cases msg with
  | execute msgs =>
    simp only [exec, Exec.bind_ok, Except.ok.injEq, Prod.mk.injEq] at h
    obtain ⟨_, -, rfl, -⟩ := h
    exact .execute msgs
  | increaseAllowance spender amount expires =>
    simp only [exec, increaseAllowance, Exec.bind_ok, Exec.ensure_ok, Api.validate_ok, Map.update_ok, Except.ok.injEq,
      Prod.mk.injEq] at h
    obtain ⟨_, hadmin, _, ⟨-, rfl⟩, _, -, _, ⟨a, ha, rfl⟩, rfl, -⟩ := h
    exact .increase hadmin ha
  | decreaseAllowance spender amount expires =>
    simp only [exec, decreaseAllowance, Exec.bind_ok, Exec.ensure_ok, Api.validate_ok, Except.ok.injEq, Prod.mk.injEq] at h
    obtain ⟨_, hadmin, _, ⟨-, rfl⟩, _, -, a, ha, rfl, -⟩ := h
    exact .decrease hadmin ha
  | setPermissions spender permissions =>
    simp only [exec, setPermissions, Exec.bind_ok, Exec.ensure_ok, Api.validate_ok, Except.ok.injEq, Prod.mk.injEq] at h
    obtain ⟨_, hadmin, _, ⟨-, rfl⟩, _, -, rfl, -⟩ := h
    exact .permit hadmin
  | freeze =>
    simp only [exec, freeze, Exec.bind_ok, call_ok, Whitelist.freeze, Exec.ite_ok, Exec.fail_ne_ok, and_false, false_or,
      Except.ok.injEq, Bool.not_eq_true', Bool.not_eq_false] at h
    obtain ⟨_, ⟨hadmin, rfl⟩, h⟩ := h
    cases h
    exact .freeze hadmin
  | updateAdmins admins =>
    simp only [exec, updateAdmins, Exec.bind_ok, call_ok] at h
    obtain ⟨⟨w, res⟩, hw, h⟩ := h
    cases h
    obtain ⟨hadmin, hmutable, -⟩ := Whitelist.updateAdmins_ok.mp ⟨res, hw⟩
    exact .update hadmin hmutable

/-- Only an admin's message changes the storage. -/
theorem Did.admin {deps : Deps X B N} {s s' : Cw1Subkeys X N} {ctx : Ctx B} {msg : Msg X P T} (h : Did deps s ctx msg s') :
    s' = s ∨ s.whitelist.isAdmin ctx.sender = true := by
  cases h with
  | execute => exact Or.inl rfl
  | increase hadmin | decrease hadmin | permit hadmin | freeze hadmin | update hadmin => exact Or.inr hadmin

theorem step_cases (deps : Deps X B N) (s : Cw1Subkeys X N) (e : Ev X B P T) :
    (∃ r, exec deps s e.ctx e.msg = .ok (step deps s e, r)) ∨ step deps s e = s := by
  unfold step
  cases exec deps s e.ctx e.msg with
  | ok sr => exact Or.inl ⟨sr.2, rfl⟩
  | error => exact Or.inr rfl

/-- What every message keeps holds after every run. -/
theorem run_induct {deps : Deps X B N} {I : Cw1Subkeys X N → Prop}
    (hkeep : ∀ {s s' : Cw1Subkeys X N} {ctx : Ctx B} {msg : Msg X P T}, I s → Did deps s ctx msg s' → I s')
    {s : Cw1Subkeys X N} (h : I s) (es : List (Ev X B P T)) : I (run deps s es) := by
  induction es generalizing s with
  | nil => exact h
  | cons e es ih =>
    refine ih ?_
    rcases step_cases deps s e with ⟨r, hr⟩ | hs
    · exact hkeep h (exec_did hr)
    · rw [hs]
      exact h

/-- A run without a message of an admin leaves the storage, and with it what everybody may do. -/
theorem outsiders {deps : Deps X B N} {s : Cw1Subkeys X N} {es : List (Ev X B P T)}
    (h : ∀ e ∈ es, s.whitelist.isAdmin e.ctx.sender = false) : run deps s es = s := by
  induction es with
  | nil => rfl
  | cons e es ih =>
    have hstep : step deps s e = s := by
      rcases step_cases deps s e with ⟨r, hr⟩ | hs
      · refine (exec_did hr).admin.resolve_right fun hadmin => ?_
        rw [h e List.mem_cons_self] at hadmin
        cases hadmin
      · exact hs
    rw [run, List.foldl_cons, hstep]
    exact ih fun e' he' => h e' (List.mem_cons_of_mem _ he')

end Subkeys

end Sylvia.Cw1
