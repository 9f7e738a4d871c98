/-
  Sylvia.CwStd.Contract — what contract code is written against: the chain's address
  check, storage maps and items, the messages of the wasm module, and the rest of
  `Response`.

  An address is the text it was made from. A storage map is a `Store`: `range` walks its
  keys in ascending order of their bytes, which for text is the order of `String`. An
  item is an `Option`. `update` loads, applies and saves.
-/
import Mathlib.Data.String.Basic
import Sylvia.Base.Store
import Sylvia.CwStd
import Sylvia.CwStd.Math

namespace Sylvia.CwStd

open Sylvia.Base

abbrev Addr := String

/-- `Api::addr_validate`: an address it accepts holds the same text. -/
structure Api where
  addrValidate : String → Except Fault Addr
  same : ∀ s a, addrValidate s = .ok a → a = s

namespace Api

variable {E : Type} [FromStd E]

def validate (api : Api) (human : String) : Exec E Addr :=
  match api.addrValidate human with
  | .ok addr => .ok addr
  | .error e => Exec.fail (FromStd.std e)

def Valid (api : Api) (human : String) : Prop := ∃ addr, api.addrValidate human = .ok addr

instance (api : Api) (human : String) : Decidable (api.Valid human) :=
  match h : api.addrValidate human with
  | .ok addr => .isTrue ⟨addr, h⟩
  | .error _ => .isFalse fun ⟨_, ha⟩ => nomatch h.symm.trans ha

@[simp] theorem validate_ok {api : Api} {human : String} {addr : Addr} :
    (api.validate human : Exec E Addr) = .ok addr ↔ api.Valid human ∧ addr = human := by
  unfold validate Valid
  cases h : api.addrValidate human with
  | ok a => simp [api.same human a h, eq_comm]
  | error e => simp

@[simp] theorem validate_panics {api : Api} {human : String} : (api.validate human : Exec E Addr).Panics ↔ False := by
  unfold validate
  cases api.addrValidate human <;> simp

end Api

/-- When an allowance ends, over the chain's block; `cw_utils::Expiration`. -/
structure Expirations (X B : Type) where
  isExpired : X → B → Bool
  /-- `Expiration::default()`. -/
  default : X

/-- `Expiration::AtHeight`, or `Never` as `none`. -/
def byHeight : Expirations (Option ℕ) ℕ := ⟨fun x height => x.any (· ≤ height), none⟩

/-- Texts of at least three bytes are addresses. -/
def plainApi : Api where
  addrValidate human := if human.utf8ByteSize < 3 then .error (.generic "human address too short") else .ok human
  same s a h := by
    split at h
    · cases h
    · cases h
      rfl

/-- Messages without contents. -/
abbrev bare : Payloads := ⟨Unit, Unit, Unit, Unit, Unit, Unit, Unit, Unit⟩

/-! ## Storage -/

abbrev Map (K V : Type) [LinearOrder K] := Store K V

namespace Map

variable {E K V : Type} [LinearOrder K]

def load [FromStd E] (m : Map K V) (k : K) : Exec E V := Exec.okOr (FromStd.std .absent) (m.lookup k)

def update (m : Map K V) (k : K) (action : Option V → Exec E V) : Exec E (Map K V) := do
  let v ← action (m.lookup k)
  .ok (m.save k v)

theorem update_ok {m m' : Map K V} {k : K} {action : Option V → Exec E V} :
    m.update k action = .ok m' ↔ ∃ v, action (m.lookup k) = .ok v ∧ m.save k v = m' := by
  simp [update]

@[simp] theorem update_panics {m : Map K V} {k : K} {action : Option V → Exec E V} :
    (m.update k action).Panics ↔ (action (m.lookup k)).Panics := by
  simp [update]

end Map

abbrev Item (V : Type) := Option V

namespace Item

variable {E V : Type} [FromStd E]

def load (item : Item V) : Exec E V := Exec.okOr (FromStd.std .absent) item

def update (item : Item V) (action : V → Exec E V) : Exec E (Item V) := do
  let v ← load item
  let v ← action v
  .ok (some v)

theorem update_ok {item item' : Item V} {action : V → Exec E V} :
    item.update action = .ok item' ↔ ∃ v, item = some v ∧ ∃ v', action v = .ok v' ∧ some v' = item' := by
  simp [update, load]

@[simp] theorem update_panics {item : Item V} {action : V → Exec E V} :
    (item.update action).Panics ↔ ∃ v, item = some v ∧ (action v).Panics := by
  simp [update, load]

end Item

/-! ## Messages and responses -/

structure Coin where
  amount : Uint128
  denom : String
  deriving DecidableEq, Repr

inductive WasmMsg where
  | execute (contractAddr : String) (msg : Binary) (funds : List Coin)
  | instantiate (admin : Option String) (codeId : Nat) (msg : Binary) (funds : List Coin) (label : String)
  | instantiate2 (admin : Option String) (codeId : Nat) (label : String) (msg : Binary) (funds : List Coin) (salt : Binary)
  | migrate (contractAddr : String) (newCodeId : Nat) (msg : Binary)
  | updateAdmin (contractAddr : String) (admin : String)
  | clearAdmin (contractAddr : String)
  deriving DecidableEq, Repr

/-- The chain's messages with the wasm module's spelled out. -/
abbrev Payloads.withWasm (P : Payloads) : Payloads := { P with Wasm := WasmMsg }

inductive BankMsg where
  | send (toAddress : String) (amount : List Coin)
  | burn (amount : List Coin)
  deriving DecidableEq, Repr

inductive StakingMsg where
  | delegate (validator : String) (amount : Coin)
  | undelegate (validator : String) (amount : Coin)
  | redelegate (srcValidator dstValidator : String) (amount : Coin)
  deriving DecidableEq, Repr

inductive DistributionMsg where
  | setWithdrawAddress (address : String)
  | withdrawDelegatorReward (validator : String)
  | fundCommunityPool (amount : List Coin)
  deriving DecidableEq, Repr

/-- The chain's messages with those of the bank, staking and distribution modules spelled out. -/
abbrev Payloads.withModules (P : Payloads) : Payloads :=
  { P with Bank := BankMsg, Staking := StakingMsg, Distribution := DistributionMsg }

variable {P : Payloads} {T : Type}

/-- `SubMsg::new`. -/
def SubMsg.new (msg : CosmosMsg P T) : SubMsg P T := ⟨0, [], msg, none, .never⟩

namespace Response

def addAttribute (r : Response P T) (key value : String) : Response P T :=
  { r with attributes := r.attributes ++ [⟨key, value⟩] }

def addMessage (r : Response P T) (msg : CosmosMsg P T) : Response P T :=
  { r with messages := r.messages ++ [SubMsg.new msg] }

def addMessages (r : Response P T) (msgs : List (CosmosMsg P T)) : Response P T :=
  { r with messages := r.messages ++ msgs.map SubMsg.new }

end Response

end Sylvia.CwStd
