/-
  Sylvia.Cw20.Chain — the token contract on a chain: every message of its three interfaces
  and its own, and the states it can come to.

  A message that fails or panics leaves the storage as it was. `P` and `T` are the chain's
  messages and the contract's custom message; they are only passed on.
-/
import Sylvia.Cw20.Ledger

namespace Sylvia.Cw20

open Sylvia.Base Sylvia.CwStd

inductive Msg (X : Type) where
  | transfer (recipient : String) (amount : Uint128)
  | burn (amount : Uint128)
  | send (contract : String) (amount : Uint128) (msg : Binary)
  | increaseAllowance (spender : String) (amount : Uint128) (expires : Option X)
  | decreaseAllowance (spender : String) (amount : Uint128) (expires : Option X)
  | transferFrom (owner recipient : String) (amount : Uint128)
  | sendFrom (owner contract : String) (amount : Uint128) (msg : Binary)
  | burnFrom (owner : String) (amount : Uint128)
  | mint (recipient : String) (amount : Uint128)
  | updateMinter (newMinter : Option String)
  | updateMarketing (project description marketing : Option String)
  | uploadLogo (logo : Logo)
  deriving DecidableEq, Repr

variable {X B : Type} (P : Payloads) (T : Type)

def execute (deps : Deps X B) (s : Cw20Base X) (ctx : ExecCtx B) :
    Msg X → Exec ContractError (Cw20Base X × Response P.withWasm T)
  | .transfer recipient amount => transfer deps s ctx recipient amount
  | .burn amount => burn s ctx amount
  | .send contract amount msg => send deps s ctx contract amount msg
  | .increaseAllowance spender amount expires => increaseAllowance deps s ctx spender amount expires
  | .decreaseAllowance spender amount expires => decreaseAllowance deps s ctx spender amount expires
  | .transferFrom owner recipient amount => transferFrom deps s ctx owner recipient amount
  | .sendFrom owner contract amount msg => sendFrom deps s ctx owner contract amount msg
  | .burnFrom owner amount => burnFrom deps s ctx owner amount
  | .mint recipient amount => mint deps s ctx recipient amount
  | .updateMinter newMinter => updateMinter deps s ctx newMinter
  | .updateMarketing project description marketing => updateMarketing deps s ctx project description marketing
  | .uploadLogo logo => uploadLogo s ctx logo

inductive Ev (X B : Type) where
  | exec (ctx : ExecCtx B) (msg : Msg X)
  | migrate (older : Exec ContractError Bool)

/-- The account that asks for a message; the chain asks for a migration. -/
def Ev.sender : Ev X B → Option Addr
  | .exec ctx _ => some ctx.sender
  | .migrate _ => none

def handle (deps : Deps X B) (s : Cw20Base X) : Ev X B → Exec ContractError (Cw20Base X × Response P.withWasm T)
  | .exec ctx msg => execute P T deps s ctx msg
  | .migrate older => migrate s older

/-- The storage after a message. -/
def step (deps : Deps X B) (s : Cw20Base X) (e : Ev X B) : Cw20Base X :=
  match handle P T deps s e with
  | .ok (s', _) => s'
  | .error _ => s

inductive Reach (deps : Deps X B) : Cw20Base X → Prop
  | instantiate {data : InstantiateMsgData} {s : Cw20Base X} {r : Response P.withWasm T} :
    instantiate deps data = .ok (s, r) → Reach deps s
  | step {s : Cw20Base X} (e : Ev X B) : Reach deps s → Reach deps (step P T deps s e)

/-- The storage after messages, one after another. -/
def run (deps : Deps X B) (s : Cw20Base X) (es : List (Ev X B)) : Cw20Base X := es.foldl (step P T deps) s

variable {P T}

/-- A step is a message that returned, or changes nothing. -/
theorem step_cases (deps : Deps X B) (s : Cw20Base X) (e : Ev X B) :
    (∃ r, handle P T deps s e = .ok (step P T deps s e, r)) ∨ step P T deps s e = s := by
  unfold step
  cases handle P T deps s e with
  | ok sr => exact Or.inl ⟨sr.2, rfl⟩
  | error => exact Or.inr rfl

theorem step_ok {deps : Deps X B} {s s' : Cw20Base X} {e : Ev X B} {r : Response P.withWasm T}
    (h : handle P T deps s e = .ok (s', r)) : step P T deps s e = s' := by
  rw [step, h]

/-- What every message keeps, and every new token has, holds of every state. -/
theorem reach_induct {deps : Deps X B} {I : Cw20Base X → Prop}
    (hinit : ∀ {data : InstantiateMsgData} {s : Cw20Base X} {r : Response P.withWasm T},
      instantiate deps data = .ok (s, r) → I s)
    (hkeep : ∀ {s s' : Cw20Base X} {e : Ev X B} {r : Response P.withWasm T},
      I s → handle P T deps s e = .ok (s', r) → I s')
    {s : Cw20Base X} (h : Reach P T deps s) : I s := by
  induction h with
  | instantiate h => exact hinit h
  | @step s e _ ih =>
    rcases step_cases (P := P) (T := T) deps s e with ⟨r, hr⟩ | hs
    · exact hkeep ih hr
    · rw [hs]
      exact ih

theorem Reach.run {deps : Deps X B} {s : Cw20Base X} (h : Reach P T deps s) (es : List (Ev X B)) :
    Reach P T deps (run P T deps s es) := by
  induction es generalizing s with
  | nil => exact h
  | cons e es ih => exact ih (.step e h)

/-- What every message keeps holds after every run. -/
theorem run_induct {deps : Deps X B} {I : Cw20Base X → Prop}
    (hkeep : ∀ {s s' : Cw20Base X} {e : Ev X B} {r : Response P.withWasm T},
      I s → handle P T deps s e = .ok (s', r) → I s')
    {s : Cw20Base X} (h : I s) (es : List (Ev X B)) : I (Cw20.run P T deps s es) := by
  induction es generalizing s with
  | nil => exact h
  | cons e es ih =>
    refine ih ?_
    rcases step_cases (P := P) (T := T) deps s e with ⟨r, hr⟩ | hs
    · exact hkeep h hr
    · rw [hs]
      exact h

end Sylvia.Cw20
