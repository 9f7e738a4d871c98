/-
  Sylvia.Base.Delivery — messages on their way, delivered in any order.

  A handler takes a state and a message and answers with the next state and the messages
  it sends, or fails. A turn picks one of the messages on their way and says where the
  ones it causes are put; a schedule is a list of turns. The first failure ends it.

  Proved, for messages sent in an encoding: a handler of encoded messages that does on
  each what a handler of the messages does (`Encodes`) does so under every schedule
  (`deliver_encodes`).
-/
import Mathlib.Data.List.InsertIdx

namespace Sylvia.Base.Delivery

variable {S M M' E E' : Type}

abbrev Handler (S M E : Type) := S → M → Except E (S × List M)

structure Turn where
  pick : ℕ
  place : ℕ
  deriving DecidableEq, Repr

/-- The messages left, and those a delivery caused put among them. -/
def requeue (t : Turn) (pending caused : List M) : List M :=
  let rest := pending.eraseIdx t.pick
  rest.take t.place ++ caused ++ rest.drop t.place

/-- One delivery; a turn that picks nothing passes. -/
def turn (handle : Handler S M E) (st : S × List M) (t : Turn) : Except E (S × List M) :=
  match st.2[t.pick]? with
  | none => .ok st
  | some m =>
    match handle st.1 m with
    | .ok (s, caused) => .ok (s, requeue t st.2 caused)
    | .error e => .error e

def deliver (handle : Handler S M E) (st : S × List M) (ts : List Turn) : Except E (S × List M) :=
  ts.foldlM (turn handle) st

/-! ## Encoded messages -/

/-- An outcome with its messages encoded. -/
def encoded (enc : M → M') (lift : E → E') : Except E (S × List M) → Except E' (S × List M')
  | .ok (s, ms) => .ok (s, ms.map enc)
  | .error e => .error (lift e)

def Encodes (enc : M → M') (lift : E → E') (handle : Handler S M E) (handle' : Handler S M' E') : Prop :=
  ∀ s m, handle' s (enc m) = encoded enc lift (handle s m)

variable {enc : M → M'} {lift : E → E'} {handle : Handler S M E} {handle' : Handler S M' E'}

theorem requeue_map (enc : M → M') (t : Turn) (pending caused : List M) :
    requeue t (pending.map enc) (caused.map enc) = (requeue t pending caused).map enc := by
  simp [requeue, List.eraseIdx_map, List.map_take, List.map_drop]

theorem turn_encodes (h : Encodes enc lift handle handle') (s : S) (ms : List M) (t : Turn) :
    turn handle' (s, ms.map enc) t = encoded enc lift (turn handle (s, ms) t) := by
  simp only [turn, List.getElem?_map]
  cases ms[t.pick]? with
  | none => rfl
  | some m =>
    rw [Option.map_some]
    simp only [h s m]
    cases handle s m with
    | error e => rfl
    | ok r => simp [encoded, requeue_map]

theorem deliver_encodes (h : Encodes enc lift handle handle') (ts : List Turn) (s : S) (ms : List M) :
    deliver handle' (s, ms.map enc) ts = encoded enc lift (deliver handle (s, ms) ts) := by
  unfold deliver
  induction ts generalizing s ms with
  | nil => rfl
  | cons t ts ih =>
    rw [List.foldlM_cons, List.foldlM_cons, turn_encodes h]
    cases turn handle (s, ms) t with
    | error e => rfl
    | ok r => exact ih r.1 r.2

end Sylvia.Base.Delivery
