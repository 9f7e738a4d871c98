/-
  Sylvia.Base.Effects — two effects. `Emit` is a value with the errors reported while
  it was built: a macro goes on after an error, and its output counts only if none was
  reported. `Run` is the calls a piece of code makes, in order, and what it returns:
  an error ends it.
-/
import Mathlib.Data.List.Basic

namespace Sylvia.Base

/-! ## Reported errors -/

structure Diagnostic where
  text : String
  notes : List String
  deriving DecidableEq, Repr

structure Emit (α : Type) where
  val : α
  errors : List Diagnostic
  deriving DecidableEq, Repr

namespace Emit

variable {α β : Type}

instance : Monad Emit where
  pure a := ⟨a, []⟩
  bind x f := ⟨(f x.val).val, x.errors ++ (f x.val).errors⟩

def emitError (text : String) (notes : List String) : Emit Unit := ⟨(), [⟨text, notes⟩]⟩

def errorIf (c : Bool) (text : String) (notes : List String) : Emit Unit :=
  if c then emitError text notes else pure ()

/-- Nothing was reported. -/
def Clean (x : Emit α) : Prop := x.errors = []

instance (x : Emit α) : Decidable (Clean x) := inferInstanceAs (Decidable (x.errors = []))

@[simp] theorem val_pure (a : α) : (pure a : Emit α).val = a := rfl
@[simp] theorem errors_pure (a : α) : (pure a : Emit α).errors = [] := rfl
@[simp] theorem val_bind (x : Emit α) (f : α → Emit β) : (x >>= f).val = (f x.val).val := rfl
@[simp] theorem errors_bind (x : Emit α) (f : α → Emit β) : (x >>= f).errors = x.errors ++ (f x.val).errors := rfl
@[simp] theorem val_emitError (t : String) (ns : List String) : (emitError t ns).val = () := rfl
@[simp] theorem errors_emitError (t : String) (ns : List String) : (emitError t ns).errors = [⟨t, ns⟩] := rfl

instance : LawfulMonad Emit := LawfulMonad.mk' Emit
  (fun x => by cases x; simp [Functor.map])
  (fun a f => by simp [bind, pure])
  (fun x f g => by simp [bind, List.append_assoc])

@[simp] theorem val_map (f : α → β) (x : Emit α) : (f <$> x).val = f x.val := rfl
@[simp] theorem errors_map (f : α → β) (x : Emit α) : (f <$> x).errors = x.errors := by simp [Functor.map]

@[simp] theorem clean_pure (a : α) : Clean (pure a : Emit α) := rfl

@[simp] theorem clean_map (f : α → β) (x : Emit α) : Clean (f <$> x) ↔ Clean x := by simp [Clean]

@[simp] theorem clean_bind (x : Emit α) (f : α → Emit β) : Clean (x >>= f) ↔ Clean x ∧ Clean (f x.val) := by
  simp [Clean]

@[simp] theorem not_clean_emitError (t : String) (ns : List String) : ¬ Clean (emitError t ns) := by simp [Clean]

@[simp] theorem clean_errorIf (c : Bool) (t : String) (ns : List String) : Clean (errorIf c t ns) ↔ c = false := by
  cases c <;> simp [errorIf]

theorem clean_forM {xs : List α} {f : α → Emit PUnit} : Clean (xs.forM f) ↔ ∀ x ∈ xs, Clean (f x) := by
  induction xs with
  | nil => simp [List.forM]
  | cons x xs ih => simpa [List.forM_cons] using fun _ => ih

/-- An error with the text was reported. -/
def Reports (x : Emit α) (text : String) : Prop := ∃ d ∈ x.errors, d.text = text

@[simp] theorem reports_pure (a : α) (t : String) : ¬ Reports (pure a : Emit α) t := by simp [Reports]

@[simp] theorem reports_map (f : α → β) (x : Emit α) (t : String) : Reports (f <$> x) t ↔ Reports x t := by
  simp [Reports]

@[simp] theorem reports_bind (x : Emit α) (f : α → Emit β) (t : String) :
    Reports (x >>= f) t ↔ Reports x t ∨ Reports (f x.val) t := by
  simp [Reports, or_and_right, exists_or]

@[simp] theorem reports_emitError (text : String) (ns : List String) (t : String) :
    Reports (emitError text ns) t ↔ text = t := by
  simp [Reports]

@[simp] theorem reports_errorIf (c : Bool) (text : String) (ns : List String) (t : String) :
    Reports (errorIf c text ns) t ↔ c = true ∧ text = t := by
  cases c <;> simp [errorIf]

@[simp] theorem reports_forM (xs : List α) (f : α → Emit PUnit) (t : String) :
    Reports (forM xs f) t ↔ ∃ x ∈ xs, Reports (f x) t := by
  induction xs with
  | nil => simp
  | cons x xs ih => simp [ih]

theorem val_mapM (f : α → Emit β) (xs : List α) : (xs.mapM f).val = xs.map fun x => (f x).val := by
  induction xs with
  | nil => rfl
  | cons x xs ih => rw [List.mapM_cons, val_bind, val_bind, val_pure, ih, List.map_cons]

/-- A fold that reports nothing: every step reports nothing, and an invariant of such
    steps holds at the end. -/
theorem foldlM_clean {f : β → α → Emit β} {xs : List α} {b : β} (P : List α → β → Prop) (h0 : P [] b)
    (step : ∀ done x b, (∀ y ∈ x :: done, y ∈ xs) → P done b → Clean (f b x) → P (done ++ [x]) (f b x).val)
    (h : Clean (xs.foldlM f b)) : P xs (xs.foldlM f b).val := by
  have run : ∀ rest done b, (∀ y ∈ done ++ rest, y ∈ xs) → P done b → Clean (rest.foldlM f b) →
      P (done ++ rest) (rest.foldlM f b).val := by
    intro rest
    induction rest with
    | nil => intro done b _ hP _; simpa using hP
    | cons x rest ih =>
      intro done b hmem hP hc
      rw [List.foldlM_cons, clean_bind] at hc
      have hmem' : ∀ y ∈ x :: done, y ∈ xs := fun y hy => hmem y (by
        rcases List.mem_cons.mp hy with rfl | hy
        · simp
        · simp [hy])
      have := ih (done ++ [x]) (f b x).val (by simpa using hmem) (step done x b hmem' hP hc.1) hc.2
      simpa using this
  simpa using run xs [] b (by simp) h0 h

end Emit

/-! ## Calls and a result -/

structure Run (C E R : Type) where
  calls : List C
  result : Except E R

namespace Run

variable {C E R S : Type}

instance : Monad (Run C E) where
  pure r := ⟨[], .ok r⟩
  bind x f := match x.result with
    | .ok r => ⟨x.calls ++ (f r).calls, (f r).result⟩
    | .error e => ⟨x.calls, .error e⟩

/-- One call, answered by `host`. -/
def call (host : C → Except E R) (c : C) : Run C E R := ⟨[c], host c⟩

/-- Code that calls nothing. -/
def of (r : Except E R) : Run C E R := ⟨[], r⟩

@[simp] theorem calls_call (host : C → Except E R) (c : C) : (call host c).calls = [c] := rfl
@[simp] theorem result_call (host : C → Except E R) (c : C) : (call host c).result = host c := rfl
@[simp] theorem calls_of (r : Except E R) : (of r : Run C E R).calls = [] := rfl
@[simp] theorem result_of (r : Except E R) : (of r : Run C E R).result = r := rfl

/-- Code without calls after `x` adds none. -/
@[simp] theorem calls_bind_of (x : Run C E R) (f : R → Except E S) : (x >>= fun r => of (f r)).calls = x.calls := by
  simp only [bind]
  split <;> simp

@[simp] theorem of_ok_bind (r : R) (f : R → Run C E S) : ((of (.ok r) : Run C E R) >>= f) = f r := by
  simp [bind, of]

@[simp] theorem of_error_bind (e : E) (f : R → Run C E S) : ((of (.error e) : Run C E R) >>= f) = of (.error e) := by
  simp [bind, of]

end Run

end Sylvia.Base
