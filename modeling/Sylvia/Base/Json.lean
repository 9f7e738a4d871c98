/-
  Sylvia.Base.Json — JSON documents, and what is left of one read into a map.

  A `Json` keeps an object's entries in textual order, repeated keys allowed; numbers
  with a fraction or an exponent are kept as they are written. A `Value` is the
  `serde_cw_value::Value` of a document: an object is a `BTreeMap`, its entries sorted
  by key, a later repeated key replacing the earlier one. Reading a document into a
  `Value` may fail; how it does is a parameter (`SerdeValue`), of which only the reading
  of objects is known. `serdeValue` is one that takes the integers of 64 bits.

  `values k es` is every value `es` gives to `k`, in order; `values_collect` says that
  a map keeps the last.
-/
import Mathlib.Data.List.Induction
import Mathlib.Data.String.Basic
import Sylvia.Base.Lists

namespace Sylvia.Base

inductive Json where
  | null
  | bool (b : Bool)
  | num (n : Int)
  | float (literal : String)
  | str (s : String)
  | arr (xs : List Json)
  | obj (es : List (String × Json))
  deriving Repr

inductive Value where
  | unit
  | bool (b : Bool)
  | num (n : Int)
  | string (s : String)
  | seq (xs : List Value)
  | map (es : List (String × Value))
  deriving Repr

/-! ## Sorted maps -/

section Maps

variable {β γ : Type}

/-- `BTreeMap::insert`. -/
def mapInsert (k : String) (x : β) : List (String × β) → List (String × β)
  | [] => [(k, x)]
  | (k', x') :: m =>
    if k < k' then (k, x) :: (k', x') :: m
    else if k = k' then (k, x) :: m
    else (k', x') :: mapInsert k x m

/-- The entries collected into a map, in order. -/
def collect (es : List (String × β)) : List (String × β) := es.foldl (fun m e => mapInsert e.1 e.2 m) []

/-- Every value the entries give to `k`, in order. -/
def values (k : String) (es : List (String × β)) : List β :=
  es.filterMap fun e => if e.1 = k then some e.2 else none

def Sorted (m : List (String × β)) : Prop := m.Pairwise fun a b => a.1 < b.1

theorem mem_mapInsert {k : String} {x : β} {e : String × β} {m : List (String × β)} (h : e ∈ mapInsert k x m) :
    e = (k, x) ∨ e ∈ m := by
  induction m with
  | nil => simpa [mapInsert] using h
  | cons e' m ih =>
    obtain ⟨k', x'⟩ := e'
    simp only [mapInsert] at h
    split at h
    · simpa using h
    · split at h
      · rcases List.mem_cons.mp h with h | h
        · exact Or.inl h
        · exact Or.inr (List.mem_cons_of_mem _ h)
      · rcases List.mem_cons.mp h with h | h
        · exact Or.inr (h ▸ List.mem_cons_self)
        · exact (ih h).imp id (List.mem_cons_of_mem _)

theorem sorted_mapInsert {k : String} {x : β} {m : List (String × β)} (h : Sorted m) : Sorted (mapInsert k x m) := by
  induction m with
  | nil => simp [mapInsert, Sorted]
  | cons e m ih =>
    obtain ⟨k', x'⟩ := e
    obtain ⟨hlt, hm⟩ := List.pairwise_cons.mp h
    simp only [mapInsert]
    split
    · rename_i hk
      refine List.pairwise_cons.mpr ⟨fun e he => ?_, h⟩
      rcases List.mem_cons.mp he with rfl | he
      · exact hk
      · exact lt_trans hk (hlt e he)
    · rename_i hk
      split
      · rename_i hkk
        subst hkk
        exact List.pairwise_cons.mpr ⟨hlt, hm⟩
      · rename_i hkk
        refine List.pairwise_cons.mpr ⟨fun e he => ?_, ih hm⟩
        rcases mem_mapInsert he with rfl | he
        · exact lt_of_le_of_ne (not_lt.mp hk) (Ne.symm hkk)
        · exact hlt e he

theorem collect_append (es : List (String × β)) (e : String × β) :
    collect (es ++ [e]) = mapInsert e.1 e.2 (collect es) := by
  simp [collect]

theorem sorted_collect (es : List (String × β)) : Sorted (collect es) := by
  induction es using List.reverseRecOn with
  | nil => exact List.Pairwise.nil
  | append_singleton es e ih => rw [collect_append]; exact sorted_mapInsert ih

@[simp] theorem values_nil (k : String) : values k ([] : List (String × β)) = [] := rfl

@[simp] theorem values_cons (k : String) (e : String × β) (es : List (String × β)) :
    values k (e :: es) = if e.1 = k then e.2 :: values k es else values k es := by
  simp only [values, List.filterMap_cons]
  by_cases h : e.1 = k <;> simp [h]

@[simp] theorem values_append (k : String) (es es' : List (String × β)) :
    values k (es ++ es') = values k es ++ values k es' := by
  simp [values]

theorem mem_values {k : String} {x : β} {es : List (String × β)} : x ∈ values k es ↔ (k, x) ∈ es := by
  simp only [values, List.mem_filterMap, Option.ite_none_right_eq_some, Option.some.injEq]
  exact ⟨fun ⟨e, he, h1, h2⟩ => by rwa [← h1, ← h2], fun h => ⟨_, h, rfl, rfl⟩⟩

theorem values_eq_nil_of_lt {k : String} {m : List (String × β)} (h : ∀ e ∈ m, k < e.1) : values k m = [] := by
  apply List.eq_nil_iff_forall_not_mem.mpr
  intro x hx
  exact lt_irrefl k (h _ (mem_values.mp hx))

theorem values_mapInsert {k k' : String} {x : β} {m : List (String × β)} (hm : Sorted m) :
    values k (mapInsert k' x m) = if k' = k then [x] else values k m := by
  induction m with
  | nil => simp [mapInsert]
  | cons e m ih =>
    obtain ⟨k'', x''⟩ := e
    obtain ⟨hlt, hm⟩ := List.pairwise_cons.mp hm
    simp only [mapInsert]
    split
    · rename_i hk
      by_cases h : k' = k
      · subst h
        have : values k' m = [] := values_eq_nil_of_lt fun e he => lt_trans hk (hlt e he)
        simp [this, ne_of_gt hk]
      · simp [h]
    · rename_i hk
      split
      · rename_i hkk
        subst hkk
        by_cases h : k' = k
        · subst h; simp [values_eq_nil_of_lt hlt]
        · simp [h]
      · rename_i hkk
        by_cases h : k' = k
        · subst h; simp [ih hm, Ne.symm hkk]
        · simp [ih hm, h]

/-- A map keeps the last value of every key. -/
theorem values_collect (k : String) (es : List (String × β)) :
    values k (collect es) = (values k es).getLast?.toList := by
  induction es using List.reverseRecOn with
  | nil => rfl
  | append_singleton es e ih =>
    rw [collect_append, values_mapInsert (sorted_collect es), values_append, values_cons, values_nil]
    by_cases h : e.1 = k
    · simp [h]
    · simp [h, ih]

theorem mem_of_mem_collect {es : List (String × β)} {e : String × β} (h : e ∈ collect es) : e ∈ es := by
  have hv : e.2 ∈ values e.1 (collect es) := mem_values.mpr h
  rw [values_collect, Option.mem_toList] at hv
  exact mem_values.mp (List.mem_of_getLast? hv)

/-- A map keeps what its key is never given another value for. -/
theorem mem_collect_of_unique {es : List (String × β)} {k : String} {x : β} (h : (k, x) ∈ es)
    (hone : ∀ y, (k, y) ∈ es → y = x) : (k, x) ∈ collect es := by
  rw [← mem_values, values_collect, Option.mem_toList]
  have hne : values k es ≠ [] := List.ne_nil_of_mem (mem_values.mpr h)
  have hlast := List.getLast?_eq_some_getLast hne
  rw [hlast, hone _ (mem_values.mp (List.getLast_mem hne))]

/-- A map has at most one value for a key. -/
theorem values_eq_singleton {m : List (String × β)} (h : Sorted m) {k : String} {x : β} (hm : (k, x) ∈ m) :
    values k m = [x] := by
  induction m with
  | nil => cases hm
  | cons e m ih =>
    obtain ⟨hlt, hs⟩ := List.pairwise_cons.mp h
    rw [values_cons]
    rcases List.mem_cons.mp hm with rfl | hm
    · rw [if_pos rfl, values_eq_nil_of_lt hlt]
    · rw [if_neg (ne_of_lt (hlt _ hm)), ih hs hm]

theorem Sorted.nodup {m : List (String × β)} (h : Sorted m) : (m.map Prod.fst).Nodup :=
  List.pairwise_map.mpr (h.imp fun hlt => ne_of_lt hlt)

/-- A map has one entry exactly when all entries, of which there is one, have one key. -/
theorem collect_length_one {es : List (String × β)} :
    (collect es).length = 1 ↔ ∃ k x, collect es = [(k, x)] ∧ (values k es).getLast? = some x ∧ ∀ e ∈ es, e.1 = k := by
  constructor
  · intro h
    obtain ⟨⟨k, x⟩, he⟩ := List.length_eq_one_iff.mp h
    have hk := values_collect k es
    rw [he] at hk
    have hlast : (values k es).getLast? = some x := by
      cases hl : (values k es).getLast? with
      | none => rw [hl] at hk; simp at hk
      | some y => rw [hl] at hk; simpa using hk.symm
    refine ⟨k, x, he, hlast, ?_⟩
    intro e hin
    have hv := values_collect e.1 es
    rw [he] at hv
    by_cases hne : k = e.1
    · exact hne.symm
    · have hmem : e.2 ∈ values e.1 es := mem_values.mpr hin
      have : (values e.1 es).getLast? = none := by
        cases hl : (values e.1 es).getLast? with
        | none => rfl
        | some y => rw [hl] at hv; simp [hne] at hv
      rw [List.getLast?_eq_none_iff] at this
      rw [this] at hmem; cases hmem
  · intro ⟨k, x, he, _, _⟩
    rw [he]
    rfl

theorem collect_of_key {es : List (String × β)} {k : String} {x : β} (hk : ∀ e ∈ es, e.1 = k)
    (hx : (values k es).getLast? = some x) : collect es = [(k, x)] := by
  induction es using List.reverseRecOn generalizing x with
  | nil => simp at hx
  | append_singleton es e ih =>
    have he : e.1 = k := hk e (by simp)
    have hx' : x = e.2 := by simpa [he] using hx.symm
    rw [collect_append, he, hx']
    cases hl : (values k es).getLast? with
    | none =>
      have hnil : es = [] := by
        rw [List.getLast?_eq_none_iff] at hl
        cases es with
        | nil => rfl
        | cons e' es => simp [hk e' (by simp)] at hl
      subst hnil; rfl
    | some y =>
      rw [ih (fun e he => hk e (by simp [he])) hl]
      simp [mapInsert]

/-! ## Entries with their values read -/

/-- The entries with every value read by `f`, if all can be. -/
def readAll (f : β → Option γ) (es : List (String × β)) : Option (List (String × γ)) :=
  es.mapM fun e => (f e.2).map fun v => (e.1, v)

theorem readAll_iff {f : β → Option γ} {es : List (String × β)} {vs : List (String × γ)} :
    readAll f es = some vs ↔ List.Forall₂ (fun e v => e.1 = v.1 ∧ f e.2 = some v.2) es vs := by
  have hentry : ∀ (e : String × β) (v : String × γ),
      (f e.2).map (fun x => (e.1, x)) = some v ↔ e.1 = v.1 ∧ f e.2 = some v.2 := by
    intro e v
    rw [Option.map_eq_some_iff]
    constructor
    · intro ⟨x, hx, he⟩
      subst he
      exact ⟨rfl, hx⟩
    · intro ⟨hk, hx⟩
      exact ⟨v.2, hx, by rw [hk]⟩
  rw [readAll, mapM_some_iff]
  simp only [hentry]

theorem readAll_ne_none {f : β → Option γ} {es : List (String × β)} :
    readAll f es ≠ none ↔ ∀ e ∈ es, f e.2 ≠ none := by
  rw [Option.ne_none_iff_exists']
  simp only [readAll, mapM_some_iff, exists_forall₂_some_iff, ne_eq, Option.map_eq_none_iff]

theorem readAll_keys {f : β → Option γ} {es : List (String × β)} {vs : List (String × γ)} (h : readAll f es = some vs)
    (k : String) : (∀ e ∈ es, e.1 = k) ↔ ∀ v ∈ vs, v.1 = k := by
  obtain ⟨hes, hvs⟩ := forall₂_mem (readAll_iff.mp h)
  constructor
  · intro hall v hv
    obtain ⟨e, he, hk, -⟩ := hvs v hv
    rw [← hk, hall e he]
  · intro hall e he
    obtain ⟨v, hv, hk, -⟩ := hes e he
    rw [hk, hall v hv]

theorem readAll_values {f : β → Option γ} {es : List (String × β)} {vs : List (String × γ)} (h : readAll f es = some vs)
    (k : String) : List.Forall₂ (fun x y => f x = some y) (values k es) (values k vs) := by
  induction readAll_iff.mp h with
  | nil => exact .nil
  | @cons e v es vs hev _ ih =>
    rw [values_cons, values_cons, hev.1]
    split
    · exact .cons hev.2 (ih (by rwa [readAll_iff]))
    · exact ih (by rwa [readAll_iff])

/-- The last value of a key is read from its last. -/
theorem readAll_getLast? {f : β → Option γ} {es : List (String × β)} {vs : List (String × γ)} (h : readAll f es = some vs)
    (k : String) : (values k vs).getLast? = (values k es).getLast?.bind f := by
  have hv := readAll_values h k
  generalize values k es = xs at hv
  generalize values k vs = ys at hv
  induction hv with
  | nil => rfl
  | @cons x y xs ys hxy hrest ih =>
    cases hrest with
    | nil => simp [hxy]
    | cons _ _ => simpa [List.getLast?_cons_cons] using ih

end Maps

/-! ## Reading a document into a value -/

/-- What `serde_cw_value` and its printing do. -/
structure SerdeValue where
  /-- `Value::deserialize` on a document. -/
  deserialize : Json → Option Value
  print : Value → String
  /-- An object's entries are read in order and collected. -/
  deserialize_obj : ∀ es, deserialize (.obj es) = (readAll deserialize es).map fun vs => .map (collect vs)
  deserialize_map : ∀ {j m}, deserialize j = some (.map m) → ∃ es, j = .obj es

namespace SerdeValue

variable (sv : SerdeValue)

theorem deserialize_obj_iff {es : List (String × Json)} {val : Value} :
    sv.deserialize (.obj es) = some val ↔ ∃ vs, readAll sv.deserialize es = some vs ∧ val = .map (collect vs) := by
  rw [sv.deserialize_obj, Option.map_eq_some_iff]
  simp only [eq_comm]

/-- A value that is a map of one entry: all the document's entries have its key, and it
    is read from the last. -/
theorem deserialize_singleton_iff {j : Json} {k : String} {y : Value} :
    sv.deserialize j = some (.map [(k, y)]) ↔ ∃ es x, j = .obj es ∧ readAll sv.deserialize es ≠ none ∧
      (∀ e ∈ es, e.1 = k) ∧ (values k es).getLast? = some x ∧ sv.deserialize x = some y := by
  constructor
  · intro h
    obtain ⟨es, rfl⟩ := sv.deserialize_map h
    obtain ⟨vs, hvs, hval⟩ := sv.deserialize_obj_iff.mp h
    simp only [Value.map.injEq] at hval
    obtain ⟨k', y', hk, hlast, hall⟩ := collect_length_one.mp (by rw [← hval]; rfl)
    obtain ⟨rfl, rfl⟩ : k = k' ∧ y = y' := by simpa [← hval] using hk
    rw [readAll_getLast? hvs, Option.bind_eq_some_iff] at hlast
    obtain ⟨x, hx, hy⟩ := hlast
    exact ⟨es, x, rfl, by simp [hvs], (readAll_keys hvs k).mpr hall, hx, hy⟩
  · intro h
    rcases h with ⟨es, x, rfl, hread, hall, hlast, hy⟩
    obtain ⟨vs, hvs⟩ := Option.ne_none_iff_exists'.mp hread
    refine sv.deserialize_obj_iff.mpr ⟨vs, hvs, ?_⟩
    rw [collect_of_key ((readAll_keys hvs k).mp hall) (by rw [readAll_getLast? hvs, hlast]; exact hy)]

end SerdeValue

mutual

/-- A number is held as a `u64` or an `i64`, and one with a fraction not at all. -/
def Value.deserialize : Json → Option Value
  | .null => some .unit
  | .bool b => some (.bool b)
  | .num n => if -9223372036854775808 ≤ n ∧ n ≤ 18446744073709551615 then some (.num n) else none
  | .float _ => none
  | .str s => some (.string s)
  | .arr xs => (deserializeSeq xs).map .seq
  | .obj es => (deserializeEntries es).map fun vs => .map (collect vs)

def Value.deserializeSeq : List Json → Option (List Value)
  | [] => some []
  | j :: js => do some ((← Value.deserialize j) :: (← Value.deserializeSeq js))

def Value.deserializeEntries : List (String × Json) → Option (List (String × Value))
  | [] => some []
  | (k, j) :: es => do some ((k, ← Value.deserialize j) :: (← Value.deserializeEntries es))

end

theorem deserializeEntries_eq (es : List (String × Json)) :
    Value.deserializeEntries es = readAll Value.deserialize es := by
  induction es with
  | nil => rfl
  | cons e es ih =>
    obtain ⟨k, j⟩ := e
    rw [Value.deserializeEntries, ih, readAll, readAll, List.mapM_cons]
    cases Value.deserialize j <;> rfl

theorem deserialize_map {j : Json} {m : List (String × Value)} (h : Value.deserialize j = some (.map m)) :
    ∃ es, j = .obj es := by
  cases j with
  | obj es => exact ⟨es, rfl⟩
  | num n => rw [Value.deserialize] at h; split at h <;> simp at h
  | arr xs => rw [Value.deserialize] at h; simp at h
  | null | bool | float | str => simp [Value.deserialize] at h

def serdeValue : SerdeValue where
  deserialize := Value.deserialize
  print _ := ""
  deserialize_obj es := by rw [Value.deserialize, deserializeEntries_eq]
  deserialize_map := deserialize_map

end Sylvia.Base
