/-
  Sylvia.Cw1.Whitelist — the whitelist contract (`examples/contracts/cw1-whitelist/src`).

  `update_admins` walks the stored admins and the sorted new ones together: it searches each
  stored admin in the new ones from `low_idx` on and sets `low_idx` to the index found, which
  counts from the old `low_idx` and not from the start. What `slice::binary_search` answers
  when an element is there several times is left open (`BinarySearch`). cw2's record of the
  version is left out.

  Proved:
  - `toRemove_eq`: the walk finds the admins that are not among the new ones, whatever index
    the search picks. The index it goes on from may be too low, but never too high.
  - `updateAdmins_ok`: the admins afterwards are the new ones.
  - `admins_history`: after any messages, what it answers is read off a set of admins that
    a member replaces or freezes (`AdminSet`).
  - `locked`: nothing changes where the list is frozen or only others send.
-/
import Mathlib.Data.Finset.Sort
import Mathlib.Data.List.Sort
import Mathlib.Data.List.TakeWhile
import Sylvia.CwStd.Contract

namespace Sylvia.Cw1

open Sylvia.Base Sylvia.CwStd

/-- `slice::binary_search`: an index of the element, or the one it can be inserted at. -/
structure BinarySearch (K : Type) [LinearOrder K] where
  search : List K → K → Except ℕ ℕ
  found : ∀ xs k i, search xs k = .ok i → xs[i]? = some k
  absent : ∀ xs k i, xs.Pairwise (· ≤ ·) → search xs k = .error i → (∀ x ∈ xs.take i, x < k) ∧ ∀ x ∈ xs.drop i, k < x

/-- The first place whose element is not below. -/
def scan {K : Type} [LinearOrder K] : BinarySearch K where
  search xs k :=
    let i := (xs.takeWhile (· < k)).length
    if xs[i]? = some k then .ok i else .error i
  found xs k i h := by
    simp only at h
    split at h
    · cases h
      assumption
    · cases h
  absent xs k i hsorted h := by
    simp only at h
    split at h
    · cases h
    · rename_i hne
      cases h
      have hsplit := List.takeWhile_append_dropWhile (p := fun x => decide (x < k)) (l := xs)
      have htake : (xs.takeWhile (· < k) ++ xs.dropWhile (· < k)).take (xs.takeWhile (· < k)).length = xs.takeWhile (· < k) :=
        List.take_left
      have hdrop : (xs.takeWhile (· < k) ++ xs.dropWhile (· < k)).drop (xs.takeWhile (· < k)).length = xs.dropWhile (· < k) :=
        List.drop_left
      rw [hsplit] at htake hdrop
      rw [htake, hdrop]
      refine ⟨fun x hx => by simpa using List.mem_takeWhile_imp hx, ?_⟩
      rw [← List.head?_drop, hdrop] at hne
      have hrest := hsorted.sublist (List.dropWhile_sublist fun x => decide (x < k))
      have hhead := List.head?_dropWhile_not (fun x => decide (x < k)) xs
      cases hd : xs.dropWhile (· < k) with
      | nil => simp
      | cons y ys =>
        rw [hd] at hne hrest hhead
        have hlt : k < y := lt_of_le_of_ne (by simpa using hhead) fun heq => hne (by simp [heq])
        intro x hx
        rcases List.mem_cons.mp hx with rfl | hx
        · exact hlt
        · exact hlt.trans_le ((List.pairwise_cons.mp hrest).1 x hx)

namespace Whitelist

inductive ContractError where
  | std (e : Fault)
  | unauthorized
  | contractFrozen
  deriving DecidableEq, Repr

instance : FromStd ContractError := ⟨.std⟩

end Whitelist

/-- The contract's storage. -/
structure Whitelist where
  admins : Map Addr Unit
  mutable : Item Bool

structure AdminListResponse where
  admins : List String
  mutable : Bool
  deriving DecidableEq, Repr

/-- What the contract calls and does not define. -/
structure Host where
  api : Api
  slices : BinarySearch String

namespace Whitelist

variable {P : Payloads} {T : Type}

def new : Whitelist := ⟨.empty, none⟩

def isAdmin (s : Whitelist) (addr : Addr) : Bool := s.admins.has addr

/-- One admin after another, checked and saved. -/
def saveAdmins (host : Host) (admins : Map Addr Unit) (new : List String) : Exec ContractError (Map Addr Unit) :=
  new.foldlM
    (fun admins admin => do
      let admin ← host.api.validate admin
      .ok (admins.save admin ()))
    admins

def instantiate (host : Host) (admins : List String) (mutable : Bool) : Exec ContractError (Whitelist × Response P T) := do
  let admins ← saveAdmins host Whitelist.new.admins admins
  .ok (⟨admins, some mutable⟩, Response.new)

def freeze (s : Whitelist) (sender : Addr) : Exec ContractError (Whitelist × Response P T) :=
  if !s.isAdmin sender then Exec.fail .unauthorized
  else .ok ({ s with mutable := some false }, Response.new |>.addAttribute "action" "freeze")

/-- The stored admins that the closure of `update_admins` keeps in its filter. -/
def toRemove (slices : BinarySearch String) (admins : List String) : ℕ → List Addr → List Addr
  | _, [] => []
  | lowIdx, addr :: addrs =>
    if lowIdx ≥ admins.length then addr :: toRemove slices admins lowIdx addrs
    else
      match slices.search (admins.drop lowIdx) addr with
      | .ok idx => toRemove slices admins idx addrs
      | .error idx => addr :: toRemove slices admins idx addrs

def updateAdmins (host : Host) (s : Whitelist) (sender : Addr) (admins : List String) :
    Exec ContractError (Whitelist × Response P T) := do
  if !s.isAdmin sender then Exec.fail .unauthorized
  else
    let mutable ← s.mutable.load
    if !mutable then Exec.fail .contractFrozen
    else
      let admins := admins.insertionSort (· ≤ ·)
      let toRemove := toRemove host.slices admins 0 s.admins.keys
      let kept := toRemove.foldl Store.remove s.admins
      let admins ← saveAdmins host kept admins
      .ok ({ s with admins }, Response.new |>.addAttribute "action" "update_admins")

def adminList (s : Whitelist) : Exec ContractError AdminListResponse := do
  let mutable ← s.mutable.load
  .ok ⟨s.admins.keys, mutable⟩

/-- `Cw1::execute`. -/
def execute (s : Whitelist) (sender : Addr) (msgs : List (CosmosMsg P T)) : Exec ContractError (Response P T) :=
  if !s.isAdmin sender then Exec.fail .unauthorized
  else .ok (Response.new |>.addMessages msgs |>.addAttribute "action" "execute")

def canExecute (s : Whitelist) (sender : String) (_msg : CosmosMsg P T) : Bool := s.isAdmin sender

/-! ## The walk over both lists -/

/-- From an index that is not above the next admin's place, the walk finds the admins missing from the new ones. -/
theorem toRemove_eq (slices : BinarySearch String) {admins : List String} (hsorted : admins.Pairwise (· ≤ ·))
    {lowIdx : ℕ} {addrs : List Addr} (haddrs : addrs.Pairwise (· < ·))
    (hlow : ∀ x ∈ admins.take lowIdx, ∀ a ∈ addrs, x < a) :
    toRemove slices admins lowIdx addrs = addrs.filter fun a => decide (a ∉ admins) := by
  induction addrs generalizing lowIdx with
  | nil => rfl
  | cons addr addrs ih =>
    obtain ⟨hnext, haddrs⟩ := List.pairwise_cons.mp haddrs
    have hbelow : ∀ x ∈ admins.take lowIdx, x < addr := fun x hx => hlow x hx addr List.mem_cons_self
    rw [toRemove]
    split
    · -- every new admin is below
      rename_i hend
      rw [List.take_of_length_le hend] at hbelow
      have hmissing : addr ∉ admins := fun h => lt_irrefl _ (hbelow addr h)
      rw [List.filter_cons_of_pos (by simpa using hmissing)]
      refine congrArg _ (ih haddrs fun x hx a ha => hlow x hx a (List.mem_cons_of_mem _ ha))
    · have hsplit := List.take_append_drop lowIdx admins
      have hdrop : (admins.drop lowIdx).Pairwise (· ≤ ·) := hsorted.sublist (List.drop_sublist _ _)
      split
      · rename_i idx hfound
        have hat := slices.found _ _ _ hfound
        have hmem : addr ∈ admins := List.mem_of_mem_drop (List.mem_of_getElem? hat)
        rw [List.filter_cons_of_neg (by simpa using hmem)]
        refine ih haddrs fun x hx a ha => lt_of_le_of_lt ?_ (hnext a ha)
        -- `x` is at an index up to that of `addr`
        rw [List.getElem?_drop] at hat
        obtain ⟨i, hi, rfl⟩ := List.mem_take_iff_getElem.mp hx
        obtain ⟨hlt, hat⟩ := List.getElem?_eq_some_iff.mp hat
        rw [← hat]
        rcases Nat.lt_or_eq_of_le (show i ≤ lowIdx + idx by omega) with hij | hij
        · exact List.pairwise_iff_getElem.mp hsorted i _ (by omega) hlt hij
        · simp [hij]
      · rename_i idx habsent
        obtain ⟨hleft, hright⟩ := slices.absent _ _ _ hdrop habsent
        have hmissing : addr ∉ admins := by
          intro h
          rw [← hsplit, ← List.take_append_drop idx (admins.drop lowIdx)] at h
          rcases List.mem_append.mp h with h | h
          · exact lt_irrefl _ (hbelow addr h)
          · rcases List.mem_append.mp h with h | h
            · exact lt_irrefl _ (hleft addr h)
            · exact lt_irrefl _ (hright addr h)
        rw [List.filter_cons_of_pos (by simpa using hmissing)]
        refine congrArg _ (ih haddrs fun x hx a ha => lt_trans ?_ (hnext a ha))
        have hx : x ∈ admins.take (lowIdx + idx) := List.take_subset_take_left _ (by omega) hx
        rw [List.take_add] at hx
        rcases List.mem_append.mp hx with hx | hx
        · exact hbelow x hx
        · exact hleft x hx

/-! ## The admins that are left -/

theorem has_foldl_remove {K V : Type} [LinearOrder K] (ks : List K) (m : Map K V) (k : K) :
    (ks.foldl Store.remove m).has k = (decide (k ∉ ks) && m.has k) := by
  induction ks generalizing m with
  | nil => simp
  | cons k' ks ih =>
    rw [List.foldl_cons, ih, Store.has_remove]
    by_cases h : k = k' <;> simp [h]

theorem saveAdmins_ok {host : Host} {admins admins' : Map Addr Unit} {new : List String} :
    saveAdmins host admins new = .ok admins' ↔
      (∀ a ∈ new, host.api.Valid a) ∧ new.foldl (fun m a => m.save a ()) admins = admins' := by
  induction new generalizing admins with
  | nil => simp [saveAdmins]
  | cons a new ih =>
    have hcons : saveAdmins host admins (a :: new) = (host.api.validate a >>= fun a => saveAdmins host (admins.save a ()) new) := by
      simp only [saveAdmins, List.foldlM_cons]
      cases host.api.validate (E := ContractError) a <;> rfl
    simp only [hcons, Exec.bind_ok, Api.validate_ok, ih, List.forall_mem_cons, List.foldl_cons]
    constructor
    · intro hok
      rcases hok with ⟨_, ⟨ha, rfl⟩, hnew, h⟩
      exact ⟨⟨ha, hnew⟩, h⟩
    · intro hspec
      rcases hspec with ⟨⟨ha, hnew⟩, h⟩
      exact ⟨a, ⟨ha, rfl⟩, hnew, h⟩

@[simp] theorem saveAdmins_panics {host : Host} {admins : Map Addr Unit} {new : List String} :
    (saveAdmins host admins new).Panics ↔ False := by
  induction new generalizing admins with
  | nil => simp [saveAdmins]
  | cons a new ih =>
    simp only [saveAdmins, List.foldlM_cons, Exec.bind_panics, Api.validate_panics, Exec.ok_panics] at ih ⊢
    simp [ih]

theorem has_foldl_save (new : List String) (m : Map Addr Unit) (a : Addr) :
    (new.foldl (fun m a => m.save a ()) m).has a = (decide (a ∈ new) || m.has a) := by
  induction new generalizing m with
  | nil => simp
  | cons b new ih =>
    rw [List.foldl_cons, ih, Store.has_save]
    by_cases h : a = b <;> simp [h]

/-- Admins are only there or not. -/
theorem ext_has {m m' : Map Addr Unit} (h : ∀ a, m.has a = m'.has a) : m = m' := by
  refine Store.ext_lookup fun a => ?_
  have := h a
  simp only [Store.has] at this
  cases hm : m.lookup a <;> cases hm' : m'.lookup a <;> simp_all

/-- The walk, the removals and the saves leave the new admins. -/
theorem updated_admins (host : Host) (s : Whitelist) (admins : List String) (a : Addr) :
    ((admins.insertionSort (· ≤ ·)).foldl (fun m a => m.save a ())
      ((toRemove host.slices (admins.insertionSort (· ≤ ·)) 0 s.admins.keys).foldl Store.remove s.admins)).has a =
      decide (a ∈ admins) := by
  have hsorted := List.pairwise_insertionSort (· ≤ ·) admins
  have hmem : ∀ a, a ∈ admins.insertionSort (· ≤ ·) ↔ a ∈ admins := fun a => List.mem_insertionSort _
  rw [toRemove_eq host.slices hsorted s.admins.keys_sorted (by simp), has_foldl_save, has_foldl_remove]
  by_cases ha : a ∈ admins
  · simp [hmem, ha]
  · -- a stored admin that is no new one was removed
    cases hhas : s.admins.has a with
    | false => simp [hmem, ha]
    | true => simp [hmem, ha, s.admins.mem_keys.mpr hhas]

/-- An update returns exactly when an admin asks for it, the list is mutable and the new admins are valid; then they
    are the admins. -/
theorem updateAdmins_ok {host : Host} {s s' : Whitelist} {sender : Addr} {admins : List String} :
    (∃ r : Response P T, updateAdmins host s sender admins = .ok (s', r)) ↔
      s.isAdmin sender = true ∧ s.mutable = some true ∧ (∀ a ∈ admins, host.api.Valid a) ∧
      s'.mutable = some true ∧ ∀ a, s'.isAdmin a = decide (a ∈ admins) := by
  have hvalid : (∀ a ∈ admins.insertionSort (· ≤ ·), host.api.Valid a) ↔ ∀ a ∈ admins, host.api.Valid a :=
    forall_congr' fun a => by rw [List.mem_insertionSort]
  have hadmins := updated_admins host s admins
  simp only [updateAdmins, Item.load, Exec.bind_ok, Exec.ite_ok, Exec.fail_ne_ok, and_false, false_or, Exec.okOr_ok,
    saveAdmins_ok, hvalid, Except.ok.injEq, Prod.mk.injEq, Bool.not_eq_true', Bool.not_eq_false]
  constructor
  · intro h
    obtain ⟨_, hsender, mutable, hmutable, hset, _, ⟨hall, rfl⟩, rfl, -⟩ := h
    exact ⟨hsender, by rw [hmutable, hset], hall, by rw [hmutable, hset], hadmins⟩
  · intro hspec
    rcases hspec with ⟨hsender, hmutable, hall, hmutable', h⟩
    refine ⟨_, hsender, true, hmutable, rfl, _, ⟨hall, rfl⟩, ?_, rfl⟩
    have hsame := ext_has fun a => (hadmins a).trans (h a).symm
    rw [hsame, hmutable]
    cases s' with
    | mk admins' mutable' =>
      exact congrArg (Whitelist.mk admins') hmutable'.symm

/-! ## The contract on a chain -/

inductive Msg (P : Payloads) (T : Type) where
  | freeze
  | updateAdmins (admins : List String)
  | execute (msgs : List (CosmosMsg P T))

def exec (host : Host) (s : Whitelist) (sender : Addr) : Msg P T → Exec ContractError (Whitelist × Response P T)
  | .freeze => freeze s sender
  | .updateAdmins admins => updateAdmins host s sender admins
  | .execute msgs => do
    let res ← execute s sender msgs
    .ok (s, res)

/-- The storage after messages, each with its sender; one that fails leaves it. -/
def run (host : Host) (s : Whitelist) (es : List (Addr × Msg P T)) : Whitelist :=
  es.foldl
    (fun s e =>
      match exec host s e.1 e.2 with
      | .ok (s', _) => s'
      | .error _ => s)
    s

/-- A frozen list, or one of others, stays as it is. -/
theorem locked_step {host : Host} {s : Whitelist} (e : Addr × Msg P T)
    (h : s.mutable = some false ∨ s.isAdmin e.1 = false) : run host s [e] = s := by
  obtain ⟨sender, msg⟩ := e
  have hrun : run host s [(sender, msg)] = match exec host s sender msg with
      | .ok (s', _) => s'
      | .error _ => s := rfl
  rw [hrun]
  cases hexec : exec host s sender msg with
  | error => rfl
  | ok sr =>
    obtain ⟨s', r⟩ := sr
    have hfrozen : s.isAdmin sender = true → s.mutable = some false := fun hadmin =>
      h.resolve_right fun hnone => by simp [hadmin] at hnone
    cases msg with
    | execute msgs =>
      simp only [exec, Exec.bind_ok, Except.ok.injEq, Prod.mk.injEq] at hexec
      obtain ⟨_, -, rfl, -⟩ := hexec
      rfl
    | freeze =>
      simp only [exec, freeze, Exec.ite_ok, Exec.fail_ne_ok, and_false, false_or, Except.ok.injEq, Prod.mk.injEq,
        Bool.not_eq_true', Bool.not_eq_false] at hexec
      obtain ⟨hadmin, rfl, -⟩ := hexec
      simp only [← hfrozen hadmin]
    | updateAdmins admins =>
      obtain ⟨hadmin, hmutable, -⟩ := updateAdmins_ok.mp ⟨r, hexec⟩
      rw [hfrozen hadmin] at hmutable
      cases hmutable

/-- Nothing is changed where the list is frozen, or nobody who sends is an admin. -/
theorem locked {host : Host} {s : Whitelist} {es : List (Addr × Msg P T)}
    (h : s.mutable = some false ∨ ∀ e ∈ es, s.isAdmin e.1 = false) : run host s es = s := by
  induction es with
  | nil => rfl
  | cons e es ih =>
    have hcons : run host s (e :: es) = run host (run host s [e]) es := rfl
    rw [hcons, locked_step e (h.imp id fun hnone => hnone e List.mem_cons_self)]
    exact ih (h.imp id fun hnone e' he' => hnone e' (List.mem_cons_of_mem _ he'))

/-! ## What the list is for -/

/-- The admins, and whether they may still change. -/
structure AdminSet where
  members : Finset Addr
  mutable : Bool

/-- A member replaces the set by valid addresses or freezes it; anything else leaves it. -/
def AdminSet.act (api : Api) (x : AdminSet) (e : Addr × Msg P T) : AdminSet :=
  if e.1 ∈ x.members then
    match e.2 with
    | .freeze => { x with mutable := false }
    | .updateAdmins admins =>
      if x.mutable = true ∧ ∀ a ∈ admins, api.Valid a then { x with members := admins.toFinset } else x
    | .execute _ => x
  else x

/-- The storage has the set's members and its flag. -/
structure Shows (s : Whitelist) (x : AdminSet) : Prop where
  isAdmin : ∀ a, s.isAdmin a = decide (a ∈ x.members)
  mutable : s.mutable = some x.mutable

theorem shows_instantiate {host : Host} {admins : List String} {mutable : Bool} {s : Whitelist} {r : Response P T}
    (h : instantiate host admins mutable = .ok (s, r)) : Shows s ⟨admins.toFinset, mutable⟩ := by
  simp only [instantiate, Exec.bind_ok, saveAdmins_ok, Except.ok.injEq, Prod.mk.injEq] at h
  obtain ⟨_, ⟨-, rfl⟩, rfl, -⟩ := h
  refine ⟨fun a => ?_, rfl⟩
  have hnew : Whitelist.new.admins.has a = false := rfl
  simp only [isAdmin, has_foldl_save, hnew, Bool.or_false, List.mem_toFinset]

theorem run_ok {host : Host} {s s' : Whitelist} {e : Addr × Msg P T} {r : Response P T}
    (h : exec host s e.1 e.2 = .ok (s', r)) : run host s [e] = s' := by
  simp [run, h]

theorem run_error {host : Host} {s : Whitelist} {e : Addr × Msg P T} {err : Halt ContractError}
    (h : exec host s e.1 e.2 = .error err) : run host s [e] = s := by
  simp [run, h]

theorem shows_updateAdmins {host : Host} {s : Whitelist} {x : AdminSet} (h : Shows s x) {sender : Addr}
    (hmem : sender ∈ x.members) (admins : List String) :
    Shows (run host s [(sender, .updateAdmins (P := P) (T := T) admins)])
      (if x.mutable = true ∧ ∀ a ∈ admins, host.api.Valid a then { x with members := admins.toFinset } else x) := by
  have hadmin : s.isAdmin sender = true := by rw [h.isAdmin, decide_eq_true hmem]
  cases hexec : exec host s sender (.updateAdmins (P := P) (T := T) admins) with
  | ok sr =>
    obtain ⟨s', r⟩ := sr
    obtain ⟨-, hmutable, hvalid, hmutable', hadmins⟩ := updateAdmins_ok.mp ⟨r, hexec⟩
    have hset : x.mutable = true := Option.some.inj (h.mutable.symm.trans hmutable)
    rw [run_ok hexec, if_pos ⟨hset, hvalid⟩]
    exact ⟨by simpa using hadmins, hmutable'.trans (congrArg some hset.symm)⟩
  | error =>
    rw [run_error hexec, if_neg]
    · exact h
    · -- it would have returned the storage with the new admins
      intro ⟨hset, hvalid⟩
      have hupdate := updated_admins host s admins
      obtain ⟨r, hok⟩ : ∃ r : Response P T, updateAdmins host s sender admins = .ok (⟨_, some true⟩, r) :=
        updateAdmins_ok.mpr ⟨hadmin, h.mutable.trans (congrArg some hset), hvalid, rfl, hupdate⟩
      exact absurd (hexec.symm.trans hok) nofun

/-- A message that fails is one the set ignores. -/
theorem shows_step {host : Host} {s : Whitelist} {x : AdminSet} (h : Shows s x) (e : Addr × Msg P T) :
    Shows (run host s [e]) (x.act host.api e) := by
  obtain ⟨sender, msg⟩ := e
  by_cases hmem : sender ∈ x.members
  · have hadmin : s.isAdmin sender = true := by rw [h.isAdmin, decide_eq_true hmem]
    simp only [AdminSet.act, if_pos hmem]
    cases msg with
    | execute msgs =>
      have hexec : exec host s sender (.execute msgs : Msg P T) =
          .ok (s, Response.new |>.addMessages msgs |>.addAttribute "action" "execute") := by
        simp [exec, execute, hadmin, bind, Except.bind]
      rw [run_ok hexec]
      exact h
    | freeze =>
      have hexec : exec host s sender (.freeze : Msg P T) =
          .ok ({ s with mutable := some false }, Response.new |>.addAttribute "action" "freeze") := by
        simp [exec, freeze, hadmin]
      rw [run_ok hexec]
      exact ⟨h.isAdmin, rfl⟩
    | updateAdmins admins => exact shows_updateAdmins h hmem admins
  · have hout : s.isAdmin sender = false := by rw [h.isAdmin, decide_eq_false hmem]
    rw [locked_step (sender, msg) (.inr hout), AdminSet.act, if_neg hmem]
    exact h

theorem shows_run {host : Host} {s : Whitelist} {x : AdminSet} (h : Shows s x) (es : List (Addr × Msg P T)) :
    Shows (run host s es) (es.foldl (AdminSet.act host.api) x) := by
  induction es generalizing s x with
  | nil => exact h
  | cons e es ih => exact ih (shows_step h e)

/-- The stored keys are the members in order. -/
theorem keys_shown {s : Whitelist} {x : AdminSet} (h : Shows s x) : s.admins.keys = x.members.sort (· ≤ ·) := by
  have hmem : ∀ a, a ∈ s.admins.keys ↔ a ∈ x.members := fun a => by
    rw [Store.mem_keys, ← decide_eq_true_iff (p := a ∈ x.members), ← h.isAdmin a]
    rfl
  have hsorted := s.admins.keys_sorted
  have hset : s.admins.keys.toFinset = x.members := by
    ext a
    rw [List.mem_toFinset, hmem]
  rw [← hset]
  exact ((List.toFinset_sort (· ≤ ·) (hsorted.imp ne_of_lt)).mpr (hsorted.imp le_of_lt)).symm

/-- After any messages the contract answers the admins, sorted, and the flag of the set the messages make. -/
theorem admins_history {host : Host} {admins : List String} {mutable : Bool} {s : Whitelist} {r : Response P T}
    (h : instantiate host admins mutable = .ok (s, r)) (es : List (Addr × Msg P T)) :
    let x := es.foldl (AdminSet.act host.api) ⟨admins.toFinset, mutable⟩
    adminList (run host s es) = .ok ⟨x.members.sort (· ≤ ·), x.mutable⟩ ∧
      ∀ sender (msg : CosmosMsg P T), canExecute (run host s es) sender msg = decide (sender ∈ x.members) := by
  have hshows : Shows (run host s es) (es.foldl (AdminSet.act host.api) _) := shows_run (shows_instantiate h) es
  refine ⟨?_, fun sender _ => hshows.isAdmin sender⟩
  simp [adminList, Item.load, hshows.mutable, keys_shown hshows, Exec.okOr, bind, Except.bind]

def plainHost : Host := ⟨plainApi, scan⟩

def plainRun : List (Addr × Msg bare Unit) :=
  [("carol", .freeze), ("alice", .updateAdmins ["dave", "alice"]), ("dave", .freeze), ("dave", .updateAdmins ["bob"])]

theorem admins_history_replaced :
    ∃ s, instantiate (P := bare) (T := Unit) plainHost ["bob", "alice"] true = .ok (s, Response.new) ∧
      ∀ msg : CosmosMsg bare Unit, canExecute (run plainHost s plainRun) "dave" msg = true ∧
        canExecute (run plainHost s plainRun) "bob" msg = false := by
  have hnew : instantiate (P := bare) (T := Unit) plainHost ["bob", "alice"] true =
      .ok (⟨["bob", "alice"].foldl (fun m a => m.save a ()) .empty, some true⟩, Response.new) := rfl
  have h := (admins_history hnew plainRun).2
  exact ⟨_, hnew, fun msg => ⟨(h "dave" msg).trans (by decide), (h "bob" msg).trans (by decide)⟩⟩

theorem locked_outsider :
    run (P := bare) (T := Unit) plainHost ⟨Store.empty.save "alice" (), some true⟩
      [("carol", .freeze), ("carol", .updateAdmins ["carol"])] = ⟨Store.empty.save "alice" (), some true⟩ :=
  locked (Or.inr (by decide))

end Whitelist

end Sylvia.Cw1
