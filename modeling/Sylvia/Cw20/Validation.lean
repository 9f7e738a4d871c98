/-
  Sylvia.Cw20.Validation — the checks of a new token's name, symbol, decimals, accounts
  and logo (`cw20-base/src/validation.rs`).

  Text is checked as its UTF-8 bytes.

  Proved:
  - `validateAccounts_ok`: the accounts are accepted exactly when no address comes twice.
  - `verifyLogo_ok`: the logos accepted are the `Logo.WellFormed` ones: an SVG of at most
    5 KB opens with an XML preamble, a PNG of at most 5 KB with the PNG header.
-/
import Mathlib.Data.List.Sort
import Mathlib.Data.List.Destutter
import Mathlib.Data.List.TakeWhile
import Sylvia.Cw20.State

namespace Sylvia.Cw20

open Sylvia.Base Sylvia.CwStd

def logoSizeCap : Nat := 5 * 1024

def hasValidName (name : String) : Bool := !(name.utf8ByteSize < 3 || name.utf8ByteSize > 50)

def hasValidSymbol (symbol : String) : Bool :=
  let bytes := symbol.toByteArray.data.toList
  if bytes.length < 3 || bytes.length > 12 then false
  else bytes.all fun byte => !(byte ≠ 45 && (byte < 65 || byte > 90) && (byte < 97 || byte > 122))

def validateMsg (name symbol : String) (decimals : UInt8) : Exec ContractError PUnit := do
  Exec.ensure (hasValidName name) (.std (.generic "Name is not in the expected format (3-50 UTF-8 bytes)"))
  Exec.ensure (hasValidSymbol symbol) (.std (.generic "Ticker symbol is not in expected format [a-zA-Z\\-]\x7b3,12\x7d"))
  Exec.ensure (!(decimals > 18)) (.std (.generic "Decimals must not exceed 18"))

/-- `addresses.sort(); addresses.dedup()`, and the lengths compared. -/
def validateAccounts (accounts : List Cw20Coin) : Exec ContractError PUnit :=
  let addresses := (accounts.map Cw20Coin.address).insertionSort (· ≤ ·)
  let addresses := addresses.destutter (· ≠ ·)
  if addresses.length ≠ accounts.length then Exec.fail .duplicateInitialBalanceAddresses else .ok ⟨⟩

/-! ## Logos -/

/-- `<?xml ` -/
def xmlPrefix : Binary := [0x3c, 0x3f, 0x78, 0x6d, 0x6c, 0x20]

/-- `?>` -/
def xmlPostfix : Binary := [0x3f, 0x3e]

/-- The `PNG` header with its magic byte and line endings. -/
def pngHeader : Binary := [0x89, 0x50, 0x4e, 0x47, 0x0d, 0x0a, 0x1a, 0x0a]

/-- `split_inclusive(|c| *c == b'>').next()`. -/
def firstChunk (data : Binary) : Option Binary :=
  match data with
  | [] => none
  | data => some (data.takeWhile (· ≠ 0x3e) ++ (data.dropWhile (· ≠ 0x3e)).take 1)

def verifyXmlPreamble (data : Binary) : Exec ContractError PUnit := do
  let preamble ← Exec.okOr .invalidXmlPreamble (firstChunk data)
  if !(xmlPrefix.isPrefixOf preamble && xmlPostfix.isSuffixOf preamble) then Exec.fail .invalidXmlPreamble else .ok ⟨⟩

def verifyXmlLogo (logo : Binary) : Exec ContractError PUnit := do
  verifyXmlPreamble logo
  if logo.length > logoSizeCap then Exec.fail .logoTooBig else .ok ⟨⟩

def verifyPngLogo (logo : Binary) : Exec ContractError PUnit :=
  if logo.length > logoSizeCap then Exec.fail .logoTooBig
  else if !pngHeader.isPrefixOf logo then Exec.fail .invalidPngHeader
  else .ok ⟨⟩

def verifyLogo : Logo → Exec ContractError PUnit
  | .embedded (.svg logo) => verifyXmlLogo logo
  | .embedded (.png logo) => verifyPngLogo logo
  | .url _ => .ok ⟨⟩

/-! ## What is accepted -/

/-- In a sorted list equal elements are neighbours. -/
theorem nodup_of_isChain {xs : List String} (hsorted : xs.Pairwise (· ≤ ·)) (hchain : xs.IsChain (· ≠ ·)) : xs.Nodup := by
  induction xs with
  | nil => exact .nil
  | cons x xs ih =>
    obtain ⟨hx, hxs⟩ := List.pairwise_cons.mp hsorted
    refine List.nodup_cons.mpr ⟨?_, ih hxs hchain.tail⟩
    cases xs with
    | nil => simp
    | cons y ys =>
      have hlt : x < y := lt_of_le_of_ne (hx y List.mem_cons_self) (List.isChain_cons_cons.mp hchain).1
      intro hmem
      rcases List.mem_cons.mp hmem with rfl | hmem
      · exact lt_irrefl _ hlt
      · exact not_lt.mpr ((List.pairwise_cons.mp hxs).1 x hmem) hlt

theorem validateAccounts_ok {accounts : List Cw20Coin} {u : PUnit} :
    validateAccounts accounts = .ok u ↔ (accounts.map Cw20Coin.address).Nodup := by
  have hperm := List.perm_insertionSort (· ≤ ·) (accounts.map Cw20Coin.address)
  have hsorted := List.pairwise_insertionSort (· ≤ ·) (accounts.map Cw20Coin.address)
  have hlen := hperm.length_eq
  rw [← hperm.nodup_iff]
  simp only [validateAccounts]
  generalize (accounts.map Cw20Coin.address).insertionSort (· ≤ ·) = addresses at *
  have hsub := List.destutter_sublist (· ≠ ·) addresses
  rw [List.length_map] at hlen
  constructor
  · intro h
    split at h
    · simp at h
    · rename_i heq
      -- nothing was dropped, so neighbours differ, and the list is sorted
      have hself := hsub.eq_of_length (by omega)
      have hchain := List.isChain_destutter (· ≠ ·) addresses
      rw [hself] at hchain
      exact nodup_of_isChain hsorted hchain
  · intro h
    have hself := List.destutter_of_isChain (· ≠ ·) addresses h.isChain
    rw [hself, if_neg (by omega)]

/-- What a logo on chain looks like. -/
def Logo.WellFormed : Logo → Prop
  | .url _ => True
  | .embedded (.svg data) =>
    data.length ≤ logoSizeCap ∧ ∃ mid rest, data = xmlPrefix ++ mid ++ xmlPostfix ++ rest ∧ 0x3e ∉ mid
  | .embedded (.png data) => data.length ≤ logoSizeCap ∧ ∃ rest, data = pngHeader ++ rest

theorem firstChunk_some {data chunk : Binary} (h : firstChunk data = some chunk) :
    ∃ rest, data = chunk ++ rest ∧ ∀ init last, chunk = init ++ [last] → 0x3e ∉ init := by
  have hchunk : data.takeWhile (· ≠ 0x3e) ++ (data.dropWhile (· ≠ 0x3e)).take 1 = chunk := by
    cases data with
    | nil => simp [firstChunk] at h
    | cons => simpa [firstChunk] using h
  refine ⟨(data.dropWhile (· ≠ 0x3e)).drop 1, ?_, ?_⟩
  · rw [← hchunk, List.append_assoc, List.take_append_drop, List.takeWhile_append_dropWhile]
  · intro init last hlast hmem
    have hnot : ∀ b ∈ data.takeWhile (· ≠ 0x3e), b ≠ 0x3e := fun b hb => by
      simpa using List.mem_takeWhile_imp hb
    rw [← hchunk] at hlast
    match hd : (data.dropWhile (· ≠ 0x3e)).take 1 with
    | [] =>
      rw [hd, List.append_nil] at hlast
      exact hnot 0x3e (hlast ▸ List.mem_append_left _ hmem) rfl
    | [b] =>
      rw [hd] at hlast
      exact hnot 0x3e ((List.append_inj' hlast rfl).1 ▸ hmem) rfl
    | _ :: _ :: _ =>
      have := congrArg List.length hd
      simp at this
      omega

/-- A preamble is opened, closed, and closed only at its end. -/
theorem verifyXmlPreamble_ok {data : Binary} {u : PUnit} :
    verifyXmlPreamble data = .ok u ↔ ∃ mid rest, data = xmlPrefix ++ mid ++ xmlPostfix ++ rest ∧ 0x3e ∉ mid := by
  constructor
  · intro h
    simp only [verifyXmlPreamble, Exec.bind_ok, Exec.okOr_ok] at h
    obtain ⟨chunk, hchunk, h⟩ := h
    obtain ⟨rest, hdata, hlast⟩ := firstChunk_some hchunk
    split at h
    · simp at h
    · rename_i hc
      simp only [Bool.not_eq_true', Bool.not_eq_false, Bool.and_eq_true, List.isPrefixOf_iff_prefix,
        List.isSuffixOf_iff_suffix] at hc
      obtain ⟨⟨tail, htail⟩, ⟨init, hinit⟩⟩ := hc
      obtain ⟨mid, rfl⟩ : ∃ mid, chunk = xmlPrefix ++ mid ++ xmlPostfix := by
        rcases List.append_eq_append_iff.mp (htail.trans hinit.symm) with ⟨mid, -, ht⟩ | ⟨c, hp, ht⟩
        · exact ⟨mid, by rw [← htail, ht, List.append_assoc]⟩
        · -- the two could share bytes only where the prefix ends
          have hends := congrArg List.getLast? hp
          rw [List.getLast?_append] at hends
          have hc : c = [] := by
            cases hlast : c.getLast? with
            | none => exact List.getLast?_eq_none_iff.mp hlast
            | some b =>
              have hb : b = 0x20 := by simpa [hlast, xmlPrefix] using hends.symm
              have hmem : b ∈ xmlPostfix := ht ▸ List.mem_append_left tail (List.mem_of_getLast? hlast)
              exact absurd (hb ▸ hmem) (by decide)
          exact ⟨[], by rw [List.append_nil, ht, hc, List.nil_append, htail]⟩
      refine ⟨mid, rest, hdata, fun hmid => ?_⟩
      refine hlast (xmlPrefix ++ mid ++ [0x3f]) 0x3e (by simp [xmlPostfix]) ?_
      simp [hmid]
  · intro hspec
    rcases hspec with ⟨mid, rest, hdata, hmid⟩
    have hopen : (xmlPrefix.all fun b => decide (b ≠ (0x3e : UInt8))) = true := rfl
    have hne : ∀ b ∈ xmlPrefix ++ mid ++ [0x3f], (decide (b ≠ (0x3e : UInt8))) = true := by
      intro b hb
      simp only [List.mem_append, List.mem_singleton] at hb
      rcases hb with (hb | hb) | rfl
      · exact List.all_eq_true.mp hopen b hb
      · exact decide_eq_true fun h => hmid (h ▸ hb)
      · decide
    have hsplit : data = (xmlPrefix ++ mid ++ [0x3f]) ++ 0x3e :: rest := by simp [hdata, xmlPostfix]
    have hchunk : firstChunk data = some (xmlPrefix ++ mid ++ xmlPostfix) := by
      have htake : data.takeWhile (· ≠ 0x3e) = xmlPrefix ++ mid ++ [0x3f] := by
        rw [hsplit, List.takeWhile_append_of_pos hne, List.takeWhile_cons_of_neg (by simp), List.append_nil]
      have hdrop : data.dropWhile (· ≠ 0x3e) = 0x3e :: rest := by
        rw [hsplit, List.dropWhile_append_of_pos hne, List.dropWhile_cons_of_neg (by simp)]
      have : firstChunk data = some (data.takeWhile (· ≠ 0x3e) ++ (data.dropWhile (· ≠ 0x3e)).take 1) := by
        cases data with
        | nil => simp at hsplit
        | cons => rfl
      rw [this, htake, hdrop]
      simp [xmlPostfix]
    have hpre : xmlPrefix.isPrefixOf (xmlPrefix ++ mid ++ xmlPostfix) = true := by
      rw [List.isPrefixOf_iff_prefix, List.append_assoc]
      exact List.prefix_append _ _
    have hpost : xmlPostfix.isSuffixOf (xmlPrefix ++ mid ++ xmlPostfix) = true :=
      List.isSuffixOf_iff_suffix.mpr (List.suffix_append _ _)
    simp only [verifyXmlPreamble, hchunk, Exec.bind_ok, Exec.okOr_ok]
    exact ⟨_, rfl, by rw [hpre, hpost]; rfl⟩

/-- The logos that are accepted. -/
theorem verifyLogo_ok {logo : Logo} {u : PUnit} : verifyLogo logo = .ok u ↔ logo.WellFormed := by
  cases logo with
  | url => simp [verifyLogo, Logo.WellFormed]
  | embedded logo =>
    cases logo with
    | svg data =>
      simp only [verifyLogo, verifyXmlLogo, Exec.bind_ok, verifyXmlPreamble_ok, Logo.WellFormed, Exec.ite_ok]
      simp [and_comm]
    | png data =>
      have hhead : pngHeader.isPrefixOf data = true ↔ ∃ rest, data = pngHeader ++ rest := by
        rw [List.isPrefixOf_iff_prefix]
        constructor
        · intro hprefix
          rcases hprefix with ⟨rest, h⟩
          exact ⟨rest, h.symm⟩
        · intro happend
          rcases happend with ⟨rest, h⟩
          exact ⟨rest, h.symm⟩
      simp only [verifyLogo, verifyPngLogo, Logo.WellFormed, Exec.ite_ok, Exec.fail_ne_ok, ← hhead]
      simp

@[simp] theorem verifyLogo_panics {logo : Logo} : (verifyLogo logo).Panics ↔ False := by
  cases logo with
  | url => simp [verifyLogo]
  | embedded logo =>
    cases logo with
    | svg data => simp [verifyLogo, verifyXmlLogo, verifyXmlPreamble, Exec.ite_panics]
    | png data => simp [verifyLogo, verifyPngLogo, Exec.ite_panics]

end Sylvia.Cw20
