/-
  Sylvia.Cw20.Artwork — the marketing data and the logo over runs.

  The logo is stored apart from the marketing info, which only says what kind it is. Nothing
  of either changes but by the address the info names; a text that is blank clears that
  address for good.

  Proved:
  - `Reach.artwork`, `download_exact`: on chain the info's logo is the stored one's, and the
    stored one is well formed; it can be downloaded exactly when the info says `embedded`,
    with the bytes stored.
  - `marketing_kept`: a run in which the address named sends nothing leaves the marketing
    data; so does every run once no address is named.
-/
import Sylvia.Cw20.Invariant

namespace Sylvia.Cw20

open Sylvia.Base Sylvia.CwStd

variable {X B T : Type} {P : Payloads} {deps : Deps X B}

/-- The address that may change the marketing data. -/
def marketer (s : Cw20Base X) : Option Addr := s.marketingInfo.bind MarketingInfoResponse.marketing

structure Artwork (s : Cw20Base X) : Prop where
  info : s.marketingInfo.bind MarketingInfoResponse.logo = s.logo.map Logo.info
  wellFormed : ∀ logo ∈ s.logo, logo.WellFormed

theorem Artwork.same {s s' : Cw20Base X} (h : Artwork s) (hs : SameMarketing s s') : Artwork s' := by
  obtain ⟨hinfo, hlogo⟩ := hs
  exact ⟨by rw [hinfo, hlogo]; exact h.info, by rw [hlogo]; exact h.wellFormed⟩

theorem updateMarketing_ok {s s' : Cw20Base X} {ctx : ExecCtx B} {project description marketing : Option String}
    {r : Response P.withWasm T} (hok : updateMarketing deps s ctx project description marketing = .ok (s', r)) :
    marketer s = some ctx.sender ∧ s'.logo = s.logo ∧
      s'.marketingInfo.bind MarketingInfoResponse.logo = s.marketingInfo.bind MarketingInfoResponse.logo := by
  simp only [updateMarketing, Exec.bind_ok, Exec.okOr_ok, Exec.ensure_ok, decide_eq_true_eq, Except.ok.injEq,
    Prod.mk.injEq] at hok
  obtain ⟨info, hinfo, owner, howner, _, hsender, addr, -, rfl, -⟩ := hok
  refine ⟨by rw [marketer, hinfo, Option.bind_some, howner, hsender], rfl, ?_⟩
  rw [hinfo]
  simp only
  split
  · rfl
  · -- the info is dropped only if it has no logo
    rename_i hkept
    cases hlogo : info.logo with
    | none => exact hlogo.symm
    | some logo => simp [hlogo] at hkept

theorem uploadLogo_ok {s s' : Cw20Base X} {ctx : ExecCtx B} {logo : Logo} {r : Response P.withWasm T}
    (hok : uploadLogo s ctx logo = .ok (s', r)) :
    marketer s = some ctx.sender ∧ logo.WellFormed ∧ s'.logo = some logo ∧
      s'.marketingInfo.bind MarketingInfoResponse.logo = some logo.info := by
  simp only [uploadLogo, Exec.bind_ok, Exec.okOr_ok, Exec.ensure_ok, verifyLogo_ok, decide_eq_true_eq, Except.ok.injEq,
    Prod.mk.injEq] at hok
  obtain ⟨info, hinfo, _, hformed, owner, howner, _, hsender, rfl, -⟩ := hok
  exact ⟨by rw [marketer, hinfo, Option.bind_some, howner, hsender], hformed, rfl, rfl⟩

/-- What changes the marketing data was sent by the address it named. -/
theorem handle_marketing {s s' : Cw20Base X} {e : Ev X B} {r : Response P.withWasm T} (h : Mirror s)
    (hok : handle P T deps s e = .ok (s', r)) :
    SameMarketing s s' ∨ ∃ a ∈ e.sender, marketer s = some a := by
  cases e with
  | migrate older =>
    rcases migrate_ok hok with rfl | ⟨-, rfl⟩
    · exact Or.inl ⟨rfl, rfl⟩
    · exact Or.inl ⟨rfl, rfl⟩
  | exec ctx msg =>
    have hok : execute P T deps s ctx msg = .ok (s', r) := hok
    cases msg with
    | updateMarketing project description marketing => exact Or.inr ⟨ctx.sender, rfl, (updateMarketing_ok hok).1⟩
    | uploadLogo logo => exact Or.inr ⟨ctx.sender, rfl, (uploadLogo_ok hok).1⟩
    | _ => exact Or.inl ((execute_frame h hok).marketing (Option.some_ne_none _))

theorem handle_artwork {s s' : Cw20Base X} {e : Ev X B} {r : Response P.withWasm T} (hm : Mirror s) (h : Artwork s)
    (hok : handle P T deps s e = .ok (s', r)) : Artwork s' := by
  cases e with
  | migrate older =>
    rcases migrate_ok hok with rfl | ⟨-, rfl⟩
    · exact h
    · exact h.same ⟨rfl, rfl⟩
  | exec ctx msg =>
    have hok : execute P T deps s ctx msg = .ok (s', r) := hok
    cases msg with
    | updateMarketing project description marketing =>
      obtain ⟨-, hlogo, hinfo⟩ := updateMarketing_ok hok
      exact ⟨by rw [hinfo, hlogo]; exact h.info, by rw [hlogo]; exact h.wellFormed⟩
    | uploadLogo logo =>
      obtain ⟨-, hformed, hlogo, hinfo⟩ := uploadLogo_ok hok
      refine ⟨by rw [hinfo, hlogo]; rfl, fun l hl => ?_⟩
      rw [hlogo] at hl
      cases hl
      exact hformed
    | _ => exact h.same ((execute_frame hm hok).marketing (Option.some_ne_none _))

theorem opened_artwork {data : InstantiateMsgData} (h : Openable deps data) : Artwork (opened (X := X) data) := by
  refine ⟨?_, fun logo hlogo => ?_⟩
  · rw [opened]
    cases data.marketing <;> rfl
  · obtain ⟨m, hm, hlogo⟩ := Option.bind_eq_some_iff.mp hlogo
    exact h.logo m hm logo hlogo

theorem Reach.artwork {s : Cw20Base X} (h : Reach P T deps s) : Artwork s := by
  have : Mirror s ∧ Artwork s := by
    refine reach_induct (I := fun s => Mirror s ∧ Artwork s) (fun hok => ?_) (fun hi hok => ?_) h
    · obtain ⟨hopen, rfl⟩ := instantiate_ok.mp ⟨_, hok⟩
      exact ⟨(opened_inv hopen).paired.mirror, opened_artwork hopen⟩
    · exact ⟨handle_mirror hi.1 hok, handle_artwork hi.1 hi.2 hok⟩
  exact this.2

/-- The logo can be downloaded exactly when the info says it is embedded; what comes is what is stored, and is well formed. -/
theorem download_exact {s : Cw20Base X} (h : Reach P T deps s) :
    ((downloadLogo s).Returns ↔ (marketingInfo s).logo = some .embedded) ∧
    ∀ d, downloadLogo s = .ok d →
      (d.mimeType = "image/svg+xml" ∧ s.logo = some (.embedded (.svg d.data)) ∨
        d.mimeType = "image/png" ∧ s.logo = some (.embedded (.png d.data))) ∧ ∀ logo ∈ s.logo, logo.WellFormed := by
  obtain ⟨hinfo, hformed⟩ := h.artwork
  have hlogo : (marketingInfo s).logo = s.logo.map Logo.info := by
    rw [← hinfo, marketingInfo]
    cases s.marketingInfo <;> rfl
  rw [hlogo, downloadLogo]
  cases hs : s.logo with
  | none => simp [Item.load, Exec.okOr]
  | some logo =>
    have := hformed logo hs
    cases logo with
    | url link => simp [Item.load, Logo.info]
    | embedded logo =>
      cases logo with
      | svg data => simpa [Item.load, Logo.info] using this
      | png data => simpa [Item.load, Logo.info] using this

/-- A token with an embedded logo. -/
def artData : InstantiateMsgData :=
  { coinData with marketing := some ⟨none, none, none, some (.embedded (.png (pngHeader ++ [1, 2])))⟩ }

theorem art_openable : Openable plainDeps artData where
  named := coin_openable.named
  valid := coin_openable.valid
  fits := coin_openable.fits
  capped := coin_openable.capped
  minter := coin_openable.minter
  logo m hm logo hlogo := by
    cases hm
    cases hlogo
    exact ⟨by decide, _, rfl⟩
  marketing m hm addr haddr := by
    cases hm
    cases haddr

theorem art_reach : Reach bare Unit plainDeps (opened artData) :=
  .instantiate (instantiate_ok.mpr ⟨art_openable, rfl⟩).choose_spec

theorem download_exact_art :
    (downloadLogo (opened (X := Option ℕ) artData)).Returns ∧
    ∀ d, downloadLogo (opened (X := Option ℕ) artData) = .ok d →
      (d.mimeType = "image/svg+xml" ∧ (opened (X := Option ℕ) artData).logo = some (.embedded (.svg d.data)) ∨
        d.mimeType = "image/png" ∧ (opened (X := Option ℕ) artData).logo = some (.embedded (.png d.data))) ∧
      ∀ logo ∈ (opened (X := Option ℕ) artData).logo, logo.WellFormed := by
  obtain ⟨hreturns, hdata⟩ := download_exact art_reach
  exact ⟨hreturns.mpr rfl, hdata⟩

/-! ## Who changes it -/

theorem SameMarketing.trans {s s' s'' : Cw20Base X} (h : SameMarketing s s') (h' : SameMarketing s' s'') :
    SameMarketing s s'' :=
  ⟨h'.1.trans h.1, h'.2.trans h.2⟩

/-- A run in which the address named, if there is one, sends nothing leaves the marketing data. -/
theorem marketing_kept {s : Cw20Base X} (h : Reach P T deps s) {es : List (Ev X B)}
    (hsilent : ∀ e ∈ es, ∀ a ∈ e.sender, marketer s ≠ some a) : SameMarketing s (run P T deps s es) := by
  have hm := h.inv.paired.mirror
  clear h
  induction es generalizing s with
  | nil => exact ⟨rfl, rfl⟩
  | cons e es ih =>
    have hstep : Mirror (step P T deps s e) ∧ SameMarketing s (step P T deps s e) := by
      rcases step_cases (P := P) (T := T) deps s e with ⟨r, hok⟩ | hs
      · refine ⟨handle_mirror hm hok, (handle_marketing hm hok).resolve_right fun hsender => ?_⟩
        obtain ⟨a, ha, hmarketer⟩ := hsender
        exact hsilent e List.mem_cons_self a ha hmarketer
      · rw [hs]
        exact ⟨hm, rfl, rfl⟩
    refine hstep.2.trans (ih (fun e' he' a ha => ?_) hstep.1)
    rw [marketer, hstep.2.1]
    exact hsilent e' (List.mem_cons_of_mem _ he') a ha

theorem marketing_kept_coin :
    SameMarketing (opened coinData) (run bare Unit plainDeps (opened coinData) coinRun) :=
  marketing_kept coin_reach fun e he a ha => by
    simp only [coinRun, List.mem_cons, List.not_mem_nil, or_false] at he
    rcases he with rfl | rfl <;> cases ha <;> decide

end Sylvia.Cw20
