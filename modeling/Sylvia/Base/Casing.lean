/-
  Sylvia.Base.Casing — when `convert_case` and serde spell an UpperCamel name alike.

  Both put underscores into the name and lower it: serde one before every capital,
  `convert_case` one at every boundary it finds. On the UpperCamel form of words over
  lower-case letters and digits they part at a digit next to a letter, and at a
  one-letter word followed by another: a run of capitals is cut before its last one
  only if a lower-case letter follows.

  Proved:
  - `snake_eq_iff_agree`: the spellings are the same exactly when the two cut at the
    same places.
  - `agree_camel`: on words of letters they do exactly when no two words in a row have
    one letter each (`Spaced`).
  - `underscore_not_mem_camel`, `camel_head_not_isLower`: serde's renaming is injective on
    UpperCamel names.
  - `snake_eq_iff`: for a text of lower-case letters, digits and underscores whose
    UpperCamel form starts with a letter, exactly when it has no digit and its words
    are `Spaced`.
  - `convert_upperSnake_eq_iff`: two texts have one UpperSnake form exactly when they have
    the same words, letter case aside.
-/
import Sylvia.Base.Words

namespace Sylvia.Base

/-! ## Character classes -/

theorem not_isUpper_of_isDigit {c : Char} (h : c.isDigit = true) : c.isUpper = false := by
  simp only [Char.isDigit, Char.isUpper, Bool.and_eq_true, decide_eq_true_eq] at *
  grind

theorem not_isLower_of_isDigit {c : Char} (h : c.isDigit = true) : c.isLower = false := by
  simp only [Char.isDigit, Char.isLower, Bool.and_eq_true, decide_eq_true_eq] at *
  grind

theorem not_isUpper_of_isLower {c : Char} (h : c.isLower = true) : c.isUpper = false := by
  simpa using Char.not_isUpper_of_isLower h

theorem not_isLower_of_isUpper {c : Char} (h : c.isUpper = true) : c.isLower = false := by
  simpa using Char.not_isLower_of_isUpper h

theorem not_isDigit_of_isAlpha {c : Char} (h : c.isAlpha = true) : c.isDigit = false := by
  by_contra hd
  have hd : c.isDigit = true := by simpa using hd
  simp [Char.isAlpha, not_isUpper_of_isDigit hd, not_isLower_of_isDigit hd] at h

theorem toLower_of_isLower {c : Char} (h : c.isLower = true) : c.toLower = c :=
  toLower_of_not_isUpper (not_isUpper_of_isLower h)

theorem toLower_eq_underscore {c : Char} (h : c.toLower = '_') : c = '_' := by
  cases hu : c.isUpper with
  | false => rwa [toLower_of_not_isUpper hu] at h
  | true =>
    have : c.toLower.isLower = true := by simp [Char.isAlpha, hu]
    rw [h] at this
    exact absurd this (by decide)

theorem toUpper_eq_underscore {c : Char} (h : c.toUpper = '_') : c = '_' := by
  cases hl : c.isLower with
  | false => rwa [Char.toUpper_eq_of_not_isLower (by simp [hl])] at h
  | true =>
    have : c.toUpper.isUpper = true := by simp [Char.isAlpha, hl]
    rw [h] at this
    exact absurd this (by decide)

/-! ## Where the two cut -/

/-- serde cuts before a capital. -/
def serdeCut (_ c : Char) (_ : Option Char) : Bool := c.isUpper

/-- `convert_case`, by its default boundaries. -/
def caseCut : Char → Char → Option Char → Bool := cutBefore Boundary.defaults

theorem caseCut_eq (p c : Char) (e : Option Char) : caseCut p c e =
    (p.isLower && c.isUpper || p.isUpper && c.isDigit || p.isDigit && c.isUpper || p.isDigit && c.isLower ||
      p.isLower && c.isDigit || p.isUpper && c.isUpper && e.any Char.isLower) := by
  cases e <;> simp [caseCut, cutBefore, Boundary.defaults, Boundary.detectTwo, Boundary.detectThree, Bool.or_assoc]

theorem map_intercalate {α β : Type} (f : α → β) (sep : List α) (ws : List (List α)) :
    (sep.intercalate ws).map f = (sep.map f).intercalate (ws.map (List.map f)) := by
  induction ws with
  | nil => rfl
  | cons w ws ih =>
    cases ws with
    | nil => simp
    | cons w' ws =>
      rw [List.intercalate_cons_cons, List.map_cons, List.map_cons, List.intercalate_cons_cons]
      simp only [List.map_append, ih, List.map_cons]

/-- Words without the separator are read back from the text they are joined to. -/
theorem intercalate_inj {α : Type} [DecidableEq α] {sep : α} {ws vs : List (List α)}
    (hws : ∀ w ∈ ws, w ≠ [] ∧ sep ∉ w) (hvs : ∀ v ∈ vs, v ≠ [] ∧ sep ∉ v)
    (h : [sep].intercalate ws = [sep].intercalate vs) : ws = vs := by
  have hnil {us : List (List α)} (hus : ∀ u ∈ us, u ≠ [] ∧ sep ∉ u) (he : [sep].intercalate us = []) : us = [] := by
    match us, hus, he with
    | [], _, _ => rfl
    | [u], hus, he => exact absurd (by simpa using he) (hus u (by simp)).1
    | u :: u' :: us, _, he => rw [List.intercalate_cons_cons] at he; simp at he
  by_cases hw : ws = []
  · rw [hw, List.intercalate_nil] at h
    rw [hw, hnil hvs h.symm]
  · by_cases hv : vs = []
    · rw [hv, List.intercalate_nil] at h
      rw [hv, hnil hws h]
    · rw [← List.splitOn_intercalate sep (fun w hmem => (hws w hmem).2) hw, h,
        List.splitOn_intercalate sep (fun v hmem => (hvs v hmem).2) hv]

/-- The words of a text, in capitals. -/
def upperWords (s : List Char) : List (List Char) := (split Boundary.defaults s).map (List.map Char.toUpper)

theorem upperWords_spec {s w : List Char} (hw : w ∈ upperWords s) : w ≠ [] ∧ '_' ∉ w := by
  obtain ⟨v, hv, rfl⟩ := List.mem_map.mp hw
  obtain ⟨hne, hc⟩ := mem_split hv
  refine ⟨by simpa using hne, ?_⟩
  intro hmem
  obtain ⟨c, hcv, hup⟩ := List.mem_map.mp hmem
  have hcons := (hc c hcv).2
  rw [toUpper_eq_underscore hup] at hcons
  exact absurd hcons (by decide)

theorem convert_upperSnake_eq_iff (s t : List Char) :
    convert .upperSnake s = convert .upperSnake t ↔ upperWords s = upperWords t := by
  constructor
  · intro h
    exact intercalate_inj (fun w hw => upperWords_spec hw) (fun w hw => upperWords_spec hw) h
  · intro h
    show ['_'].intercalate (upperWords s) = ['_'].intercalate (upperWords t)
    rw [h]

theorem convert_snake_eq {s : List Char} (hs : ∀ c ∈ s, consumed Boundary.defaults c = false) :
    convert .snake s = (mark caseCut '_' none s).map Char.toLower := by
  rw [caseCut, ← intercalate_split hs, map_intercalate]
  rfl

theorem snake_eq_iff_agree {c : Char} {cs : List Char}
    (hs : ∀ d ∈ c :: cs, consumed Boundary.defaults d = false) :
    convert .snake (c :: cs) = snakeCaseVariant (c :: cs) ↔ Agree caseCut serdeCut c cs := by
  have hsep : ∀ d ∈ cs, d.toLower ≠ ('_' : Char).toLower := by
    intro d hd h
    have hd' := hs d (List.mem_cons_of_mem _ hd)
    rw [toLower_eq_underscore (h.trans (by decide))] at hd'
    exact absurd hd' (by decide)
  have hserde : snakeCaseVariant (c :: cs) = (mark serdeCut '_' none (c :: cs)).map Char.toLower :=
    snakeCaseFrom_eq_mark (c :: cs) none
  rw [convert_snake_eq hs, hserde, ← mark_map_eq_iff hsep]
  simp [mark]

/-! ## UpperCamel texts -/

/-- Words written in UpperCamel. -/
def camel (ws : List (List Char)) : List Char := ws.flatMap capital

theorem convert_upperCamel (s : List Char) : convert .upperCamel s = camel (split Boundary.defaults s) := by
  have flat : ∀ ws : List (List Char), ([] : List Char).intercalate ws = ws.flatten := by
    intro ws
    induction ws with
    | nil => rfl
    | cons w ws ih =>
      cases ws with
      | nil => simp
      | cons w' ws => rw [List.intercalate_cons_cons, ih]; simp
  simp only [convert, Case.delim, Case.mutate, flat, camel, List.flatMap]

/-- No one-letter word is followed by another. -/
def Spaced (ws : List (List Char)) : Prop := ws.IsChain fun w w' => ¬ (w.length = 1 ∧ w'.length = 1)

instance (ws : List (List Char)) : Decidable (Spaced ws) :=
  inferInstanceAs (Decidable (ws.IsChain fun w w' => ¬ (w.length = 1 ∧ w'.length = 1)))

/-- Lower-case letters after a letter are not cut by either. -/
theorem agree_lowers {ls : List Char} (hls : ∀ c ∈ ls, c.isLower = true) {p : Char} (hp : p.isAlpha = true)
    (rest : List Char) :
    Agree caseCut serdeCut p (ls ++ rest) ↔ Agree caseCut serdeCut (ls.getLast?.getD p) rest := by
  induction ls generalizing p with
  | nil => rfl
  | cons l ls ih =>
    have hl := hls l List.mem_cons_self
    have hla : l.isAlpha = true := by simp [Char.isAlpha, hl]
    have hcut : ∀ e, caseCut p l e = serdeCut p l e := fun e => by
      simp [caseCut_eq, serdeCut, not_isUpper_of_isLower hl, not_isDigit_of_isAlpha hla, not_isDigit_of_isAlpha hp]
    rw [List.cons_append, Agree, ih (fun c hc => hls c (List.mem_cons_of_mem _ hc)) hla, List.getLast?_cons]
    simp [hcut]

theorem camel_head_not_isLower (ws : List (List Char)) : ∀ c ∈ (camel ws).head?, c.isLower = false := by
  intro c hc
  induction ws with
  | nil => simp [camel] at hc
  | cons w ws ih =>
    cases w with
    | nil => exact ih (by simpa [camel, capital] using hc)
    | cons a ls =>
      obtain rfl : a.toUpper = c := by simpa [camel, capital] using hc
      simp

/-- No underscore is left in UpperCamel. -/
theorem underscore_not_mem_camel (s : List Char) : '_' ∉ camel (split Boundary.defaults s) := by
  intro h
  obtain ⟨w, hw, h⟩ := List.mem_flatMap.mp h
  have hno : '_' ∉ w := fun h => absurd ((mem_split hw).2 _ h).2 (by decide)
  cases w with
  | nil => simp [capital] at h
  | cons a ls =>
    rcases List.mem_cons.mp h with h | h
    · exact hno (toUpper_eq_underscore h.symm ▸ List.mem_cons_self)
    · obtain ⟨l, hl, h⟩ := List.mem_map.mp h
      exact hno (toLower_eq_underscore h ▸ List.mem_cons_of_mem _ hl)

/-- At the capital of a word the two agree unless the word is one letter after a capital. -/
theorem caseCut_capital {p u : Char} (hp : p.isAlpha = true) (hu : u.isUpper = true) (e : Option Char) :
    caseCut p u e = serdeCut p u e ↔ (p.isUpper = true → e.any Char.isLower = true) := by
  have hpd := not_isDigit_of_isAlpha hp
  have hul := not_isLower_of_isUpper hu
  have hud : u.isDigit = false := not_isDigit_of_isAlpha (by simp [Char.isAlpha, hu])
  cases hpu : p.isUpper with
  | true => simp [caseCut_eq, serdeCut, hu, hul, hud, hpd, hpu, not_isLower_of_isUpper hpu]
  | false =>
    have hpl : p.isLower = true := by simpa [Char.isAlpha, hpu] using hp
    simp [caseCut_eq, serdeCut, hu, hpl]

theorem agree_camel {ws : List (List Char)} (hws : ∀ w ∈ ws, w ≠ [] ∧ ∀ c ∈ w, c.isLower = true) {p : Char}
    (hp : p.isAlpha = true) : Agree caseCut serdeCut p (camel ws) ↔
      (p.isUpper = true → ∀ w ∈ ws.head?, w.length ≠ 1) ∧ Spaced ws := by
  induction ws generalizing p with
  | nil => simp [camel, Agree, Spaced]
  | cons w ws ih =>
    obtain ⟨hne, hlow⟩ := hws w List.mem_cons_self
    obtain ⟨a, ls, rfl⟩ := List.exists_cons_of_ne_nil hne
    have hls : ∀ c ∈ ls, c.isLower = true := fun c hc => hlow c (List.mem_cons_of_mem _ hc)
    have hau : a.toUpper.isUpper = true := by simp [Char.isAlpha, hlow a List.mem_cons_self]
    have hau' : a.toUpper.isAlpha = true := by simp [Char.isAlpha, hau]
    have hcamel : camel ((a :: ls) :: ws) = a.toUpper :: (ls ++ camel ws) := by
      have : ls.map Char.toLower = ls := by
        rw [List.map_congr_left fun c hc => toLower_of_isLower (hls c hc)]; simp
      simp [camel, capital, this]
    -- the last letter of the word is its capital exactly when it is its only one
    have hq : (ls.getLast?.getD a.toUpper).isAlpha = true ∧
        ((ls.getLast?.getD a.toUpper).isUpper = true ↔ ls = []) := by
      cases hl : ls.getLast? with
      | none => simp [List.getLast?_eq_none_iff.mp hl, hau, hau']
      | some q =>
        have hql := hls q (List.mem_of_getLast? hl)
        have hne : ls ≠ [] := by
          intro hnil
          rw [hnil] at hl
          cases hl
        simp [Char.isAlpha, hql, not_isUpper_of_isLower hql, hne]
    have hhead : (ls ++ camel ws).head?.any Char.isLower = true ↔ ls ≠ [] := by
      cases ls with
      | nil =>
        have := camel_head_not_isLower ws
        cases hh : (camel ws).head? with
        | none => simp [hh]
        | some c => simp [hh, this c hh]
      | cons l ls => simp [hls l List.mem_cons_self]
    have ih := ih (fun w hw => hws w (List.mem_cons_of_mem _ hw)) hq.1
    rw [hcamel, Agree, caseCut_capital hp hau, hhead, agree_lowers hls hau', ih, hq.2]
    have hchain : Spaced ((a :: ls) :: ws) ↔ (ls = [] → ∀ w ∈ ws.head?, w.length ≠ 1) ∧ Spaced ws := by
      cases ws with
      | nil => simp [Spaced]
      | cons w' ws => simp [Spaced, List.isChain_cons_cons]
    rw [hchain]
    simp

/-! ## Names of lower-case letters, digits and underscores -/

/-- A digit after a letter: `convert_case` cuts before it, serde does not. -/
theorem no_digit_of_agree {s : List Char} (hs : ∀ c ∈ s, c.isAlphanum = true) {p : Char} (hp : p.isAlpha = true)
    (h : Agree caseCut serdeCut p s) : ∀ c ∈ s, c.isDigit = false := by
  induction s generalizing p with
  | nil => simp
  | cons c s ih =>
    have hc : c.isDigit = false := by
      by_contra hd
      have hd : c.isDigit = true := by simpa using hd
      have hcut := h.1
      rw [caseCut_eq, serdeCut, hd, not_isUpper_of_isDigit hd, not_isLower_of_isDigit hd] at hcut
      have hp' : p.isUpper = true ∨ p.isLower = true := by simpa [Char.isAlpha] using hp
      rcases hp' with hp | hp <;> simp [hp] at hcut
    have hca : c.isAlpha = true := by simpa [Char.isAlphanum, hc] using hs c List.mem_cons_self
    intro d hd
    rcases List.mem_cons.mp hd with rfl | hd
    · exact hc
    · exact ih (fun e he => hs e (List.mem_cons_of_mem _ he)) hca h.2 d hd

theorem isAlphanum_toUpper {c : Char} (h : c.isAlphanum = true) : c.toUpper.isAlphanum = true := by
  cases hl : c.isLower with
  | false => rwa [Char.toUpper_eq_of_not_isLower (by simp [hl])]
  | true => simp [Char.isAlphanum, Char.isAlpha, hl]

theorem isAlphanum_toLower {c : Char} (h : c.isAlphanum = true) : c.toLower.isAlphanum = true := by
  cases hu : c.isUpper with
  | false => rwa [toLower_of_not_isUpper hu]
  | true => simp [Char.isAlphanum, Char.isAlpha, hu]

theorem camel_isAlphanum {ws : List (List Char)} (h : ∀ w ∈ ws, ∀ c ∈ w, c.isAlphanum = true) :
    ∀ c ∈ camel ws, c.isAlphanum = true := by
  intro c hc
  obtain ⟨w, hw, hc⟩ := List.mem_flatMap.mp hc
  cases w with
  | nil => simp [capital] at hc
  | cons a ls =>
    rcases List.mem_cons.mp hc with rfl | hc
    · exact isAlphanum_toUpper (h _ hw a List.mem_cons_self)
    · obtain ⟨l, hl, rfl⟩ := List.mem_map.mp hc
      exact isAlphanum_toLower (h _ hw l (List.mem_cons_of_mem _ hl))

theorem not_consumed_of_isAlphanum {c : Char} (h : c.isAlphanum = true) : consumed Boundary.defaults c = false := by
  have hne : ∀ d : Char, d.isAlphanum = false → (c == d) = false := by
    intro d hd
    rw [beq_eq_false_iff_ne]
    intro he
    rw [← he, h] at hd
    cases hd
  simp [consumed, Boundary.defaults, Boundary.detectOne, hne '_' (by decide), hne '-' (by decide), hne ' ' (by decide)]

theorem digit_mem_camel {ws : List (List Char)} {w : List Char} (hw : w ∈ ws) {c : Char} (hc : c ∈ w)
    (hd : c.isDigit = true) : c ∈ camel ws := by
  refine List.mem_flatMap.mpr ⟨w, hw, ?_⟩
  cases w with
  | nil => cases hc
  | cons a ls =>
    rcases List.mem_cons.mp hc with rfl | hc
    · have : c.toUpper = c := Char.toUpper_eq_of_not_isLower (by simp [not_isLower_of_isDigit hd])
      simp [capital, this]
    · have := List.mem_map_of_mem (f := Char.toLower) hc
      rw [toLower_of_not_isUpper (not_isUpper_of_isDigit hd)] at this
      exact List.mem_cons_of_mem _ this

/-- A text over lower-case letters, digits and underscores. -/
def Plain (s : List Char) : Prop := ∀ c ∈ s, c.isLower = true ∨ c.isDigit = true ∨ c = '_'

instance (s : List Char) : Decidable (Plain s) :=
  List.decidableBAll (fun c : Char => c.isLower = true ∨ c.isDigit = true ∨ c = '_') s

theorem Plain.isAlphanum {s w : List Char} (h : Plain s) (hw : w ∈ split Boundary.defaults s) :
    ∀ c ∈ w, c.isAlphanum = true := by
  intro c hc
  obtain ⟨hcs, hb⟩ := (mem_split hw).2 c hc
  rcases h c hcs with h | h | rfl
  · simp [Char.isAlphanum, Char.isAlpha, h]
  · simp [Char.isAlphanum, h]
  · exact absurd hb (by decide)

/-- Without digits the two spell the UpperCamel form of `Spaced` words alike, and no other. -/
theorem agree_of_no_digit {s : List Char} (h : Plain s) (hd : ∀ c ∈ s, c.isDigit = false) {c : Char} {cs : List Char}
    (hc : camel (split Boundary.defaults s) = c :: cs) (hca : c.isAlpha = true) :
    Agree caseCut serdeCut c cs ↔ Spaced (split Boundary.defaults s) := by
  have hws : ∀ w ∈ split Boundary.defaults s, w ≠ [] ∧ ∀ c ∈ w, c.isLower = true := by
    refine fun w hw => ⟨(mem_split hw).1, ?_⟩
    intro c hc
    obtain ⟨hcs, hb⟩ := (mem_split hw).2 c hc
    rcases h c hcs with h | h | rfl
    · exact h
    · rw [hd c hcs] at h; cases h
    · exact absurd hb (by decide)
  -- after a lower-case letter the first capital is cut by both
  have hagree := agree_camel hws (p := 'a') (by decide)
  have hup : c.isUpper = true := by
    have := camel_head_not_isLower (split Boundary.defaults s) c (by simp [hc])
    simpa [Char.isAlpha, this] using hca
  rw [hc, Agree, caseCut_capital (by decide) hup] at hagree
  simpa [show ('a' : Char).isUpper = false by decide] using hagree

theorem snake_eq_iff {s : List Char} (h : Plain s) {c : Char} {cs : List Char}
    (hc : convert .upperCamel s = c :: cs) (hca : c.isAlpha = true) :
    convert .snake (c :: cs) = snakeCaseVariant (c :: cs) ↔
      (∀ d ∈ s, d.isDigit = false) ∧ Spaced (split Boundary.defaults s) := by
  rw [convert_upperCamel] at hc
  have hchars : ∀ d ∈ c :: cs, d.isAlphanum = true := by
    rw [← hc]; exact camel_isAlphanum fun w hw => h.isAlphanum hw
  rw [snake_eq_iff_agree fun d hd => not_consumed_of_isAlphanum (hchars d hd)]
  constructor
  · intro hag
    have hrest := no_digit_of_agree (fun d hd => hchars d (List.mem_cons_of_mem _ hd)) hca hag
    have hnd : ∀ d ∈ s, d.isDigit = false := by
      intro d hd
      by_contra hdig
      have hdig : d.isDigit = true := by simpa using hdig
      have hb : consumed Boundary.defaults d = false := not_consumed_of_isAlphanum (by simp [Char.isAlphanum, hdig])
      obtain ⟨w, hw, hdw⟩ := exists_mem_split hd hb
      have hmem := digit_mem_camel hw hdw hdig
      rw [hc] at hmem
      rcases List.mem_cons.mp hmem with rfl | hmem
      · rw [not_isDigit_of_isAlpha hca] at hdig; cases hdig
      · rw [hrest d hmem] at hdig; cases hdig
    exact ⟨hnd, (agree_of_no_digit h hnd hc hca).mp hag⟩
  · intro ⟨hnd, hsp⟩
    exact (agree_of_no_digit h hnd hc hca).mpr hsp

end Sylvia.Base
