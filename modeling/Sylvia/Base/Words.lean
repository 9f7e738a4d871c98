/-
  Sylvia.Base.Words — words of an identifier and the cases built from them, over
  ASCII letters, digits and separators.

  `split` is `convert_case` 0.6's segmentation: a boundary may consume one character
  (`_`, `-`, blank), or cut before a character because of the one before it (lower to
  upper, letter to digit, digit to letter) or because of both neighbours (the last
  capital of a run, before a lower-case letter). Empty words are dropped. `convert` is
  its `to_case` with the default boundaries. `snakeCaseVariant` is serde's
  `rename_all = "snake_case"` for a variant: an underscore before every upper-case
  letter but a first one, everything lowered.

  Proved:
  - `mem_split`, `exists_mem_split`: no word is empty, and the words hold the characters
    of the text that no boundary consumes.
  - `intercalate_split`: without characters to consume, joining the words by a
    separator puts one at each cut and nowhere else (`mark`).
  - `mark_map_eq_iff`: two ways to cut give the same text only if they cut at the same
    places, when the separator is no image of a character.
  - `snakeCaseVariant_inj`: serde's renaming is injective on texts without an
    underscore that do not start with a lower-case letter.
-/
import Mathlib

namespace Sylvia.Base

/-! ## Boundaries -/

inductive Boundary where
  | hyphen
  | underscore
  | space
  | upperLower
  | lowerUpper
  | digitUpper
  | upperDigit
  | digitLower
  | lowerDigit
  | acronym
  deriving DecidableEq, Repr

namespace Boundary

/-- The boundaries of `to_case`: all but `upperLower`. -/
def defaults : List Boundary :=
  [.underscore, .hyphen, .space, .lowerUpper, .upperDigit, .digitUpper, .digitLower, .lowerDigit, .acronym]

def detectOne (b : Boundary) (c : Char) : Bool :=
  match b with
  | .hyphen => c == '-'
  | .underscore => c == '_'
  | .space => c == ' '
  | _ => false

def detectTwo (b : Boundary) (c d : Char) : Bool :=
  match b with
  | .upperLower => c.isUpper && d.isLower
  | .lowerUpper => c.isLower && d.isUpper
  | .digitUpper => c.isDigit && d.isUpper
  | .upperDigit => c.isUpper && d.isDigit
  | .digitLower => c.isDigit && d.isLower
  | .lowerDigit => c.isLower && d.isDigit
  | _ => false

def detectThree (b : Boundary) (c d e : Char) : Bool :=
  match b with
  | .acronym => c.isUpper && d.isUpper && e.isLower
  | _ => false

end Boundary

/-- Is `c` consumed as a separator? -/
def consumed (bs : List Boundary) (c : Char) : Bool := bs.any (·.detectOne c)

/-- Does a word end between `p` and `c`, with `e` after `c`? -/
def cutBefore (bs : List Boundary) (p c : Char) (e : Option Char) : Bool :=
  bs.any (·.detectTwo p c) || e.any fun e => bs.any (·.detectThree p c e)

/-- The words from here on: `p` is the character before, `word` the word begun. -/
def splitFrom (bs : List Boundary) : Option Char → List Char → List Char → List (List Char)
  | _, word, [] => [word]
  | p, word, c :: rest =>
    if consumed bs c then word :: splitFrom bs (some c) [] rest
    else if p.any (cutBefore bs · c rest.head?) then word :: splitFrom bs (some c) [c] rest
    else splitFrom bs (some c) (word ++ [c]) rest

def split (bs : List Boundary) (s : List Char) : List (List Char) :=
  (splitFrom bs none [] s).filter (!·.isEmpty)

/-! ## Cases -/

inductive Case where
  | upperCamel
  | snake
  | upperSnake
  deriving DecidableEq, Repr

def capital : List Char → List Char
  | [] => []
  | c :: cs => c.toUpper :: cs.map Char.toLower

/-- A case's pattern, applied to one word. -/
def Case.mutate : Case → List Char → List Char
  | .upperCamel => capital
  | .snake => List.map Char.toLower
  | .upperSnake => List.map Char.toUpper

def Case.delim : Case → List Char
  | .upperCamel => []
  | .snake | .upperSnake => ['_']

def convert (case : Case) (s : List Char) : List Char :=
  case.delim.intercalate ((split Boundary.defaults s).map case.mutate)

/-- serde's `RenameRule::SnakeCase` for a variant; `first` at index 0. -/
def snakeCaseFrom : (first : Bool) → List Char → List Char
  | _, [] => []
  | first, c :: cs =>
    (if !first && c.isUpper then ['_', c.toLower] else [c.toLower]) ++ snakeCaseFrom false cs

def snakeCaseVariant (variant : List Char) : List Char := snakeCaseFrom true variant

/-! ## What words hold -/

theorem mem_splitFrom (bs : List Boundary) : ∀ (s : List Char) (p : Option Char) (word w : List Char),
    w ∈ splitFrom bs p word s → ∀ c ∈ w, c ∈ word ∨ (c ∈ s ∧ consumed bs c = false) := by
  intro s
  induction s with
  | nil => intro p word w hw c hc; simp [splitFrom] at hw; subst hw; exact Or.inl hc
  | cons d rest ih =>
    intro p word w hw c hc
    have shift : c ∈ rest ∧ consumed bs c = false → c ∈ d :: rest ∧ consumed bs c = false :=
      fun h => ⟨List.mem_cons_of_mem _ h.1, h.2⟩
    simp only [splitFrom] at hw
    by_cases hd : consumed bs d = true
    · simp only [hd, if_true, List.mem_cons] at hw
      rcases hw with rfl | hw
      · exact Or.inl hc
      · rcases ih _ _ _ hw c hc with h | h
        · simp at h
        · exact Or.inr (shift h)
    · have hd' : consumed bs d = false := by simpa using hd
      simp only [hd', Bool.false_eq_true, if_false] at hw
      split at hw
      · rcases List.mem_cons.mp hw with rfl | hw
        · exact Or.inl hc
        · rcases ih _ _ _ hw c hc with h | h
          · obtain rfl := List.mem_singleton.mp h
            exact Or.inr ⟨List.mem_cons_self, hd'⟩
          · exact Or.inr (shift h)
      · rcases ih _ _ _ hw c hc with h | h
        · rcases List.mem_append.mp h with h | h
          · exact Or.inl h
          · obtain rfl := List.mem_singleton.mp h
            exact Or.inr ⟨List.mem_cons_self, hd'⟩
        · exact Or.inr (shift h)

theorem mem_split {bs : List Boundary} {s w : List Char} (hw : w ∈ split bs s) :
    w ≠ [] ∧ ∀ c ∈ w, c ∈ s ∧ consumed bs c = false := by
  obtain ⟨hw, hne⟩ := List.mem_filter.mp hw
  refine ⟨by simpa using hne, ?_⟩
  intro c hc
  rcases mem_splitFrom bs s none [] w hw c hc with h | h
  · simp at h
  · exact h

theorem exists_mem_splitFrom (bs : List Boundary) : ∀ (s : List Char) (p : Option Char) (word : List Char) {c : Char},
    c ∈ word ∨ (c ∈ s ∧ consumed bs c = false) → ∃ w ∈ splitFrom bs p word s, c ∈ w := by
  intro s
  induction s with
  | nil => intro p word c hc; simpa [splitFrom] using hc
  | cons d rest ih =>
    intro p word c hc
    simp only [splitFrom]
    have later : ∀ {word' : List Char}, (c ∈ word → c ∈ word') → (c = d → consumed bs d = false → c ∈ word') →
        ∃ w ∈ splitFrom bs (some d) word' rest, c ∈ w := by
      intro word' h1 h2
      refine ih _ _ ?_
      rcases hc with hc | ⟨hc, hcc⟩
      · exact Or.inl (h1 hc)
      · rcases List.mem_cons.mp hc with rfl | hc
        · exact Or.inl (h2 rfl hcc)
        · exact Or.inr ⟨hc, hcc⟩
    have cut : ∀ {word' : List Char}, (c = d → consumed bs d = false → c ∈ word') →
        ∃ w ∈ word :: splitFrom bs (some d) word' rest, c ∈ w := by
      intro word' h2
      by_cases hw : c ∈ word
      · exact ⟨word, List.mem_cons_self, hw⟩
      · obtain ⟨w, hw, hcw⟩ := later (fun h => absurd h hw) h2
        exact ⟨w, List.mem_cons_of_mem _ hw, hcw⟩
    split
    · rename_i hd
      exact cut fun _ h => absurd hd (by simp [h])
    · split
      · exact cut fun h _ => by simp [h]
      · exact later (fun h => by simp [h]) fun h _ => by simp [h]

/-- A character that no boundary consumes is in a word. -/
theorem exists_mem_split {bs : List Boundary} {s : List Char} {c : Char} (hc : c ∈ s) (hb : consumed bs c = false) :
    ∃ w ∈ split bs s, c ∈ w := by
  obtain ⟨w, hw, hcw⟩ := exists_mem_splitFrom bs s none [] (Or.inr ⟨hc, hb⟩)
  exact ⟨w, List.mem_filter.mpr ⟨hw, by cases w <;> simp_all⟩, hcw⟩

/-! ## Marking the cuts -/

/-- `s` with `sep` before every character that `cut` separates from the one before. -/
def mark (cut : Char → Char → Option Char → Bool) (sep : Char) : Option Char → List Char → List Char
  | _, [] => []
  | p, c :: cs => (if p.any (cut · c cs.head?) then [sep, c] else [c]) ++ mark cut sep (some c) cs

theorem splitFrom_ne_nil (bs : List Boundary) (p : Option Char) (word s : List Char) (hw : word ≠ []) :
    (splitFrom bs p word s).filter (!·.isEmpty) ≠ [] := by
  induction s generalizing p word with
  | nil => simp [splitFrom, hw]
  | cons c rest ih =>
    simp only [splitFrom]
    split
    · simp [hw]
    · split
      · simp [hw]
      · exact ih _ _ (by simp)

theorem intercalate_splitFrom {bs : List Boundary} {sep : Char} : ∀ (s : List Char) (p : Option Char) (word : List Char),
    (∀ c ∈ s, consumed bs c = false) → (p = none ∧ word = [] ∨ p ≠ none ∧ word ≠ []) →
    [sep].intercalate ((splitFrom bs p word s).filter (!·.isEmpty)) = word ++ mark (cutBefore bs) sep p s := by
  intro s
  induction s with
  | nil => intro p word _ _; cases word <;> simp [splitFrom, mark]
  | cons c rest ih =>
    intro p word hs hpw
    have hc : consumed bs c = false := hs c List.mem_cons_self
    have hrest : ∀ d ∈ rest, consumed bs d = false := fun d hd => hs d (List.mem_cons_of_mem _ hd)
    simp only [splitFrom, hc, Bool.false_eq_true, if_false, mark]
    split
    · -- a cut: `word` is not empty, since the cut has a character before it
      have hw : word ≠ [] := by
        rcases hpw with ⟨rfl, _⟩ | ⟨_, h⟩
        · simp at *
        · exact h
      have := ih (some c) [c] hrest (Or.inr ⟨by simp, by simp⟩)
      rw [List.filter_cons_of_pos (by simpa using hw),
        List.intercalate_cons_of_ne_nil (splitFrom_ne_nil _ _ _ _ (by simp)), this]
      simp
    · rw [ih (some c) (word ++ [c]) hrest (Or.inr ⟨by simp, by simp⟩)]
      simp

/-- Joining the words marks the cuts. -/
theorem intercalate_split {bs : List Boundary} {sep : Char} {s : List Char} (hs : ∀ c ∈ s, consumed bs c = false) :
    [sep].intercalate (split bs s) = mark (cutBefore bs) sep none s :=
  intercalate_splitFrom s none [] hs (Or.inl ⟨rfl, rfl⟩)

/-- Two ways to cut agree along `s`, read after `p`. -/
def Agree (cut cut' : Char → Char → Option Char → Bool) : Char → List Char → Prop
  | _, [] => True
  | p, c :: cs => cut p c cs.head? = cut' p c cs.head? ∧ Agree cut cut' c cs

theorem mark_map_eq_iff {cut cut' : Char → Char → Option Char → Bool} {sep : Char} {f : Char → Char} {p : Char}
    {s : List Char} (hf : ∀ c ∈ s, f c ≠ f sep) :
    (mark cut sep (some p) s).map f = (mark cut' sep (some p) s).map f ↔ Agree cut cut' p s := by
  induction s generalizing p with
  | nil => simp [mark, Agree]
  | cons c cs ih =>
    have hc := hf c List.mem_cons_self
    have ih := ih (p := c) fun d hd => hf d (List.mem_cons_of_mem _ hd)
    simp only [mark, Agree, Option.any_some, List.map_append]
    rcases Bool.eq_false_or_eq_true (cut p c cs.head?) with h | h <;>
      rcases Bool.eq_false_or_eq_true (cut' p c cs.head?) with h' | h' <;>
      simp [h, h', ih, hc, Ne.symm hc]

theorem snakeCaseFrom_eq_mark (s : List Char) (p : Option Char) :
    snakeCaseFrom p.isNone s = (mark (fun _ c _ => c.isUpper) '_' p s).map Char.toLower := by
  induction s generalizing p with
  | nil => simp [snakeCaseFrom, mark]
  | cons c cs ih =>
    have := ih (some c)
    simp only [Option.isNone_some] at this
    simp only [snakeCaseFrom, mark, this, List.map_append]
    cases p with
    | none => simp
    | some p => rcases Bool.eq_false_or_eq_true c.isUpper with h | h <;> simp [h]

/-! ## serde's renaming is injective -/

theorem toLower_inj_of_isUpper {c d : Char} (hc : c.isUpper = true) (hd : d.isUpper = true)
    (h : c.toLower = d.toLower) : c = d := by
  have upper : ∀ {e : Char}, e.isUpper = true → e.toUpper = e := fun he =>
    Char.toUpper_eq_of_not_isLower (Char.not_isLower_of_isUpper he)
  rw [← upper hc, ← upper hd, ← Char.toUpper_toLower_eq_toUpper c, ← Char.toUpper_toLower_eq_toUpper d, h]

theorem toLower_of_not_isUpper {c : Char} (h : c.isUpper = false) : c.toLower = c :=
  Char.toLower_eq_of_not_isUpper (by simp [h])

theorem snakeCaseFrom_inj : ∀ {s t : List Char}, '_' ∉ s → '_' ∉ t → snakeCaseFrom false s = snakeCaseFrom false t →
    s = t := by
  intro s
  induction s with
  | nil =>
    intro t _ _ h
    cases t with
    | nil => rfl
    | cons d ds => simp only [snakeCaseFrom] at h; split at h <;> simp at h
  | cons c cs ih =>
    intro t hs ht h
    cases t with
    | nil => simp only [snakeCaseFrom] at h; split at h <;> simp at h
    | cons d ds =>
      simp only [List.mem_cons, not_or] at hs ht
      simp only [snakeCaseFrom, Bool.not_false, Bool.true_and] at h
      cases hc : c.isUpper <;> cases hd : d.isUpper <;> simp only [hc, hd, if_true, Bool.false_eq_true, if_false,
        List.cons_append, List.nil_append, List.cons.injEq] at h
      · rw [toLower_of_not_isUpper hc, toLower_of_not_isUpper hd] at h
        rw [h.1, ih hs.2 ht.2 h.2]
      · rw [toLower_of_not_isUpper hc] at h; exact absurd h.1.symm hs.1
      · rw [toLower_of_not_isUpper hd] at h; exact absurd h.1 ht.1
      · rw [toLower_inj_of_isUpper hc hd h.2.1, ih hs.2 ht.2 h.2.2]

theorem snakeCaseVariant_inj {s t : List Char} (hs : '_' ∉ s) (ht : '_' ∉ t) (hs1 : ∀ c ∈ s.head?, c.isLower = false)
    (ht1 : ∀ c ∈ t.head?, c.isLower = false) (h : snakeCaseVariant s = snakeCaseVariant t) : s = t := by
  cases s with
  | nil =>
    cases t with
    | nil => rfl
    | cons d ds => simp [snakeCaseVariant, snakeCaseFrom] at h
  | cons c cs =>
    cases t with
    | nil => simp [snakeCaseVariant, snakeCaseFrom] at h
    | cons d ds =>
      simp only [List.mem_cons, not_or] at hs ht
      have hs1 : c.isLower = false := hs1 c rfl
      have ht1 : d.isLower = false := ht1 d rfl
      simp only [snakeCaseVariant, snakeCaseFrom, Bool.not_true, Bool.false_and, Bool.false_eq_true, if_false,
        List.cons_append, List.nil_append, List.cons.injEq] at h
      have hcd : c = d := by
        have hup : ∀ {e : Char}, e.isUpper = true → e.toLower.isLower = true := by
          intro e he; simp [Char.isLower_toLower_eq_isAlpha, Char.isAlpha, he]
        cases hc : c.isUpper <;> cases hd : d.isUpper
        · rw [toLower_of_not_isUpper hc, toLower_of_not_isUpper hd] at h; exact h.1
        · rw [toLower_of_not_isUpper hc] at h
          rw [h.1, hup hd] at hs1; cases hs1
        · rw [toLower_of_not_isUpper hd] at h
          rw [← h.1, hup hc] at ht1; cases ht1
        · exact toLower_inj_of_isUpper hc hd h.1
      rw [hcd, snakeCaseFrom_inj hs.2 ht.2 h.2]

end Sylvia.Base
