/-
  Sylvia.Base.Grouping — items placed into records by key: the first item of a key makes
  the record, at the end of the list, a later one is added to the record in place.
  Making and adding may report errors.

  `Grouped` says what the records are about: keys are distinct, every item's key has a
  record, and a record describes the items of its key, in order. `grouped_of_clean`: a
  run without an error ends so, once making and adding without an error keep whatever
  `Describes` says. `groupAll_keys`: with or without errors, the records stand in the
  order in which their keys first occur.
-/
import Mathlib.Data.List.Induction
import Mathlib.Data.List.Nodup
import Sylvia.Base.Effects

namespace Sylvia.Base

section

variable {α ρ κ : Type} [DecidableEq κ] (key : α → κ) (recKey : ρ → κ) (make : α → Emit ρ) (add : ρ → α → Emit ρ)

def place (x : α) : List ρ → Emit (List ρ)
  | [] => do
    let r ← make x
    pure [r]
  | r :: rs =>
    if recKey r = key x then do
      let r ← add r x
      pure (r :: rs)
    else do
      let rs ← place x rs
      pure (r :: rs)

def groupAll (xs : List α) : Emit (List ρ) := xs.foldlM (fun rs x => place key recKey make add x rs) []

/-- The items of a key. -/
def ofKey (k : κ) (xs : List α) : List α := xs.filter fun x => key x = k

structure Grouped (Describes : List α → ρ → Prop) (xs : List α) (rs : List ρ) : Prop where
  nodup : (rs.map recKey).Nodup
  has_record : ∀ x ∈ xs, ∃ r ∈ rs, recKey r = key x
  describes : ∀ r ∈ rs, Describes (ofKey key (recKey r) xs) r

/-- Placing an item either appends its record or changes the first one of its key. -/
theorem place_cases (x : α) : ∀ rs : List ρ,
    ((∀ r ∈ rs, recKey r ≠ key x) ∧ place key recKey make add x rs = (fun r => rs ++ [r]) <$> make x) ∨
    ∃ pre r post, rs = pre ++ r :: post ∧ recKey r = key x ∧
      place key recKey make add x rs = (fun r' => pre ++ r' :: post) <$> add r x := by
  intro rs
  induction rs with
  | nil => exact Or.inl ⟨by simp, by simp [place]⟩
  | cons r rs ih =>
    by_cases hk : recKey r = key x
    · exact Or.inr ⟨[], r, rs, rfl, hk, by simp [place, hk]⟩
    · rcases ih with ⟨hne, hp⟩ | ⟨pre, r', post, rfl, hk', hp⟩
      · exact Or.inl ⟨by simpa [hk] using hne, by simp [place, hk, hp]⟩
      · exact Or.inr ⟨r :: pre, r', post, rfl, hk', by simp [place, hk, hp]⟩

variable {key recKey make add} {Describes : List α → ρ → Prop}

theorem mem_ofKey {k : κ} {xs : List α} {x : α} : x ∈ ofKey key k xs ↔ x ∈ xs ∧ key x = k := by
  simp [ofKey]

theorem ofKey_append_ne {k : κ} {xs : List α} {x : α} (h : key x ≠ k) : ofKey key k (xs ++ [x]) = ofKey key k xs := by
  simp [ofKey, h]

theorem ofKey_append_eq {k : κ} {xs : List α} {x : α} (h : key x = k) :
    ofKey key k (xs ++ [x]) = ofKey key k xs ++ [x] := by
  simp [ofKey, h]

theorem ofKey_eq_nil {k : κ} {xs : List α} (h : ∀ x ∈ xs, key x ≠ k) : ofKey key k xs = [] := by
  rw [List.eq_nil_iff_forall_not_mem]
  intro x hx
  obtain ⟨hx, hk⟩ := mem_ofKey.mp hx
  exact h x hx hk

/-- What placing an item asks for: of a new record, or of the item added to the record of
    its key. -/
theorem Grouped.place {xs : List α} {rs : List ρ} (h : Grouped key recKey Describes xs rs) {x : α}
    (hmake : (∀ r ∈ rs, recKey r ≠ key x) → recKey (make x).val = key x ∧ Describes [x] (make x).val)
    (hadd : ∀ r ∈ rs, recKey r = key x → Describes (ofKey key (key x) xs) r →
      recKey (add r x).val = key x ∧ Describes (ofKey key (key x) xs ++ [x]) (add r x).val) :
    Grouped key recKey Describes (xs ++ [x]) (place key recKey make add x rs).val := by
  rcases place_cases key recKey make add x rs with ⟨hne, hp⟩ | ⟨pre, r, post, rfl, hk, hp⟩
  · obtain ⟨hkey, hdesc⟩ := hmake hne
    have hnew : ofKey key (key x) xs = [] := by
      apply ofKey_eq_nil
      intro y hy hyx
      obtain ⟨r, hr, hry⟩ := h.has_record y hy
      exact hne r hr (hry.trans hyx)
    rw [hp, Emit.val_map]
    refine ⟨?_, ?_, ?_⟩
    · rw [List.map_append, List.nodup_append]
      refine ⟨h.nodup, by simp, ?_⟩
      simpa [hkey] using hne
    · simp only [List.mem_append, List.mem_singleton]
      intro y hy
      rcases hy with hy | rfl
      · obtain ⟨r, hr, hry⟩ := h.has_record y hy
        exact ⟨r, Or.inl hr, hry⟩
      · exact ⟨_, Or.inr rfl, hkey⟩
    · simp only [List.mem_append, List.mem_singleton]
      intro r hr
      rcases hr with hr | rfl
      · rw [ofKey_append_ne (Ne.symm (hne r hr))]
        exact h.describes r hr
      · rw [hkey, ofKey_append_eq rfl, hnew]
        exact hdesc
  · obtain ⟨hkey, hdesc⟩ := hadd r (by simp) hk (hk ▸ h.describes r (by simp))
    have hmap : (pre ++ (add r x).val :: post).map recKey = (pre ++ r :: post).map recKey := by simp [hkey, hk]
    have hother : ∀ r' ∈ pre ++ post, key x ≠ recKey r' := by
      intro r' hr' he
      have hn := h.nodup
      simp only [List.map_append, List.map_cons] at hn
      have := (List.nodup_middle.mp hn)
      rw [List.nodup_cons] at this
      exact this.1 (by rw [hk, he, ← List.map_append]; exact List.mem_map_of_mem hr')
    rw [hp, Emit.val_map]
    refine ⟨hmap ▸ h.nodup, ?_, ?_⟩
    · intro y hy
      have hy : y ∈ xs ∨ y = x := by simpa using hy
      have : ∃ k ∈ (pre ++ r :: post).map recKey, k = key y := by
        rcases hy with hy | rfl
        · obtain ⟨r', hr', hry⟩ := h.has_record y hy
          exact ⟨_, List.mem_map_of_mem hr', hry⟩
        · exact ⟨_, List.mem_map_of_mem (by simp : r ∈ pre ++ r :: post), hk⟩
      rw [← hmap] at this
      obtain ⟨k, hmem, hk'⟩ := this
      obtain ⟨r', hr', rfl⟩ := List.mem_map.mp hmem
      exact ⟨r', hr', hk'⟩
    · intro r' hr'
      rcases List.mem_append.mp hr' with hr' | hr'
      · rw [ofKey_append_ne (hother r' (by simp [hr']))]
        exact h.describes r' (by simp [hr'])
      · rcases List.mem_cons.mp hr' with rfl | hr'
        · rw [hkey, ofKey_append_eq rfl]
          exact hdesc
        · rw [ofKey_append_ne (hother r' (by simp [hr']))]
          exact h.describes r' (by simp [hr'])

/-- Placing without an error makes a record, or adds to one, without an error. -/
theorem place_clean {x : α} {rs : List ρ} (hn : (rs.map recKey).Nodup)
    (hc : Emit.Clean (place key recKey make add x rs)) :
    ((∀ r ∈ rs, recKey r ≠ key x) → Emit.Clean (make x)) ∧ ∀ r ∈ rs, recKey r = key x → Emit.Clean (add r x) := by
  rcases place_cases key recKey make add x rs with ⟨hne, hp⟩ | ⟨pre, r, post, rfl, hk, hp⟩
  · rw [hp, Emit.clean_map] at hc
    exact ⟨fun _ => hc, fun r hr hk => absurd hk (hne r hr)⟩
  · rw [hp, Emit.clean_map] at hc
    refine ⟨fun hne => absurd hk (hne r (by simp)), ?_⟩
    intro r' hr' hk'
    rw [List.inj_on_of_nodup_map hn hr' (by simp) (hk'.trans hk.symm)]
    exact hc

theorem grouped_nil : Grouped key recKey Describes [] [] := ⟨by simp, by simp, by simp⟩

theorem grouped_of_clean {xs : List α}
    (hmake : ∀ x ∈ xs, Emit.Clean (make x) → recKey (make x).val = key x ∧ Describes [x] (make x).val)
    (hadd : ∀ x ∈ xs, ∀ g r, Emit.Clean (add r x) → Describes g r → recKey r = key x →
      recKey (add r x).val = key x ∧ Describes (g ++ [x]) (add r x).val)
    (hclean : Emit.Clean (groupAll key recKey make add xs)) :
    Grouped key recKey Describes xs (groupAll key recKey make add xs).val := by
  refine Emit.foldlM_clean (Grouped key recKey Describes) grouped_nil ?_ hclean
  intro done x rs hmem h hc
  have hx := hmem x List.mem_cons_self
  obtain ⟨hcm, hca⟩ := place_clean h.nodup hc
  exact h.place (fun hne => hmake x hx (hcm hne)) fun r hr hk hd => hadd x hx _ r (hca r hr hk) hd hk

theorem groupAll_concat (xs : List α) (x : α) : groupAll key recKey make add (xs ++ [x]) =
    groupAll key recKey make add xs >>= fun rs => place key recKey make add x rs := by
  simp [groupAll]

/-- With or without errors, once making and adding keep whatever `Describes` says. -/
theorem grouped (hmake : ∀ x, recKey (make x).val = key x ∧ Describes [x] (make x).val)
    (hadd : ∀ x g r, Describes g r → recKey r = key x →
      recKey (add r x).val = key x ∧ Describes (g ++ [x]) (add r x).val) (xs : List α) :
    Grouped key recKey Describes xs (groupAll key recKey make add xs).val := by
  induction xs using List.reverseRecOn with
  | nil => exact grouped_nil
  | append_singleton done x ih =>
    rw [groupAll_concat, Emit.val_bind]
    exact ih.place (fun _ => hmake x) fun r _ hk hd => hadd x _ r hd hk

/-- The records stand in the order in which their keys first occur. -/
theorem groupAll_keys (hmake : ∀ x, recKey (make x).val = key x) (hadd : ∀ r x, recKey (add r x).val = recKey r)
    (xs : List α) : (groupAll key recKey make add xs).val.map recKey = (xs.map key).eraseDups := by
  induction xs using List.reverseRecOn with
  | nil => rfl
  | append_singleton done x ih =>
    have hmem : key x ∈ done.map key ↔ ∃ r ∈ (groupAll key recKey make add done).val, recKey r = key x := by
      rw [← List.mem_eraseDups, ← ih, List.mem_map]
    rw [groupAll_concat, Emit.val_bind, List.map_append, List.eraseDups_append, ← ih, List.map_singleton,
      List.cons_removeAll]
    rcases place_cases key recKey make add x (groupAll key recKey make add done).val with
      ⟨hne, hp⟩ | ⟨pre, r, post, he, hk, hp⟩
    · have hnew : key x ∉ done.map key := fun hk => by
        obtain ⟨r, hr, hk⟩ := hmem.mp hk
        exact hne r hr hk
      rw [if_pos (by simpa using hnew), hp]
      simp [hmake, List.eraseDups_cons]
    · have hold : key x ∈ done.map key := hmem.mpr ⟨r, by simp [he], hk⟩
      rw [if_neg (by simpa using hold), hp]
      simp [hadd, he]

end

end Sylvia.Base
