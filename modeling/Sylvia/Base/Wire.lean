/-
  Sylvia.Base.Wire — serde's derived code for an externally tagged enum of variants
  with named fields, and for a struct with named fields.

  Derived code reads through a `Deserializer`: the text of a document
  (`serde_json_wasm`) or a `Value` (`serde_cw_value`). A `WireType` is what one field
  type's `Serialize` does and its `Deserialize` on either, which need not agree. A
  variant (`Shape`) is written as the one-entry object of its tag and the object of its
  fields in declaration order. Reading walks the entries of the body once, filling one
  slot a field: unknown keys are ignored, a key met twice is an error, a slot left empty
  takes what the type gives for a missing field. Only a map of exactly one entry is an
  enum; a bare string names a unit variant, which no variant here is.

  `read_iff` is the one fact later proofs use: a body is read as `vs` exactly when each
  field's `read` of the values given to its key is its value in `vs`. `readLast` is the
  same for a body that went through a `Value` (`readBody_value_iff`). `readBody_text` and
  `readBody_value` are the round trips through text and through a `Value`.
-/
import Sylvia.Base.Json

namespace Sylvia.Base

/-- What a field type's `Serialize` and `Deserialize` do with it. -/
structure WireType (V : Type) where
  ser : V → Json
  /-- From text. -/
  de : Json → Option V
  /-- From a `Value`. -/
  deValue : Value → Option V
  /-- What `Deserialize` makes of a missing field: `None` for an `Option`. -/
  missing : Option V
  /-- `Default::default()`. -/
  default : Option V

/-- What derived code reads from. -/
structure Deserializer (V α : Type) where
  /-- The entries of a map. -/
  entries : α → Option (List (String × α))
  /-- A bare string. -/
  string : α → Option String
  field : WireType V → α → Option V

structure WireField (V : Type) where
  key : String
  ty : WireType V
  /-- What the field is read as when the body has no such key. -/
  missing : Option V

structure Shape (V : Type) where
  name : String
  tag : String
  fields : List (WireField V)

inductive DeError where
  | notAnEnum
  | unknownVariant (tag : String)
  | notAMap
  | duplicateField (key : String)
  | invalidField (key : String)
  | missingField (key : String)
  deriving DecidableEq, Repr

variable {V α : Type}

namespace Deserializer

/-- `serde_json_wasm`, on the text of a document. -/
def json : Deserializer V Json where
  entries
    | .obj es => some es
    | _ => none
  string
    | .str s => some s
    | _ => none
  field := WireType.de

/-- `serde_cw_value`. -/
def value : Deserializer V Value where
  entries
    | .map es => some es
    | _ => none
  string
    | .string s => some s
    | _ => none
  field := WireType.deValue

@[simp] theorem json_field : (json : Deserializer V Json).field = WireType.de := rfl
@[simp] theorem value_field : (value : Deserializer V Value).field = WireType.deValue := rfl
@[simp] theorem json_obj (es : List (String × Json)) : (json : Deserializer V Json).entries (.obj es) = some es := rfl
@[simp] theorem value_map (m : List (String × Value)) : (value : Deserializer V Value).entries (.map m) = some m := rfl

@[simp] theorem json_entries {j : Json} {es : List (String × Json)} :
    (json : Deserializer V Json).entries j = some es ↔ j = .obj es := by
  cases j <;> simp [json]

@[simp] theorem value_entries {v : Value} {m : List (String × Value)} :
    (value : Deserializer V Value).entries v = some m ↔ v = .map m := by
  cases v <;> simp [value]

end Deserializer

/-- The body's entries, one at a time; `slots` holds the fields read so far. -/
def visitMap (d : Deserializer V α) (fields : List (WireField V)) :
    List (String × α) → List (String × V) → Except DeError (List (String × V))
  | [], slots => .ok slots
  | (k, x) :: es, slots =>
    match fields.find? (·.key = k) with
    | none => visitMap d fields es slots
    | some f =>
      if (values k slots).isEmpty then
        match d.field f.ty x with
        | some v => visitMap d fields es (slots ++ [(k, v)])
        | none => .error (.invalidField k)
      else .error (.duplicateField k)

def fill (slots : List (String × V)) (f : WireField V) : Except DeError V :=
  match (values f.key slots).head?.or f.missing with
  | some v => .ok v
  | none => .error (.missingField f.key)

/-- A struct's `Deserialize`, also of a variant's body. -/
def readBody (d : Deserializer V α) (fields : List (WireField V)) (body : α) : Except DeError (List V) :=
  match d.entries body with
  | some es => do
    let slots ← visitMap d fields es []
    fields.mapM (fill slots)
  | none => .error .notAMap

/-- The enum's `Deserialize`. -/
def readEnum (d : Deserializer V α) (shapes : List (Shape V)) (x : α) : Except DeError (Shape V × List V) :=
  match d.entries x with
  | some [(tag, body)] =>
    match shapes.find? (·.tag = tag) with
    | some s => (readBody d s.fields body).map fun vs => (s, vs)
    | none => .error (.unknownVariant tag)
  | some _ => .error .notAnEnum
  | none =>
    match d.string x with
    | some tag =>
      match shapes.find? (·.tag = tag) with
      | some _ => .error .notAMap
      | none => .error (.unknownVariant tag)
    | none => .error .notAnEnum

def writeBody (fields : List (WireField V)) (vs : List V) : Json :=
  .obj (List.zipWith (fun f v => (f.key, f.ty.ser v)) fields vs)

/-- The variant's `Serialize`. -/
def Shape.write (s : Shape V) (vs : List V) : Json := .obj [(s.tag, writeBody s.fields vs)]

/-! ## What a body is read as -/

/-- What a field reads from the values the body gives to its key. -/
def WireField.read (d : Deserializer V α) (f : WireField V) : List α → Option V
  | [] => f.missing
  | [x] => d.field f.ty x
  | _ => none

/-- A document read into a `Value`, and from there. -/
def WireType.viaValue (sv : SerdeValue) (ty : WireType V) (j : Json) : Option V := (sv.deserialize j).bind ty.deValue

/-- What a field makes of the last of the values given to its key, `de` reading it. -/
def WireField.readLast (f : WireField V) (de : Json → Option V) (js : List Json) : Option V :=
  match js.getLast? with
  | none => f.missing
  | some j => de j

/-- What the walk does to one field's slot. -/
def Filled (d : Deserializer V α) (f : WireField V) (xs : List α) (before after : List V) : Prop :=
  (xs = [] ∧ after = before) ∨ ∃ x v, xs = [x] ∧ d.field f.ty x = some v ∧ before = [] ∧ after = [v]

theorem find?_key {fields : List (WireField V)} {k : String} {f : WireField V} (hf : fields.find? (·.key = k) = some f) :
    f ∈ fields ∧ f.key = k :=
  ⟨List.mem_of_find?_eq_some hf, by simpa using List.find?_some hf⟩

theorem find?_key_none {fields : List (WireField V)} {k : String} (hf : fields.find? (·.key = k) = none) {f : WireField V}
    (h : f ∈ fields) : f.key ≠ k := by
  simpa using List.find?_eq_none.mp hf f h

/-- Fields with one key are one field. -/
def KeysDistinct (fields : List (WireField V)) : Prop := (fields.map WireField.key).Nodup

theorem KeysDistinct.eq {fields : List (WireField V)} (h : KeysDistinct fields) {f g : WireField V} (hf : f ∈ fields)
    (hg : g ∈ fields) (hk : f.key = g.key) : f = g :=
  List.inj_on_of_nodup_map h hf hg hk

theorem visitMap_filled {d : Deserializer V α} {fields : List (WireField V)} (hd : KeysDistinct fields) :
    ∀ (es : List (String × α)) (slots slots' : List (String × V)), visitMap d fields es slots = .ok slots' →
    ∀ f ∈ fields, Filled d f (values f.key es) (values f.key slots) (values f.key slots') := by
  intro es
  induction es with
  | nil => intro slots slots' h f _; cases h; exact Or.inl ⟨rfl, rfl⟩
  | cons e es ih =>
    obtain ⟨k, j⟩ := e
    intro slots slots' h f hf
    simp only [visitMap] at h
    split at h
    · rename_i hnone
      rw [values_cons, if_neg (Ne.symm (find?_key_none hnone hf))]
      exact ih _ _ h f hf
    · rename_i g hg
      obtain ⟨hgm, hgk⟩ := find?_key hg
      split at h
      · rename_i hempty
        split at h
        · rename_i v hv
          have := ih _ _ h f hf
          rw [values_append, values_cons, values_nil] at this
          by_cases hfk : k = f.key
          · obtain rfl : f = g := hd.eq hf hgm (by rw [← hfk, hgk])
            have hb : values f.key slots = [] := by rw [← hfk]; simpa using hempty
            rw [values_cons, if_pos hfk]
            rcases this with ⟨hjs, ha⟩ | ⟨_, _, _, _, hb', _⟩
            · exact Or.inr ⟨j, v, by rw [hjs], hv, hb, by rw [ha, hb, if_pos hfk]; rfl⟩
            · simp [hfk] at hb'
          · rw [values_cons, if_neg hfk]
            simpa [hfk] using this
        · cases h
      · cases h

theorem visitMap_ok {d : Deserializer V α} {fields : List (WireField V)} (hd : KeysDistinct fields) :
    ∀ (es : List (String × α)) (slots : List (String × V)),
    (∀ f ∈ fields, values f.key es = [] ∨
      ∃ j v, values f.key es = [j] ∧ d.field f.ty j = some v ∧ values f.key slots = []) →
    ∃ slots', visitMap d fields es slots = .ok slots' := by
  intro es
  induction es with
  | nil => intro slots _; exact ⟨slots, rfl⟩
  | cons e es ih =>
    obtain ⟨k, j⟩ := e
    intro slots h
    simp only [visitMap]
    split
    · rename_i hnone
      refine ih slots ?_
      intro f hf
      have := h f hf
      rwa [values_cons, if_neg (Ne.symm (find?_key_none hnone hf))] at this
    · rename_i g hg
      obtain ⟨hgm, rfl⟩ := find?_key hg
      obtain ⟨j', v, hj, hv, hs⟩ : ∃ j' v, values g.key ((g.key, j) :: es) = [j'] ∧ d.field g.ty j' = some v ∧
          values g.key slots = [] := by
        rcases h g hgm with h | h
        · simp at h
        · exact h
      simp only [values_cons, if_true, List.cons.injEq] at hj
      obtain ⟨rfl, hes⟩ := hj
      simp only [hs, List.isEmpty_nil, if_true, hv]
      refine ih _ ?_
      intro f hf
      by_cases hfk : g.key = f.key
      · obtain rfl : g = f := hd.eq hgm hf hfk
        exact Or.inl hes
      · have := h f hf
        rw [values_cons, if_neg hfk] at this
        simpa [hfk] using this

/-- A slot the walk filled is read as the values of its key are. -/
theorem Filled.fill_iff {d : Deserializer V α} {f : WireField V} {xs : List α} {slots : List (String × V)}
    (h : Filled d f xs [] (values f.key slots)) (v : V) : fill slots f = .ok v ↔ f.read d xs = some v := by
  unfold fill
  rcases h with ⟨rfl, hs⟩ | ⟨j, w, rfl, hw, -, hs⟩
  · rw [hs]
    cases hmiss : f.missing with
    | none => simp [WireField.read, hmiss]
    | some w => simp [WireField.read, hmiss]
  · rw [hs]
    simp [WireField.read, hw]

theorem read_iff {d : Deserializer V α} {fields : List (WireField V)} (hd : KeysDistinct fields) {body : α}
    {es : List (String × α)} (hes : d.entries body = some es) (vs : List V) :
    readBody d fields body = .ok vs ↔ List.Forall₂ (fun f v => f.read d (values f.key es) = some v) fields vs := by
  simp only [readBody, hes]
  constructor
  · intro h
    cases hv : visitMap d fields es [] with
    | error e => simp [hv, bind, Except.bind] at h
    | ok slots =>
      simp only [hv, bind, Except.bind, mapM_ok_iff] at h
      have hfill := visitMap_filled hd es [] slots hv
      exact forall₂_imp_mem h fun f hf v => ((hfill f hf).fill_iff v).mp
  · intro h
    have hall := exists_forall₂_iff.mp ⟨vs, h⟩
    obtain ⟨slots, hslots⟩ := visitMap_ok hd es [] fun f hf => by
      obtain ⟨v, hv⟩ := hall f hf
      match hes : values f.key es with
      | [] => exact Or.inl rfl
      | [j] => rw [hes] at hv; exact Or.inr ⟨j, v, rfl, hv, rfl⟩
      | _ :: _ :: _ => rw [hes] at hv; cases hv
    have hfill := visitMap_filled hd es [] slots hslots
    simp only [hslots, bind, Except.bind, mapM_ok_iff]
    exact forall₂_imp_mem h fun f hf v => ((hfill f hf).fill_iff v).mpr

theorem readBody_entries {d : Deserializer V α} {fields : List (WireField V)} {body : α} {vs : List V}
    (h : readBody d fields body = .ok vs) : ∃ es, d.entries body = some es := by
  simp only [readBody] at h
  split at h
  · exact ⟨_, ‹_›⟩
  · cases h

/-- Reading a `Value` of a body: the last value of every key counts. -/
theorem readBody_value_iff {sv : SerdeValue} {fields : List (WireField V)} (hd : KeysDistinct fields)
    {fs : List (String × Json)} {val : Value} (hval : sv.deserialize (.obj fs) = some val) (vs : List V) :
    readBody .value fields val = .ok vs ↔
      List.Forall₂ (fun f v => f.readLast (f.ty.viaValue sv) (values f.key fs) = some v) fields vs := by
  obtain ⟨ms, hms, rfl⟩ := sv.deserialize_obj_iff.mp hval
  have hread : ∀ f : WireField V, f.read .value (values f.key (collect ms)) =
      f.readLast (f.ty.viaValue sv) (values f.key fs) := by
    intro f
    have hlast := readAll_getLast? hms f.key
    rw [values_collect, hlast, WireField.readLast]
    cases hj : (values f.key fs).getLast? with
    | none => rfl
    | some j =>
      obtain ⟨y, hy⟩ : ∃ y, sv.deserialize j = some y := by
        have hmem := mem_values.mp (List.mem_of_getLast? hj)
        exact Option.ne_none_iff_exists'.mp (readAll_ne_none.mp (by simp [hms]) _ hmem)
      simp [hy, WireField.read, WireType.viaValue]
  rw [read_iff hd (Deserializer.value_map _)]
  simp only [hread]

/-! ## Round trips -/

theorem values_writeBody : ∀ {fields : List (WireField V)} {vs : List V}, KeysDistinct fields → fields.length = vs.length →
    List.Forall₂ (fun f v => values f.key (List.zipWith (fun f v => (f.key, f.ty.ser v)) fields vs) = [f.ty.ser v])
      fields vs := by
  intro fields vs hd hlen
  refine List.forall₂_iff_get.mpr ⟨hlen, ?_⟩
  intro i hi hi'
  induction fields generalizing vs i with
  | nil => simp at hi
  | cons g fields ih =>
    cases vs with
    | nil => simp at hlen
    | cons v vs =>
      obtain ⟨hg, hd'⟩ := List.nodup_cons.mp hd
      have other : ∀ f ∈ fields, f.key ≠ g.key := fun f hf h => hg (h ▸ List.mem_map_of_mem hf)
      cases i with
      | zero =>
        have : values g.key (List.zipWith (fun f v => (f.key, f.ty.ser v)) fields vs) = [] := by
          apply List.eq_nil_iff_forall_not_mem.mpr
          intro x hx
          obtain ⟨k, hk, he⟩ := List.mem_iff_getElem.mp (mem_values.mp hx)
          rw [List.getElem_zipWith, Prod.mk.injEq] at he
          exact other _ (List.getElem_mem _) he.1
        simp [this]
      | succ i =>
        have hi2 : i < fields.length := by simpa using hi
        have hmem : fields[i] ∈ fields := List.getElem_mem hi2
        have := ih hd' (by simpa using hlen) i hi2 (by simpa using hi')
        simpa [Ne.symm (other _ hmem)] using this

/-- The field types read back from text what they wrote. -/
def ReadBack (fields : List (WireField V)) (vs : List V) : Prop :=
  List.Forall₂ (fun f v => f.ty.de (f.ty.ser v) = some v) fields vs

/-- The field types read back from a `Value` what they wrote. -/
def RoundTrips (sv : SerdeValue) (fields : List (WireField V)) (vs : List V) : Prop :=
  List.Forall₂ (fun f v => f.ty.viaValue sv (f.ty.ser v) = some v) fields vs

theorem readBody_text {fields : List (WireField V)} {vs : List V} (hd : KeysDistinct fields) (h : ReadBack fields vs) :
    readBody .json fields (writeBody fields vs) = .ok vs := by
  rw [writeBody, read_iff hd (Deserializer.json_obj _)]
  have hv := values_writeBody hd h.length_eq
  refine List.forall₂_iff_get.mpr ⟨h.length_eq, ?_⟩
  intro i hi hi'
  have h1 := (List.forall₂_iff_get.mp hv).2 i hi hi'
  have h2 := (List.forall₂_iff_get.mp h).2 i hi hi'
  rw [h1, WireField.read]
  exact h2

theorem writeBody_held {sv : SerdeValue} {fields : List (WireField V)} {vs : List V} (h : RoundTrips sv fields vs) :
    ∃ val, sv.deserialize (writeBody fields vs) = some val := by
  have hall : readAll sv.deserialize (List.zipWith (fun f v => (f.key, f.ty.ser v)) fields vs) ≠ none := by
    rw [readAll_ne_none]
    induction h with
    | nil => simp
    | cons hfv _ ih =>
      rw [List.zipWith_cons_cons, List.forall_mem_cons]
      refine ⟨?_, ih⟩
      intro hnone
      rw [WireType.viaValue, hnone] at hfv
      cases hfv
  obtain ⟨ms, hms⟩ := Option.ne_none_iff_exists'.mp hall
  exact ⟨_, sv.deserialize_obj_iff.mpr ⟨ms, hms, rfl⟩⟩

theorem readBody_value {sv : SerdeValue} {fields : List (WireField V)} {vs : List V} (hd : KeysDistinct fields)
    (h : RoundTrips sv fields vs) :
    ∃ val, sv.deserialize (writeBody fields vs) = some val ∧ readBody .value fields val = .ok vs := by
  obtain ⟨val, hval⟩ := writeBody_held h
  refine ⟨val, hval, (readBody_value_iff hd hval vs).mpr ?_⟩
  have hv := values_writeBody hd h.length_eq
  refine List.forall₂_iff_get.mpr ⟨h.length_eq, ?_⟩
  intro i hi hi'
  have h1 := (List.forall₂_iff_get.mp hv).2 i hi hi'
  have h2 := (List.forall₂_iff_get.mp h).2 i hi hi'
  rw [h1, WireField.readLast]
  exact h2

end Sylvia.Base
