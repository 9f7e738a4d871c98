/-
  Sylvia.Types.EnumMessage — the message enum of one kind that an interface or a
  contract gets (`contract/communication/enum_msg.rs`, `interface/communication/enum_msg.rs`,
  `MsgType::emit_dispatch_leg`).

  An `EnumMessage` carries the variants made from the methods and what `rustc` asks of
  them: distinct variants, distinct constructors that are identifiers, distinct fields in
  a variant. `_Phantom` is there when a generic is used; serde skips it. Values go to the
  wire through serde's derived code, and `dispatch` runs the leg of the value's variant.
  A context and an error pass through `Into::into` unchanged.

  Proved:
  - `dispatch_construct`: dispatching a constructed message calls its method, once, with
    the same arguments.
  - `tags_nodup`: when the listed names are the tags, no two variants share a tag.
  - `deserialize_tag`, `deserialize_ok`: a map of one entry under a variant's tag is
    read as that variant, nothing else is read.
  - `deserialize_write`: what a variant writes is read back, through a `Value`.
-/
import Mathlib.Data.List.Perm.Subperm
import Sylvia.Types.MsgVariant

namespace Sylvia.Types

open Sylvia.Base Sylvia.Parser

/-- What the generated code calls and does not define. -/
structure Host (Ctx E R : Type) where
  toJsonBinary : R → Except E R
  intoResponse : R → Except E R
  intoEmpty : Ctx → Ctx
  genericErr : String → E

structure EnumMessage (Ty : Type) (source : List (VariantDesc Ty)) (msgTy : MsgType) where
  variants : List (MsgVariant Ty)
  built : msgVariants source msgTy = some variants
  /-- A generic is used. -/
  phantom : Bool
  names_nodup : (variants.map MsgVariant.name).Nodup
  constructors : ∃ ms, variants.mapM MsgVariant.methodName = some ms ∧ ms.Nodup
  fields_nodup : ∀ v ∈ variants, v.asFieldsNames.Nodup

variable {Ty V α Ctx C E R : Type} {source : List (VariantDesc Ty)} {msgTy : MsgType}

/-- A leg's call, made into what `dispatch` returns. Only enum kinds have legs. -/
def emitDispatchLeg (host : Host Ctx E R) (msgTy : MsgType) (call : Run C E R) : Option (Run C E R) :=
  match msgTy with
  | .exec | .sudo => some call
  | .query => some do
    let x ← call
    Run.of (host.toJsonBinary x)
  | .instantiate | .migrate | .reply => none

namespace EnumMessage

/-- `*_messages()`. -/
def messages (m : EnumMessage Ty source msgTy) : List String := sortNames (asNamesSnakeCased m.variants)

def tags (m : EnumMessage Ty source msgTy) : List String := m.variants.map MsgVariant.tag

def shapes (m : EnumMessage Ty source msgTy) (wire : Ty → WireType V) : List (Shape V) :=
  m.variants.map (MsgVariant.shape wire)

def serialize (m : EnumMessage Ty source msgTy) (wire : Ty → WireType V) : Message V → Option Json
  | .variant name fields => do
    let v ← m.variants.find? (·.name = name)
    let vs ← v.asFieldsNames.mapM (fields.lookup ·)
    some ((v.shape wire).write vs)
  | .phantom => none

def deserialize (m : EnumMessage Ty source msgTy) (d : Deserializer V α) (wire : Ty → WireType V) (x : α) :
    Except DeError (Message V) :=
  (readEnum d (m.shapes wire) x).map fun (s, vs) => .variant s.name ((s.fields.map WireField.key).zip vs)

/-- `contract` is the methods of the trait or type the enum belongs to. `none` is a value
    that is none of the enum's. -/
def dispatch (m : EnumMessage Ty source msgTy) (host : Host Ctx E R) (contract : Ident → Ctx → List V → Run C E R)
    (ctx : Ctx) : Message V → Option (Run C E R)
  | .variant name fields => do
    let v ← m.variants.find? (·.name = name)
    let args ← v.legArgs fields
    emitDispatchLeg host msgTy (contract v.functionName ctx args)
  | .phantom =>
    if m.phantom then some (Run.of (.error (host.genericErr "Phantom message should not be constructed."))) else none

/-! ## Dispatch -/

theorem find?_name (m : EnumMessage Ty source msgTy) {v : MsgVariant Ty} (hv : v ∈ m.variants) :
    m.variants.find? (fun w => decide (w.name = v.name)) = some v :=
  find?_of_nodup m.names_nodup hv

theorem dispatch_construct (m : EnumMessage Ty source msgTy) (host : Host Ctx E R)
    (contract : Ident → Ctx → List V → Run C E R) (ctx : Ctx) {v : MsgVariant Ty} (hv : v ∈ m.variants)
    {args : List V} (hlen : args.length = v.fields.length) :
    m.dispatch host contract ctx (v.construct args) = emitDispatchLeg host msgTy (contract v.functionName ctx args) := by
  simp only [dispatch, MsgVariant.construct, m.find?_name hv, legArgs_construct (m.fields_nodup v hv) hlen,
    Option.bind_eq_bind, Option.bind_some]

theorem serialize_construct (m : EnumMessage Ty source msgTy) (wire : Ty → WireType V) {v : MsgVariant Ty}
    (hv : v ∈ m.variants) {args : List V} (hlen : args.length = v.fields.length) :
    m.serialize wire (v.construct args) = some ((v.shape wire).write args) := by
  have hl : v.asFieldsNames.length = args.length := by simp [MsgVariant.asFieldsNames, hlen]
  simp only [serialize, MsgVariant.construct, m.find?_name hv, mapM_lookup_zip (m.fields_nodup v hv) hl,
    Option.bind_eq_bind, Option.bind_some]

/-- A leg returns what its one call returns, or its JSON. -/
theorem emitDispatchLeg_calls (host : Host Ctx E R) (h : msgTy.IsEnum) (call : Run C E R) :
    ∃ run, emitDispatchLeg host msgTy call = some run ∧ run.calls = call.calls := by
  cases msgTy with
  | exec | «sudo» => exact ⟨call, rfl, rfl⟩
  | query => exact ⟨_, rfl, Run.calls_bind_of call host.toJsonBinary⟩
  | instantiate | migrate | reply => exact h.elim

/-! ## Names and tags -/

theorem mem_messages (m : EnumMessage Ty source msgTy) {s : String} :
    s ∈ m.messages ↔ ∃ v ∈ m.variants, v.listed = s := by
  simp [messages, sortNames, asNamesSnakeCased]

theorem messages_sorted (m : EnumMessage Ty source msgTy) : m.messages.Pairwise (· ≤ ·) := by
  have htrans : ∀ a b c : String, decide (a ≤ b) = true → decide (b ≤ c) = true → decide (a ≤ c) = true := by
    simpa using fun a b c => le_trans
  have htotal : ∀ a b : String, (decide (a ≤ b) || decide (b ≤ a)) = true := by simpa using le_total
  simpa [messages, sortNames] using List.pairwise_mergeSort htrans htotal (asNamesSnakeCased m.variants)

theorem methodName_eq {v : MsgVariant Ty} {n : Ident} (h : v.methodName = some n) : n = v.listed := by
  simp only [MsgVariant.methodName, svToCase, identNew] at h
  split at h
  · simpa [MsgVariant.listed] using h.symm
  · cases h

theorem listed_nodup (m : EnumMessage Ty source msgTy) : (m.variants.map MsgVariant.listed).Nodup := by
  obtain ⟨ms, hms, hn⟩ := m.constructors
  suffices m.variants.map MsgVariant.listed = ms by rwa [this]
  rw [mapM_some_iff] at hms
  generalize m.variants = vs at hms
  induction hms with
  | nil => rfl
  | cons h _ ih => rw [List.map_cons, ih (List.nodup_cons.mp hn).2, methodName_eq h]

/-- The listed names are the tags. -/
def NamesAreTags (m : EnumMessage Ty source msgTy) : Prop := ∀ s, s ∈ m.messages ↔ s ∈ m.tags

theorem namesAreTags_of_eq {m : EnumMessage Ty source msgTy} (h : asNamesSnakeCased m.variants = m.tags) :
    m.NamesAreTags := fun s => by
  rw [mem_messages, ← h]
  simp [asNamesSnakeCased]

theorem tags_nodup {m : EnumMessage Ty source msgTy} (h : m.NamesAreTags) : m.tags.Nodup := by
  have hsub : m.variants.map MsgVariant.listed ⊆ m.tags := fun s hs => by
    rw [← h s, mem_messages]; simpa using hs
  have hperm := (List.subperm_of_subset m.listed_nodup hsub).perm_of_length_le (by simp [tags])
  exact hperm.nodup_iff.mp m.listed_nodup

theorem mem_tags_of_mem {m : EnumMessage Ty source msgTy} {v : MsgVariant Ty} (hv : v ∈ m.variants) : v.tag ∈ m.tags :=
  List.mem_map_of_mem hv

/-! ## On the wire -/

theorem keysDistinct (m : EnumMessage Ty source msgTy) (wire : Ty → WireType V) {v : MsgVariant Ty}
    (hv : v ∈ m.variants) : KeysDistinct (v.shape wire).fields := by
  rw [KeysDistinct, shape_keys]
  exact m.fields_nodup v hv

theorem find?_tag {m : EnumMessage Ty source msgTy} (h : m.NamesAreTags) (wire : Ty → WireType V) {v : MsgVariant Ty}
    (hv : v ∈ m.variants) : (m.shapes wire).find? (fun s => decide (s.tag = v.tag)) = some (v.shape wire) := by
  have hn : ((m.shapes wire).map Shape.tag).Nodup := by
    simpa [shapes, Function.comp_def, tags] using tags_nodup h
  exact find?_of_nodup (x := v.shape wire) hn (List.mem_map_of_mem hv)

/-- A body under a variant's tag is read as that variant. -/
theorem deserialize_tag {m : EnumMessage Ty source msgTy} (h : m.NamesAreTags) {d : Deserializer V α}
    (wire : Ty → WireType V) {v : MsgVariant Ty} (hv : v ∈ m.variants) {x body : α}
    (hx : d.entries x = some [(v.tag, body)]) :
    m.deserialize d wire x = (readBody d (v.shape wire).fields body).map v.construct := by
  simp only [deserialize, readEnum, hx, find?_tag h wire hv]
  cases readBody d (v.shape wire).fields body <;>
    simp [Except.map, MsgVariant.construct]

/-- Only a map of one entry, under a tag, is read at all. -/
theorem deserialize_ok {m : EnumMessage Ty source msgTy} {d : Deserializer V α} {wire : Ty → WireType V} {x : α}
    {msg : Message V} (h : m.deserialize d wire x = .ok msg) :
    ∃ v ∈ m.variants, ∃ body, d.entries x = some [(v.tag, body)] := by
  simp only [deserialize, readEnum] at h
  split at h
  · rename_i tag body hx
    cases hs : (m.shapes wire).find? (·.tag = tag) with
    | none => simp [hs, Except.map] at h
    | some s =>
      obtain ⟨v, hv, rfl⟩ := List.mem_map.mp (List.mem_of_find?_eq_some hs)
      have hp := List.find?_some hs
      have htag : (v.shape wire).tag = tag := of_decide_eq_true hp
      exact ⟨v, hv, body, by rw [hx, ← htag, shape_tag]⟩
  · simp [Except.map] at h
  · split at h
    · split at h <;> simp [Except.map] at h
    · simp [Except.map] at h

/-- A constructed message goes through a `Value`. -/
theorem deserialize_write {m : EnumMessage Ty source msgTy} (h : m.NamesAreTags) {sv : SerdeValue}
    (wire : Ty → WireType V) {v : MsgVariant Ty} (hv : v ∈ m.variants) {args : List V}
    (hrt : RoundTrips sv (v.shape wire).fields args) :
    ∃ val, sv.deserialize ((v.shape wire).write args) = some (.map [(v.tag, val)]) ∧
      m.deserialize .value wire (.map [(v.tag, val)]) = .ok (v.construct args) := by
  obtain ⟨val, hval, hread⟩ := readBody_value (m.keysDistinct wire hv) hrt
  refine ⟨val, sv.deserialize_singleton_iff.mpr ⟨_, _, rfl, ?_, ?_, ?_, hval⟩, ?_⟩
  · simp [readAll_ne_none, hval]
  · simp
  · simp
  · rw [deserialize_tag h wire hv (Deserializer.value_map _), hread]
    rfl

end EnumMessage

end Sylvia.Types
