/-
  Sylvia.Contract.Agreement — the glue decoder against the components' own decoders.

  A component's own decoder reads the text of the document: one entry, no field twice.
  The glue decoder reads the document into a `Value` first, which keeps the last of the
  values a repeated key is given, at every depth, and holds not everything a document
  can; the check "Expected exactly one message" counts what is left, and the field types
  read from the `Value`. So the two agree on a document (`Agrees`) except where it
  repeats something and the field types take the last of it, or where it repeats nothing
  but the `Value` loses something of it or a field type tells text and `Value` apart
  (`Faithful` excludes these and no others).

  Proved:
  - `glue_ok_iff`, `plain_ok_iff`: what each of the two accepts, and as what.
  - `agreement`: the two agree on a document exactly when it is `Faithful`.
  - `repeated_message_accepted`: a document with two messages that the glue accepts.
-/
import Sylvia.Contract.Glue

namespace Sylvia.Contract

open Sylvia.Base Sylvia.Parser Sylvia.Types Sylvia.Utils

variable {Ty V : Type} {msgTy : MsgType}

/-- The glue decoder answers as the components' own decoders do. -/
def Agrees (g : GlueMessage Ty msgTy) (wire : Ty → WireType V) (sv : SerdeValue) (j : Json) : Prop :=
  (∀ c ∈ g.components, ∀ m, g.deserialize wire sv j = .ok ⟨c.variant, m⟩ ↔ c.msg.deserialize .json wire j = .ok m) ∧
    ((∃ e, g.deserialize wire sv j = .error e) ↔ ∀ c ∈ g.components, ∃ e, c.msg.deserialize .json wire j = .error e)

/-! ## The condition -/

/-- The document has more than one entry, or the body gives a field's key twice. -/
def Repeats (fields : List (WireField V)) (es fs : List (String × Json)) : Prop :=
  1 < es.length ∨ ∃ f ∈ fields, 1 < (values f.key fs).length

/-- A `Value` holds every entry. -/
def Held (sv : SerdeValue) (es : List (String × Json)) : Prop := ∀ e ∈ es, sv.deserialize e.2 ≠ none

/-- Every field type takes, as text, the last value of its key. -/
def TakenAsText (fields : List (WireField V)) (fs : List (String × Json)) : Prop :=
  ∀ f ∈ fields, f.readLast f.ty.de (values f.key fs) ≠ none

/-- A `Value` holds the document, and from it every field type takes the last value of its
    key. -/
def TakenAsValue (sv : SerdeValue) (fields : List (WireField V)) (es fs : List (String × Json)) : Prop :=
  Held sv es ∧ ∀ f ∈ fields, f.readLast (f.ty.viaValue sv) (values f.key fs) ≠ none

/-- A `Value` holds the document, and no field type tells what it finds there from what it
    finds in the text. -/
def ReadAlike (sv : SerdeValue) (fields : List (WireField V)) (es fs : List (String × Json)) : Prop :=
  Held sv es ∧ ∀ f ∈ fields, ∀ x ∈ values f.key fs, f.ty.de x = f.ty.viaValue sv x

/-- For a document whose entries are all under one variant's tag, the last one's value an
    object: if it repeats something, the field types do not take it from a `Value`; if it
    repeats nothing and they take it from the text or from a `Value`, they read it alike. -/
def Faithful (g : GlueMessage Ty msgTy) (wire : Ty → WireType V) (sv : SerdeValue) (j : Json) : Prop :=
  ∀ c ∈ g.components, ∀ v ∈ c.msg.variants, ∀ es fs, j = .obj es → (∀ e ∈ es, e.1 = v.tag) →
    (values v.tag es).getLast? = some (.obj fs) →
    (Repeats (v.shape wire).fields es fs → ¬ TakenAsValue sv (v.shape wire).fields es fs) ∧
      (¬ Repeats (v.shape wire).fields es fs →
        TakenAsText (v.shape wire).fields fs ∨ TakenAsValue sv (v.shape wire).fields es fs →
        ReadAlike sv (v.shape wire).fields es fs)

/-! ## Fields -/

theorem read_eq_readLast {f : WireField V} {js : List Json} (hlen : js.length ≤ 1) :
    f.read .json js = f.readLast f.ty.de js := by
  match js with
  | [] => rfl
  | [j] => rfl
  | _ :: _ :: _ => simp at hlen

theorem length_le_of_read {f : WireField V} {js : List Json} {x : V} (h : f.read .json js = some x) : js.length ≤ 1 := by
  match js with
  | [] => simp
  | [j] => simp
  | _ :: _ :: _ => simp [WireField.read] at h

/-- Types that read alike give a field one value. -/
theorem readLast_eq_of_alike {f : WireField V} {sv : SerdeValue} {js : List Json}
    (h : ∀ j ∈ js, f.ty.de j = f.ty.viaValue sv j) : f.readLast f.ty.de js = f.readLast (f.ty.viaValue sv) js := by
  unfold WireField.readLast
  cases hj : js.getLast? with
  | none => rfl
  | some j => exact h j (List.mem_of_getLast? hj)

theorem alike_of_reads {f : WireField V} {sv : SerdeValue} {js : List Json} {x : V} (h : f.read .json js = some x)
    (hl : f.readLast (f.ty.viaValue sv) js = some x) : ∀ j ∈ js, f.ty.de j = f.ty.viaValue sv j := by
  match js with
  | [] => simp
  | [j] =>
    simp only [WireField.read, Deserializer.json_field] at h
    simp only [WireField.readLast, List.getLast?_singleton] at hl
    simp [h, hl]
  | _ :: _ :: _ => simp [WireField.read] at h

theorem not_repeats_iff {fields : List (WireField V)} {es fs : List (String × Json)} :
    ¬ Repeats fields es fs ↔ es.length ≤ 1 ∧ ∀ f ∈ fields, (values f.key fs).length ≤ 1 := by
  simp [Repeats]

/-- What a component's own decoder reads repeats nothing. -/
theorem not_repeats_of_reads {fields : List (WireField V)} {es fs : List (String × Json)} {vs : List V}
    (hone : es.length ≤ 1) (h : List.Forall₂ (fun f x => f.read .json (values f.key fs) = some x) fields vs) :
    ¬ Repeats fields es fs := by
  rw [not_repeats_iff]
  refine ⟨hone, ?_⟩
  intro f hf
  obtain ⟨x, -, hx⟩ := (forall₂_mem h).1 f hf
  exact length_le_of_read hx

theorem eq_singleton {es : List (String × Json)} {t : String} {x : Json} (hlen : es.length ≤ 1)
    (hall : ∀ e ∈ es, e.1 = t) (hlast : (values t es).getLast? = some x) : es = [(t, x)] := by
  match es with
  | [] => simp at hlast
  | [(t', x')] =>
    obtain rfl : t' = t := hall _ (List.mem_singleton_self _)
    simpa using hlast
  | _ :: _ :: _ => simp at hlen

/-- Two readings of one variant that give the same message give the same values. -/
theorem construct_inj {v : MsgVariant Ty} {vs vs' : List V} (h : v.fields.length = vs.length)
    (h' : v.fields.length = vs'.length) (he : v.construct vs = v.construct vs') : vs = vs' := by
  have hz : v.asFieldsNames.zip vs = v.asFieldsNames.zip vs' := by simpa [MsgVariant.construct] using he
  have hsnd := congrArg (List.map Prod.snd) hz
  rwa [List.map_snd_zip (by simp [MsgVariant.asFieldsNames, h]),
    List.map_snd_zip (by simp [MsgVariant.asFieldsNames, h'])] at hsnd

theorem shape_fields_length (wire : Ty → WireType V) (v : MsgVariant Ty) :
    (v.shape wire).fields.length = v.fields.length := by
  simp [MsgVariant.shape]

/-! ## What the two decoders accept -/

/-- The component's own decoder. -/
theorem plain_ok_iff {c : Component Ty msgTy} (hnames : c.msg.NamesAreTags) (wire : Ty → WireType V) (j : Json)
    (m : Message V) : c.msg.deserialize .json wire j = .ok m ↔ ∃ v ∈ c.msg.variants, ∃ fs vs,
      j = .obj [(v.tag, .obj fs)] ∧ m = v.construct vs ∧
      List.Forall₂ (fun f x => f.read .json (values f.key fs) = some x) (v.shape wire).fields vs := by
  constructor
  · intro h
    obtain ⟨v, hv, body, hj⟩ := EnumMessage.deserialize_ok h
    rw [EnumMessage.deserialize_tag hnames wire hv hj] at h
    cases hb : readBody .json (v.shape wire).fields body with
    | error e => simp [hb, Except.map] at h
    | ok vs =>
      obtain ⟨fs, hfs⟩ := readBody_entries hb
      obtain rfl := Deserializer.json_entries.mp hj
      obtain rfl := Deserializer.json_entries.mp hfs
      have hm : m = v.construct vs := by simpa [hb, Except.map, eq_comm] using h
      exact ⟨v, hv, fs, vs, rfl, hm, (read_iff (c.msg.keysDistinct wire hv) hfs vs).mp hb⟩
  · intro h
    rcases h with ⟨v, hv, fs, vs, rfl, rfl, h⟩
    rw [EnumMessage.deserialize_tag hnames wire hv (Deserializer.json_obj _),
      (read_iff (c.msg.keysDistinct wire hv) (Deserializer.json_obj fs) vs).mpr h]
    rfl

/-- What the glue accepts is read by the component that lists the only key left. -/
theorem glue_ok {g : GlueMessage Ty msgTy} {wire : Ty → WireType V} {sv : SerdeValue} {j : Json} {w : GlueValue V}
    (h : g.deserialize wire sv j = .ok w) : ∃ c ∈ g.components, ∃ t y, sv.deserialize j = some (.map [(t, y)]) ∧
      t ∈ c.msg.messages ∧ c.variant = w.variant ∧ c.msg.deserialize .value wire (.map [(t, y)]) = .ok w.msg := by
  simp only [GlueMessage.deserialize] at h
  split at h
  · cases h
  · rename_i val hval
    split at h
    · rename_i t y
      split at h
      · rename_i answer hroute
        obtain ⟨c, hc, hl, rfl⟩ := route_eq_some hroute
        refine ⟨c, hc, t, y, hval, (GlueMessage.listed_iff c t).mp hl, ?_⟩
        unfold Component.attempt at h
        split at h
        · rename_i msg hmsg
          simp only [Except.ok.injEq] at h
          subst h
          exact ⟨rfl, hmsg⟩
        · cases h
      · cases h
    · cases h
    · cases h

theorem held_iff {sv : SerdeValue} {es : List (String × Json)} : readAll sv.deserialize es ≠ none ↔ Held sv es :=
  readAll_ne_none

theorem glue_ok_iff {g : GlueMessage Ty msgTy} (hcheck : g.Compiles)
    (hnames : ∀ c ∈ g.components, c.msg.NamesAreTags) (wire : Ty → WireType V) (sv : SerdeValue)
    {c : Component Ty msgTy} (hc : c ∈ g.components) (j : Json) (m : Message V) :
    g.deserialize wire sv j = .ok ⟨c.variant, m⟩ ↔ ∃ v ∈ c.msg.variants, ∃ es fs vs, j = .obj es ∧
      (∀ e ∈ es, e.1 = v.tag) ∧ (values v.tag es).getLast? = some (.obj fs) ∧ Held sv es ∧ m = v.construct vs ∧
      List.Forall₂ (fun f x => f.readLast (f.ty.viaValue sv) (values f.key fs) = some x) (v.shape wire).fields vs := by
  constructor
  · intro h
    obtain ⟨c', hc', t, y, hval, ht, hvar, hm⟩ := glue_ok h
    obtain rfl : c' = c := GlueMessage.variant_inj hc' hc hvar
    obtain ⟨v, hv, hvt⟩ := List.mem_map.mp ((hnames c' hc' t).mp ht)
    subst hvt
    obtain ⟨es, x, rfl, hread, hall, hlast, hy⟩ := sv.deserialize_singleton_iff.mp hval
    rw [EnumMessage.deserialize_tag (hnames c' hc') wire hv (Deserializer.value_map _)] at hm
    cases hb : readBody .value (v.shape wire).fields y with
    | error e => simp [hb, Except.map] at hm
    | ok vs =>
      -- the last entry's value is read into a map, so it is an object
      obtain ⟨ms, hms⟩ := readBody_entries hb
      obtain rfl := Deserializer.value_entries.mp hms
      obtain ⟨fs, rfl⟩ := sv.deserialize_map hy
      have hm : m = v.construct vs := by simpa [hb, Except.map, eq_comm] using hm
      exact ⟨v, hv, es, fs, vs, rfl, hall, hlast, held_iff.mp hread, hm,
        (readBody_value_iff (c'.msg.keysDistinct wire hv) hy vs).mp hb⟩
  · intro h
    rcases h with ⟨v, hv, es, fs, vs, rfl, hall, hlast, hheld, rfl, h⟩
    obtain ⟨y, hy⟩ := Option.ne_none_iff_exists'.mp
      (hheld (v.tag, .obj fs) (mem_values.mp (List.mem_of_getLast? hlast)))
    have hval := sv.deserialize_singleton_iff.mpr ⟨es, _, rfl, held_iff.mpr hheld, hall, hlast, hy⟩
    have hkey : v.tag ∈ c.msg.messages := (hnames c hc _).mpr (EnumMessage.mem_tags_of_mem hv)
    rw [GlueMessage.deserialize_key hcheck wire hc hval hkey, Component.attempt,
      EnumMessage.deserialize_tag (hnames c hc) wire hv (Deserializer.value_map _),
      (readBody_value_iff (c.msg.keysDistinct wire hv) hy vs).mpr h]
    rfl

/-! ## Agreement -/

theorem variant_of_tag {c : Component Ty msgTy} (hnames : c.msg.NamesAreTags) {v w : MsgVariant Ty}
    (hv : v ∈ c.msg.variants) (hw : w ∈ c.msg.variants) (h : v.tag = w.tag) : v = w :=
  List.inj_on_of_nodup_map (EnumMessage.tags_nodup hnames) hv hw h

/-- The decoders' answers agree once what they accept does. -/
theorem agrees_iff (g : GlueMessage Ty msgTy) (wire : Ty → WireType V) (sv : SerdeValue) (j : Json) :
    Agrees g wire sv j ↔ ∀ c ∈ g.components, ∀ m,
      g.deserialize wire sv j = .ok ⟨c.variant, m⟩ ↔ c.msg.deserialize .json wire j = .ok m := by
  refine ⟨fun h => h.1, fun h => ⟨h, ?_⟩⟩
  constructor
  · intro ⟨e, he⟩ c hc
    cases hm : c.msg.deserialize .json wire j with
    | error e => exact ⟨e, rfl⟩
    | ok m => rw [(h c hc m).mpr hm] at he; cases he
  · intro hall
    cases hm : g.deserialize wire sv j with
    | error e => exact ⟨e, rfl⟩
    | ok w =>
      obtain ⟨c, hc, -, -, -, -, hvar, -⟩ := glue_ok hm
      obtain ⟨e, he⟩ := hall c hc
      have := (h c hc w.msg).mp (by rw [hm, hvar])
      rw [he] at this; cases this

/-- A document that agreeing decoders both accept: it repeats nothing, and is read alike. -/
theorem alike_of_accepted {g : GlueMessage Ty msgTy} (hcheck : g.Compiles)
    (hnames : ∀ c ∈ g.components, c.msg.NamesAreTags) {wire : Ty → WireType V} {sv : SerdeValue}
    {c : Component Ty msgTy} (hc : c ∈ g.components) {v : MsgVariant Ty} (hv : v ∈ c.msg.variants)
    {es fs : List (String × Json)} (hall : ∀ e ∈ es, e.1 = v.tag) (hlast : (values v.tag es).getLast? = some (.obj fs))
    {m : Message V} (hplain : c.msg.deserialize .json wire (.obj es) = .ok m)
    (hglue : g.deserialize wire sv (.obj es) = .ok ⟨c.variant, m⟩) :
    ¬ Repeats (v.shape wire).fields es fs ∧ ReadAlike sv (v.shape wire).fields es fs := by
  obtain ⟨v', hv', fs', vs, hes, hm, hread⟩ := (plain_ok_iff (hnames c hc) wire _ _).mp hplain
  obtain ⟨w, hw, es', gs, ws, hes', hall', hlast', hheld, hm', hreadLast⟩ :=
    (glue_ok_iff hcheck hnames wire sv hc _ _).mp hglue
  -- one entry, so all speak of one variant and one body
  obtain rfl : es = [(v'.tag, .obj fs')] := by simpa using hes
  obtain rfl : [(v'.tag, Json.obj fs')] = es' := by simpa using hes'
  obtain rfl : v' = v := variant_of_tag (hnames c hc) hv' hv (hall _ (List.mem_singleton_self _))
  obtain rfl : v' = w := variant_of_tag (hnames c hc) hv' hw (hall' _ (List.mem_singleton_self _))
  obtain rfl : fs' = fs := by simpa using hlast
  obtain rfl : fs' = gs := by simpa using hlast'
  have hlen := shape_fields_length wire v'
  obtain rfl := construct_inj (hlen ▸ hread.length_eq) (hlen ▸ hreadLast.length_eq) (hm.symm.trans hm')
  refine ⟨not_repeats_of_reads (Nat.le_refl 1) hread, hheld, ?_⟩
  intro f hf
  obtain ⟨x, hx, hx'⟩ := forall₂_and hread hreadLast f hf
  exact alike_of_reads hx hx'

theorem faithful_of_agrees {g : GlueMessage Ty msgTy} (hcheck : g.Compiles)
    (hnames : ∀ c ∈ g.components, c.msg.NamesAreTags) {wire : Ty → WireType V} {sv : SerdeValue} {j : Json}
    (h : Agrees g wire sv j) : Faithful g wire sv j := by
  intro c hc v hv es fs hj hall hlast
  subst hj
  -- either reading gives a message, and the other decoder has to give it too
  have ofValue (ht : TakenAsValue sv (v.shape wire).fields es fs) :
      ¬ Repeats (v.shape wire).fields es fs ∧ ReadAlike sv (v.shape wire).fields es fs := by
    obtain ⟨hheld, ht⟩ := ht
    obtain ⟨vs, hvs⟩ := exists_forall₂_some_iff.mpr ht
    have hglue := (glue_ok_iff hcheck hnames wire sv hc (.obj es) (v.construct vs)).mpr
      ⟨v, hv, es, fs, vs, rfl, hall, hlast, hheld, rfl, hvs⟩
    exact alike_of_accepted hcheck hnames hc hv hall hlast ((h.1 c hc _).mp hglue) hglue
  refine ⟨fun hrep ht => (ofValue ht).1 hrep, ?_⟩
  intro hrep ht
  rcases ht with ht | ht
  · obtain ⟨hone, hfields⟩ := not_repeats_iff.mp hrep
    obtain ⟨vs, hvs⟩ := exists_forall₂_some_iff.mpr ht
    have hvs' : List.Forall₂ (fun f x => f.read .json (values f.key fs) = some x) (v.shape wire).fields vs :=
      forall₂_imp_mem hvs fun f hf x hx => by rwa [read_eq_readLast (hfields f hf)]
    have hplain := (plain_ok_iff (hnames c hc) wire (.obj es) (v.construct vs)).mpr
      ⟨v, hv, fs, vs, by rw [eq_singleton hone hall hlast], rfl, hvs'⟩
    exact (alike_of_accepted hcheck hnames hc hv hall hlast hplain ((h.1 c hc _).mpr hplain)).2
  · exact (ofValue ht).2

theorem agrees_of_faithful {g : GlueMessage Ty msgTy} (hcheck : g.Compiles)
    (hnames : ∀ c ∈ g.components, c.msg.NamesAreTags) {wire : Ty → WireType V} {sv : SerdeValue} {j : Json}
    (h : Faithful g wire sv j) : Agrees g wire sv j := by
  have same : ∀ {fields : List (WireField V)} {es fs : List (String × Json)}, ¬ Repeats fields es fs →
      ReadAlike sv fields es fs → ∀ f ∈ fields,
        f.read .json (values f.key fs) = f.readLast (f.ty.viaValue sv) (values f.key fs) := by
    intro fields es fs hrep halike f hf
    rw [read_eq_readLast ((not_repeats_iff.mp hrep).2 f hf), readLast_eq_of_alike (halike.2 f hf)]
  rw [agrees_iff]
  intro c hc m
  rw [glue_ok_iff hcheck hnames wire sv hc, plain_ok_iff (hnames c hc)]
  constructor
  · intro hglue
    rcases hglue with ⟨v, hv, es, fs, vs, rfl, hall, hlast, hheld, rfl, hvs⟩
    obtain ⟨hhidden, halike⟩ := h c hc v hv es fs rfl hall hlast
    have htaken : TakenAsValue sv (v.shape wire).fields es fs := ⟨hheld, exists_forall₂_some_iff.mp ⟨_, hvs⟩⟩
    have hrep : ¬ Repeats (v.shape wire).fields es fs := fun hrep => hhidden hrep htaken
    have hsame := same hrep (halike hrep (Or.inr htaken))
    exact ⟨v, hv, fs, vs, by rw [eq_singleton (not_repeats_iff.mp hrep).1 hall hlast], rfl,
      forall₂_imp_mem hvs fun f hf x hx => by rwa [hsame f hf]⟩
  · intro hplain
    rcases hplain with ⟨v, hv, fs, vs, rfl, rfl, hvs⟩
    obtain ⟨-, halike⟩ := h c hc v hv _ fs rfl (by simp) (by simp)
    have hrep : ¬ Repeats (v.shape wire).fields [(v.tag, Json.obj fs)] fs :=
      not_repeats_of_reads (Nat.le_refl 1) hvs
    have htaken : TakenAsText (v.shape wire).fields fs := by
      refine exists_forall₂_some_iff.mp ⟨vs, forall₂_imp_mem hvs ?_⟩
      intro f hf x hx
      rwa [← read_eq_readLast ((not_repeats_iff.mp hrep).2 f hf)]
    have halike := halike hrep (Or.inl htaken)
    have hsame := same hrep halike
    exact ⟨v, hv, _, fs, vs, rfl, by simp, by simp, halike.1, rfl,
      forall₂_imp_mem hvs fun f hf x hx => by rwa [← hsame f hf]⟩

/-- The glue decoder and the components' own decoders agree on a document exactly when it
    is `Faithful`: the glue hides no repetition that the field types take, and loses
    nothing of a document that repeats nothing. -/
theorem agreement {g : GlueMessage Ty msgTy} (hcheck : g.Compiles)
    (hnames : ∀ c ∈ g.components, c.msg.NamesAreTags) (wire : Ty → WireType V) (sv : SerdeValue) (j : Json) :
    Agrees g wire sv j ↔ Faithful g wire sv j :=
  ⟨faithful_of_agrees hcheck hnames, agrees_of_faithful hcheck hnames⟩

/-- `{"set_admin": {"member": "alice"}, "set_admin": {"member": "bob"}}` -/
def twoMessages : Json :=
  .obj [("set_admin", .obj [("member", .str "alice")]), ("set_admin", .obj [("member", .str "bob")])]

/-- The glue reads it as the second message; no component's own decoder accepts it. -/
theorem repeated_message_accepted : whitelist.Compiles ∧ (∀ c ∈ whitelist.components, c.msg.NamesAreTags) ∧
    ¬ Agrees whitelist stringWire serdeValue twoMessages := by
  refine ⟨whitelist_compiles, whitelist_names, ?_⟩
  intro h
  have hc : admins.toComponent ∈ whitelist.components := by simp [GlueMessage.components, whitelist]
  obtain ⟨hhidden, -⟩ := faithful_of_agrees whitelist_compiles whitelist_names h _ hc _ List.mem_cons_self
    [("set_admin", .obj [("member", .str "alice")]), ("set_admin", .obj [("member", .str "bob")])]
    [("member", .str "bob")] rfl (by decide) rfl
  refine hhidden (Or.inl (by decide)) ⟨?_, ?_⟩
  · simp [Held, serdeValue, Value.deserialize, Value.deserializeEntries]
  · simp [MsgVariant.shape, MsgField.field, WireField.readLast, WireType.viaValue, stringWire, serdeValue,
      Value.deserialize]

theorem agreement_two_messages : Agrees whitelist stringWire serdeValue twoMessages ↔
    Faithful whitelist stringWire serdeValue twoMessages :=
  agreement whitelist_compiles whitelist_names _ _ _

end Sylvia.Contract
