/-
  Sylvia.Contract.Names — the names of a component's methods on the wire and in the
  router (`MsgVariant::new`, `MsgVariants::as_names_snake_cased`, serde's renaming of the
  variants).

  A method `f` becomes the variant `F` (`convert_case`, UpperCamel); the router lists the
  variant in snake case (`convert_case` again), the wire uses serde's snake case of it.
  The first is not undone by the second when a digit stands next to a letter or two
  one-letter words follow each other.

  Proved:
  - `names_agree`: listed name and tag are equal for every method, and the glue enum
    recognises whatever the component's enum serializes, exactly when every method name
    `Spells`.
  - `interface1_method_exec_unrecognised`: the interface of the crate's own test.
  - `ambiguous_tag_panics`: a tag that two components share makes the overlap check
    panic, so no document is decoded by two components of a contract that compiles.
-/
import Sylvia.Base.Casing
import Sylvia.Contract.Glue

namespace Sylvia.Contract

open Sylvia.Base Sylvia.Parser Sylvia.Types Sylvia.Utils

variable {Ty V : Type} {msgTy : MsgType} {source : List (VariantDesc Ty)}

/-- The name has no digit, and no two words in a row of one letter. -/
def Spells (f : Ident) : Prop := (∀ c ∈ f.toList, c.isDigit = false) ∧ Spaced (split Boundary.defaults f.toList)

instance (f : Ident) : Decidable (Spells f) :=
  letI := List.decidableBAll (fun c : Char => c.isDigit = false) f.toList
  inferInstanceAs (Decidable ((∀ c ∈ f.toList, c.isDigit = false) ∧ Spaced (split Boundary.defaults f.toList)))

example : Spells "add_member" ∧ Spells "a_bc" ∧ ¬ Spells "interface1_method_exec" ∧ ¬ Spells "a_b" := by decide

/-! ## A method's variant -/

theorem svToCase_eq {case : Case} {f n : Ident} (h : svToCase case f = some n) :
    n = toCase case f ∧ isIdent n.toList = true := by
  simp only [svToCase, identNew] at h
  split at h
  · rename_i hi
    obtain rfl : toCase case f = n := by simpa using h
    exact ⟨rfl, hi⟩
  · cases h

theorem toCase_toList (case : Case) (f : Ident) : (toCase case f).toList = convert case f.toList := by simp [toCase]

/-- A variant is named after its method. -/
theorem name_of_method (m : EnumMessage Ty source msgTy) {v : MsgVariant Ty} (hv : v ∈ m.variants) :
    svToCase .upperCamel v.functionName = some v.name := by
  obtain ⟨d, -, a, -, -, hnew⟩ := exists_desc m.built hv
  obtain ⟨hname, hf, -, -, -⟩ := new_eq hnew
  rw [hf, hname]

theorem listed_eq_tag_iff {v : MsgVariant Ty} (hname : svToCase .upperCamel v.functionName = some v.name)
    (hr : v.rename = none) (hf : Plain v.functionName.toList) : v.listed = v.tag ↔ Spells v.functionName := by
  obtain ⟨hn, hid⟩ := svToCase_eq hname
  have hlist : v.name.toList = convert .upperCamel v.functionName.toList := by rw [hn, toCase_toList]
  have htag : v.listed = v.tag ↔ convert .snake v.name.toList = snakeCaseVariant v.name.toList := by
    rw [MsgVariant.tag, hr, MsgVariant.listed, toCase, Option.getD_none, String.ofList_inj]
  rw [htag, Spells]
  cases hc : v.name.toList with
  | nil => rw [hc] at hid; cases hid
  | cons c cs =>
    rw [hlist] at hc
    have hca : c.isAlpha = true := by
      have halnum := camel_isAlphanum (fun w hw => hf.isAlphanum hw) c (by rw [← convert_upperCamel, hc]; simp)
      rw [hlist, hc] at hid
      simp only [isIdent, identStart, Bool.and_eq_true, Bool.or_eq_true, beq_iff_eq] at hid
      rcases hid.1 with h | rfl
      · exact h
      · exact absurd halnum (by decide)
    exact snake_eq_iff hf hc hca

/-! ## What the glue recognises -/

/-- Some component takes the document for its own: it lists the only key left of it. -/
def Recognises (g : GlueMessage Ty msgTy) (j : Json) : Prop :=
  ∃ es key x, j = .obj es ∧ collect es = [(key, x)] ∧ ∃ c ∈ g.components, c.listed key = true

theorem recognises_of_tag {g : GlueMessage Ty msgTy} {c : Component Ty msgTy} (hc : c ∈ g.components)
    (h : ∀ v ∈ c.msg.variants, v.listed = v.tag) (wire : Ty → WireType V) {msg : Message V} {doc : Json}
    (hdoc : c.msg.serialize wire msg = some doc) : Recognises g doc := by
  cases msg with
  | phantom => cases hdoc
  | variant name fields =>
    simp only [EnumMessage.serialize, Option.bind_eq_bind, Option.bind_eq_some_iff, Option.some.injEq] at hdoc
    obtain ⟨v, hv, vs, -, rfl⟩ := hdoc
    have hv := List.mem_of_find?_eq_some hv
    refine ⟨_, v.tag, _, rfl, rfl, c, hc, ?_⟩
    rw [GlueMessage.listed_iff, EnumMessage.mem_messages]
    exact ⟨v, hv, h v hv⟩

/-- Over lower-case letters, digits and underscores, router and wire agree on the names
    of a component's methods exactly when all of them spell. -/
theorem names_agree {g : GlueMessage Ty msgTy} {c : Component Ty msgTy} (hc : c ∈ g.components)
    (hserde : ∀ v ∈ c.msg.variants, v.rename = none) (hchars : ∀ v ∈ c.msg.variants, Plain v.functionName.toList) :
    ((∀ v ∈ c.msg.variants, v.listed = v.tag) ∧
      ∀ (wire : Ty → WireType V) (msg : Message V) (doc : Json), c.msg.serialize wire msg = some doc →
        Recognises g doc) ↔ ∀ v ∈ c.msg.variants, Spells v.functionName := by
  have each : ∀ v ∈ c.msg.variants, v.listed = v.tag ↔ Spells v.functionName := fun v hv =>
    listed_eq_tag_iff (name_of_method c.msg hv) (hserde v hv) (hchars v hv)
  constructor
  · intro ⟨h, _⟩ v hv
    exact (each v hv).mp (h v hv)
  · intro h
    have heq : ∀ v ∈ c.msg.variants, v.listed = v.tag := fun v hv => (each v hv).mpr (h v hv)
    exact ⟨heq, fun wire msg doc => recognises_of_tag hc heq wire⟩

theorem names_agree_whitelist : ((∀ v ∈ addMember.variants, v.listed = v.tag) ∧
    ∀ (wire : Unit → WireType String) (msg : Message String) (doc : Json), addMember.serialize wire msg = some doc →
      Recognises whitelist doc) ↔ ∀ v ∈ addMember.variants, Spells v.functionName :=
  names_agree (c := members.toComponent) (by simp [GlueMessage.components, whitelist]) (by decide)
    (by decide)

/-- The `Interface1` of the crate's `interface_impl` test. -/
def interface1 : EnumMessage Unit
    [⟨some ⟨.exec, [], .always⟩, none, ⟨"interface1_method_exec", [.receiver [], .typed (some "_ctx") () []]⟩⟩] .exec
    where
  variants := [⟨"Interface1MethodExec", "interface1_method_exec", [], ⟨.exec, [], .always⟩, none⟩]
  built := by decide
  phantom := false
  names_nodup := by decide
  constructors := ⟨["interface_1_method_exec"], by decide, by decide⟩
  fields_nodup := by decide

def interface1Contract : GlueMessage Unit .exec :=
  ⟨[⟨⟨"Interface1", _, interface1⟩, ⟨false, false⟩⟩], ⟨"Contract", _, freeze⟩, by decide⟩

/-- It is listed as `interface_1_method_exec`, and goes unrecognised under its tag. -/
theorem interface1_method_exec_unrecognised :
    (∀ v ∈ interface1.variants, v.rename = none ∧ Plain v.functionName.toList ∧ v.listed ≠ v.tag) ∧
      ∃ doc, interface1.serialize stringWire (.variant "Interface1MethodExec" []) = some doc ∧
        ¬ Recognises interface1Contract doc := by
  refine ⟨by decide, .obj [("interface1_method_exec", .obj [])], by rfl, ?_⟩
  intro ⟨es, key, x, hes, hkey, c, hc, hl⟩
  obtain rfl : [("interface1_method_exec", .obj [])] = es := Json.obj.inj hes
  obtain ⟨rfl, -⟩ : "interface1_method_exec" = key ∧ .obj [] = x := by simpa [collect, mapInsert] using hkey
  rw [GlueMessage.listed_iff, EnumMessage.mem_messages] at hl
  rcases List.mem_cons.mp hc with rfl | hc
  · exact absurd hl (by decide)
  · obtain rfl := List.mem_singleton.mp hc
    exact absurd hl (by decide)

/-! ## Tags of two components -/

/-- serde's snake case tells names apart. -/
theorem name_eq_of_snake {m : EnumMessage Ty source msgTy} {source' : List (VariantDesc Ty)}
    {m' : EnumMessage Ty source' msgTy} {v w : MsgVariant Ty} (hv : v ∈ m.variants) (hw : w ∈ m'.variants)
    (h : snakeCaseVariant v.name.toList = snakeCaseVariant w.name.toList) : v.name = w.name := by
  have hcamel : ∀ {u : MsgVariant Ty}, svToCase .upperCamel u.functionName = some u.name →
      u.name.toList = camel (split Boundary.defaults u.functionName.toList) := fun hu => by
    rw [← convert_upperCamel, ← toCase_toList, (svToCase_eq hu).1]
  have hv := hcamel (name_of_method m hv)
  have hw := hcamel (name_of_method m' hw)
  rw [hv, hw] at h
  have := snakeCaseVariant_inj (underscore_not_mem_camel _) (underscore_not_mem_camel _) (camel_head_not_isLower _)
    (camel_head_not_isLower _) h
  rw [← hv, ← hw] at this
  exact String.toList_inj.mp this

theorem name_inj {m : EnumMessage Ty source msgTy} {source' : List (VariantDesc Ty)} {m' : EnumMessage Ty source' msgTy}
    {v w : MsgVariant Ty} (hv : v ∈ m.variants) (hw : w ∈ m'.variants) (hr : v.rename = none) (hr' : w.rename = none)
    (h : v.tag = w.tag) : v.name = w.name := by
  simp only [MsgVariant.tag, hr, hr', Option.getD_none, String.ofList_inj] at h
  exact name_eq_of_snake hv hw h

theorem panics_of_common_tag {g : GlueMessage Ty msgTy} {c c' : Component Ty msgTy} (hc : c ∈ g.components)
    (hc' : c' ∈ g.components) (hne : c ≠ c') (hserde : ∀ v ∈ c.msg.variants, v.rename = none)
    (hserde' : ∀ v ∈ c'.msg.variants, v.rename = none) {t : String} (ht : t ∈ c.msg.tags) (ht' : t ∈ c'.msg.tags) :
    Panics g.messagesCall := by
  obtain ⟨v, hv, rfl⟩ := List.mem_map.mp ht
  obtain ⟨w, hw, hwt⟩ := List.mem_map.mp ht'
  have hname := name_inj hv hw (hserde v hv) (hserde' w hw) hwt.symm
  have hl : c.listed v.listed = true := (GlueMessage.listed_iff c _).mpr (c.msg.mem_messages.mpr ⟨v, hv, rfl⟩)
  have hl' : c'.listed v.listed = true := (GlueMessage.listed_iff c' _).mpr
    (c'.msg.mem_messages.mpr ⟨w, hw, by rw [MsgVariant.listed, MsgVariant.listed, hname]⟩)
  by_contra hno
  exact hne ((g.listed_apart.mp hno).eq_of_accepts hc hc' hl hl')

/-- No ambiguous message gets through: a tag that two components share makes the check
    panic, so a document that two components decode is one of no contract that compiles. -/
theorem ambiguous_tag_panics {g : GlueMessage Ty msgTy} {c c' : Component Ty msgTy} (hc : c ∈ g.components)
    (hc' : c' ∈ g.components) (hne : c ≠ c') (hserde : ∀ v ∈ c.msg.variants, v.rename = none)
    (hserde' : ∀ v ∈ c'.msg.variants, v.rename = none) :
    (∀ t, t ∈ c.msg.tags → t ∈ c'.msg.tags → Panics g.messagesCall) ∧
      ∀ (wire : Ty → WireType V) (j : Json) (m m' : Message V), c.msg.deserialize .json wire j = .ok m →
        c'.msg.deserialize .json wire j = .ok m' → ¬ g.Compiles := by
  refine ⟨fun t => panics_of_common_tag hc hc' hne hserde hserde', ?_⟩
  intro wire j m m' hm hm' hcompiles
  obtain ⟨v, hv, body, hj⟩ := EnumMessage.deserialize_ok hm
  obtain ⟨w, hw, body', hj'⟩ := EnumMessage.deserialize_ok hm'
  obtain ⟨htag, -⟩ : v.tag = w.tag ∧ body = body' := by simpa using hj.symm.trans hj'
  exact hcompiles (panics_of_common_tag hc hc' hne hserde hserde' (EnumMessage.mem_tags_of_mem hv)
    (htag ▸ EnumMessage.mem_tags_of_mem hw))

/-- An interface and the contract, both with `add_member`. -/
def clashing : GlueMessage Unit .exec := ⟨[members], ⟨"Whitelist", _, addMember⟩, by decide⟩

theorem ambiguous_tag_panics_clashing : Panics clashing.messagesCall ∧ ¬ clashing.Compiles := by
  have hc : members.toComponent ∈ clashing.components := by simp [GlueMessage.components, clashing]
  have hc' : clashing.contract ∈ clashing.components := by simp [GlueMessage.components]
  have hne : members.toComponent ≠ clashing.contract := fun h => absurd (congrArg Component.variant h) (by decide)
  obtain ⟨htag, hdoc⟩ := ambiguous_tag_panics hc hc' hne (by decide) (by decide)
  exact ⟨htag "add_member" (by decide) (by decide),
    hdoc stringWire (.obj [("add_member", .obj [("member", .str "alice")])])
      (.variant "AddMember" [("member", "alice")]) _ rfl rfl⟩

end Sylvia.Contract
