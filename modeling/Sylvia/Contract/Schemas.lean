/-
  Sylvia.Contract.Schemas — the query schema of a contract
  (`contract/communication/wrapper_msg.rs`: `response_schemas_impl` of the glue enum,
  `types/interfaces.rs`: `emit_response_schemas_calls`).

  Each component's map comes from `QueryResponses`: an entry for each variant, `_Phantom`
  included, under serde's snake case of its name. The glue flattens the maps and collects
  them into one, where a later entry replaces an earlier one of its key. The overlap
  check is on other names, those of `convert_case`; what carries over is that serde's
  tell any two variants apart.

  Proved: `schemas_disjoint`: when the check passes nothing is replaced but `_Phantom`.
-/
import Sylvia.Contract.Names

namespace Sylvia.Contract

open Sylvia.Base Sylvia.Parser Sylvia.Types Sylvia.Utils

variable {Ty S : Type}

/-- The key `QueryResponses` gives a variant. -/
def schemaKey (name : Ident) : String := String.ofList (snakeCaseVariant name.toList)

def phantomKey : String := schemaKey "_Phantom"

/-- The schemas of what the variants of a component return, and of `_Phantom`'s. -/
structure Returns (Ty S : Type) where
  schema : Component Ty .query → MsgVariant Ty → S
  phantom : Component Ty .query → S

namespace Component

/-- The entries of a component, in the order of its variants. -/
def schemas (c : Component Ty .query) (returns : Returns Ty S) : List (String × S) :=
  c.msg.variants.map (fun v => (schemaKey v.name, returns.schema c v)) ++
    if c.msg.phantom then [(phantomKey, returns.phantom c)] else []

def responseSchemasImpl (c : Component Ty .query) (returns : Returns Ty S) : List (String × S) :=
  collect (c.schemas returns)

end Component

/-- The glue enum's `response_schemas_impl`. -/
def GlueMessage.responseSchemasImpl (g : GlueMessage Ty .query) (returns : Returns Ty S) : List (String × S) :=
  collect (g.components.map fun c => c.responseSchemasImpl returns).flatten

/-! ## Keys -/

theorem schemaKey_inj {c c' : Component Ty .query} {v w : MsgVariant Ty} (hv : v ∈ c.msg.variants)
    (hw : w ∈ c'.msg.variants) (h : schemaKey v.name = schemaKey w.name) : v.name = w.name :=
  name_eq_of_snake hv hw (String.ofList_inj.mp h)

/-- No method's key starts with an underscore. -/
theorem schemaKey_ne_phantom {c : Component Ty .query} {v : MsgVariant Ty} (hv : v ∈ c.msg.variants) :
    schemaKey v.name ≠ phantomKey := by
  intro h
  have hname := name_of_method c.msg hv
  have hlist : v.name.toList = camel (split Boundary.defaults v.functionName.toList) := by
    rw [← convert_upperCamel, ← toCase_toList, (svToCase_eq hname).1]
  have hkey : snakeCaseVariant v.name.toList = "__phantom".toList := by
    have hp : phantomKey = "__phantom" := by decide
    rw [← String.toList_inj, hp, schemaKey, String.toList_ofList] at h
    exact h
  have hunder := underscore_not_mem_camel v.functionName.toList
  rw [← hlist] at hunder
  cases hn : v.name.toList with
  | nil => rw [hn] at hkey; exact absurd hkey (by decide)
  | cons c cs =>
    rw [hn] at hkey hunder
    have hc : c.toLower = '_' := by simpa [snakeCaseVariant, snakeCaseFrom] using congrArg List.head? hkey
    exact hunder (toLower_eq_underscore hc ▸ List.mem_cons_self)

/-- Two variants of the components with one key are one variant of one component. -/
theorem eq_of_schemaKey {g : GlueMessage Ty .query} (hcheck : g.Compiles) {c c' : Component Ty .query}
    (hc : c ∈ g.components) (hc' : c' ∈ g.components) {v w : MsgVariant Ty} (hv : v ∈ c.msg.variants)
    (hw : w ∈ c'.msg.variants) (h : schemaKey v.name = schemaKey w.name) : c = c' ∧ v = w := by
  have hname := schemaKey_inj hv hw h
  have hl : c.listed v.listed = true := (GlueMessage.listed_iff c _).mpr (c.msg.mem_messages.mpr ⟨v, hv, rfl⟩)
  have hl' : c'.listed v.listed = true := (GlueMessage.listed_iff c' _).mpr
    (c'.msg.mem_messages.mpr ⟨w, hw, by rw [MsgVariant.listed, MsgVariant.listed, hname]⟩)
  obtain rfl := (g.listed_apart.mp hcheck).eq_of_accepts hc hc' hl hl'
  exact ⟨rfl, List.inj_on_of_nodup_map c.msg.names_nodup hv hw hname⟩

/-! ## A component's map -/

variable (returns : Returns Ty S)

theorem mem_schemas {c : Component Ty .query} {e : String × S} : e ∈ c.schemas returns ↔
    (∃ v ∈ c.msg.variants, e = (schemaKey v.name, returns.schema c v)) ∨
      (c.msg.phantom = true ∧ e = (phantomKey, returns.phantom c)) := by
  unfold Component.schemas
  rw [List.mem_append, List.mem_map]
  by_cases hp : c.msg.phantom = true <;> simp [hp, eq_comm]

/-- The entry of a variant is in its component's map. -/
theorem mem_responseSchemas {c : Component Ty .query} {v : MsgVariant Ty} (hv : v ∈ c.msg.variants) :
    (schemaKey v.name, returns.schema c v) ∈ c.responseSchemasImpl returns := by
  refine mem_collect_of_unique ((mem_schemas returns).mpr (Or.inl ⟨v, hv, rfl⟩)) ?_
  intro y hy
  rcases (mem_schemas returns).mp hy with ⟨w, hw, he⟩ | ⟨-, he⟩
  · obtain ⟨hk, rfl⟩ := Prod.mk.inj he
    rw [List.inj_on_of_nodup_map c.msg.names_nodup hv hw (schemaKey_inj hv hw hk)]
  · exact absurd (Prod.mk.inj he).1 (schemaKey_ne_phantom hv)

/-- What is in a component's map, `_Phantom` aside. -/
theorem of_mem_responseSchemas {c : Component Ty .query} {e : String × S} (h : e ∈ c.responseSchemasImpl returns)
    (hne : e.1 ≠ phantomKey) : ∃ v ∈ c.msg.variants, e = (schemaKey v.name, returns.schema c v) := by
  rcases (mem_schemas returns).mp (mem_of_mem_collect h) with hv | ⟨-, he⟩
  · exact hv
  · exact absurd (congrArg Prod.fst he) hne

/-! ## The glue's map -/

variable {g : GlueMessage Ty .query}

theorem mem_glueSchemas_iff (hcheck : g.Compiles) {e : String × S} (hne : e.1 ≠ phantomKey) :
    e ∈ g.responseSchemasImpl returns ↔
      ∃ c ∈ g.components, ∃ v ∈ c.msg.variants, e = (schemaKey v.name, returns.schema c v) := by
  unfold GlueMessage.responseSchemasImpl
  have hflat {e : String × S} : e ∈ (g.components.map fun c => c.responseSchemasImpl returns).flatten ↔
      ∃ c ∈ g.components, e ∈ c.responseSchemasImpl returns := by simp
  constructor
  · intro h
    obtain ⟨c, hc, he⟩ := hflat.mp (mem_of_mem_collect h)
    obtain ⟨v, hv, he⟩ := of_mem_responseSchemas returns he hne
    exact ⟨c, hc, v, hv, he⟩
  · intro ⟨c, hc, v, hv, he⟩
    rw [he]
    refine mem_collect_of_unique (hflat.mpr ⟨c, hc, mem_responseSchemas returns hv⟩) ?_
    intro y hy
    obtain ⟨c', hc', hy⟩ := hflat.mp hy
    obtain ⟨w, hw, hy⟩ := of_mem_responseSchemas returns hy (schemaKey_ne_phantom hv)
    obtain ⟨hk, rfl⟩ := Prod.mk.inj hy
    obtain ⟨rfl, rfl⟩ := eq_of_schemaKey hcheck hc hc' hv hw hk
    rfl

/-- The entries of all methods. -/
def GlueMessage.methodSchemas (g : GlueMessage Ty .query) (returns : Returns Ty S) : List (String × S) :=
  g.components.flatMap fun c => c.msg.variants.map fun v => (schemaKey v.name, returns.schema c v)

theorem methodSchemas_nodup (hcheck : g.Compiles) : (g.methodSchemas returns).Nodup := by
  unfold GlueMessage.methodSchemas
  rw [List.nodup_flatMap]
  constructor
  · intro c hc
    refine List.Nodup.map_on ?_ (List.Nodup.of_map _ c.msg.names_nodup)
    intro v hv w hw he
    exact (eq_of_schemaKey hcheck hc hc hv hw (Prod.mk.inj he).1).2
  · have hn : g.components.Nodup := List.Nodup.of_map _ g.variants_nodup
    refine hn.imp_of_mem ?_
    intro c c' hc hc' hne e he he'
    obtain ⟨v, hv, rfl⟩ := List.mem_map.mp he
    obtain ⟨w, hw, he⟩ := List.mem_map.mp he'
    exact hne (eq_of_schemaKey hcheck hc' hc hw hv (Prod.mk.inj he).1).1.symm

/-- When the overlap check passes, the glue's map has one entry for each query method of
    each component, the one its component gives it, and none else but `_Phantom`'s. -/
theorem schemas_disjoint (hcheck : g.Compiles) :
    (∀ c ∈ g.components, ∀ desc ∈ c.source, ∀ a, desc.msgAttr = some a → a.msgType = .query →
      ∃ v ∈ c.msg.variants, v.functionName = desc.sig.ident ∧
        values (schemaKey v.name) (c.responseSchemasImpl returns) = [returns.schema c v] ∧
        values (schemaKey v.name) (g.responseSchemasImpl returns) = [returns.schema c v]) ∧
    ((g.responseSchemasImpl returns).filter fun e => e.1 ≠ phantomKey).Perm (g.methodSchemas returns) ∧
    Sorted (g.responseSchemasImpl returns) := by
  have hsorted : Sorted (g.responseSchemasImpl returns) := sorted_collect _
  refine ⟨?_, ?_, hsorted⟩
  · intro c hc desc hd a ha hkind
    obtain ⟨v, hv, hnew⟩ := exists_variant c.msg.built hd ha hkind
    have hglue := (mem_glueSchemas_iff returns hcheck (schemaKey_ne_phantom hv)).mpr ⟨c, hc, v, hv, rfl⟩
    exact ⟨v, hv, (new_eq hnew).2.1, values_eq_singleton (sorted_collect _) (mem_responseSchemas returns hv),
      values_eq_singleton hsorted hglue⟩
  · rw [List.perm_ext_iff_of_nodup ((List.Nodup.of_map _ hsorted.nodup).filter _) (methodSchemas_nodup returns hcheck)]
    intro e
    rw [List.mem_filter, GlueMessage.methodSchemas, List.mem_flatMap]
    simp only [List.mem_map, decide_eq_true_eq]
    constructor
    · intro ⟨he, hne⟩
      obtain ⟨c, hc, v, hv, he⟩ := (mem_glueSchemas_iff returns hcheck hne).mp he
      exact ⟨c, hc, v, hv, he.symm⟩
    · intro ⟨c, hc, v, hv, he⟩
      obtain rfl := he
      have hne := schemaKey_ne_phantom hv
      exact ⟨(mem_glueSchemas_iff returns hcheck hne).mpr ⟨c, hc, v, hv, rfl⟩, hne⟩

/-! ## Two components -/

/-- `fn f(&self, ctx)`, a `query` method. -/
def queryMethod (f : Ident) : VariantDesc Unit :=
  ⟨some ⟨.query, [], .always⟩, none, ⟨f, [.receiver [], .typed (some "ctx") () []]⟩⟩

def listMembers : EnumMessage Unit [queryMethod "members"] .query where
  variants := [⟨"Members", "members", [], ⟨.query, [], .always⟩, none⟩]
  built := by decide
  phantom := false
  names_nodup := by decide
  constructors := ⟨["members"], by decide, by decide⟩
  fields_nodup := by decide

def listAdmins : EnumMessage Unit [queryMethod "admins"] .query where
  variants := [⟨"Admins", "admins", [], ⟨.query, [], .always⟩, none⟩]
  built := by decide
  phantom := true
  names_nodup := by decide
  constructors := ⟨["admins"], by decide, by decide⟩
  fields_nodup := by decide

def queries : GlueMessage Unit .query :=
  ⟨[⟨⟨"Members", _, listMembers⟩, ⟨false, false⟩⟩], ⟨"Whitelist", _, listAdmins⟩, by decide⟩

theorem queries_compiles : queries.Compiles := by
  have hcall : queries.messagesCall = [["members"], ["admins"]] := by
    simp only [queries, GlueMessage.messagesCall, GlueMessage.components, List.map_cons, List.map_nil,
      List.cons_append, List.nil_append, EnumMessage.messages, sortNames, asNamesSnakeCased, listMembers, listAdmins,
      List.mergeSort_singleton]
    decide
  have hcheck : assertNoIntersection [["members"], ["admins"]] = some (.ok ()) := by decide
  rw [GlueMessage.Compiles, hcall]
  intro h
  rcases h with ⟨e, he⟩
  simp [hcheck] at he

/-- The name stands for the schema. -/
def named : Returns Unit String := ⟨fun _ v => v.name, fun _ => "()"⟩

theorem schemas_disjoint_queries : values "members" (queries.responseSchemasImpl named) = ["Members"] := by
  have hc : ⟨"Members", _, listMembers⟩ ∈ queries.components := by simp [GlueMessage.components, queries]
  obtain ⟨v, hv, -, -, hval⟩ := (schemas_disjoint named queries_compiles).1 _ hc (queryMethod "members")
    (List.mem_singleton_self _) _ rfl rfl
  obtain rfl := List.mem_singleton.mp hv
  exact hval

end Sylvia.Contract
