/-
  Sylvia.Types.MsgVariants — the variants of one kind with the generics they use
  (`MsgVariant::new` and `MsgVariants::new` in `sylvia-derive/src/types/msg_variant.rs`).

  One checker goes through the methods of the kind: it visits the stripped types of the
  fields, then, for a query, the response. `extract_return_type` may panic: `none`.

  Proved:
  - `MsgVariants.new_isSome`: there is a result exactly when every method of the kind
    `Expands`; `MsgVariants.new_filter`: the methods of other kinds do not matter.
  - `mem_usedGenerics`, `wherePredicates_eq`: the parameters that occur in the types of the
    kind are used, and a predicate stays when all that occur in it are.
  - `closed_iff`: the message mentions no parameter that it does not declare exactly
    when a parameter that stands only as the head of a longer path, or in a macro call, is
    also a whole path in a type of the kind.
-/
import Sylvia.Fold
import Sylvia.Parser.CheckGenerics
import Sylvia.Types.MsgVariant
import Sylvia.Utils.ReturnType

namespace Sylvia.Types

open Sylvia.Base Sylvia.Parser Sylvia.Syn Sylvia.Utils

/-- A method as the contract has it. -/
structure Method where
  desc : VariantDesc Ty
  /-- `resp=` in its `sv::msg`. -/
  resp : Option Ident
  output : ReturnType

/-- A variant with the response type that the schema is given. -/
structure TypedVariant where
  variant : MsgVariant Ty
  returnType : Option Ty

/-- The type of the generated field. -/
def MsgField.strippedTy (f : MsgField Ty) : Ty := StripSelfPath.foldType f.ty

structure MsgVariants (α : Type) where
  variants : List TypedVariant
  usedGenerics : List α
  unusedGenerics : List α
  wherePredicates : List WherePredicate
  msgTy : MsgType

section

variable {α : Type} [GetPath α] [DecidableEq α]

def TypedVariant.new (m : Method) (msgAttr : MsgAttr) (checker : CheckGenerics α) :
    Option (TypedVariant × CheckGenerics α) := do
  let variant ← MsgVariant.new m.desc.sig msgAttr m.desc.rename
  let checker := variant.fields.foldl (fun checker f => checker.visitType f.strippedTy) checker
  if msgAttr.msgType = .query then
    match m.resp with
    | some resp =>
      let respType := Ty.path none (.ofIdent resp)
      some (⟨variant, some respType⟩, checker.visitType respType)
    | none => do
      let returnType ← extractReturnType m.output
      let stripped := StripSelfPath.foldPath returnType.val
      some (⟨variant, some (.path none returnType.val)⟩, checker.visit stripped.nodes)
  else some (⟨variant, none⟩, checker)

/-- The `filter_map` over the methods, with the checker they share. -/
def collectVariants (msgTy : MsgType) : List Method → CheckGenerics α → Option (List TypedVariant × CheckGenerics α)
  | [], checker => some ([], checker)
  | m :: source, checker =>
    match m.desc.msgAttr with
    | none => collectVariants msgTy source checker
    | some msgAttr =>
      if msgAttr.msgType ≠ msgTy then collectVariants msgTy source checker
      else do
        let (variant, checker) ← TypedVariant.new m msgAttr checker
        let (variants, checker) ← collectVariants msgTy source checker
        some (variant :: variants, checker)

def MsgVariants.new (source : List Method) (msgTy : MsgType) (allGenerics : List α)
    (unfilteredWhereClause : Option WhereClause) : Option (MsgVariants α) := do
  let (variants, checker) ← collectVariants msgTy source (CheckGenerics.new allGenerics)
  let (usedGenerics, unusedGenerics) := checker.usedUnused
  let wherePredicates := filterWheres unfilteredWhereClause allGenerics usedGenerics
  some ⟨variants, usedGenerics, unusedGenerics, wherePredicates, msgTy⟩

end

/-! ## What is visited -/

/-- The types of the fields that a method has in its message. -/
def fieldTys (m : Method) : List Ty := (processFields m.desc.sig).val.map MsgField.strippedTy

/-- What is visited of a query's response. -/
def responseTy (m : Method) : Option Ty :=
  match m.resp with
  | some resp => some (.path none (.ofIdent resp))
  | none => (extractReturnType m.output).map fun returnType => .path none (StripSelfPath.foldPath returnType.val)

def ofKind (msgTy : MsgType) (m : Method) : Bool := m.desc.msgAttr.any fun a => a.msgType == msgTy

def visitedTys (msgTy : MsgType) (m : Method) : List Ty :=
  fieldTys m ++ if msgTy = .query then (responseTy m).toList else []

section

variable {α : Type} [GetPath α] [DecidableEq α]

theorem foldl_visitType (checker : CheckGenerics α) (fields : List (MsgField Ty)) :
    fields.foldl (fun checker f => checker.visitType f.strippedTy) checker =
      checker.visit ((fields.map MsgField.strippedTy).flatMap Ty.nodes) := by
  induction fields generalizing checker with
  | nil => rfl
  | cons f fields ih => rw [List.foldl_cons, ih, CheckGenerics.visitType, CheckGenerics.visit_append]; rfl

theorem TypedVariant.new_some {m : Method} {a : MsgAttr} {checker checker' : CheckGenerics α} {tv : TypedVariant}
    (h : TypedVariant.new m a checker = some (tv, checker')) :
    MsgVariant.new m.desc.sig a m.desc.rename = some tv.variant ∧
      checker' = checker.visit ((visitedTys a.msgType m).flatMap Ty.nodes) := by
  unfold TypedVariant.new at h
  obtain ⟨variant, hvariant, h⟩ := Option.bind_eq_some_iff.mp h
  have hfields : variant.fields.map MsgField.strippedTy = fieldTys m := by rw [(new_eq hvariant).2.2.1]; rfl
  simp only [foldl_visitType, hfields] at h
  split at h
  · rename_i hquery
    split at h
    · rename_i resp hresp
      obtain ⟨rfl, rfl⟩ := Prod.mk.inj (Option.some.inj h)
      refine ⟨hvariant, ?_⟩
      rw [CheckGenerics.visitType, CheckGenerics.visit_append]
      simp [visitedTys, hquery, responseTy, hresp]
    · rename_i hresp
      obtain ⟨returnType, hret, h⟩ := Option.bind_eq_some_iff.mp h
      obtain ⟨rfl, rfl⟩ := Prod.mk.inj (Option.some.inj h)
      refine ⟨hvariant, ?_⟩
      rw [CheckGenerics.visit_append]
      simp [visitedTys, hquery, responseTy, hresp, hret, Ty.nodes, nodesOfTy?]
  · rename_i hquery
    obtain ⟨rfl, rfl⟩ := Prod.mk.inj (Option.some.inj h)
    exact ⟨hvariant, by simp [visitedTys, hquery]⟩

theorem ofKind_iff {msgTy : MsgType} {m : Method} :
    ofKind msgTy m = true ↔ ∃ a, m.desc.msgAttr = some a ∧ a.msgType = msgTy := by
  simp [ofKind, Option.any_eq_true]

/-- A method of another kind is passed over. -/
theorem collectVariants_skip {msgTy : MsgType} {m : Method} (hkind : ¬ ofKind msgTy m = true) (source : List Method)
    (checker : CheckGenerics α) : collectVariants msgTy (m :: source) checker = collectVariants msgTy source checker := by
  rw [collectVariants]
  cases ha : m.desc.msgAttr with
  | none => rfl
  | some a =>
    have hne : a.msgType ≠ msgTy := fun hty => hkind (ofKind_iff.mpr ⟨a, ha, hty⟩)
    simp only [hne, ne_eq, not_false_eq_true, if_true]

theorem collectVariants_take {msgTy : MsgType} {m : Method} {a : MsgAttr} (ha : m.desc.msgAttr = some a)
    (hty : a.msgType = msgTy) (source : List Method) (checker : CheckGenerics α) :
    collectVariants msgTy (m :: source) checker = (TypedVariant.new m a checker).bind fun v =>
      (collectVariants msgTy source v.2).map fun rest => (v.1 :: rest.1, rest.2) := by
  rw [collectVariants]
  simp only [ha, hty, ne_eq, not_true_eq_false, if_false, Option.bind_eq_bind, Option.map_eq_bind, Function.comp_def]

theorem msgVariants_skip {msgTy : MsgType} {m : Method} (hkind : ¬ ofKind msgTy m = true) (source : List Method) :
    msgVariants ((m :: source).map Method.desc) msgTy = msgVariants (source.map Method.desc) msgTy := by
  unfold msgVariants
  rw [List.map_cons, List.filterMap_cons_none]
  cases ha : m.desc.msgAttr with
  | none => rfl
  | some a =>
    have hne : a.msgType ≠ msgTy := fun hty => hkind (ofKind_iff.mpr ⟨a, ha, hty⟩)
    simp [hne]

theorem msgVariants_take {msgTy : MsgType} {m : Method} {a : MsgAttr} (ha : m.desc.msgAttr = some a)
    (hty : a.msgType = msgTy) (source : List Method) :
    msgVariants ((m :: source).map Method.desc) msgTy =
      (MsgVariant.new m.desc.sig a m.desc.rename).bind fun v =>
        (msgVariants (source.map Method.desc) msgTy).map fun vs => v :: vs := by
  unfold msgVariants
  simp only [List.map_cons, List.filterMap_cons, ha, Option.bind_some, hty, ne_eq, not_true_eq_false, if_false,
    List.mapM_cons, Option.map_eq_bind]
  rfl

/-- The variants are those of the methods of the kind, and the checker went through the
    types of these. -/
theorem collectVariants_some {msgTy : MsgType} {source : List Method} {checker checker' : CheckGenerics α}
    {variants : List TypedVariant} (h : collectVariants msgTy source checker = some (variants, checker')) :
    msgVariants (source.map Method.desc) msgTy = some (variants.map TypedVariant.variant) ∧
      variants.map (fun v => v.variant.fields.map MsgField.strippedTy) = (source.filter (ofKind msgTy)).map fieldTys ∧
      checker' = checker.visit (((source.filter (ofKind msgTy)).flatMap (visitedTys msgTy)).flatMap Ty.nodes) := by
  induction source generalizing checker variants with
  | nil =>
    obtain ⟨rfl, rfl⟩ := Prod.mk.inj (Option.some.inj h)
    exact ⟨rfl, rfl, rfl⟩
  | cons m source ih =>
    by_cases hkind : ofKind msgTy m = true
    · obtain ⟨a, ha, hty⟩ := ofKind_iff.mp hkind
      rw [collectVariants_take ha hty] at h
      obtain ⟨⟨v, c⟩, hv, h⟩ := Option.bind_eq_some_iff.mp h
      obtain ⟨⟨vs, c'⟩, hvs, h⟩ := Option.map_eq_some_iff.mp h
      obtain ⟨rfl, rfl⟩ := Prod.mk.inj h
      obtain ⟨hvariant, rfl⟩ := TypedVariant.new_some hv
      obtain ⟨hvars, hfields, rfl⟩ := ih hvs
      rw [List.filter_cons_of_pos hkind]
      refine ⟨?_, ?_, ?_⟩
      · rw [msgVariants_take ha hty, hvariant, hvars]
        rfl
      · rw [List.map_cons, List.map_cons, hfields, (new_eq hvariant).2.2.1]
        rfl
      · rw [CheckGenerics.visit_append, hty, List.flatMap_cons, List.flatMap_append]
    · rw [collectVariants_skip hkind] at h
      rw [msgVariants_skip hkind, List.filter_cons_of_neg hkind]
      exact ih h

theorem collectVariants_filter (msgTy : MsgType) (source : List Method) (checker : CheckGenerics α) :
    collectVariants msgTy (source.filter (ofKind msgTy)) checker = collectVariants msgTy source checker := by
  induction source generalizing checker with
  | nil => rfl
  | cons m source ih =>
    by_cases hkind : ofKind msgTy m = true
    · obtain ⟨a, ha, hty⟩ := ofKind_iff.mp hkind
      rw [List.filter_cons_of_pos hkind, collectVariants_take ha hty, collectVariants_take ha hty]
      simp only [ih]
    · rw [List.filter_cons_of_neg hkind, collectVariants_skip hkind, ih]

/-! ## When there is a result -/

/-- Nothing panics on the method: its name makes a variant's, and the response of a query
    can be told. -/
def Expands (msgTy : MsgType) (m : Method) : Prop :=
  (svToCase .upperCamel m.desc.sig.ident).isSome ∧ (msgTy = .query → (responseTy m).isSome)

theorem MsgVariant.new_isSome (sig : Signature Ty) (a : MsgAttr) (rename : Option String) :
    (MsgVariant.new sig a rename).isSome = (svToCase .upperCamel sig.ident).isSome := by
  simp only [MsgVariant.new, Option.bind_eq_bind]
  cases svToCase .upperCamel sig.ident with
  | none => rfl
  | some name => rfl

theorem TypedVariant.new_isSome {m : Method} {a : MsgAttr} {checker : CheckGenerics α} :
    (TypedVariant.new m a checker).isSome ↔ Expands a.msgType m := by
  unfold TypedVariant.new Expands responseTy
  rw [← MsgVariant.new_isSome m.desc.sig a m.desc.rename]
  cases MsgVariant.new m.desc.sig a m.desc.rename with
  | none => simp
  | some variant =>
    by_cases hquery : a.msgType = .query
    · cases m.resp with
      | some resp => simp [hquery]
      | none => cases extractReturnType m.output <;> simp [hquery]
    · simp [hquery]

theorem collectVariants_isSome {msgTy : MsgType} {source : List Method} {checker : CheckGenerics α} :
    (collectVariants msgTy source checker).isSome ↔ ∀ m ∈ source, ofKind msgTy m = true → Expands msgTy m := by
  induction source generalizing checker with
  | nil => simp [collectVariants]
  | cons m source ih =>
    rw [List.forall_mem_cons]
    by_cases hkind : ofKind msgTy m = true
    · obtain ⟨a, ha, rfl⟩ := ofKind_iff.mp hkind
      rw [collectVariants_take ha rfl, imp_iff_right hkind, ← @TypedVariant.new_isSome _ _ _ m a checker]
      cases TypedVariant.new m a checker with
      | none => simp
      | some v => simp [ih]
    · rw [collectVariants_skip hkind, ih]
      simp [hkind]

end

/-! ## Used parameters -/

/-- What the checker goes through for the kind. -/
def kindNodes (source : List Method) (msgTy : MsgType) : List Node :=
  ((source.filter (ofKind msgTy)).flatMap (visitedTys msgTy)).flatMap Ty.nodes

section

variable {α : Type} [GetPath α] [DecidableEq α] {source : List Method} {msgTy : MsgType} {generics : List α}
  {clause : Option WhereClause} {msg : MsgVariants α}

theorem MsgVariants.new_some (built : MsgVariants.new source msgTy generics clause = some msg) :
    msg.usedGenerics = ((CheckGenerics.new generics).visit (kindNodes source msgTy)).used ∧
      msg.unusedGenerics = generics.filter (fun gen => !msg.usedGenerics.contains gen) ∧
      msg.wherePredicates = filterWheres clause generics msg.usedGenerics ∧
      msg.variants.map (fun v => v.variant.fields.map MsgField.strippedTy) =
        (source.filter (ofKind msgTy)).map fieldTys := by
  obtain ⟨⟨variants, checker⟩, hcollect, h⟩ := Option.bind_eq_some_iff.mp built
  obtain rfl := Option.some.inj h
  obtain ⟨-, hfields, rfl⟩ := collectVariants_some hcollect
  refine ⟨rfl, ?_, rfl, hfields⟩
  show ((CheckGenerics.new generics).visit _).generics.filter _ = _
  rw [CheckGenerics.visit_generics]
  rfl

/-- The variants are the ones that are generated whatever the generics. -/
theorem MsgVariants.new_variants (built : MsgVariants.new source msgTy generics clause = some msg) :
    msgVariants (source.map Method.desc) msgTy = some (msg.variants.map TypedVariant.variant) := by
  obtain ⟨⟨variants, checker⟩, hcollect, h⟩ := Option.bind_eq_some_iff.mp built
  obtain rfl := Option.some.inj h
  exact (collectVariants_some hcollect).1

theorem MsgVariants.new_isSome :
    (MsgVariants.new source msgTy generics clause).isSome ↔ ∀ m ∈ source, ofKind msgTy m = true → Expands msgTy m := by
  rw [← @collectVariants_isSome _ _ _ _ _ (CheckGenerics.new generics)]
  unfold MsgVariants.new
  cases collectVariants msgTy source (CheckGenerics.new generics) <;> rfl

theorem MsgVariants.new_filter (source : List Method) (msgTy : MsgType) (generics : List α)
    (clause : Option WhereClause) : MsgVariants.new (source.filter (ofKind msgTy)) msgTy generics clause =
      MsgVariants.new source msgTy generics clause := by
  unfold MsgVariants.new
  rw [collectVariants_filter]

theorem mem_usedGenerics [LawfulGetPath α] (built : MsgVariants.new source msgTy generics clause = some msg) {gen : α} :
    gen ∈ msg.usedGenerics ↔ gen ∈ generics ∧ Occurs gen (kindNodes source msgTy) := by
  obtain ⟨hused, -⟩ := MsgVariants.new_some built
  rw [hused, mem_visit_iff]
  simp [CheckGenerics.new]

theorem wherePredicates_eq [LawfulGetPath α] (built : MsgVariants.new source msgTy generics clause = some msg) :
    msg.wherePredicates = (clause.getD []).filter fun pred =>
      ∀ gen ∈ generics, Occurs gen pred.nodes → gen ∈ msg.usedGenerics := by
  obtain ⟨-, -, hwheres, -⟩ := MsgVariants.new_some built
  rw [hwheres, filterWheres_eq]

end

/-- The identifier is a whole path in a field or response of the kind. -/
def Seen (source : List Method) (msgTy : MsgType) (x : Ident) : Prop := .path (.ofIdent x) ∈ kindNodes source msgTy

section

variable {source : List Method} {msgTy : MsgType} {generics : List GenericParam} {clause : Option WhereClause}
  {msg : MsgVariants GenericParam}

theorem seen_of_field {m : Method} (hm : m ∈ source) (hkind : ofKind msgTy m = true) {ty : Ty} (hty : ty ∈ fieldTys m)
    {x : Ident} (hx : .path (.ofIdent x) ∈ ty.nodes) : Seen source msgTy x :=
  List.mem_flatMap.mpr ⟨ty, List.mem_flatMap.mpr ⟨m, List.mem_filter.mpr ⟨hm, hkind⟩, List.mem_append_left _ hty⟩, hx⟩

theorem type_mem_usedGenerics (built : MsgVariants.new source msgTy generics clause = some msg) {x : Ident} :
    .type x ∈ msg.usedGenerics ↔ .type x ∈ generics ∧ Seen source msgTy x := by
  rw [mem_usedGenerics built, occurs_type]
  exact Iff.rfl

theorem mem_wherePredicates (built : MsgVariants.new source msgTy generics clause = some msg) {pred : WherePredicate} :
    pred ∈ msg.wherePredicates ↔ pred ∈ clause.getD [] ∧
      ∀ x, .type x ∈ generics → .path (.ofIdent x) ∈ pred.nodes → Seen source msgTy x := by
  rw [wherePredicates_eq built, List.mem_filter, decide_eq_true_eq]
  refine and_congr_right fun _ => ?_
  constructor
  · intro h x hx hp
    exact ((type_mem_usedGenerics built).mp (h _ hx (occurs_type.mpr hp))).2
  · intro h gen hmem hoccurs
    obtain ⟨x, rfl⟩ := hoccurs.type
    exact (type_mem_usedGenerics built).mpr ⟨hmem, h x hmem (occurs_type.mp hoccurs)⟩

theorem exists_field_iff (built : MsgVariants.new source msgTy generics clause = some msg) (q : Ty → Prop) :
    (∃ v ∈ msg.variants, ∃ f ∈ v.variant.fields, q f.strippedTy) ↔
      ∃ m ∈ source, ofKind msgTy m = true ∧ ∃ ty ∈ fieldTys m, q ty := by
  obtain ⟨-, -, -, hfields⟩ := MsgVariants.new_some built
  have hleft : (∃ v ∈ msg.variants, ∃ f ∈ v.variant.fields, q f.strippedTy) ↔
      ∃ tys ∈ msg.variants.map (fun v => v.variant.fields.map MsgField.strippedTy), ∃ ty ∈ tys, q ty := by simp
  rw [hleft, hfields]
  simp [and_assoc]

/-! ## Closed messages -/

/-- A type parameter that a field of the message or a predicate retained for it mentions
    is declared. -/
def Closed (generics : List GenericParam) (msg : MsgVariants GenericParam) : Prop :=
  ∀ x, .type x ∈ generics →
    ((∃ v ∈ msg.variants, ∃ f ∈ v.variant.fields, f.strippedTy.mentions x = true) ∨
      ∃ pred ∈ msg.wherePredicates, pred.mentions x = true) →
    .type x ∈ msg.usedGenerics

/-- A node that mentions the identifier and is not the path it makes: a longer path, or
    tokens. -/
def hides (x : Ident) : Node → Bool
  | .path p => p.head == some x && !p.isIdent x
  | .tokens ts => (identsOf ts).contains x

/-- The whole-path parameters of the predicate are all seen. -/
def Retained (source : List Method) (msgTy : MsgType) (generics : List GenericParam) (pred : WherePredicate) : Prop :=
  ∀ x, .type x ∈ generics → .path (.ofIdent x) ∈ pred.nodes → Seen source msgTy x

/-- A parameter that is hidden in a field, or in a retained predicate, is also seen. -/
def NoneHidden (source : List Method) (msgTy : MsgType) (generics : List GenericParam) (clause : Option WhereClause) :
    Prop :=
  ∀ x, .type x ∈ generics →
    ((∃ m ∈ source, ofKind msgTy m = true ∧ ∃ ty ∈ fieldTys m, ty.nodes.any (hides x) = true) ∨
      ∃ pred ∈ clause.getD [], Retained source msgTy generics pred ∧ pred.nodes.any (hides x) = true) →
    Seen source msgTy x

theorem mentions_node_iff (x : Ident) (n : Node) : n.mentions x = true ↔ n = .path (.ofIdent x) ∨ hides x n = true := by
  cases n with
  | tokens ts => simp [Node.mentions, hides]
  | path p =>
    by_cases hp : p.isIdent x = true
    · obtain rfl := Path.isIdent_iff.mp hp
      simp [Node.mentions]
    · have hne : p ≠ .ofIdent x := fun he => hp (Path.isIdent_iff.mpr he)
      simp [Node.mentions, hides, hp, hne]

theorem mentions_nodes_iff (x : Ident) (nodes : List Node) :
    nodes.any (Node.mentions x) = true ↔ .path (.ofIdent x) ∈ nodes ∨ nodes.any (hides x) = true := by
  simp only [List.any_eq_true, mentions_node_iff, and_or_left, exists_or]
  refine or_congr ?_ Iff.rfl
  constructor
  · intro h
    rcases h with ⟨n, hn, rfl⟩
    exact hn
  · intro h
    exact ⟨_, h, rfl⟩

/-- The message declares every type parameter it mentions, in a field or in a predicate
    retained for it, exactly when each of those that a longer path or a macro call hides
    there is a whole path somewhere in the fields or responses of the kind. -/
theorem closed_iff (built : MsgVariants.new source msgTy generics clause = some msg) :
    Closed generics msg ↔ NoneHidden source msgTy generics clause := by
  constructor
  · intro h x hx hhidden
    refine ((type_mem_usedGenerics built).mp (h x hx ?_)).2
    rcases hhidden with ⟨m, hm, hkind, ty, hty, hhides⟩ | ⟨pred, hpred, hret, hhides⟩
    · left
      refine (exists_field_iff built fun ty => ty.mentions x = true).mpr ⟨m, hm, hkind, ty, hty, ?_⟩
      rw [Ty.mentions_eq]
      exact (mentions_nodes_iff x _).mpr (.inr hhides)
    · right
      refine ⟨pred, (mem_wherePredicates built).mpr ⟨hpred, hret⟩, ?_⟩
      rw [WherePredicate.mentions_eq]
      exact (mentions_nodes_iff x _).mpr (.inr hhides)
  · intro h x hx hmention
    refine (type_mem_usedGenerics built).mpr ⟨hx, ?_⟩
    rcases hmention with hfield | ⟨pred, hpred, hmention⟩
    · obtain ⟨m, hm, hkind, ty, hty, hmention⟩ := (exists_field_iff built fun ty => ty.mentions x = true).mp hfield
      rw [Ty.mentions_eq] at hmention
      rcases (mentions_nodes_iff x _).mp hmention with hwhole | hhides
      · exact seen_of_field hm hkind hty hwhole
      · exact h x hx (.inl ⟨m, hm, hkind, ty, hty, hhides⟩)
    · obtain ⟨hmem, hret⟩ := (mem_wherePredicates built).mp hpred
      rw [WherePredicate.mentions_eq] at hmention
      rcases (mentions_nodes_iff x _).mp hmention with hwhole | hhides
      · exact hret x hx hwhole
      · exact h x hx (.inr ⟨pred, hmem, hret, hhides⟩)

end

/-! ## The item of an iterator -/

/-- `#[sv::msg(exec)] fn push(&self, ctx: ExecCtx, item: ty)`. -/
def push (ty : Ty) : Method :=
  ⟨⟨some ⟨.exec, [], .always⟩, none, ⟨"push", [.receiver [], .typed (some "ctx") (.path none (.ofIdent "ExecCtx")) [],
    .typed (some "item") ty []]⟩⟩, none, .default⟩

/-- `Vec<T>`. -/
def vecOfT : Ty := .path none (.mk false [.mk "Vec" (.angleBracketed [.type (.path none (.ofIdent "T"))])])

/-- `T::Item`. -/
def itemOfT : Ty := .path none (.mk false [.mk "T" .none, .mk "Item" .none])

theorem closed_iff_vec : ∃ msg, MsgVariants.new [push vecOfT] .exec [.type "T", .type "U"] none = some msg ∧
    Closed [.type "T", .type "U"] msg := by
  obtain ⟨msg, built⟩ : ∃ msg, MsgVariants.new [push vecOfT] .exec [GenericParam.type "T", .type "U"] none = some msg :=
    ⟨_, rfl⟩
  refine ⟨msg, built, (closed_iff built).mpr ?_⟩
  intro x hx hhidden
  rcases List.mem_cons.mp hx with hx | hx
  · obtain rfl := GenericParam.type.inj hx
    exact List.mem_cons_of_mem _ List.mem_cons_self
  · obtain rfl := GenericParam.type.inj (List.mem_singleton.mp hx)
    rcases hhidden with ⟨m, hm, -, ty, hty, hhides⟩ | ⟨pred, hpred, -⟩
    · obtain rfl := List.mem_singleton.mp hm
      obtain rfl := List.mem_singleton.mp hty
      exact absurd hhides (by decide)
    · cases hpred

/-- A field of type `T::Item`: the enum mentions `T` and declares nothing. -/
theorem item_not_closed : ∃ msg, MsgVariants.new [push itemOfT] .exec [.type "T"] none = some msg ∧
    msg.usedGenerics = [] ∧ ¬ Closed [.type "T"] msg := by
  refine ⟨_, rfl, rfl, ?_⟩
  intro h
  have hused := h "T" List.mem_cons_self (.inl ⟨_, List.mem_cons_self, _, List.mem_cons_self, rfl⟩)
  cases hused

end Sylvia.Types
