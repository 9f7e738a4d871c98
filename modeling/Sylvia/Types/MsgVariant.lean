/-
  Sylvia.Types.MsgVariant — a method's message variant, and the variants of one kind
  (`sylvia-derive/src/types/msg_variant.rs`, `msg_field.rs`, `parser/mod.rs`,
  `parser/variant_descs.rs`, `utils.rs`).

  A method is its name, its parameters and its attributes; `Ty` is the syntax of types
  and `wire` what serde does at each of them. `Ident::new` panics on a text that is no
  identifier: `none`. The dispatch leg of a variant is a pattern that binds the fields
  to `field1`, `field2`, … by name, and a call that lists these variables.

  Proved:
  - `legArgs_construct`: the leg hands a constructed message's arguments on in order.
  - `exists_variant`, `exists_desc`: every method of the kind has its variant, and every
    variant its method.
-/
import Mathlib.Data.List.Forall2
import Sylvia.Base.Wire
import Sylvia.Base.Words
import Sylvia.Parser.Attributes

namespace Sylvia.Types

open Sylvia.Base Sylvia.Parser

/-! ## Identifiers -/

/-- `str::to_case`. -/
def toCase (case : Case) (s : String) : String := String.ofList (convert case s.toList)

def identStart (c : Char) : Bool := c.isAlpha || c == '_'

def identContinue (c : Char) : Bool := c.isAlphanum || c == '_'

def isIdent : List Char → Bool
  | [] => false
  | c :: cs => identStart c && cs.all identContinue

/-- `Ident::new`; `none` is its panic. -/
def identNew (s : String) : Option Ident := if isIdent s.toList then some s else none

/-- `SvCasing::to_case`. -/
def svToCase (case : Case) (ident : Ident) : Option Ident := identNew (toCase case ident)

/-! ## Methods -/

inductive FnArg (Ty : Type) where
  | receiver (attrs : List ParamAttr)
  /-- `pat` is `none` for a pattern that is no name. -/
  | typed (pat : Option Ident) (ty : Ty) (attrs : List ParamAttr)
  deriving DecidableEq, Repr

structure Signature (Ty : Type) where
  ident : Ident
  inputs : List (FnArg Ty)
  deriving DecidableEq, Repr

structure VariantDesc (Ty : Type) where
  msgAttr : Option MsgAttr
  /-- A `serde(rename = ..)` forwarded with `sv::attr`. -/
  rename : Option String
  sig : Signature Ty
  deriving DecidableEq, Repr

structure MsgField (Ty : Type) where
  name : Ident
  ty : Ty
  attrs : List ParamAttr
  deriving DecidableEq, Repr

variable {Ty V : Type}

def FnArg.attrs : FnArg Ty → List ParamAttr
  | .receiver attrs => attrs
  | .typed _ _ attrs => attrs

def MsgField.new (pat : Option Ident) (ty : Ty) (attrs : List ParamAttr) : Emit (Option (MsgField Ty)) :=
  match pat with
  | some name => pure (some ⟨name, ty, attrs⟩)
  | none => do
    Emit.emitError "Expected argument name, pattern occurred" []
    pure none

def assertNoSelfCtxAttributes (sig : Signature Ty) : Emit Unit :=
  (sig.inputs.take 2).forM fun arg =>
    arg.attrs.forM fun attr =>
      Emit.errorIf attr.isSylvia "Invalid usage of Sylvia attribute."
        ["First and second arguments of the method should be `self` and `ctx` respectively.",
          match arg with
          | .receiver _ => "Unexpected attribute on `self` parameter."
          | .typed _ _ _ => "Unexpected attribute on `ctx` parameter."]

/-- The parameters after `self` and the context. -/
def processFields (sig : Signature Ty) : Emit (List (MsgField Ty)) := do
  assertNoSelfCtxAttributes sig
  let fields ← (sig.inputs.drop 2).mapM fun arg => match arg with
    | .receiver _ => do
      Emit.emitError "Unexpected `self` argument" []
      pure none
    | .typed pat ty attrs => MsgField.new pat ty attrs
  pure (fields.filterMap id)

/-! ## Variants -/

structure MsgVariant (Ty : Type) where
  name : Ident
  functionName : Ident
  fields : List (MsgField Ty)
  msgAttr : MsgAttr
  rename : Option String
  deriving DecidableEq, Repr

namespace MsgVariant

def new (sig : Signature Ty) (msgAttr : MsgAttr) (rename : Option String) : Option (MsgVariant Ty) := do
  let functionName := sig.ident
  let name ← svToCase .upperCamel functionName
  pure ⟨name, functionName, (processFields sig).val, msgAttr, rename⟩

def replyOn (v : MsgVariant Ty) : ReplyOn := v.msgAttr.replyOn

def asFieldsNames (v : MsgVariant Ty) : List Ident := v.fields.map MsgField.name

/-- The tag serde gives the variant under `rename_all = "snake_case"`. -/
def tag (v : MsgVariant Ty) : String := v.rename.getD (String.ofList (snakeCaseVariant v.name.toList))

/-- The name the variant is listed under in `*_messages()`. -/
def listed (v : MsgVariant Ty) : String := toCase .snake v.name

/-- The name of the variant's constructor. -/
def methodName (v : MsgVariant Ty) : Option Ident := svToCase .snake v.name

end MsgVariant

/-- `MsgVariants::new`: a variant for each method of the kind. -/
def msgVariants (source : List (VariantDesc Ty)) (msgTy : MsgType) : Option (List (MsgVariant Ty)) :=
  (source.filterMap fun desc => desc.msgAttr.bind fun msgAttr =>
    if msgAttr.msgType ≠ msgTy then none else some (MsgVariant.new desc.sig msgAttr desc.rename)).mapM id

def asNamesSnakeCased (variants : List (MsgVariant Ty)) : List String := variants.map MsgVariant.listed

/-- `variant_names.sort()`. -/
def sortNames (names : List String) : List String := names.mergeSort (fun a b => decide (a ≤ b))

/-! ## Fields on the wire -/

def MsgField.field (wire : Ty → WireType V) (f : MsgField Ty) : WireField V :=
  ⟨f.name, wire f.ty, if .serdeDefault ∈ f.attrs then (wire f.ty).default else (wire f.ty).missing⟩

def MsgVariant.shape (wire : Ty → WireType V) (v : MsgVariant Ty) : Shape V :=
  ⟨v.name, v.tag, v.fields.map (MsgField.field wire)⟩

@[simp] theorem shape_name (wire : Ty → WireType V) (v : MsgVariant Ty) : (v.shape wire).name = v.name := rfl
@[simp] theorem shape_tag (wire : Ty → WireType V) (v : MsgVariant Ty) : (v.shape wire).tag = v.tag := rfl

@[simp] theorem shape_keys (wire : Ty → WireType V) (v : MsgVariant Ty) :
    (v.shape wire).fields.map WireField.key = v.asFieldsNames := by
  simp [MsgVariant.shape, MsgVariant.asFieldsNames, MsgField.field, Function.comp_def]

/-! ## Messages and dispatch legs -/

/-- A value of a message enum. -/
inductive Message (V : Type) where
  | variant (name : Ident) (fields : List (Ident × V))
  | phantom
  deriving DecidableEq, Repr

/-- The variant's constructor. -/
def MsgVariant.construct (v : MsgVariant Ty) (args : List V) : Message V := .variant v.name (v.asFieldsNames.zip args)

/-- `field1`, `field2`, … -/
def fieldVar (i : Nat) : Ident := "field" ++ Nat.repr (i + 1)

def fieldVars (n : Nat) : List Ident := (List.range n).map fieldVar

/-- The arguments of the leg's call: the pattern binds a variable for each field, the
    call lists the variables. -/
def MsgVariant.legArgs (v : MsgVariant Ty) (fields : List (Ident × V)) : Option (List V) := do
  let args := fieldVars v.fields.length
  let bound ← (v.asFieldsNames.zip args).mapM fun p => (fields.lookup p.1).map fun x => (p.2, x)
  args.mapM fun x => bound.lookup x

theorem fieldVar_inj {i j : Nat} (h : fieldVar i = fieldVar j) : i = j := by
  have := Nat.repr_inj.mp (by simpa [fieldVar] using h)
  omega

theorem fieldVars_nodup (n : Nat) : (fieldVars n).Nodup :=
  List.Nodup.map (fun _ _ h => fieldVar_inj h) List.nodup_range

@[simp] theorem fieldVars_length (n : Nat) : (fieldVars n).length = n := by simp [fieldVars]

/-- Looking up distinct names in the order they were given values yields the values. -/
theorem mapM_lookup_zip : ∀ {names : List Ident} {vs : List V}, names.Nodup → names.length = vs.length →
    names.mapM (fun x => (names.zip vs).lookup x) = some vs := by
  intro names vs hn hlen
  rw [mapM_some_iff]
  refine List.forall₂_iff_get.mpr ⟨hlen, ?_⟩
  intro i hi hi'
  rw [List.get_eq_getElem, List.get_eq_getElem]
  clear hlen
  induction names generalizing vs i with
  | nil => simp at hi
  | cons x names ih =>
    obtain ⟨hx, hn⟩ := List.nodup_cons.mp hn
    cases vs with
    | nil => simp at hi'
    | cons v vs =>
      cases i with
      | zero => simp
      | succ i =>
        have hi2 : i < names.length := by simpa using hi
        have hne : (names[i] == x) = false := by
          rw [beq_eq_false_iff_ne]
          intro he
          exact hx (he ▸ List.getElem_mem hi2)
        simpa [List.lookup_cons, hne] using ih hn i hi2 (by simpa using hi')

theorem legArgs_construct {v : MsgVariant Ty} {args : List V} (hn : v.asFieldsNames.Nodup)
    (hlen : args.length = v.fields.length) : v.legArgs (v.asFieldsNames.zip args) = some args := by
  have hl : v.asFieldsNames.length = v.fields.length := by simp [MsgVariant.asFieldsNames]
  have hbound : (v.asFieldsNames.zip (fieldVars v.fields.length)).mapM
      (fun p => ((v.asFieldsNames.zip args).lookup p.1).map fun x => (p.2, x)) =
      some ((fieldVars v.fields.length).zip args) := by
    have hlook := (mapM_some_iff _ _ _).mp (mapM_lookup_zip hn (by omega : v.asFieldsNames.length = args.length))
    rw [mapM_some_iff]
    refine List.forall₂_iff_get.mpr ⟨by simp [hl, hlen], ?_⟩
    intro i hi hi'
    have := (List.forall₂_iff_get.mp hlook).2 i (by simp at hi; omega) (by simp at hi; omega)
    simp only [List.get_eq_getElem] at this ⊢
    simp [this]
  simp only [MsgVariant.legArgs, hbound, Option.bind_eq_bind, Option.bind_some]
  exact mapM_lookup_zip (fieldVars_nodup _) (by simp [hlen])

/-! ## One variant a method -/

theorem new_eq {sig : Signature Ty} {a : MsgAttr} {rename : Option String} {v : MsgVariant Ty}
    (h : MsgVariant.new sig a rename = some v) : svToCase .upperCamel sig.ident = some v.name ∧
      v.functionName = sig.ident ∧ v.fields = (processFields sig).val ∧ v.msgAttr = a ∧ v.rename = rename := by
  simp only [MsgVariant.new, Option.bind_eq_bind, Option.bind_eq_some_iff, Option.pure_def, Option.some.injEq] at h
  obtain ⟨name, hn, rfl⟩ := h
  exact ⟨hn, rfl, rfl, rfl, rfl⟩

variable {source : List (VariantDesc Ty)} {msgTy : MsgType} {vs : List (MsgVariant Ty)}

theorem exists_variant (built : msgVariants source msgTy = some vs) {desc : VariantDesc Ty} (hd : desc ∈ source)
    {a : MsgAttr} (ha : desc.msgAttr = some a) (hty : a.msgType = msgTy) :
    ∃ v ∈ vs, MsgVariant.new desc.sig a desc.rename = some v := by
  have hmem : MsgVariant.new desc.sig a desc.rename ∈ source.filterMap fun desc => desc.msgAttr.bind fun msgAttr =>
      if msgAttr.msgType ≠ msgTy then none else some (MsgVariant.new desc.sig msgAttr desc.rename) :=
    List.mem_filterMap.mpr ⟨desc, hd, by simp [ha, hty]⟩
  exact (mapM_some_mem built).1 _ hmem

theorem exists_desc (built : msgVariants source msgTy = some vs) {v : MsgVariant Ty} (hv : v ∈ vs) :
    ∃ desc ∈ source, ∃ a, desc.msgAttr = some a ∧ a.msgType = msgTy ∧
      MsgVariant.new desc.sig a desc.rename = some v := by
  obtain ⟨o, ho, rfl⟩ := (mapM_some_mem built).2 v hv
  obtain ⟨desc, hd, he⟩ := List.mem_filterMap.mp ho
  obtain ⟨a, ha, he⟩ := Option.bind_eq_some_iff.mp he
  split at he
  · cases he
  · rename_i hty
    exact ⟨desc, hd, a, ha, by simpa using hty, Option.some.inj he⟩

/-- The methods' names stay in order and are not repeated. -/
theorem functionNames_sublist {source : List (VariantDesc Ty)} {vs : List (MsgVariant Ty)}
    (built : msgVariants source msgTy = some vs) :
    (vs.map MsgVariant.functionName).Sublist (source.map (·.sig.ident)) := by
  unfold msgVariants at built
  induction source generalizing vs with
  | nil =>
    obtain rfl : vs = [] := by simpa using built.symm
    exact List.Sublist.refl _
  | cons desc source ih =>
    rw [List.filterMap_cons] at built
    split at built
    · exact (ih built).cons _
    · rename_i o ho
      obtain ⟨a, -, ho⟩ := Option.bind_eq_some_iff.mp ho
      split at ho
      · cases ho
      · rw [List.mapM_cons, ← Option.some.inj ho] at built
        simp only [id, Option.bind_eq_bind, Option.bind_eq_some_iff, Option.pure_def, Option.some.injEq] at built
        obtain ⟨v, hv, rest, hrest, rfl⟩ := built
        rw [List.map_cons, List.map_cons, (new_eq hv).2.1]
        exact (ih hrest).cons_cons _

end Sylvia.Types
