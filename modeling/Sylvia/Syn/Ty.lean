/-
  Sylvia.Syn.Ty — the types of a method's signature as `syn` parses them, and what its
  visitor meets in them.

  Lifetimes, mutability and ABIs are left out: no path stands in them. So are the
  attributes of a bare function's arguments, though a visitor meets their paths. A macro call and what `syn` does not understand are tokens,
  and no visitor looks into tokens. An expression is a path, a macro call, a type inside
  it, or what its parts are.

  `nodes` lists the paths and the token streams in the order of the visitor. `mentions`
  says, over the whole of a type, whether an identifier stands where it can name a type
  parameter: first in a path, or among tokens.

  Proved: `Ty.mentions_eq`: what a type mentions, one of its nodes does.
-/
import Sylvia.Syn.Token

namespace Sylvia.Syn

open Sylvia.Parser

mutual

inductive Ty where
  | array (elem : Ty) (len : Expr)
  | bareFn (inputs : List Ty) (output : Option Ty)
  | group (elem : Ty)
  | implTrait (bounds : List Bound)
  | infer
  | mac (path : Path) (tokens : List Token)
  | never
  | paren (elem : Ty)
  | path (qself : Option Ty) (path : Path)
  | ptr (elem : Ty)
  | reference (elem : Ty)
  | slice (elem : Ty)
  | traitObject (bounds : List Bound)
  | tuple (elems : List Ty)
  | verbatim (tokens : List Token)

inductive Path where
  | mk (leadingColon : Bool) (segments : List Segment)

inductive Segment where
  | mk (ident : Ident) (arguments : PathArguments)

inductive PathArguments where
  | none
  | angleBracketed (args : List GenericArgument)
  | parenthesized (inputs : List Ty) (output : Option Ty)

inductive GenericArgument where
  | lifetime (name : Ident)
  | type (ty : Ty)
  | const (value : Expr)
  | assocType (ident : Ident) (generics : List GenericArgument) (ty : Ty)
  | assocConst (ident : Ident) (generics : List GenericArgument) (value : Expr)
  | constraint (ident : Ident) (generics : List GenericArgument) (bounds : List Bound)

inductive Bound where
  | trait (path : Path)
  | lifetime (name : Ident)
  /-- `use<..>`, and what `syn` does not understand. -/
  | other (tokens : List Token)

inductive Expr where
  | path (qself : Option Ty) (path : Path)
  | mac (path : Path) (tokens : List Token)
  | ty (ty : Ty)
  | node (parts : List Expr)

end

/-- `ReturnType`. -/
inductive ReturnType where
  | default
  | type (ty : Ty)

inductive WherePredicate where
  | lifetime (name : Ident)
  | type (boundedTy : Ty) (bounds : List Bound)

namespace Path

def segments : Path → List Segment
  | .mk _ segments => segments

/-- The path that an identifier parses to. -/
def ofIdent (x : Ident) : Path := .mk false [.mk x .none]

def isIdent (x : Ident) : Path → Bool
  | .mk false [.mk y .none] => y == x
  | _ => false

/-- The identifier that a path without a leading `::` is resolved from. -/
def head : Path → Option Ident
  | .mk false (.mk x _ :: _) => some x
  | _ => none

theorem isIdent_iff {x : Ident} {p : Path} : p.isIdent x = true ↔ p = ofIdent x := by
  unfold isIdent ofIdent
  split
  · rename_i y
    simp
  · rename_i h
    simp only [Bool.false_eq_true, false_iff]
    intro hp
    exact h x hp

@[simp] theorem head_ofIdent (x : Ident) : (ofIdent x).head = some x := rfl

end Path

/-! ## What a visitor meets -/

/-- A path, or a token stream that is not parsed. -/
inductive Node where
  | path (path : Path)
  | tokens (tokens : List Token)

/-- The node is the path that the identifier makes. -/
def Node.isIdent (x : Ident) : Node → Bool
  | .path p => p.isIdent x
  | .tokens _ => false

theorem Node.isIdent_iff {x : Ident} {n : Node} : n.isIdent x = true ↔ n = .path (.ofIdent x) := by
  cases n <;> simp [isIdent, Path.isIdent_iff]

mutual

def Ty.nodes : Ty → List Node
  | .array elem len => elem.nodes ++ len.nodes
  | .bareFn inputs output => nodesOfTys inputs ++ nodesOfTy? output
  | .group elem => elem.nodes
  | .implTrait bounds => nodesOfBounds bounds
  | .infer => []
  | .mac path tokens => path.nodes ++ [.tokens tokens]
  | .never => []
  | .paren elem => elem.nodes
  | .path qself path => nodesOfTy? qself ++ path.nodes
  | .ptr elem => elem.nodes
  | .reference elem => elem.nodes
  | .slice elem => elem.nodes
  | .traitObject bounds => nodesOfBounds bounds
  | .tuple elems => nodesOfTys elems
  | .verbatim tokens => [.tokens tokens]

def nodesOfTy? : Option Ty → List Node
  | none => []
  | some ty => ty.nodes

def nodesOfTys : List Ty → List Node
  | [] => []
  | ty :: tys => ty.nodes ++ nodesOfTys tys

def Path.nodes : Path → List Node
  | .mk leadingColon segments => .path (.mk leadingColon segments) :: nodesOfSegments segments

def nodesOfSegments : List Segment → List Node
  | [] => []
  | .mk _ arguments :: segments => arguments.nodes ++ nodesOfSegments segments

def PathArguments.nodes : PathArguments → List Node
  | .none => []
  | .angleBracketed args => nodesOfArgs args
  | .parenthesized inputs output => nodesOfTys inputs ++ nodesOfTy? output

def GenericArgument.nodes : GenericArgument → List Node
  | .lifetime _ => []
  | .type ty => ty.nodes
  | .const value => value.nodes
  | .assocType _ generics ty => nodesOfArgs generics ++ ty.nodes
  | .assocConst _ generics value => nodesOfArgs generics ++ value.nodes
  | .constraint _ generics bounds => nodesOfArgs generics ++ nodesOfBounds bounds

def nodesOfArgs : List GenericArgument → List Node
  | [] => []
  | arg :: args => arg.nodes ++ nodesOfArgs args

def Bound.nodes : Bound → List Node
  | .trait path => path.nodes
  | .lifetime _ => []
  | .other tokens => [.tokens tokens]

def nodesOfBounds : List Bound → List Node
  | [] => []
  | bound :: bounds => bound.nodes ++ nodesOfBounds bounds

def Expr.nodes : Expr → List Node
  | .path qself path => nodesOfTy? qself ++ path.nodes
  | .mac path tokens => path.nodes ++ [.tokens tokens]
  | .ty ty => ty.nodes
  | .node parts => nodesOfExprs parts

def nodesOfExprs : List Expr → List Node
  | [] => []
  | e :: es => e.nodes ++ nodesOfExprs es

end

def WherePredicate.nodes : WherePredicate → List Node
  | .lifetime _ => []
  | .type boundedTy bounds => boundedTy.nodes ++ nodesOfBounds bounds

/-! ## Where an identifier is mentioned -/

mutual

def Ty.mentions (x : Ident) : Ty → Bool
  | .array elem len => elem.mentions x || len.mentions x
  | .bareFn inputs output => mentionsTys x inputs || mentionsTy? x output
  | .group elem => elem.mentions x
  | .implTrait bounds => mentionsBounds x bounds
  | .infer => false
  | .mac path tokens => path.mentions x || (identsOf tokens).contains x
  | .never => false
  | .paren elem => elem.mentions x
  | .path qself path => mentionsTy? x qself || path.mentions x
  | .ptr elem => elem.mentions x
  | .reference elem => elem.mentions x
  | .slice elem => elem.mentions x
  | .traitObject bounds => mentionsBounds x bounds
  | .tuple elems => mentionsTys x elems
  | .verbatim tokens => (identsOf tokens).contains x

def mentionsTy? (x : Ident) : Option Ty → Bool
  | none => false
  | some ty => ty.mentions x

def mentionsTys (x : Ident) : List Ty → Bool
  | [] => false
  | ty :: tys => ty.mentions x || mentionsTys x tys

/-- First in the path, or in the arguments of a segment. -/
def Path.mentions (x : Ident) : Path → Bool
  | .mk leadingColon segments => (Path.mk leadingColon segments).head == some x || mentionsSegments x segments

def mentionsSegments (x : Ident) : List Segment → Bool
  | [] => false
  | .mk _ arguments :: segments => arguments.mentions x || mentionsSegments x segments

def PathArguments.mentions (x : Ident) : PathArguments → Bool
  | .none => false
  | .angleBracketed args => mentionsArgs x args
  | .parenthesized inputs output => mentionsTys x inputs || mentionsTy? x output

def GenericArgument.mentions (x : Ident) : GenericArgument → Bool
  | .lifetime _ => false
  | .type ty => ty.mentions x
  | .const value => value.mentions x
  | .assocType _ generics ty => mentionsArgs x generics || ty.mentions x
  | .assocConst _ generics value => mentionsArgs x generics || value.mentions x
  | .constraint _ generics bounds => mentionsArgs x generics || mentionsBounds x bounds

def mentionsArgs (x : Ident) : List GenericArgument → Bool
  | [] => false
  | arg :: args => arg.mentions x || mentionsArgs x args

def Bound.mentions (x : Ident) : Bound → Bool
  | .trait path => path.mentions x
  | .lifetime _ => false
  | .other tokens => (identsOf tokens).contains x

def mentionsBounds (x : Ident) : List Bound → Bool
  | [] => false
  | bound :: bounds => bound.mentions x || mentionsBounds x bounds

def Expr.mentions (x : Ident) : Expr → Bool
  | .path qself path => mentionsTy? x qself || path.mentions x
  | .mac path tokens => path.mentions x || (identsOf tokens).contains x
  | .ty ty => ty.mentions x
  | .node parts => mentionsExprs x parts

def mentionsExprs (x : Ident) : List Expr → Bool
  | [] => false
  | e :: es => e.mentions x || mentionsExprs x es

end

def WherePredicate.mentions (x : Ident) : WherePredicate → Bool
  | .lifetime _ => false
  | .type boundedTy bounds => boundedTy.mentions x || mentionsBounds x bounds

def Node.mentions (x : Ident) : Node → Bool
  | .path p => p.head == some x
  | .tokens ts => (identsOf ts).contains x

section

variable (x : Ident)

mutual

theorem Ty.mentions_eq : ∀ ty : Ty, ty.mentions x = ty.nodes.any (Node.mentions x)
  | .array elem len => by simp [Ty.mentions, Ty.nodes, elem.mentions_eq, len.mentions_eq]
  | .bareFn inputs output => by simp [Ty.mentions, Ty.nodes, mentionsTys_eq inputs, mentionsTy?_eq output]
  | .group elem => by simp [Ty.mentions, Ty.nodes, elem.mentions_eq]
  | .implTrait bounds => by simp [Ty.mentions, Ty.nodes, mentionsBounds_eq bounds]
  | .infer => rfl
  | .mac path tokens => by simp [Ty.mentions, Ty.nodes, Node.mentions, path.mentions_eq]
  | .never => rfl
  | .paren elem => by simp [Ty.mentions, Ty.nodes, elem.mentions_eq]
  | .path qself path => by simp [Ty.mentions, Ty.nodes, mentionsTy?_eq qself, path.mentions_eq]
  | .ptr elem => by simp [Ty.mentions, Ty.nodes, elem.mentions_eq]
  | .reference elem => by simp [Ty.mentions, Ty.nodes, elem.mentions_eq]
  | .slice elem => by simp [Ty.mentions, Ty.nodes, elem.mentions_eq]
  | .traitObject bounds => by simp [Ty.mentions, Ty.nodes, mentionsBounds_eq bounds]
  | .tuple elems => by simp [Ty.mentions, Ty.nodes, mentionsTys_eq elems]
  | .verbatim tokens => by simp [Ty.mentions, Ty.nodes, Node.mentions]

theorem mentionsTy?_eq : ∀ ty : Option Ty, mentionsTy? x ty = (nodesOfTy? ty).any (Node.mentions x)
  | none => rfl
  | some ty => ty.mentions_eq

theorem mentionsTys_eq : ∀ tys : List Ty, mentionsTys x tys = (nodesOfTys tys).any (Node.mentions x)
  | [] => rfl
  | ty :: tys => by simp [mentionsTys, nodesOfTys, ty.mentions_eq, mentionsTys_eq tys]

theorem Path.mentions_eq : ∀ path : Path, path.mentions x = path.nodes.any (Node.mentions x)
  | .mk leadingColon segments => by simp [Path.mentions, Path.nodes, Node.mentions, mentionsSegments_eq segments]

theorem mentionsSegments_eq : ∀ segments : List Segment,
    mentionsSegments x segments = (nodesOfSegments segments).any (Node.mentions x)
  | [] => rfl
  | .mk ident arguments :: segments => by
    simp [mentionsSegments, nodesOfSegments, arguments.mentions_eq, mentionsSegments_eq segments]

theorem PathArguments.mentions_eq : ∀ args : PathArguments, args.mentions x = args.nodes.any (Node.mentions x)
  | .none => rfl
  | .angleBracketed args => by simp [PathArguments.mentions, PathArguments.nodes, mentionsArgs_eq args]
  | .parenthesized inputs output => by
    simp [PathArguments.mentions, PathArguments.nodes, mentionsTys_eq inputs, mentionsTy?_eq output]

theorem GenericArgument.mentions_eq : ∀ arg : GenericArgument, arg.mentions x = arg.nodes.any (Node.mentions x)
  | .lifetime _ => rfl
  | .type ty => by simp [GenericArgument.mentions, GenericArgument.nodes, ty.mentions_eq]
  | .const value => by simp [GenericArgument.mentions, GenericArgument.nodes, value.mentions_eq]
  | .assocType _ generics ty => by
    simp [GenericArgument.mentions, GenericArgument.nodes, mentionsArgs_eq generics, ty.mentions_eq]
  | .assocConst _ generics value => by
    simp [GenericArgument.mentions, GenericArgument.nodes, mentionsArgs_eq generics, value.mentions_eq]
  | .constraint _ generics bounds => by
    simp [GenericArgument.mentions, GenericArgument.nodes, mentionsArgs_eq generics, mentionsBounds_eq bounds]

theorem mentionsArgs_eq : ∀ args : List GenericArgument, mentionsArgs x args = (nodesOfArgs args).any (Node.mentions x)
  | [] => rfl
  | arg :: args => by simp [mentionsArgs, nodesOfArgs, arg.mentions_eq, mentionsArgs_eq args]

theorem Bound.mentions_eq : ∀ bound : Bound, bound.mentions x = bound.nodes.any (Node.mentions x)
  | .trait path => by simp [Bound.mentions, Bound.nodes, path.mentions_eq]
  | .lifetime _ => rfl
  | .other tokens => by simp [Bound.mentions, Bound.nodes, Node.mentions]

theorem mentionsBounds_eq : ∀ bounds : List Bound, mentionsBounds x bounds = (nodesOfBounds bounds).any (Node.mentions x)
  | [] => rfl
  | bound :: bounds => by simp [mentionsBounds, nodesOfBounds, bound.mentions_eq, mentionsBounds_eq bounds]

theorem Expr.mentions_eq : ∀ e : Expr, e.mentions x = e.nodes.any (Node.mentions x)
  | .path qself path => by simp [Expr.mentions, Expr.nodes, mentionsTy?_eq qself, path.mentions_eq]
  | .mac path tokens => by simp [Expr.mentions, Expr.nodes, Node.mentions, path.mentions_eq]
  | .ty ty => by simp [Expr.mentions, Expr.nodes, ty.mentions_eq]
  | .node parts => by simp [Expr.mentions, Expr.nodes, mentionsExprs_eq parts]

theorem mentionsExprs_eq : ∀ es : List Expr, mentionsExprs x es = (nodesOfExprs es).any (Node.mentions x)
  | [] => rfl
  | e :: es => by simp [mentionsExprs, nodesOfExprs, e.mentions_eq, mentionsExprs_eq es]

end

theorem WherePredicate.mentions_eq : ∀ pred : WherePredicate, pred.mentions x = pred.nodes.any (Node.mentions x)
  | .lifetime _ => rfl
  | .type boundedTy bounds => by
    simp [WherePredicate.mentions, WherePredicate.nodes, boundedTy.mentions_eq, mentionsBounds_eq]

end

end Sylvia.Syn
