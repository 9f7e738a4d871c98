/-
  Sylvia.Syn.Parse — parsing attributes: identifiers, comma-separated lists, and
  `parse2`.

  `commaLoop` is the loop over a bracketed list: an item, then a comma or the end of the
  loop. What it leaves behind is only seen when `parse2` checks, as is what the parser
  leaves of the attribute.

  Proved: `commaLoop_iff`: with an item parser that is exact for a grammar of items, the
  loop reads the whole of a stream exactly when that is a comma-separated list.
-/
import Sylvia.Syn.Token

namespace Sylvia.Syn

open Sylvia.Parser

variable {α : Type}

/-! ## Parsers -/

/-- Why there is no result. -/
inductive Failure where
  /-- An error of `syn`. -/
  | syn
  | err (text : String)
  | panic
  deriving DecidableEq, Repr

/-- A value, with what is left of the stream; `unexpected` if something was left in a group. -/
structure Parsed (α : Type) where
  value : α
  rest : List Token
  unexpected : Bool

/-- `Parser::parse2`. -/
def parse2 (parser : List Token → Except Failure (Parsed α)) (tokens : List Token) : Except Failure α := do
  let parsed ← parser tokens
  if parsed.unexpected || !parsed.rest.isEmpty then .error .syn else .ok parsed.value

theorem parse2_ok_iff {parser : List Token → Except Failure (Parsed α)} {tokens : List Token} {a : α} :
    parse2 parser tokens = .ok a ↔ parser tokens = .ok ⟨a, [], false⟩ := by
  unfold parse2
  cases parser tokens with
  | error e => simp [bind, Except.bind]
  | ok parsed =>
    obtain ⟨value, rest, unexpected⟩ := parsed
    cases unexpected <;> cases rest <;> simp [bind, Except.bind]

/-! ## Identifiers -/

/-- The keywords that `Ident::parse` rejects. -/
def keywords : List Ident :=
  ["_", "abstract", "as", "async", "await", "become", "box", "break", "const", "continue", "crate", "do", "dyn", "else",
    "enum", "extern", "false", "final", "fn", "for", "if", "impl", "in", "let", "loop", "macro", "match", "mod", "move",
    "mut", "override", "priv", "pub", "ref", "return", "Self", "self", "static", "struct", "super", "trait", "true",
    "try", "type", "typeof", "unsafe", "unsized", "use", "virtual", "where", "while", "yield"]

def acceptAsIdent (x : Ident) : Bool := !keywords.contains x

/-- `Ident::parse`. -/
def parseIdent : List Token → Except Failure (Ident × List Token)
  | .ident x :: rest => if acceptAsIdent x then .ok (x, rest) else .error .syn
  | _ => .error .syn

theorem parseIdent_ok_iff {tokens rest : List Token} {x : Ident} :
    parseIdent tokens = .ok (x, rest) ↔ acceptAsIdent x = true ∧ tokens = .ident x :: rest := by
  unfold parseIdent
  split
  · rename_i y ts
    by_cases hy : acceptAsIdent y = true
    · simp only [hy, if_true, Except.ok.injEq, Prod.mk.injEq, List.cons.injEq, Token.ident.injEq]
      exact ⟨fun ⟨h, h'⟩ => ⟨h ▸ hy, h, h'⟩, fun h => h.2⟩
    · simp only [hy, Bool.false_eq_true, if_false, reduceCtorEq, List.cons.injEq, Token.ident.injEq, false_iff]
      rintro ⟨hx, rfl, -⟩
      exact hy hx
  · rename_i h
    simp only [reduceCtorEq, false_iff, not_and]
    intro _
    exact h x rest

/-! ## Lists -/

/-- A parser of one item. It consumes something. -/
structure ItemParser (α : Type) where
  parse : List Token → Except Failure (α × List Token)
  consumes : ∀ {tokens rest a}, parse tokens = .ok (a, rest) → rest.length < tokens.length

def identItem : ItemParser Ident where
  parse := parseIdent
  consumes := by
    intro tokens rest x h
    rw [(parseIdent_ok_iff.mp h).2]
    exact Nat.lt_succ_self _

/-- The items, and what the loop leaves behind. -/
def commaLoop (item : ItemParser α) : List Token → Except Failure (List α × List Token)
  | [] => .ok ([], [])
  | token :: tokens =>
    match _h : item.parse (token :: tokens) with
    | .error e => .error e
    | .ok (a, .punct ',' _ :: rest) => (commaLoop item rest).map fun r => (a :: r.1, r.2)
    | .ok (a, rest) => .ok ([a], rest)
  termination_by tokens => tokens.length
  decreasing_by
    have := item.consumes _h
    simp only [List.length_cons] at this ⊢
    omega

/-- Items that are separated by commas, maybe with a comma after the last. -/
inductive CommaList (Item : α → List Token → Prop) : List α → List Token → Prop
  | nil : CommaList Item [] []
  | last {a : α} {tokens : List Token} : Item a tokens → CommaList Item [a] tokens
  | cons {a : α} {as : List α} {tokens rest : List Token} {joint : Bool} : Item a tokens → CommaList Item as rest →
      CommaList Item (a :: as) (tokens ++ .punct ',' joint :: rest)

/-- The parser reads the items of the grammar, up to a comma or the end. -/
structure ItemParser.Exact (item : ItemParser α) (Item : α → List Token → Prop) : Prop where
  sound : ∀ {tokens rest a}, item.parse tokens = .ok (a, rest) → ∃ its, tokens = its ++ rest ∧ Item a its
  complete : ∀ {its a}, Item a its → item.parse its = .ok (a, []) ∧
    ∀ joint rest, item.parse (its ++ .punct ',' joint :: rest) = .ok (a, .punct ',' joint :: rest)

theorem commaLoop_cons {item : ItemParser α} {tokens rest : List Token} {a : α} {joint : Bool}
    (h : item.parse tokens = .ok (a, .punct ',' joint :: rest)) :
    commaLoop item tokens = (commaLoop item rest).map fun r => (a :: r.1, r.2) := by
  cases tokens with
  | nil => cases item.consumes h
  | cons token tokens =>
    rw [commaLoop]
    split
    · rename_i h'
      rw [h'] at h
      cases h
    · rename_i h'
      rw [h'] at h
      cases h
      rfl
    · rename_i hne h'
      rw [h'] at h
      cases h
      exact absurd rfl (hne joint rest)

theorem commaLoop_last {item : ItemParser α} {tokens : List Token} {a : α} (h : item.parse tokens = .ok (a, [])) :
    commaLoop item tokens = .ok ([a], []) := by
  cases tokens with
  | nil => cases item.consumes h
  | cons token tokens =>
    rw [commaLoop]
    split
    · rename_i h'
      rw [h'] at h
      cases h
    · rename_i h'
      rw [h'] at h
      cases h
    · rename_i h'
      rw [h'] at h
      cases h
      rfl

theorem commaList_of_loop {item : ItemParser α} {Item : α → List Token → Prop} (he : item.Exact Item)
    {tokens : List Token} {as : List α} (h : commaLoop item tokens = .ok (as, [])) : CommaList Item as tokens := by
  fun_induction commaLoop item tokens generalizing as with
  | case1 =>
    obtain ⟨rfl, -⟩ := Prod.mk.inj (Except.ok.inj h)
    exact .nil
  | case2 => cases h
  | case3 token tokens a joint rest hparse ih =>
    obtain ⟨its, hits, ha⟩ := he.sound hparse
    cases hloop : commaLoop item rest with
    | error e => rw [hloop] at h; cases h
    | ok r =>
      rw [hloop] at h
      obtain ⟨as', left⟩ := r
      obtain ⟨rfl, rfl⟩ := Prod.mk.inj (Except.ok.inj h)
      rw [hits]
      exact .cons ha (ih hloop)
  | case4 token tokens a rest hne hparse =>
    obtain ⟨its, hits, ha⟩ := he.sound hparse
    obtain ⟨rfl, rfl⟩ := Prod.mk.inj (Except.ok.inj h)
    rw [hits, List.append_nil]
    exact .last ha

/-- The loop reads the whole of a stream exactly when it is a comma-separated list. -/
theorem commaLoop_iff {item : ItemParser α} {Item : α → List Token → Prop} (he : item.Exact Item)
    {tokens : List Token} {as : List α} : commaLoop item tokens = .ok (as, []) ↔ CommaList Item as tokens := by
  constructor
  · exact commaList_of_loop he
  · intro h
    induction h with
    | nil => rw [commaLoop]
    | last ha => exact commaLoop_last (he.complete ha).1
    | cons ha _ ih => rw [commaLoop_cons ((he.complete ha).2 _ _), ih]; rfl

/-- The tokens of an identifier. -/
def IdentTokens (x : Ident) (tokens : List Token) : Prop := acceptAsIdent x = true ∧ tokens = [.ident x]

theorem identItem_exact : identItem.Exact IdentTokens where
  sound := by
    intro tokens rest x h
    obtain ⟨hx, rfl⟩ := parseIdent_ok_iff.mp h
    exact ⟨[.ident x], rfl, hx, rfl⟩
  complete := by
    rintro its x ⟨hx, rfl⟩
    exact ⟨parseIdent_ok_iff.mpr ⟨hx, rfl⟩, fun joint rest => parseIdent_ok_iff.mpr ⟨hx, rfl⟩⟩

end Sylvia.Syn
