/-
  Sylvia.Syn.Token — the token trees that attributes and macro calls are made of.

  A lifetime is one token, as `syn` reads it. Groups without delimiters are read through,
  so there are none here.
-/
import Mathlib.Data.List.Basic
import Sylvia.Parser.Attributes

namespace Sylvia.Syn

open Sylvia.Parser

inductive Delimiter where
  | parenthesis
  | brace
  | bracket
  deriving DecidableEq, Repr

inductive Token where
  | ident (name : Ident)
  /-- `joint`: the next token is a punctuation that follows without a space. -/
  | punct (c : Char) (joint : Bool)
  | lifetime (name : Ident)
  | literal (text : String)
  | group (delimiter : Delimiter) (tokens : List Token)
  deriving Repr

mutual

/-- The identifiers of a token. -/
def Token.idents : Token → List Ident
  | .ident name => [name]
  | .punct _ _ | .lifetime _ | .literal _ => []
  | .group _ tokens => identsOf tokens

/-- The identifiers of a token stream. -/
def identsOf : List Token → List Ident
  | [] => []
  | t :: ts => t.idents ++ identsOf ts

end

end Sylvia.Syn
