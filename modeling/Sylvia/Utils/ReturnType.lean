/-
  Sylvia.Utils.ReturnType — the response type of a query method
  (`extract_return_type` in `sylvia-derive/src/utils.rs`).

  The first segment of the return type is looked at, not the last: `Result` or
  `StdResult`, else a diagnostic is emitted and the function goes on. Every other shape
  than `..<Path, ..>` is an `unreachable!()` or a failed `assert!`: `none`, the macro
  panics and the diagnostic goes with it.

  Proved: `extract_return_type_iff`: the type is yielded or a diagnostic is reported
  exactly for the return types that are `Extractable`.
-/
import Sylvia.Base.Effects
import Sylvia.Syn.Ty

namespace Sylvia.Utils

open Sylvia.Base Sylvia.Syn

def extractReturnType (retType : ReturnType) : Option (Emit Path) :=
  match retType with
  | .type (.path _ (.mk _ (.mk ident arguments :: _))) =>
    match arguments with
    | .angleBracketed (.type (.path _ path) :: _) => some do
      Emit.errorIf (ident != "Result" && ident != "StdResult")
        ("Neither Result nor StdResult found in return type. You might be using aliased return type. " ++
          "Please use #[sv::msg(return_type=<your_return_type>)]") []
      pure path
    | _ => none
  | _ => none

/-! ## What is yielded -/

def asType : GenericArgument → Option Ty
  | .type ty => some ty
  | _ => none

/-- The first type argument of a bare `Result<..>` or `StdResult<..>`. -/
def resultArgument : ReturnType → Option Ty
  | .type (.path none (.mk _ [.mk ident (.angleBracketed args)])) =>
    if ident = "Result" ∨ ident = "StdResult" then args.findSome? asType else none
  | _ => none

/-- No panic: the argument of the result, or a diagnostic. -/
def YieldsOrReports (retType : ReturnType) : Prop :=
  ∃ r, extractReturnType retType = some r ∧ (resultArgument retType = some (.path none r.val) ∨ ¬ r.Clean)

/-- A path whose first segment starts its `<..>` with a path; where that segment is
    `Result` or `StdResult`, there is no other one and nothing is qualified. -/
def Extractable : ReturnType → Prop
  | .type (.path qself (.mk _ (.mk ident (.angleBracketed (.type (.path argQself _) :: _)) :: rest))) =>
    ident = "Result" ∨ ident = "StdResult" → qself.isNone ∧ rest.isEmpty ∧ argQself.isNone
  | _ => False

/-- What the function accepts. -/
theorem extractReturnType_some {retType : ReturnType} {r : Emit Path} (h : extractReturnType retType = some r) :
    ∃ qself colon ident argQself args rest,
      retType = .type (.path qself (.mk colon (.mk ident (.angleBracketed (.type (.path argQself r.val) :: args)) :: rest))) ∧
      (r.Clean ↔ ident = "Result" ∨ ident = "StdResult") := by
  unfold extractReturnType at h
  split at h
  · split at h
    · rename_i qself colon ident rest _ argQself path args
      obtain rfl := Option.some.inj h
      refine ⟨qself, colon, ident, argQself, args, rest, rfl, ?_⟩
      simp [Classical.or_iff_not_imp_left]
    · cases h
  · cases h

theorem resultArgument_eq_some {qself argQself : Option Ty} {colon : Bool} {ident : Parser.Ident} {path : Path}
    {args : List GenericArgument} {rest : List Segment} (hid : ident = "Result" ∨ ident = "StdResult") :
    resultArgument (.type (.path qself (.mk colon (.mk ident (.angleBracketed (.type (.path argQself path) :: args)) :: rest)))) =
      some (.path none path) ↔ qself.isNone ∧ rest.isEmpty ∧ argQself.isNone := by
  cases qself <;> cases rest <;> cases argQself <;> simp [resultArgument, hid, List.findSome?_cons, asType]

/-- The type is yielded or a diagnostic reported, and no `unreachable!()` reached, exactly
    for a return type that is a path whose first segment starts its arguments with a path;
    one of a `Result` must stand alone and unqualified. -/
theorem extract_return_type_iff (retType : ReturnType) : YieldsOrReports retType ↔ Extractable retType := by
  constructor
  · intro ⟨r, hr, hyields⟩
    obtain ⟨qself, colon, ident, argQself, args, rest, rfl, hclean⟩ := extractReturnType_some hr
    intro hid
    rcases hyields with hyields | hreports
    · exact (resultArgument_eq_some hid).mp hyields
    · exact absurd (hclean.mpr hid) hreports
  · intro h
    unfold Extractable at h
    split at h
    · rename_i qself colon ident argQself path args rest
      refine ⟨_, rfl, ?_⟩
      by_cases hid : ident = "Result" ∨ ident = "StdResult"
      · left
        exact (resultArgument_eq_some hid).mpr (h hid)
      · right
        simpa [not_or] using hid
    · cases h

/-- `std::result::Result<CountResponse, StdError>`, no return type, and an alias without
    arguments: each of them panics. -/
theorem qualified_result_panics :
    extractReturnType (.type (.path none (.mk false [.mk "std" .none, .mk "result" .none, .mk "Result"
      (.angleBracketed [.type (.path none (.ofIdent "CountResponse")), .type (.path none (.ofIdent "StdError"))])]))) = none ∧
    extractReturnType .default = none ∧
    extractReturnType (.type (.path none (.ofIdent "CountResult"))) = none ∧
    ¬ YieldsOrReports (.type (.path none (.mk false [.mk "std" .none, .mk "result" .none, .mk "Result"
      (.angleBracketed [.type (.path none (.ofIdent "CountResponse")), .type (.path none (.ofIdent "StdError"))])]))) := by
  refine ⟨rfl, rfl, rfl, ?_⟩
  intro ⟨r, hr, _⟩
  cases hr

end Sylvia.Utils
