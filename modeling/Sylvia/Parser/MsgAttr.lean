/-
  Sylvia.Parser.MsgAttr — the parser of `sv::msg`
  (`sylvia-derive/src/parser/attributes/msg.rs`, `MsgType::new` in `types/msg_type.rs`).

  The kind is an identifier; then arguments are read as long as the second token is an
  identifier (`peek2(Ident)`), the first of them a comma. Whatever the loop stops at is
  left to `parse2`. A repeated `resp` or `reply_on` replaces the one before, repeated
  handlers are added.

  Proved: `msg_attr_exact`: the attribute is produced exactly for a kind followed by
  arguments, with the values of `produced`; without repetitions their order is the same.
-/
import Mathlib.Data.List.Nodup
import Mathlib.Data.List.Perm.Basic
import Sylvia.Base.Lists
import Sylvia.Syn.Parse

namespace Sylvia.Parser

open Sylvia.Base Sylvia.Syn

/-- The whole of what `sv::msg` is parsed to. -/
structure ParsedMsgAttr extends MsgAttr where
  queryRespType : Option Ident
  deriving DecidableEq, Repr

structure ArgumentParser where
  queryRespType : Option Ident
  replyHandlers : List Ident
  replyOn : Option ReplyOn
  deriving DecidableEq, Repr

namespace ArgumentParser

def default : ArgumentParser := ⟨none, [], none⟩

/-- The loop; `unexpected` if the brackets of some handlers were not read to the end. -/
def parse (result : ArgumentParser) (unexpected : Bool) : List Token → Except Failure (Parsed ArgumentParser)
  | comma :: .ident argType :: input =>
    if acceptAsIdent argType then
      match comma with
      | .punct ',' _ =>
        match argType with
        | "resp" =>
          match input with
          | .punct '=' _ :: .ident respType :: input =>
            if acceptAsIdent respType then parse { result with queryRespType := some respType } unexpected input
            else .error .syn
          | _ => .error .syn
        | "handlers" =>
          match input with
          | .punct '=' _ :: .group .bracket handlersContent :: input =>
            match commaLoop identItem handlersContent with
            | .ok (handlers, left) =>
              parse { result with replyHandlers := result.replyHandlers ++ handlers } (unexpected || !left.isEmpty) input
            | .error e => .error e
          | _ => .error .syn
        | "reply_on" =>
          match input with
          | .punct '=' _ :: .ident replyOn :: input =>
            if acceptAsIdent replyOn then
              match ReplyOn.new replyOn with
              | .ok replyOn => parse { result with replyOn := some replyOn } unexpected input
              | .error text => .error (.err text)
            else .error .syn
          | _ => .error .syn
        | _ => .error (.err "Invalid argument type, expected `resp`, `handlers`, `reply_on` or no argument.")
      | _ => .error .syn
    else .ok ⟨result, comma :: .ident argType :: input, unexpected⟩
  | input => .ok ⟨result, input, unexpected⟩

end ArgumentParser

namespace ParsedMsgAttr

def parse : List Token → Except Failure (Parsed ParsedMsgAttr)
  | .ident msgType :: input =>
    if acceptAsIdent msgType then
      match MsgType.new msgType with
      | .ok msgType => do
        let args ← ArgumentParser.parse .default false input
        let value := args.value
        .ok ⟨⟨⟨msgType, value.replyHandlers, value.replyOn.getD .always⟩, value.queryRespType⟩, args.rest, args.unexpected⟩
      | .error text => .error (.err text)
    else .error .syn
  | _ => .error .syn

/-- `MsgAttr::new`. -/
def new (tokens : List Token) : Except Failure ParsedMsgAttr := parse2 parse tokens

end ParsedMsgAttr

/-! ## The documented form -/

inductive Arg where
  | resp (respType : Ident)
  | handlers (handlers : List Ident)
  | replyOn (replyOn : ReplyOn)
  deriving DecidableEq, Repr

namespace Arg

def name : Arg → Ident
  | resp _ => "resp"
  | handlers _ => "handlers"
  | replyOn _ => "reply_on"

def resp? : Arg → Option Ident
  | resp respType => some respType
  | _ => none

def handlersOf : Arg → List Ident
  | handlers hs => hs
  | _ => []

def replyOn? : Arg → Option ReplyOn
  | replyOn on => some on
  | _ => none

end Arg

/-- The tokens after the `=`. -/
inductive ArgValue : Arg → Token → Prop
  | resp {respType : Ident} : acceptAsIdent respType = true → ArgValue (.resp respType) (.ident respType)
  | handlers {handlers : List Ident} {content : List Token} : CommaList IdentTokens handlers content →
      ArgValue (.handlers handlers) (.group .bracket content)
  | replyOn {on : ReplyOn} : ArgValue (.replyOn on) (.ident on.toText)

/-- `, name = value` any number of times. -/
inductive ArgsTokens : List Arg → List Token → Prop
  | nil : ArgsTokens [] []
  | cons {arg : Arg} {args : List Arg} {value : Token} {rest : List Token} {joint joint' : Bool} :
      ArgValue arg value → ArgsTokens args rest →
      ArgsTokens (arg :: args) (.punct ',' joint :: .ident arg.name :: .punct '=' joint' :: value :: rest)

def MsgType.text : MsgType → Ident
  | .exec => "exec"
  | .query => "query"
  | .instantiate => "instantiate"
  | .migrate => "migrate"
  | .reply => "reply"
  | .sudo => "sudo"

/-- A kind and its arguments. -/
inductive MsgForm : MsgType → List Arg → List Token → Prop
  | mk {msgType : MsgType} {args : List Arg} {rest : List Token} : ArgsTokens args rest →
      MsgForm msgType args (.ident msgType.text :: rest)

/-- All the handlers in the order in which they are written, the last `resp` and the last
    `reply_on`, which is `always` if there is none. -/
def produced (msgType : MsgType) (args : List Arg) : ParsedMsgAttr :=
  ⟨⟨msgType, args.flatMap Arg.handlersOf, (args.filterMap Arg.replyOn?).getLast?.getD .always⟩,
    (args.filterMap Arg.resp?).getLast?⟩

/-! ## The loop -/

namespace ArgumentParser

/-- What an argument does to the result. -/
def add (result : ArgumentParser) : Arg → ArgumentParser
  | .resp respType => { result with queryRespType := some respType }
  | .handlers handlers => { result with replyHandlers := result.replyHandlers ++ handlers }
  | .replyOn on => { result with replyOn := some on }

theorem replyOn_new_ok {text : Ident} {on : ReplyOn} : ReplyOn.new text = .ok on ↔ text = on.toText := by
  constructor
  · unfold ReplyOn.new
    split <;> simp [ReplyOn.toText] <;> rintro rfl <;> rfl
  · rintro rfl
    cases on <;> rfl

/-- A loop that leaves nothing behind has read arguments. -/
theorem parse_args {result r : ArgumentParser} {unexpected : Bool} {tokens : List Token}
    (h : parse result unexpected tokens = .ok ⟨r, [], false⟩) :
    unexpected = false ∧ ∃ args, ArgsTokens args tokens ∧ r = args.foldl add result := by
  fun_induction parse result unexpected tokens with
  | case1 result unexpected joint joint' respType input hident _ ih =>
    obtain ⟨hu, args, hargs, hr⟩ := ih h
    exact ⟨hu, .resp respType :: args, .cons (.resp hident) hargs, hr⟩
  | case4 result unexpected joint joint' content input handlers left hloop _ ih =>
    obtain ⟨hu, args, hargs, hr⟩ := ih h
    obtain ⟨rfl, hleft⟩ := Bool.or_eq_false_iff.mp hu
    obtain rfl : left = [] := by simpa using hleft
    exact ⟨rfl, .handlers handlers :: args, .cons (.handlers ((commaLoop_iff identItem_exact).mp hloop)) hargs, hr⟩
  | case7 result unexpected joint joint' text input _ on hon _ ih =>
    obtain ⟨hu, args, hargs, hr⟩ := ih h
    obtain rfl := replyOn_new_ok.mp hon
    exact ⟨hu, .replyOn on :: args, .cons .replyOn hargs, hr⟩
  | case13 =>
    obtain ⟨-, hrest, -⟩ := Parsed.mk.inj (Except.ok.inj h)
    cases hrest
  | case14 result unexpected tokens hend =>
    obtain ⟨rfl, rfl, rfl⟩ := Parsed.mk.inj (Except.ok.inj h)
    exact ⟨rfl, [], .nil, rfl⟩
  | _ => cases h

/-- The loop reads arguments to the end. -/
theorem parse_of_args {args : List Arg} {tokens : List Token} (h : ArgsTokens args tokens) (result : ArgumentParser) :
    parse result false tokens = .ok ⟨args.foldl add result, [], false⟩ := by
  induction h generalizing result with
  | nil => rfl
  | @cons arg args value rest joint joint' hvalue _ ih =>
    cases hvalue with
    | resp hident =>
      have hresp : acceptAsIdent "resp" = true := by decide
      simp only [Arg.name, parse, hresp, hident, if_true]
      exact ih _
    | handlers hlist =>
      have hhandlers : acceptAsIdent "handlers" = true := by decide
      simp only [Arg.name, parse, hhandlers, if_true, (commaLoop_iff identItem_exact).mpr hlist]
      exact ih _
    | @replyOn on =>
      have hreply : acceptAsIdent "reply_on" = true := by decide
      have hon : acceptAsIdent on.toText = true := by cases on <;> decide
      simp only [Arg.name, parse, hreply, hon, if_true, replyOn_new_ok.mpr rfl]
      exact ih _

/-- All arguments together. -/
theorem foldl_add (args : List Arg) (result : ArgumentParser) : args.foldl add result =
    ⟨(args.filterMap Arg.resp?).getLast?.or result.queryRespType, result.replyHandlers ++ args.flatMap Arg.handlersOf,
      (args.filterMap Arg.replyOn?).getLast?.or result.replyOn⟩ := by
  induction args generalizing result with
  | nil => simp
  | cons arg args ih =>
    rw [List.foldl_cons, ih]
    cases arg <;> simp [add, Arg.resp?, Arg.handlersOf, Arg.replyOn?, List.getLast?_cons]

end ArgumentParser

/-! ## The attribute -/

theorem msgType_new_ok {text : Ident} {msgType : MsgType} : MsgType.new text = .ok msgType ↔ text = msgType.text := by
  constructor
  · unfold MsgType.new
    split <;> simp [MsgType.text] <;> rintro rfl <;> rfl
  · rintro rfl
    cases msgType <;> rfl

theorem acceptAsIdent_text (msgType : MsgType) : acceptAsIdent msgType.text = true := by cases msgType <;> decide

theorem produced_eq (msgType : MsgType) (args : List Arg) : produced msgType args =
    ⟨⟨msgType, (args.foldl ArgumentParser.add .default).replyHandlers,
      (args.foldl ArgumentParser.add .default).replyOn.getD .always⟩,
      (args.foldl ArgumentParser.add .default).queryRespType⟩ := by
  simp [produced, ArgumentParser.foldl_add, ArgumentParser.default]

theorem new_ok_iff {tokens : List Token} {r : ParsedMsgAttr} : ParsedMsgAttr.new tokens = .ok r ↔
    ∃ msgType args, MsgForm msgType args tokens ∧ r = produced msgType args := by
  rw [ParsedMsgAttr.new, parse2_ok_iff]
  constructor
  · intro h
    unfold ParsedMsgAttr.parse at h
    split at h
    · rename_i text input
      split at h
      · split at h
        · rename_i msgType hty
          obtain rfl := msgType_new_ok.mp hty
          obtain ⟨⟨value, rest, unexpected⟩, hargs, h⟩ := bind_ok_iff.mp h
          obtain ⟨rfl, rfl, rfl⟩ := Parsed.mk.inj (Except.ok.inj h)
          obtain ⟨-, args, hform, rfl⟩ := ArgumentParser.parse_args hargs
          exact ⟨msgType, args, .mk hform, (produced_eq msgType args).symm⟩
        · cases h
      · cases h
    · cases h
  · intro h
    rcases h with ⟨msgType, args, ⟨hform⟩, rfl⟩
    simp only [ParsedMsgAttr.parse, acceptAsIdent_text, if_true, msgType_new_ok.mpr rfl,
      ArgumentParser.parse_of_args hform, produced_eq]
    rfl

theorem produced_perm {args args' : List Arg} (hn : (args.map Arg.name).Nodup) (hp : args'.Perm args)
    (msgType : MsgType) : produced msgType args' = produced msgType args := by
  have hcomm : ∀ a ∈ args', ∀ b ∈ args', ∀ result : ArgumentParser, (result.add a).add b = (result.add b).add a := by
    intro a ha b hb result
    by_cases hab : a.name = b.name
    · rw [List.inj_on_of_nodup_map hn (hp.mem_iff.mp ha) (hp.mem_iff.mp hb) hab]
    · cases a <;> cases b <;> first | rfl | exact absurd rfl hab
  rw [produced_eq, produced_eq, hp.foldl_eq' hcomm]

/-- The attribute is produced exactly for a kind followed by arguments, with nothing after
    them, and has their values; without a repeated argument their order does not matter. -/
theorem msg_attr_exact :
    (∀ tokens r, ParsedMsgAttr.new tokens = .ok r ↔
      ∃ msgType args, MsgForm msgType args tokens ∧ r = produced msgType args) ∧
    ∀ msgType args args' tokens tokens', MsgForm msgType args tokens → MsgForm msgType args' tokens' →
      (args.map Arg.name).Nodup → args'.Perm args → ParsedMsgAttr.new tokens' = ParsedMsgAttr.new tokens := by
  refine ⟨fun _ _ => new_ok_iff, ?_⟩
  intro msgType args args' tokens tokens' hform hform' hn hp
  rw [new_ok_iff.mpr ⟨msgType, args, hform, rfl⟩, new_ok_iff.mpr ⟨msgType, args', hform', rfl⟩,
    produced_perm hn hp]

/-- `[sent, paid,]` -/
def sentPaid : List Token := [.ident "sent", .punct ',' false, .ident "paid", .punct ',' false]

/-- `reply, handlers=[sent, paid,], reply_on=error` -/
def onErrorLast : List Token :=
  [.ident "reply", .punct ',' false, .ident "handlers", .punct '=' false, .group .bracket sentPaid, .punct ',' false,
    .ident "reply_on", .punct '=' false, .ident "error"]

/-- `reply, reply_on=error, handlers=[sent, paid,]` -/
def onErrorFirst : List Token :=
  [.ident "reply", .punct ',' false, .ident "reply_on", .punct '=' false, .ident "error", .punct ',' false,
    .ident "handlers", .punct '=' false, .group .bracket sentPaid]

theorem msg_attr_exact_reply : ParsedMsgAttr.new onErrorLast = .ok ⟨⟨.reply, ["sent", "paid"], .error⟩, none⟩ ∧
    ParsedMsgAttr.new onErrorFirst = .ok ⟨⟨.reply, ["sent", "paid"], .error⟩, none⟩ := by
  have hlist : CommaList IdentTokens ["sent", "paid"]
      ([.ident "sent"] ++ .punct ',' false :: ([.ident "paid"] ++ [.punct ',' false])) :=
    .cons ⟨by decide, rfl⟩ (.cons ⟨by decide, rfl⟩ .nil)
  have hlast : MsgForm .reply [.handlers ["sent", "paid"], .replyOn .error] onErrorLast :=
    .mk (.cons (.handlers hlist) (.cons .replyOn .nil))
  have hfirst : MsgForm .reply [.replyOn .error, .handlers ["sent", "paid"]] onErrorFirst :=
    .mk (.cons .replyOn (.cons (.handlers hlist) .nil))
  have hnew := (msg_attr_exact.1 _ _).mpr ⟨_, _, hlast, rfl⟩
  exact ⟨hnew, (msg_attr_exact.2 _ _ _ _ _ hlast hfirst (by decide) (List.Perm.swap _ _ _)).trans hnew⟩

end Sylvia.Parser
