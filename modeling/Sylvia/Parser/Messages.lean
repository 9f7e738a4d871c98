/-
  Sylvia.Parser.Messages — the parser of `sv::messages`
  (`sylvia-derive/src/parser/attributes/messages.rs`).

  A path, maybe `as` and a name, then `interface_has_custom`. That returns early, without
  flags, when the name after the colon is not `custom`: with nothing after it the
  attribute is accepted. Without `as` the interface is named after the last segment, and
  `Ident::new` panics where that is no identifier.

  `syn::Path::parse` is a parameter, with what is relied on in `PathSyntax`. The warning
  about a redundant `as` is left out.

  Proved: `messages_exact_iff`: a sequence is accepted exactly when it has the documented
  form, with the flags of its list, unless it `Slips`.
-/
import Sylvia.Syn.Parse
import Sylvia.Syn.Ty
import Sylvia.Types.MsgVariant

namespace Sylvia.Parser

open Sylvia.Base Sylvia.Syn Sylvia.Types

/-! ## Paths -/

/-- What a path can be followed by here. -/
def Stops (rest : List Token) : Prop :=
  rest = [] ∨ (∃ joint more, rest = .punct ',' joint :: more) ∨ (∃ more, rest = .ident "as" :: more) ∨
    ∃ joint x more, rest = .punct ':' joint :: .ident x :: more

/-- `syn::Path::parse`. -/
structure PathSyntax extends ItemParser Syn.Path where
  /-- What is consumed is a path. -/
  sound : ∀ {tokens rest p}, parse tokens = .ok (p, rest) → ∃ path, tokens = path ++ rest ∧ parse path = .ok (p, [])
  /-- A path does not go on after its end. -/
  stops : ∀ {path rest p}, parse path = .ok (p, []) → Stops rest → parse (path ++ rest) = .ok (p, rest)
  ident : ∀ {x}, acceptAsIdent x = true → parse [.ident x] = .ok (.ofIdent x, [])
  ident_only : ∀ {path x}, parse path = .ok (.ofIdent x, []) → path = [.ident x]

/-- `StripGenerics::fold_path`. -/
def stripGenerics (p : Syn.Path) : Syn.Path := match p with
  | .mk leadingColon segments => .mk leadingColon (segments.map fun segment => match segment with
    | .mk ident _ => .mk ident .none)

/-! ## The parser -/

structure Customs where
  hasMsg : Bool
  hasQuery : Bool
  deriving DecidableEq, Repr

inductive Custom where
  | msg
  | query
  deriving DecidableEq, Repr

def Custom.text : Custom → Ident
  | msg => "msg"
  | query => "query"

structure ContractMessageAttr where
  module : Syn.Path
  variant : Ident
  customs : Customs

section

variable (P : PathSyntax)

/-- One of the customs in the list, by its `get_ident`. -/
def parseCustom (tokens : List Token) : Except Failure (Custom × List Token) :=
  match P.parse tokens with
  | .error e => .error e
  | .ok (custom, rest) =>
    if custom.isIdent "msg" then .ok (.msg, rest)
    else if custom.isIdent "query" then .ok (.query, rest)
    else .error (.err ("Invalid custom attribute, expected one or both of: [`msg`, `query`]\n\n  = note: " ++
      "Expected attribute to be in form `#[sv::messages(interface: custom(msg, query))]`.\n"))

theorem parseCustom_ok_iff {tokens rest : List Token} {custom : Custom} :
    parseCustom P tokens = .ok (custom, rest) ↔ P.parse tokens = .ok (.ofIdent custom.text, rest) := by
  unfold parseCustom
  cases P.parse tokens with
  | error e => simp
  | ok r =>
    obtain ⟨p, rest'⟩ := r
    by_cases hm : p.isIdent "msg" = true
    · obtain rfl := Path.isIdent_iff.mp hm
      cases custom <;> simp [Path.isIdent, Path.ofIdent, Custom.text]
    · by_cases hq : p.isIdent "query" = true
      · obtain rfl := Path.isIdent_iff.mp hq
        cases custom <;> simp [Path.isIdent, Path.ofIdent, Custom.text]
      · have hne (x : Ident) (hx : p.isIdent x ≠ true) : p ≠ .ofIdent x := fun he => hx (Path.isIdent_iff.mpr he)
        cases custom <;> simp [hm, hq, hne _ hm, hne _ hq, Custom.text]

def customItem : ItemParser Custom where
  parse := parseCustom P
  consumes := by
    intro tokens rest custom h
    exact P.consumes ((parseCustom_ok_iff P).mp h)

def Customs.set (customs : Customs) : Custom → Customs
  | .msg => { customs with hasMsg := true }
  | .query => { customs with hasQuery := true }

def interfaceHasCustom (content : List Token) : Except Failure (Parsed Customs) :=
  let customs : Customs := ⟨false, false⟩
  match content with
  | .punct ':' _ :: content => do
    let (attr, content) ← parseIdent content
    if attr ≠ "custom" then .ok ⟨customs, content, false⟩
    else
      match content with
      | .group .parenthesis customContent :: content => do
        let (list, left) ← commaLoop (customItem P) customContent
        .ok ⟨list.foldl Customs.set customs, content, !left.isEmpty⟩
      | _ => .error .syn
  | content => .ok ⟨customs, content, false⟩

/-- The interface's name: after `as`, else the last segment in `UpperCamel`. -/
def parseVariant (module : Syn.Path) : List Token → Except Failure (Ident × List Token)
  | .ident "as" :: input => parseIdent input
  | input =>
    match module.segments.getLast? with
    | some (.mk ident _) =>
      match svToCase .upperCamel ident with
      | some interfaceName => .ok (interfaceName, input)
      | none => .error .panic
    | none => .error .panic

namespace ContractMessageAttr

def parse (input : List Token) : Except Failure (Parsed ContractMessageAttr) := do
  let (module, input) ← P.parse input
  let module := stripGenerics module
  let (variant, input) ← parseVariant module input
  let customs ← interfaceHasCustom P input
  if !customs.rest.isEmpty then
    .error (.err ("Unexpected tokens inside `sv::messages` attribtue.\n\n  = note: Maximal supported form of " ++
      "attribute: `#[sv::messages(interface::path as InterfaceName: custom(msg, query))]`.\n"))
  else .ok ⟨⟨module, variant, customs.value⟩, customs.rest, customs.unexpected⟩

def new (tokens : List Token) : Except Failure ContractMessageAttr := parse2 (parse P) tokens

end ContractMessageAttr

end

/-! ## The documented form -/

/-- The tokens of `msg` or `query`. -/
def CustomTokens (custom : Custom) (tokens : List Token) : Prop := tokens = [.ident custom.text]

/-- Nothing, or `as` and a name. -/
inductive AsTokens : Option Ident → List Token → Prop
  | absent : AsTokens none []
  | present {name : Ident} : acceptAsIdent name = true → AsTokens (some name) [.ident "as", .ident name]

/-- Nothing, or `: custom(..)` with a list. -/
inductive CustomsTokens : List Custom → List Token → Prop
  | absent : CustomsTokens [] []
  | present {list : List Custom} {content : List Token} {joint : Bool} : CommaList CustomTokens list content →
      CustomsTokens list [.punct ':' joint, .ident "custom", .group .parenthesis content]

/-- A path, then both parts. -/
inductive MessagesForm (P : PathSyntax) : Syn.Path → Option Ident → List Custom → List Token → Prop
  | mk {p : Syn.Path} {name : Option Ident} {list : List Custom} {path as customs : List Token} :
      P.parse path = .ok (p, []) → AsTokens name as → CustomsTokens list customs →
      MessagesForm P p name list (path ++ (as ++ customs))

/-- The flags of a list. -/
def flags (list : List Custom) : Customs := ⟨list.contains .msg, list.contains .query⟩

/-- The interface's name in the form. -/
def variantOf (p : Syn.Path) : Option Ident → Option Ident
  | some name => some name
  | none => p.segments.getLast?.bind fun segment => match segment with
    | .mk ident _ => svToCase .upperCamel ident

/-! ## The customs -/

theorem customItem_exact (P : PathSyntax) : (customItem P).Exact CustomTokens where
  sound := by
    intro tokens rest custom h
    obtain ⟨path, rfl, hpath⟩ := P.sound ((parseCustom_ok_iff P).mp h)
    exact ⟨path, rfl, P.ident_only hpath⟩
  complete := by
    rintro its custom rfl
    have hpath : P.parse [.ident custom.text] = .ok (.ofIdent custom.text, []) :=
      P.ident (by cases custom <;> decide)
    refine ⟨(parseCustom_ok_iff P).mpr hpath, ?_⟩
    intro joint rest
    exact (parseCustom_ok_iff P).mpr (P.stops hpath (.inr (.inl ⟨joint, rest, rfl⟩)))

theorem foldl_set (list : List Custom) (customs : Customs) : list.foldl Customs.set customs =
    ⟨customs.hasMsg || list.contains .msg, customs.hasQuery || list.contains .query⟩ := by
  induction list generalizing customs with
  | nil => simp
  | cons custom list ih =>
    rw [List.foldl_cons, ih]
    cases custom <;> simp [Customs.set]

/-- What can follow the name: nothing, or a colon and a name. -/
def Trails (tail : List Token) : Prop := tail = [] ∨ ∃ joint x more, tail = .punct ':' joint :: .ident x :: more

/-- What `interface_has_custom` accepts when nothing may be left: the documented part, or
    a name that is not `custom`. -/
def Tail (customs : Customs) (tokens : List Token) : Prop :=
  (∃ list, CustomsTokens list tokens ∧ customs = flags list) ∨
    ∃ joint other, acceptAsIdent other = true ∧ other ≠ "custom" ∧ tokens = [.punct ':' joint, .ident other] ∧
      customs = ⟨false, false⟩

theorem interfaceHasCustom_ok_iff (P : PathSyntax) {tokens : List Token} {customs : Customs} :
    interfaceHasCustom P tokens = .ok ⟨customs, [], false⟩ ↔ Tail customs tokens := by
  constructor
  · intro h
    unfold interfaceHasCustom at h
    split at h
    · rename_i joint content
      obtain ⟨⟨attr, rest⟩, hattr, hrest⟩ := bind_ok_iff.mp h
      obtain ⟨hident, rfl⟩ := parseIdent_ok_iff.mp hattr
      dsimp only at hrest
      split at hrest
      · rename_i hne
        obtain ⟨rfl, rfl, -⟩ := Parsed.mk.inj (Except.ok.inj hrest)
        exact .inr ⟨joint, attr, hident, hne, rfl, rfl⟩
      · rename_i heq
        obtain rfl : attr = "custom" := by simpa using heq
        split at hrest
        · rename_i customContent rest
          obtain ⟨⟨list, left⟩, hloop, hend⟩ := bind_ok_iff.mp hrest
          obtain ⟨rfl, rfl, hleft⟩ := Parsed.mk.inj (Except.ok.inj hend)
          obtain rfl : left = [] := by simpa using hleft
          refine .inl ⟨list, .present ((commaLoop_iff (customItem_exact P)).mp hloop), ?_⟩
          rw [foldl_set]
          simp [flags]
        · cases hrest
    · obtain ⟨rfl, rfl, -⟩ := Parsed.mk.inj (Except.ok.inj h)
      exact .inl ⟨[], .absent, rfl⟩
  · intro h
    rcases h with ⟨list, hlist, rfl⟩ | ⟨joint, other, hident, hne, rfl, rfl⟩
    · cases hlist with
      | absent => rfl
      | @present _ content _ hlist =>
        have hcustom : parseIdent [.ident "custom", .group .parenthesis content] =
            .ok ("custom", [.group .parenthesis content]) := parseIdent_ok_iff.mpr ⟨by decide, rfl⟩
        have hloop := (commaLoop_iff (customItem_exact P)).mpr hlist
        simp only [interfaceHasCustom, hcustom]
        simp [bind, Except.bind, hloop, foldl_set, flags]
    · have hother : parseIdent [.ident other] = .ok (other, []) := parseIdent_ok_iff.mpr ⟨hident, rfl⟩
      simp only [interfaceHasCustom, hother]
      simp [bind, Except.bind, hne]

/-! ## Accepted sequences -/

theorem CustomsTokens.trails {list : List Custom} {tail : List Token} (h : CustomsTokens list tail) : Trails tail := by
  cases h with
  | absent => exact .inl rfl
  | present => exact .inr ⟨_, _, _, rfl⟩

theorem Tail.trails {customs : Customs} {tail : List Token} (h : Tail customs tail) : Trails tail := by
  rcases h with ⟨list, hlist, -⟩ | ⟨joint, other, -, -, rfl, -⟩
  · exact hlist.trails
  · exact .inr ⟨_, _, _, rfl⟩

theorem parse_path {P : PathSyntax} {p : Syn.Path} {path as tail : List Token} {name : Option Ident}
    (hp : P.parse path = .ok (p, [])) (has : AsTokens name as) (htail : Trails tail) :
    P.parse (path ++ (as ++ tail)) = .ok (p, as ++ tail) := by
  refine P.stops hp ?_
  cases has with
  | present => exact .inr (.inr (.inl ⟨_, rfl⟩))
  | absent =>
    rcases htail with rfl | ⟨joint, x, more, rfl⟩
    · exact .inl rfl
    · exact .inr (.inr (.inr ⟨joint, x, more, rfl⟩))

/-- A sequence is taken apart in one way. -/
theorem parts_unique {P : PathSyntax} {p p' : Syn.Path} {path path' as as' tail tail' : List Token}
    {name name' : Option Ident} (hp : P.parse path = .ok (p, [])) (hp' : P.parse path' = .ok (p', []))
    (has : AsTokens name as) (has' : AsTokens name' as') (htail : Trails tail) (htail' : Trails tail')
    (heq : path ++ (as ++ tail) = path' ++ (as' ++ tail')) : p = p' ∧ name = name' ∧ tail = tail' := by
  have hparse := parse_path hp has htail
  rw [heq, parse_path hp' has' htail'] at hparse
  obtain ⟨rfl, hrest⟩ := Prod.mk.inj (Except.ok.inj hparse)
  refine ⟨rfl, ?_⟩
  cases has <;> cases has'
  · exact ⟨rfl, hrest.symm⟩
  · rcases htail with rfl | ⟨joint, x, more, rfl⟩ <;> simp at hrest
  · rcases htail' with rfl | ⟨joint, x, more, rfl⟩ <;> simp at hrest
  · simp only [List.cons_append, List.nil_append, List.cons.injEq, Token.ident.injEq, true_and] at hrest
    exact ⟨by rw [hrest.1], hrest.2.symm⟩

theorem stripGenerics_last (p : Syn.Path) (tokens : List Token) :
    parseVariant (stripGenerics p) tokens = parseVariant p tokens := by
  obtain ⟨leadingColon, segments⟩ := p
  unfold parseVariant
  split
  · rfl
  · simp only [stripGenerics, Path.segments, List.getLast?_map]
    cases segments.getLast? with
    | none => rfl
    | some segment => obtain ⟨ident, arguments⟩ := segment; rfl

/-- The name that is read, and what is read for it. -/
theorem parseVariant_ok_iff {p : Syn.Path} {tokens rest : List Token} {variant : Ident} (hrest : Trails rest) :
    parseVariant p tokens = .ok (variant, rest) ↔
      ∃ name as, AsTokens name as ∧ tokens = as ++ rest ∧ variantOf p name = some variant := by
  constructor
  · intro h
    unfold parseVariant at h
    split at h
    · rename_i input
      obtain ⟨hident, rfl⟩ := parseIdent_ok_iff.mp h
      exact ⟨some variant, _, .present hident, rfl, rfl⟩
    · split at h
      · rename_i ident arguments hlast
        split at h
        · rename_i hcase
          obtain ⟨rfl, rfl⟩ := Prod.mk.inj (Except.ok.inj h)
          refine ⟨none, [], .absent, rfl, ?_⟩
          simp [variantOf, hlast, hcase]
        · cases h
      · cases h
  · intro h
    rcases h with ⟨name, as, has, rfl, hvariant⟩
    cases has with
    | present hident =>
      obtain rfl := Option.some.inj hvariant
      exact parseIdent_ok_iff.mpr ⟨hident, rfl⟩
    | absent =>
      obtain ⟨⟨ident, arguments⟩, hlast, hcase⟩ := Option.bind_eq_some_iff.mp hvariant
      have hcase : svToCase .upperCamel ident = some variant := hcase
      unfold parseVariant
      split
      · rename_i input has
        rcases hrest with rfl | ⟨joint, x, more, rfl⟩ <;> cases has
      · simp [hlast, hcase]

/-- What is accepted: a path and a name for it, then either form of `Tail`. -/
theorem messages_new_ok_iff {P : PathSyntax} {tokens : List Token} {attr : ContractMessageAttr} :
    ContractMessageAttr.new P tokens = .ok attr ↔ ∃ path p name as tail, P.parse path = .ok (p, []) ∧
      AsTokens name as ∧ Tail attr.customs tail ∧ tokens = path ++ (as ++ tail) ∧
        variantOf p name = some attr.variant ∧ attr.module = stripGenerics p := by
  obtain ⟨module, variant, customs⟩ := attr
  rw [ContractMessageAttr.new, parse2_ok_iff]
  constructor
  · intro h
    obtain ⟨⟨p, afterPath⟩, hpath, h⟩ := bind_ok_iff.mp h
    obtain ⟨⟨variant', afterName⟩, hname, h⟩ := bind_ok_iff.mp h
    obtain ⟨⟨customs', rest, unexpected⟩, hcustoms, h⟩ := bind_ok_iff.mp h
    dsimp only at h hname
    split at h
    · cases h
    · obtain ⟨hattr, rfl, rfl⟩ := Parsed.mk.inj (Except.ok.inj h)
      obtain ⟨rfl, rfl, rfl⟩ := ContractMessageAttr.mk.inj hattr
      have htail := (interfaceHasCustom_ok_iff P).mp hcustoms
      obtain ⟨path, rfl, hpath'⟩ := P.sound hpath
      rw [stripGenerics_last] at hname
      obtain ⟨name, as, has, rfl, hvariant⟩ := (parseVariant_ok_iff htail.trails).mp hname
      exact ⟨path, p, name, as, afterName, hpath', has, htail, rfl, hvariant, rfl⟩
  · intro h
    rcases h with ⟨path, p, name, as, tail, hpath, has, htail, rfl, hvariant, rfl⟩
    have hname := (parseVariant_ok_iff htail.trails).mpr ⟨name, as, has, rfl, hvariant⟩
    rw [← stripGenerics_last] at hname
    simp [ContractMessageAttr.parse, bind, Except.bind, parse_path hpath has htail.trails, hname,
      (interfaceHasCustom_ok_iff P).mpr htail]

theorem CustomsTokens.unique (P : PathSyntax) {list list' : List Custom} {tokens : List Token}
    (h : CustomsTokens list tokens) (h' : CustomsTokens list' tokens) : list = list' := by
  cases h with
  | absent => cases h'; rfl
  | present hlist =>
    cases h' with
    | present hlist' =>
      have hloop := (commaLoop_iff (customItem_exact P)).mpr hlist
      rw [(commaLoop_iff (customItem_exact P)).mpr hlist'] at hloop
      exact (Prod.mk.inj (Except.ok.inj hloop)).1.symm

/-- The form of a sequence that has been taken apart. -/
theorem MessagesForm.parts {P : PathSyntax} {p p' : Syn.Path} {name name' : Option Ident} {list : List Custom}
    {tokens path as tail : List Token} (h : MessagesForm P p name list tokens) (hpath : P.parse path = .ok (p', []))
    (has : AsTokens name' as) (htail : Trails tail) (heq : tokens = path ++ (as ++ tail)) :
    p = p' ∧ name = name' ∧ CustomsTokens list tail := by
  obtain ⟨hp, hname, hcustoms⟩ := h
  obtain ⟨rfl, rfl, rfl⟩ := parts_unique hp hpath hname has hcustoms.trails htail heq
  exact ⟨rfl, rfl, hcustoms⟩

/-- The flags are those of the list in the form. -/
theorem new_flags {P : PathSyntax} {tokens : List Token} {attr : ContractMessageAttr} {p : Syn.Path}
    {name : Option Ident} {list : List Custom} (hnew : ContractMessageAttr.new P tokens = .ok attr)
    (hform : MessagesForm P p name list tokens) : attr.customs = flags list := by
  obtain ⟨path, p', name', as, tail, hpath, has, htail, heq, -, -⟩ := messages_new_ok_iff.mp hnew
  obtain ⟨-, -, hcustoms⟩ := hform.parts hpath has htail.trails heq
  rcases htail with ⟨list', hlist', hflags⟩ | ⟨joint, other, -, -, rfl, -⟩
  · rw [hflags, hlist'.unique P hcustoms]
  · cases hcustoms

/-! ## Exactness -/

/-- Accepted if and only if in the documented form, with the flags of the list. -/
def Exact (P : PathSyntax) (tokens : List Token) : Prop :=
  ((∃ attr, ContractMessageAttr.new P tokens = .ok attr) ↔ ∃ p name list, MessagesForm P p name list tokens) ∧
    ∀ attr p name list, ContractMessageAttr.new P tokens = .ok attr → MessagesForm P p name list tokens →
      (attr.customs.hasMsg = true ↔ .msg ∈ list) ∧ (attr.customs.hasQuery = true ↔ .query ∈ list)

/-- A lone name after the colon that is not `custom`, or the documented form without `as`
    on a path whose last segment gives no name. -/
def Slips (P : PathSyntax) (tokens : List Token) : Prop :=
  (∃ path p name as joint other, P.parse path = .ok (p, []) ∧ AsTokens name as ∧ (variantOf p name).isSome = true ∧
    acceptAsIdent other = true ∧ other ≠ "custom" ∧ tokens = path ++ (as ++ [.punct ':' joint, .ident other])) ∨
    ∃ p list, MessagesForm P p none list tokens ∧ variantOf p none = none

theorem not_slips_of_exact {P : PathSyntax} {tokens : List Token} (h : Exact P tokens) : ¬ Slips P tokens := by
  intro hslips
  rcases hslips with ⟨path, p, name, as, joint, other, hpath, has, hsome, hident, hne, heq⟩ | ⟨p, list, hform, hnone⟩
  · -- accepted with both flags off, but not in the form
    obtain ⟨variant, hvariant⟩ := Option.isSome_iff_exists.mp hsome
    have htail : Tail ⟨false, false⟩ [.punct ':' joint, .ident other] := .inr ⟨joint, other, hident, hne, rfl, rfl⟩
    have hnew : ContractMessageAttr.new P tokens = .ok ⟨stripGenerics p, variant, ⟨false, false⟩⟩ :=
      messages_new_ok_iff.mpr ⟨path, p, name, as, _, hpath, has, htail, heq, hvariant, rfl⟩
    obtain ⟨p', name', list, hform⟩ := h.1.mp ⟨_, hnew⟩
    obtain ⟨-, -, hcustoms⟩ := hform.parts hpath has htail.trails heq
    cases hcustoms
  · -- in the form, but there is no name
    obtain ⟨attr, hnew⟩ := h.1.mpr ⟨p, none, list, hform⟩
    obtain ⟨path, p', name', as, tail, hpath, has, htail, heq, hvariant, -⟩ := messages_new_ok_iff.mp hnew
    obtain ⟨rfl, rfl, -⟩ := hform.parts hpath has htail.trails heq
    rw [hnone] at hvariant
    cases hvariant

theorem exact_of_not_slips {P : PathSyntax} {tokens : List Token} (h : ¬ Slips P tokens) : Exact P tokens := by
  refine ⟨⟨?_, ?_⟩, ?_⟩
  · intro haccepted
    rcases haccepted with ⟨attr, hnew⟩
    obtain ⟨path, p, name, as, tail, hpath, has, htail, rfl, hvariant, -⟩ := messages_new_ok_iff.mp hnew
    rcases htail with ⟨list, hlist, -⟩ | ⟨joint, other, hident, hne, rfl, -⟩
    · exact ⟨p, name, list, .mk hpath has hlist⟩
    · have hsome : (variantOf p name).isSome = true := by rw [hvariant]; rfl
      exact absurd (.inl ⟨path, p, name, as, joint, other, hpath, has, hsome, hident, hne, rfl⟩) h
  · intro hform
    rcases hform with ⟨p, name, list, hform⟩
    cases hvariant : variantOf p name with
    | none =>
      cases name with
      | none => exact absurd (.inr ⟨p, list, hform, hvariant⟩) h
      | some name => cases hvariant
    | some variant =>
      obtain ⟨hpath, has, hcustoms⟩ := hform
      exact ⟨⟨stripGenerics p, variant, flags list⟩,
        messages_new_ok_iff.mpr ⟨_, p, name, _, _, hpath, has, .inl ⟨list, hcustoms, rfl⟩, rfl, hvariant, rfl⟩⟩
  · intro attr p name list hnew hform
    rw [new_flags hnew hform]
    simp [flags]

/-- A sequence is accepted exactly when it has the documented form, with the flags of its
    list, unless it is one of those that slip. -/
theorem messages_exact_iff (P : PathSyntax) (tokens : List Token) : Exact P tokens ↔ ¬ Slips P tokens :=
  ⟨not_slips_of_exact, exact_of_not_slips⟩

/-- Paths of a single segment. -/
def parseIdentPath (tokens : List Token) : Except Failure (Syn.Path × List Token) := do
  let (x, rest) ← parseIdent tokens
  .ok (.ofIdent x, rest)

theorem parseIdentPath_ok_iff {tokens rest : List Token} {p : Syn.Path} : parseIdentPath tokens = .ok (p, rest) ↔
    ∃ x, acceptAsIdent x = true ∧ p = .ofIdent x ∧ tokens = .ident x :: rest := by
  constructor
  · intro h
    obtain ⟨⟨x, rest'⟩, hx, h⟩ := bind_ok_iff.mp h
    obtain ⟨rfl, rfl⟩ := Prod.mk.inj (Except.ok.inj h)
    obtain ⟨hident, rfl⟩ := parseIdent_ok_iff.mp hx
    exact ⟨x, hident, rfl, rfl⟩
  · intro h
    rcases h with ⟨x, hident, rfl, rfl⟩
    exact bind_ok_iff.mpr ⟨(x, rest), parseIdent_ok_iff.mpr ⟨hident, rfl⟩, rfl⟩

def identPath : PathSyntax where
  parse := parseIdentPath
  consumes := by
    intro tokens rest p h
    obtain ⟨x, -, -, rfl⟩ := parseIdentPath_ok_iff.mp h
    exact Nat.lt_succ_self _
  sound := by
    intro tokens rest p h
    obtain ⟨x, hident, rfl, rfl⟩ := parseIdentPath_ok_iff.mp h
    exact ⟨[.ident x], rfl, parseIdentPath_ok_iff.mpr ⟨x, hident, rfl, rfl⟩⟩
  stops := by
    intro path rest p h _
    obtain ⟨x, hident, rfl, rfl⟩ := parseIdentPath_ok_iff.mp h
    exact parseIdentPath_ok_iff.mpr ⟨x, hident, rfl, rfl⟩
  ident := by
    intro x hident
    exact parseIdentPath_ok_iff.mpr ⟨x, hident, rfl, rfl⟩
  ident_only := by
    intro path x h
    obtain ⟨y, -, hy, rfl⟩ := parseIdentPath_ok_iff.mp h
    cases hy
    rfl

/-- `interface as Cw1: custom(msg,)` -/
def customMsg : List Token :=
  [.ident "interface", .ident "as", .ident "Cw1", .punct ':' false, .ident "custom",
    .group .parenthesis [.ident "msg", .punct ',' false]]

theorem messages_exact_customMsg : Exact identPath customMsg := by
  have hlist : CommaList CustomTokens [.msg] ([.ident "msg"] ++ .punct ',' false :: []) := .cons rfl .nil
  have hpath : identPath.parse [.ident "interface"] = .ok (.ofIdent "interface", []) := identPath.ident (by decide)
  have has : AsTokens (some "Cw1") [.ident "as", .ident "Cw1"] := .present (by decide)
  have hcustoms : CustomsTokens [.msg] [.punct ':' false, .ident "custom",
      .group .parenthesis [.ident "msg", .punct ',' false]] := .present hlist
  refine (messages_exact_iff identPath customMsg).mpr ?_
  intro hslips
  rcases hslips with ⟨path, p, name, as, joint, other, -, -, -, -, -, heq⟩ | ⟨p, list, hform, -⟩
  · have hlast := congrArg List.getLast? heq
    simp [customMsg] at hlast
  · obtain ⟨-, hname, -⟩ := hform.parts hpath has hcustoms.trails rfl
    cases hname

/-- `interface: custum` -/
def custum : List Token := [.ident "interface", .punct ':' false, .ident "custum"]

theorem custum_accepted : ¬ Exact identPath custum := by
  intro h
  refine not_slips_of_exact h (.inl ⟨[.ident "interface"], .ofIdent "interface", none, [], false, "custum", ?_⟩)
  refine ⟨identPath.ident (by decide), .absent, ?_, by decide, by decide, rfl⟩
  decide

end Sylvia.Parser
