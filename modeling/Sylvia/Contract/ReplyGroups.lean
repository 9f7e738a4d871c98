/-
  Sylvia.Contract.ReplyGroups — the records of `as_reply_data`, whatever it reports.

  A method that clashes with a record is reported and dropped, and the methods after it
  are compared with what is left. So a record keeps some of the methods of its id, in
  order, of which no two clash, and all of them if no two of its id clash (`Keeps`). The
  first report of a list comes while nothing has been dropped yet (`reported_iff`).

  Proved: `asReplyData_groups`: for the handlers that the methods name, distinct ids in the
  order they first occur, one method or a `success` and an `error` one to a record, a
  report exactly for a clash, and without one every method in the record of its id and
  nothing else in it.
-/
import Sylvia.Base.Lists
import Sylvia.Contract.Reply

namespace Sylvia.Contract

open Sylvia.Base Sylvia.Parser Sylvia.Types

variable {Ty : Type}

/-- What a record keeps of a method. -/
def handlerOf (s : Served Ty) : Ident × ReplyOn := (s.method.functionName, s.method.replyOn)

/-- Two methods are for one reply id and share an outcome. -/
def Clash (s t : Served Ty) : Prop := s.replyId = t.replyId ∧ s.method.replyOn.excludes t.method.replyOn = true

theorem excludes_iff (a b : ReplyOn) : a.excludes b = true ↔ a = b ∨ a = .always ∨ b = .always := by
  simp [ReplyOn.excludes]

/-- Methods of one id that do not clash share no outcome. -/
theorem apart_of_pairwise {served : List (Served Ty)} (h : served.Pairwise fun s t => ¬ Clash s t) (id : Ident) :
    (ofKey Served.replyId id served).Pairwise fun s t => s.method.replyOn.excludes t.method.replyOn = false := by
  refine (h.filter _).imp_of_mem ?_
  intro s t hs ht hclash
  by_contra hex
  exact hclash ⟨(mem_ofKey.mp hs).2.trans (mem_ofKey.mp ht).2.symm, by simpa using hex⟩

/-- Only `success` and `error` share no outcome. -/
theorem excludes_eq_false {a b : ReplyOn} :
    a.excludes b = false ↔ (a = .success ∧ b = .error) ∨ (a = .error ∧ b = .success) := by
  cases a <;> cases b <;> decide

/-- Methods of which no two clash: one, or a `success` and an `error` one. -/
theorem handlers_of_apart {g : List (Served Ty)} (hne : g ≠ [])
    (hg : g.Pairwise fun s t => s.method.replyOn.excludes t.method.replyOn = false) :
    (∃ h, g.map handlerOf = [h]) ∨ ∃ f f', g.map handlerOf = [(f, .success), (f', .error)] ∨
      g.map handlerOf = [(f, .error), (f', .success)] := by
  match g, hne with
  | [s], _ => exact Or.inl ⟨_, rfl⟩
  | [s, t], _ =>
    have hst : s.method.replyOn.excludes t.method.replyOn = false := by simpa using hg
    refine Or.inr ⟨s.method.functionName, t.method.functionName, ?_⟩
    rcases excludes_eq_false.mp hst with ⟨hs, ht⟩ | ⟨hs, ht⟩
    · exact Or.inl (by simp [handlerOf, hs, ht])
    · exact Or.inr (by simp [handlerOf, hs, ht])
  | s :: t :: u :: rest, _ =>
    obtain ⟨hs, ht, -⟩ : _ ∧ _ ∧ _ := by simpa only [List.pairwise_cons] using hg
    -- `t` and `u` would both be what `s` is not
    rcases excludes_eq_false.mp (hs t (by simp)) with ⟨hos, hot⟩ | ⟨hos, hot⟩ <;>
      rcases excludes_eq_false.mp (hs u (by simp)) with ⟨hos', hou⟩ | ⟨hos', hou⟩ <;>
      rcases excludes_eq_false.mp (ht u (by simp)) with ⟨hot', hou'⟩ | ⟨hot', hou'⟩ <;>
      simp [hos, hot, hou] at hos' hot' hou'

/-! ## What making and adding report -/

theorem new_not_duplicated (replyId handlerId : Ident) (v : MsgVariant Ty) :
    ¬ (ReplyData.new replyId v handlerId).Reports "Duplicated reply handler." := by
  have hdata : ¬ (asDataField v).Reports "Duplicated reply handler." := by
    unfold asDataField
    split
    · split
      · simp
      · split <;> simp
    · simp
  have hattrs : ¬ (validateFieldsAttributes v).Reports "Duplicated reply handler." := by
    unfold validateFieldsAttributes parseErrors
    simp only [List.forM_eq_forM, Emit.reports_forM]
    intro h
    rcases h with ⟨attr, -, h⟩
    cases attr <;> simp at h
  have hparams (payload : List (MsgField Ty)) :
      ¬ (assertNoRedundantParams payload).Reports "Duplicated reply handler." := by
    unfold assertNoRedundantParams
    split
    · simp
    · dsimp only
      split
      · simp
      · split <;> simp
  simp [ReplyData.new, hdata, hattrs, hparams]

/-! ## What a record keeps -/

/-- A record's account of the methods of its id. -/
structure Keeps (g : List (Served Ty)) (rd : ReplyData Ty) : Prop where
  first : ∃ s ∈ g.head?, rd.handlerId = s.handlerId ∧ rd.data = dataOf s.method ∧ rd.payload = payloadOf s.method
  kept : ∃ k, k.Sublist g ∧ k ≠ [] ∧ rd.handlers = k.map handlerOf ∧
    k.Pairwise fun s t => s.method.replyOn.excludes t.method.replyOn = false
  all : (g.Pairwise fun s t => s.method.replyOn.excludes t.method.replyOn = false) → rd.handlers = g.map handlerOf

theorem make_keeps (s : Served Ty) : Keeps [s] s.make.val :=
  ⟨⟨s, rfl, rfl, rfl, rfl⟩, ⟨[s], List.Sublist.refl _, by simp, rfl, List.pairwise_singleton _ _⟩, fun _ => rfl⟩

theorem Keeps.handlers_ne_nil {g : List (Served Ty)} {rd : ReplyData Ty} (h : Keeps g rd) : rd.handlers ≠ [] := by
  obtain ⟨k, -, hne, hhandlers, -⟩ := h.kept
  simpa [hhandlers] using hne

variable [DecidableEq Ty]

theorem merge_not_duplicated (rd : ReplyData Ty) (v : MsgVariant Ty) :
    ¬ (rd.merge v).Reports "Duplicated reply handler." := by
  unfold ReplyData.merge
  split
  · simp
  · simp [new_not_duplicated]

theorem addTo_replyId (rd : ReplyData Ty) (s : Served Ty) : (s.addTo rd).val.replyId = rd.replyId := by
  unfold Served.addTo ReplyData.merge
  split
  · simp
  · split <;> simp

/-- A method that clashes with a record is reported and leaves it as it is; of another one
    its name is added, and no clash is reported. -/
theorem addTo_cases {rd : ReplyData Ty} (hne : rd.handlers ≠ []) (s : Served Ty) :
    ((∃ h ∈ rd.handlers, h.2.excludes s.method.replyOn = true) ∧ (s.addTo rd).val = rd ∧
      (s.addTo rd).Reports "Duplicated reply handler.") ∨
    ((∀ h ∈ rd.handlers, h.2.excludes s.method.replyOn = false) ∧
      (s.addTo rd).val = { rd with handlers := rd.handlers ++ [handlerOf s] } ∧
      ¬ (s.addTo rd).Reports "Duplicated reply handler.") := by
  unfold Served.addTo
  by_cases hany : rd.handlers.any (fun h => h.2.excludes s.method.replyOn) = true
  · obtain ⟨h, hh, -⟩ := List.any_eq_true.mp hany
    have hdup : ∃ h, h ∈ rd.handlers := ⟨h, hh⟩
    rw [if_pos hany]
    exact Or.inl ⟨List.any_eq_true.mp hany, by simp, by simpa using hdup⟩
  · rw [if_neg hany]
    exact Or.inr ⟨by simpa using hany, merge_val hne s.method, merge_not_duplicated rd s.method⟩

theorem addTo_reports_iff {rd : ReplyData Ty} (hne : rd.handlers ≠ []) (s : Served Ty) :
    (s.addTo rd).Reports "Duplicated reply handler." ↔ ∃ h ∈ rd.handlers, h.2.excludes s.method.replyOn = true := by
  rcases addTo_cases hne s with ⟨hex, -, hdup⟩ | ⟨hno, -, hdup⟩
  · exact ⟨fun _ => hex, fun _ => hdup⟩
  · refine ⟨fun h => absurd h hdup, ?_⟩
    intro ⟨h, hh, hex⟩
    rw [hno h hh] at hex
    cases hex

/-! ## Records -/

theorem addTo_keeps {g : List (Served Ty)} {rd : ReplyData Ty} (h : Keeps g rd) (s : Served Ty) :
    (s.addTo rd).val.replyId = rd.replyId ∧ Keeps (g ++ [s]) (s.addTo rd).val := by
  obtain ⟨first, hfirst, hof⟩ := h.first
  obtain ⟨k, hsub, hne, hhandlers, hapart⟩ := h.kept
  have hhead : first ∈ (g ++ [s]).head? := by
    rw [List.head?_append, hfirst]
    rfl
  rcases addTo_cases h.handlers_ne_nil s with ⟨⟨x, hx, hex⟩, hval, -⟩ | ⟨hno, hval, -⟩
  · rw [hval]
    refine ⟨rfl, ⟨first, hhead, hof⟩, ⟨k, hsub.trans (List.sublist_append_left _ _), hne, hhandlers, hapart⟩, ?_⟩
    intro hpw
    obtain ⟨hg, -, hlast⟩ := List.pairwise_append.mp hpw
    rw [h.all hg] at hx
    obtain ⟨t, ht, rfl⟩ := List.mem_map.mp hx
    exact absurd (hex.symm.trans (hlast t ht s List.mem_cons_self)) (by decide)
  · rw [hval]
    refine ⟨rfl, ⟨first, hhead, hof⟩, ⟨k ++ [s], hsub.append (List.Sublist.refl _), by simp, by simp [hhandlers], ?_⟩, ?_⟩
    · refine List.pairwise_append.mpr ⟨hapart, List.pairwise_singleton _ _, ?_⟩
      intro t ht u hu
      obtain rfl := List.mem_singleton.mp hu
      exact hno (handlerOf t) (hhandlers ▸ List.mem_map_of_mem ht)
    · intro hpw
      show rd.handlers ++ [handlerOf s] = _
      rw [h.all (List.pairwise_append.mp hpw).1, List.map_append]
      rfl

/-- The records of the methods served so far. -/
def records (served : List (Served Ty)) : Emit (List (ReplyData Ty)) :=
  groupAll Served.replyId ReplyData.replyId Served.make Served.addTo served

theorem records_grouped (served : List (Served Ty)) :
    Grouped Served.replyId ReplyData.replyId Keeps served (records served).val := by
  apply grouped
  · intro s
    exact ⟨rfl, make_keeps s⟩
  · intro s g rd hg hid
    rw [← hid]
    exact addTo_keeps hg s

theorem records_ids (served : List (Served Ty)) :
    (records served).val.map ReplyData.replyId = (served.map Served.replyId).eraseDups := by
  have hmake : ∀ s : Served Ty, s.make.val.replyId = s.replyId := fun _ => rfl
  exact groupAll_keys hmake addTo_replyId served

/-! ## What is reported -/

/-- The report for a method, if there is one. -/
theorem place_reports_iff {served : List (Served Ty)} (x : Served Ty) :
    (place Served.replyId ReplyData.replyId Served.make Served.addTo x (records served).val).Reports
        "Duplicated reply handler." ↔
      ∃ rd ∈ (records served).val, rd.replyId = x.replyId ∧ ∃ h ∈ rd.handlers, h.2.excludes x.method.replyOn = true := by
  have hg := records_grouped served
  rcases place_cases Served.replyId ReplyData.replyId Served.make Served.addTo x (records served).val with
    ⟨hne, hp⟩ | ⟨pre, rd, post, hrds, hid, hp⟩
  · rw [hp, Emit.reports_map]
    refine ⟨fun h => absurd h (new_not_duplicated _ _ _), ?_⟩
    intro ⟨rd, hrd, hid, _⟩
    exact absurd hid (hne rd hrd)
  · have hrd : rd ∈ (records served).val := by simp [hrds]
    rw [hp, Emit.reports_map, addTo_reports_iff (hg.describes rd hrd).handlers_ne_nil]
    constructor
    · intro hex
      exact ⟨rd, hrd, hid, hex⟩
    · intro ⟨rd', hrd', hid', hex⟩
      rwa [List.inj_on_of_nodup_map hg.nodup hrd hrd' (hid.trans hid'.symm)]

theorem reported_iff (served : List (Served Ty)) :
    (records served).Reports "Duplicated reply handler." ↔ ¬ served.Pairwise fun s t => ¬ Clash s t := by
  induction served using List.reverseRecOn with
  | nil => simp [records, groupAll]
  | append_singleton served x ih =>
    have hstep : records (served ++ [x]) = records served >>= fun rds =>
        place Served.replyId ReplyData.replyId Served.make Served.addTo x rds := groupAll_concat served x
    rw [hstep, Emit.reports_bind, place_reports_iff, ih]
    by_cases hpw : served.Pairwise fun s t => ¬ Clash s t
    · -- nothing was dropped, so the records know of every method so far
      have hg := records_grouped served
      have hall {rd : ReplyData Ty} (hrd : rd ∈ (records served).val) :
          rd.handlers = (ofKey Served.replyId rd.replyId served).map handlerOf :=
        (hg.describes rd hrd).all (apart_of_pairwise hpw rd.replyId)
      rw [or_iff_right (not_not_intro hpw), List.pairwise_append]
      simp only [hpw, List.pairwise_singleton, List.mem_singleton, forall_eq, true_and]
      push Not
      constructor
      · intro h
        rcases h with ⟨rd, hrd, hid, h, hh, hex⟩
        rw [hall hrd] at hh
        obtain ⟨s, hs, rfl⟩ := List.mem_map.mp hh
        obtain ⟨hs, he⟩ := mem_ofKey.mp hs
        exact ⟨s, hs, he.trans hid, hex⟩
      · intro h
        rcases h with ⟨s, hs, he, hex⟩
        obtain ⟨rd, hrd, hid⟩ := hg.has_record s hs
        refine ⟨rd, hrd, hid.trans he, handlerOf s, ?_, hex⟩
        rw [hall hrd]
        exact List.mem_map_of_mem (mem_ofKey.mpr ⟨hs, hid.symm⟩)
    · have hpw' : ¬ (served ++ [x]).Pairwise fun s t => ¬ Clash s t :=
        fun h => hpw (List.pairwise_append.mp h).1
      exact ⟨fun _ => hpw', fun _ => Or.inl hpw⟩

/-! ## The grouping -/

theorem asReplyData_groups {variants : List (MsgVariant Ty)} {out : Emit (List (ReplyData Ty))}
    (h : asReplyData variants = some out) : ∃ served, allServed variants = some served ∧
      (served.map (fun s => (s.method, s.handlerId)) = variants.flatMap (fun v =>
          (if v.msgAttr.handlers = [] then [v.functionName] else v.msgAttr.handlers).map fun handler => (v, handler)) ∧
        ∀ s ∈ served, s.replyId = toCase .upperSnake s.handlerId ++ "_REPLY_ID") ∧
      ((out.val.map ReplyData.replyId).Nodup ∧
        out.val.map ReplyData.replyId = (served.map Served.replyId).eraseDups) ∧
      (∀ rd ∈ out.val, (∃ h, rd.handlers = [h]) ∨ ∃ f f', rd.handlers = [(f, .success), (f', .error)] ∨
        rd.handlers = [(f, .error), (f', .success)]) ∧
      (out.Reports "Duplicated reply handler." ↔ ∃ (i j : Nat) (s t : Served Ty), i < j ∧ served[i]? = some s ∧ served[j]? = some t ∧
        s.replyId = t.replyId ∧ (s.method.replyOn = t.method.replyOn ∨ s.method.replyOn = .always ∨
          t.method.replyOn = .always)) ∧
      (¬ out.Reports "Duplicated reply handler." →
        (∀ s ∈ served, ∃! rd, rd ∈ out.val ∧ rd.replyId = s.replyId) ∧
        ∀ rd ∈ out.val, rd.handlers = (served.filter fun s => s.replyId = rd.replyId).map fun s =>
          (s.method.functionName, s.method.replyOn)) := by
  obtain ⟨served, hs, hout⟩ := Option.bind_eq_some_iff.mp h
  obtain rfl : records served = out := Option.some.inj hout
  have hg := records_grouped served
  refine ⟨served, hs, allServed_declared hs, ⟨hg.nodup, records_ids served⟩, ?_, ?_, ?_⟩
  · intro rd hrd
    obtain ⟨k, -, hne, hhandlers, hapart⟩ := (hg.describes rd hrd).kept
    rw [hhandlers]
    exact handlers_of_apart hne hapart
  · rw [reported_iff, List.pairwise_iff_getElem]
    simp only [← excludes_iff]
    constructor
    · intro hclash
      push Not at hclash
      obtain ⟨i, j, hi, hj, hij, hid, hex⟩ := hclash
      exact ⟨i, j, served[i], served[j], hij, List.getElem?_eq_getElem hi, List.getElem?_eq_getElem hj, hid, hex⟩
    · intro ⟨i, j, s, t, hij, hi, hj, hid, hex⟩ hpw
      obtain ⟨hi', rfl⟩ := List.getElem?_eq_some_iff.mp hi
      obtain ⟨hj', rfl⟩ := List.getElem?_eq_some_iff.mp hj
      exact hpw i j hi' hj' hij ⟨hid, hex⟩
  · intro hno
    have hpw := not_not.mp (mt (reported_iff served).mpr hno)
    refine ⟨?_, fun rd hrd => (hg.describes rd hrd).all (apart_of_pairwise hpw rd.replyId)⟩
    intro s hs
    obtain ⟨rd, hrd, hid⟩ := hg.has_record s hs
    refine ⟨rd, ⟨hrd, hid⟩, ?_⟩
    intro rd' ⟨hrd', hid'⟩
    exact List.inj_on_of_nodup_map hg.nodup hrd' hrd (hid'.trans hid.symm)

/-- An `always` method, and one that wants its successes. -/
def notified : List (MsgVariant Unit) :=
  [⟨"Notified", "notified", [⟨"result", (), []⟩, ⟨"memo", (), []⟩], ⟨.reply, [], .always⟩, none⟩,
    ⟨"OnNotified", "on_notified", [⟨"memo", (), []⟩], ⟨.reply, ["notified"], .success⟩, none⟩]

theorem asReplyData_groups_notified :
    ∃ out, asReplyData notified = some out ∧ out.Reports "Duplicated reply handler." := by
  obtain ⟨out, built⟩ : ∃ out, asReplyData notified = some out := Option.isSome_iff_exists.mp (by decide)
  obtain ⟨served, hs, -, -, -, hdup, -⟩ := asReplyData_groups built
  refine ⟨out, built, hdup.mpr ⟨0, 1, ?_⟩⟩
  obtain rfl : served = _ := Option.some.inj (hs.symm.trans rfl)
  exact ⟨_, _, by decide, rfl, rfl, by decide, Or.inr (Or.inl rfl)⟩

end Sylvia.Contract
