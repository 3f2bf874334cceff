import Netlib.Spec.HttpReply
import Netlib.Proof.HttpSocket
import Netlib.Proof.HttpBaseMsg
import Mathlib.Data.Nat.Digits.Lemmas

/-!
# A reply is read as it was set

Calls of the setters in order, completed by `SetBody`, write a start line, header lines
and a body (`setMissing_pbuffer`). No value brings a CR LF into a line, and no field but
the last is taken for a Content-Length, so the bytes are a message whose length the
parser finds (`reply_sized`). Such a message is read in any chunks (`feed_text`).
-/

namespace Netlib

open Lib

/-! ## The bytes that the setters write -/

namespace SetCall

open HttpMsg HttpSvrSendMsg

variable {cs : List SetCall}

theorem run_field {c : SetCall} {l : List Byte} (h : c.field? = some l) (s : HttpSvrSendMsg) :
    c.run s = s.set c.flag startFlags (l ++ [cr, lf]) := by
  cases c
  case setHttpVersion | setStatusCode | setStatusPhrase => cases h
  all_goals
    simp only [field?, Option.some.injEq] at h
    subst h
    rfl

/-- Header fields after a whole start line. -/
theorem runAll_fields (cs : List SetCall) : ∀ {s : HttpSvrSendMsg}, (∀ c ∈ cs, c.field?.isSome) →
    (cs.map flag).Nodup → (∀ f ∈ startFlags, f ∈ s._flag) → (∀ c ∈ cs, c.flag ∉ s._flag) →
    runAll s cs = some ⟨s._pbuffer ++ (cs.filterMap field?).flatMap (· ++ [cr, lf]),
      (cs.map flag).reverse ++ s._flag⟩ := by
  induction cs with
  | nil =>
    intro s _ _ _ _
    simp [runAll]
  | cons c cs ih =>
    intro s hfield hnodup hstart hnew
    obtain ⟨l, hl⟩ := Option.isSome_iff_exists.mp (hfield c List.mem_cons_self)
    rw [List.map_cons, List.nodup_cons] at hnodup
    have hset : c.run s = (true, ⟨s._pbuffer ++ (l ++ [cr, lf]), c.flag :: s._flag⟩) := by
      rw [run_field hl, HttpSvrSendMsg.set, if_pos ⟨hnew c List.mem_cons_self, hstart⟩]
    -- the bit of `c` is not one of the later ones
    have hnew' : ∀ d ∈ cs, d.flag ∉ c.flag :: s._flag := by
      intro d hd hmem
      rcases List.mem_cons.mp hmem with heq | hmem
      · exact hnodup.1 (heq ▸ List.mem_map_of_mem hd)
      · exact hnew d (List.mem_cons_of_mem _ hd) hmem
    have hrest := ih (s := ⟨s._pbuffer ++ (l ++ [cr, lf]), c.flag :: s._flag⟩)
      (fun d hd => hfield d (List.mem_cons_of_mem _ hd)) hnodup.2
      (fun f hf => List.mem_cons_of_mem _ (hstart f hf)) hnew'
    simp only [runAll, hset, hrest, List.filterMap_cons, hl, List.flatMap_cons, List.map_cons,
      List.reverse_cons, List.append_assoc, List.singleton_append]

theorem flag_field {c : SetCall} (h : c.field?.isSome) : c.flag ∉ startFlags ∧ c.flag ≠ .body := by
  cases c
  case setHttpVersion | setStatusCode | setStatusPhrase => cases h
  all_goals simp [flag, startFlags]

/-- The header lines before the Content-Length. -/
def otherFields (cs : List SetCall) : List (List Byte) :=
  cs.filterMap field? ++ if .contType ∈ cs.map flag then [] else [typeName ++ defaultType]

/-- **Calls in order are accepted**, and `SetBody` completes the start line and the fields. -/
theorem setMissing_pbuffer (h : InOrder cs) : ∃ s, runAll .new cs = some s ∧ .body ∉ s._flag ∧
    s.setMissing._pbuffer = startLine (versionOf cs) (statusOf cs) (phraseOf cs) ++
      (otherFields cs).flatMap (· ++ [cr, lf]) := by
  cases h with
  | missing => exact ⟨_, rfl, by decide, rfl⟩
  | version ver => exact ⟨_, rfl, by simp [new], rfl⟩
  | status ver status => exact ⟨_, rfl, by simp [new], rfl⟩
  | fields ver status phrase cs hfield hnodup =>
    have hstart : runAll .new ([setHttpVersion ver, setStatusCode status, setStatusPhrase phrase] ++ cs) =
        runAll ⟨startLine ver status phrase, startFlags.reverse⟩ cs := rfl
    have hnew : ∀ c ∈ cs, c.flag ∉ startFlags.reverse := by
      intro c hc hmem
      exact (flag_field (hfield c hc)).1 (List.mem_reverse.mp hmem)
    have hrun := runAll_fields cs (s := ⟨startLine ver status phrase, startFlags.reverse⟩) hfield
      hnodup (fun f hf => List.mem_reverse.mpr hf) hnew
    refine ⟨_, hstart.trans hrun, ?_, ?_⟩
    · intro hmem
      rcases List.mem_append.mp hmem with hmem | hmem
      · obtain ⟨c, hc, hbody⟩ := List.mem_map.mp (List.mem_reverse.mp hmem)
        exact (flag_field (hfield c hc)).2 hbody
      · exact absurd (show .body ∈ startFlags.reverse from hmem) (by decide)
    · have hhas : ∀ f ∈ startFlags, f ∈ (cs.map flag).reverse ++ startFlags.reverse := by
        intro f hf
        exact List.mem_append_right _ (List.mem_reverse.mpr hf)
      have hfields : ([setHttpVersion ver, setStatusCode status, setStatusPhrase phrase] ++
          cs).filterMap field? = cs.filterMap field? := rfl
      have htype : .contType ∈ ([setHttpVersion ver, setStatusCode status, setStatusPhrase phrase] ++
          cs).map flag ↔ .contType ∈ cs.map flag := by simp [flag]
      have htype' : .contType ∈ (cs.map flag).reverse ++ startFlags.reverse ↔
          .contType ∈ cs.map flag := by simp [startFlags]
      -- nothing of the start line is missing
      unfold setMissing orSet otherFields
      rw [if_pos (hhas .ver (by decide)), if_pos (hhas .statusCode (by decide)),
        if_pos (hhas .statusPhrase (by decide)), hfields]
      simp only [htype, htype']
      by_cases hc : .contType ∈ cs.map flag
      · rw [if_pos hc, if_pos hc, List.append_nil]
        rfl
      · rw [if_neg hc, if_neg hc, HttpSvrSendMsg.setContentType, HttpSvrSendMsg.set,
          if_pos ⟨mt htype'.mp hc, hhas⟩, List.flatMap_append,
          show [typeName ++ defaultType].flatMap (· ++ [cr, lf]) = typeName ++ defaultType ++ [cr, lf]
            from rfl]
        exact List.append_assoc _ _ _

end SetCall

/-! ## The lines -/

namespace HttpMsg

theorem line_none_append {a b : List Byte} (ha : cr ∉ a) (hb : line b = none) :
    line (a ++ b) = none := by
  induction a with
  | nil => exact hb
  | cons x a ih =>
    rw [List.mem_cons, not_or] at ha
    have htail := ih ha.2
    rw [List.cons_append]
    rcases h : a ++ b with _ | ⟨y, t⟩
    · rfl
    · rw [h] at htail
      rw [line, if_neg fun hxy => ha.1 hxy.1.symm, htail]
      rfl

theorem isContentLen_other {name : List Byte} (hlen : 10 ≤ name.length)
    (h : name.take 10 ≠ _constr.take 10) (v : List Byte) : isContentLen (name ++ v) = false := by
  refine Bool.eq_false_iff.mpr fun hc => h ?_
  have htake : (name ++ v).take 14 = _constr.take 14 := by
    simp only [isContentLen, Bool.and_eq_true, beq_iff_eq] at hc
    exact hc.2
  have h10 := congrArg (List.take 10) htake
  rwa [List.take_take, List.take_take, List.take_append_of_le_length (by omega)] at h10

end HttpMsg

namespace HttpSvrSendMsg

open HttpMsg

theorem decimal_pos {n : ℕ} (h : 0 < n) :
    decimal n = (Nat.digits 10 n).reverse.map fun d => .ofNat (48 + d) := by
  have h0 : (n : ℤ) ≠ 0 := by omega
  have hneg : ¬ (n : ℤ) < 0 := by omega
  unfold decimal
  rw [if_neg h0, if_neg hneg, List.nil_append, Int.natAbs_natCast]

/-- The byte of a digit. -/
theorem digit_toNat {d : ℕ} (h : d < 10) : (UInt8.ofNat (48 + d)).toNat = 48 + d := by
  rw [UInt8.toNat_ofNat']
  omega

theorem decimal_digits {n : ℕ} (h : 0 < n) : ∀ x ∈ decimal n, 48 ≤ x ∧ x ≤ 57 := by
  intro x hx
  rw [decimal_pos h, List.mem_map] at hx
  obtain ⟨d, hd, rfl⟩ := hx
  have hlt := Nat.digits_lt_base (by decide) (List.mem_reverse.mp hd)
  rw [UInt8.le_iff_toNat_le, UInt8.le_iff_toNat_le, digit_toNat hlt]
  exact ⟨Nat.le_add_right 48 d, by change 48 + d ≤ 57; omega⟩

theorem decimal_length {n : ℕ} (h : 0 < n) (hn : n < 2 ^ 31) : (decimal n).length ≤ 10 := by
  rw [decimal_pos h, List.length_map, List.length_reverse, Nat.digits_length_le_iff (by decide)]
  omega

/-- The digits read back. -/
theorem value_decimal {n : ℕ} (h : 0 < n) : HttpText.value (decimal n) = n := by
  have hfold : ∀ l : List ℕ, (∀ d ∈ l, d < 10) →
      (l.map fun d => UInt8.ofNat (48 + d)).foldr (fun x acc => 10 * acc + (x.toNat - 48)) 0 =
        Nat.ofDigits 10 l := by
    intro l hl
    induction l with
    | nil => rfl
    | cons d l ih =>
      rw [List.map_cons, List.foldr_cons, ih fun d hd => hl d (List.mem_cons_of_mem _ hd),
        digit_toNat (hl d List.mem_cons_self), Nat.ofDigits_cons]
      omega
  have hdigits := hfold (Nat.digits 10 n) fun d => Nat.digits_lt_base (by decide)
  rw [HttpText.value, decimal_pos h, List.map_reverse, List.foldl_reverse, hdigits,
    Nat.ofDigits_digits]

/-- The Content-Length line. -/
theorem lengthLine_line {n : ℕ} (h : 0 < n) :
    _constr ++ decimal n ≠ [] ∧ line (_constr ++ decimal n) = none := by
  -- no digit is a CR
  have hcr : cr ∉ decimal n := fun hmem => absurd (decimal_digits h cr hmem).1 (by decide)
  refine ⟨List.append_ne_nil_of_left_ne_nil (by decide) _, line_none_append (by decide) ?_⟩
  simpa using line_none_append hcr (b := []) rfl

end HttpSvrSendMsg

/-- **One Content-Length with the length of the body**, before which no line begins like one. -/
theorem HttpText.sized_of_decimal {t : HttpText} (before after : List (List Byte))
    (hother : ∀ l ∈ before, HttpMsg.isContentLen l = false) (hpos : 0 < t.body.length)
    (hn : t.body.length < 2 ^ 31)
    (h : t.headers = before ++ [HttpMsg._constr ++ HttpSvrSendMsg.decimal t.body.length] ++ after) :
    t.Sized := by
  have hnone : before.find? HttpMsg.isContentLen = none := by
    rw [List.find?_eq_none]
    intro l hl
    rw [hother l hl]
    decide
  have hlast : HttpMsg.isContentLen (HttpMsg._constr ++ HttpSvrSendMsg.decimal t.body.length) = true := by
    simp only [HttpMsg.isContentLen, Bool.and_eq_true, decide_eq_true_eq, beq_iff_eq]
    refine ⟨?_, List.take_append_of_le_length (by decide)⟩
    rw [List.length_append]
    exact Nat.le_add_right 16 _
  have hfind : t.headers.find? HttpMsg.isContentLen =
      some (HttpMsg._constr ++ HttpSvrSendMsg.decimal t.body.length) := by
    rw [h, List.find?_append, List.find?_append, hnone, Option.none_or, List.find?_singleton,
      if_pos hlast, Option.some_or]
  have hne : HttpSvrSendMsg.decimal t.body.length ≠ [] := by
    rw [HttpSvrSendMsg.decimal_pos hpos]
    simp [Nat.digits_ne_nil_iff_ne_zero, Nat.ne_of_gt hpos]
  exact sized_of_digits hne (HttpSvrSendMsg.decimal_digits hpos)
    (HttpSvrSendMsg.decimal_length hpos hn) hfind (HttpSvrSendMsg.value_decimal hpos) hn

/-! ## The message -/

namespace SetCall

open HttpMsg HttpSvrSendMsg

variable {cs : List SetCall}

/-- What is set, or the default, has a property that all values and the default have. -/
theorem findSome_getD {P : List Byte → Prop} {f : SetCall → Option (List Byte)} {d : List Byte}
    (hd : P d) (h : ∀ c ∈ cs, ∀ v, f c = some v → P v) : P ((cs.findSome? f).getD d) := by
  cases hf : cs.findSome? f with
  | none => exact hd
  | some v =>
    obtain ⟨c, hc, hv⟩ := List.exists_of_findSome?_eq_some hf
    exact h c hc v hv

/-- A header line is a name of these and a value without CR LF. -/
theorem field_line {c : SetCall} (hv : c.Valid) {l : List Byte} (h : c.field? = some l) :
    l ≠ [] ∧ line l = none ∧ isContentLen l = false := by
  cases c
  case setHttpVersion | setStatusCode | setStatusPhrase => cases h
  all_goals
    simp only [field?, Option.some.injEq] at h
    subst h
    refine ⟨?_, line_none_append (by decide) hv, isContentLen_other (by decide) (by decide) _⟩
    exact List.append_ne_nil_of_left_ne_nil (by decide) _

theorem otherFields_line (hv : ∀ c ∈ cs, c.Valid) {l : List Byte} (h : l ∈ otherFields cs) :
    l ≠ [] ∧ line l = none ∧ isContentLen l = false := by
  rcases List.mem_append.mp h with h | h
  · obtain ⟨c, hc, hl⟩ := List.mem_filterMap.mp h
    exact field_line (hv c hc) hl
  · split at h
    · cases h
    · rw [List.mem_singleton] at h
      exact field_line (c := .setContentType defaultType) (by decide : line defaultType = none) (by rw [h]; rfl)

/-- **The message that is sent**. -/
def reply (cs : List SetCall) (hv : ∀ c ∈ cs, c.Valid) (body : List Byte) (hpos : 0 < body.length) :
    HttpText where
  line1 := versionOf cs
  line2 := statusOf cs
  line3 := phraseOf cs
  headers := fieldsOf cs body.length
  body := body
  sp_line1 := by
    refine findSome_getD (P := (sp ∉ ·)) (by decide) ?_
    intro c hc v hf
    cases c <;> cases hf
    exact hv _ hc
  sp_line2 := by
    refine findSome_getD (P := (sp ∉ ·)) (by decide) ?_
    intro c hc v hf
    cases c <;> cases hf
    exact hv _ hc
  crlf_line3 := by
    refine findSome_getD (P := (line · = none)) (by decide) ?_
    intro c hc v hf
    cases c <;> cases hf
    exact hv _ hc
  crlf_headers := by
    intro l hl
    rcases List.mem_append.mp hl with hl | hl
    · have hother := otherFields_line hv hl
      exact ⟨hother.1, hother.2.1⟩
    · rw [List.mem_singleton.mp hl]
      exact lengthLine_line hpos

variable (hv : ∀ c ∈ cs, c.Valid) {body : List Byte} (hpos : 0 < body.length)

/-- The first line that the parser takes for a Content-Length is the one that `SetBody` wrote. -/
theorem reply_sized (hn : body.length < 2 ^ 31) : (reply cs hv body hpos).Sized := by
  refine HttpText.sized_of_decimal (otherFields cs) [] ?_ hpos hn (List.append_nil _).symm
  intro l hl
  exact (otherFields_line hv hl).2.2

/-- **`SetBody` completes the message.** -/
theorem setBody_reply (h : InOrder cs) : ∃ s f, runAll .new cs = some s ∧
    s.setBody body body.length = .ok (true, ⟨(reply cs hv body hpos).bytes, f⟩) := by
  obtain ⟨s, hrun, hbody, hmissing⟩ := setMissing_pbuffer h
  have hbytes : s.setMissing._pbuffer ++ _constr ++ decimal body.length ++ [cr, lf, cr, lf] ++
      body.take (body.length : ℤ).toNat = (reply cs hv body hpos).bytes := by
    have hhead : (reply cs hv body hpos).head = startLine (versionOf cs) (statusOf cs) (phraseOf cs) ++
        lineBytes (otherFields cs ++ [_constr ++ decimal body.length]) := rfl
    rw [HttpText.bytes, hhead, hmissing, Int.toNat_natCast, List.take_length, lineBytes,
      List.flatMap_append]
    simp [reply]
  refine ⟨s, .body :: s.setMissing._flag, hrun, ?_⟩
  rw [setBody, if_neg hbody]
  simp only
  rw [if_pos ⟨Int.natCast_nonneg _, Int.le_refl _⟩, hbytes]

end SetCall

/-! ## The reader -/

namespace HttpMsg

/-- What `n` calls return does not depend on how often the end would be repeated. -/
theorem take_replicate_succ {α : Type*} (l : List α) (a : α) (n : ℕ) :
    (l ++ List.replicate (n + 1) a).take n = (l ++ List.replicate n a).take n := by
  have hmin : min (n - l.length) (n + 1) = min (n - l.length) n := by omega
  rw [List.take_append, List.take_append, List.take_replicate, List.take_replicate, hmin]

/-- The calls of `NextHeader` from the `i`-th header on. -/
theorem nextHeaders_drop (n : ℕ) : ∀ (m : HttpMsg),
    m.nextHeaders n = (m.headers.drop m._header_iter ++ List.replicate n []).take n := by
  induction n with
  | zero => exact fun _ => rfl
  | succ n ih =>
    intro m
    unfold nextHeaders nextHeader
    cases hp : m._header_vec[m._header_iter]? with
    | none =>
      -- the end is reached and stays reached
      have hlen : m.headers.length ≤ m._header_iter := by
        rw [headers, List.length_map]
        exact List.getElem?_eq_none_iff.mp hp
      simp only [ih, List.drop_eq_nil_of_le hlen, List.nil_append, List.take_replicate, Nat.min_self]
      rfl
    | some p =>
      have hget : m.headers[m._header_iter]? = some (m.substr { p with end_ := p.end_ - 2 }) := by
        rw [headers, List.getElem?_map, hp]
        rfl
      have hcons := List.drop_eq_getElem?_toList_append (l := m.headers) (i := m._header_iter)
      rw [hget] at hcons
      simp only [ih, hcons, Option.toList_some, List.cons_append, List.nil_append, List.take_succ_cons,
        take_replicate_succ]
      rfl

/-- The calls of `NextHeader` from the first header on, where the last header is the empty line. -/
theorem nextHeaders_first {m : HttpMsg} {ls : List (List Byte)} (h : m.headers = ls ++ [[]])
    (hiter : m._header_iter = 0) (n : ℕ) :
    m.nextHeaders n = (ls ++ List.replicate n []).take n := by
  have hcut : ls ++ [[]] ++ List.replicate n [] = ls ++ List.replicate (n + 1) [] := by
    rw [List.append_assoc, List.replicate_succ]
    rfl
  rw [nextHeaders_drop, h, hiter, List.drop_zero, hcut, take_replicate_succ]

/-- **A message is read in any chunks**: all bytes are consumed, the parser is over after
the last one and not before, and then it holds the message. -/
theorem feed_text (k : HttpKind) {t : HttpText} (hs : t.Sized) (hb : t.body ≠ [])
    {chunks : List (List Byte)} (h : chunks.flatten <+: t.bytes) :
    ∃ m, Parser.feed (parse k) (clear k) chunks = .ok (chunks.map List.length, m) ∧
      (m._flag = .over ↔ chunks.flatten = t.bytes) ∧
      (chunks.flatten = t.bytes → m.parts = t.parts ∧ t.Held m) := by
  have htext := HttpText.parse_text k t (t.body ++ [])
  rw [HttpText.bodyRead_sized hs, List.append_nil] at htext
  obtain ⟨m', hparse, hparts, hover, -⟩ := htext
  have hlen : t.head.length + t.body.length = t.bytes.length := List.length_append.symm
  obtain ⟨rest, hrest⟩ := h
  -- one call on all bytes, then the same in chunks
  have hall : parse k (clear k) (chunks.flatten ++ rest) = .ok ((chunks.flatten ++ rest).length, m') := by
    rw [hrest, ← hlen]
    exact hparse
  have hheld : t.Held m' := by
    obtain ⟨m'', hwhole, hheld⟩ := HttpText.parse_sized k hs hb
    rw [hrest, hwhole] at hall
    cases hall
    exact hheld
  obtain ⟨m, hfeed, hlast⟩ := (parse_resumable k).feed_all chunks hall
  refine ⟨m, hfeed, ?_⟩
  rcases rest with _ | ⟨x, rest⟩
  · rw [List.append_nil] at hrest
    rw [parse_nil] at hlast
    cases hlast
    exact ⟨⟨fun _ => hrest, fun _ => hover hb⟩, fun _ => ⟨hparts, hheld⟩⟩
  · have hne : chunks.flatten ≠ t.bytes := by
      intro heq
      rw [heq] at hrest
      exact List.cons_ne_nil _ _ (List.append_cancel_left (hrest.trans (List.append_nil _).symm))
    refine ⟨⟨?_, fun heq => absurd heq hne⟩, fun heq => absurd heq hne⟩
    intro hf
    -- a parser that is over consumes nothing more
    rw [parse_over k hf] at hlast
    cases hlast

/-- The positions of header lines. -/
theorem mem_linePos {p : StrPos} (ls : List (List Byte)) : ∀ {beg : ℤ}, p ∈ linePos beg ls →
    beg ≤ p.beg ∧ p.beg + 2 ≤ p.end_ ∧ p.end_ ≤ beg + (lineBytes ls).length := by
  induction ls with
  | nil =>
    intro beg hp
    rw [List.mem_singleton.mp hp]
    exact ⟨Int.le_refl _, Int.le_refl _, Int.le_refl _⟩
  | cons l ls ih =>
    intro beg hp
    have hlen : (lineBytes (l :: ls)).length = l.length + 2 + (lineBytes ls).length := by
      simp [lineBytes]
      omega
    rcases List.mem_cons.mp hp with rfl | hp
    · refine ⟨Int.le_refl _, ?_, ?_⟩
      · change beg + 2 ≤ beg + l.length + 2
        omega
      · change beg + l.length + 2 ≤ beg + _
        omega
    · obtain ⟨h1, h2, h3⟩ := ih hp
      omega

end HttpMsg

namespace HttpBaseMsg

variable {k : HttpKind} {b : HttpBaseMsg} {t : HttpText} {cs : List SetCall} {body : List Byte}

/-- A getter of a part that lies in the message buffer. -/
theorem Sound.getPart (h : b.Sound) {p : StrPos}
    (hp : p.end_ ≠ 0 → 0 ≤ p.beg ∧ p.beg ≤ p.end_ ∧ p.end_ ≤ b._buffer._pos) :
    (if p.end_ = 0 then .ok [] else b.substr p) =
      (.ok (if p.end_ = 0 then [] else b.toMsg.substr p) : Except HttpFault (List Byte)) := by
  by_cases h0 : p.end_ = 0
  · rw [if_pos h0, if_pos h0]
  · obtain ⟨hbeg, hle, hend⟩ := hp h0
    rw [if_neg h0, if_neg h0, h.substr hbeg hle hend]

/-- **The getters of a whole message** return what those of `HttpMsg` do. -/
theorem Sound.holds (h : b.Sound) (hh : t.Held b.toMsg) (habs : HttpCliRecvMsg.Holds b.toMsg cs body) : b.Holds cs body := by
  have hhead : t.head.length = t.line1.length + t.line2.length + t.line3.length + 4 +
      (HttpMsg.lineBytes t.headers).length := by
    simp [HttpText.head, HttpMsg.startLine]
    omega
  have hbytes : t.bytes.length = t.head.length + t.body.length := List.length_append
  have hpos : b._buffer._pos = t.bytes.length := by
    rw [← h.wf.content_length]
    exact congrArg List.length hh.buffer
  have h1 : b._line1 = _ := hh.heads.line1
  have h2 : b._line2 = _ := hh.heads.line2
  have h3 : b._line3 = _ := hh.heads.line3
  have hbody : b._body = _ := hh.body
  refine
    { version := ?_
      status := ?_
      phrase := ?_
      headers := ?_
      body := ?_ }
  · rw [← habs.version]
    exact h.getPart fun _ => by rw [h1, hpos]; dsimp only; omega
  · rw [← habs.status]
    exact h.getPart fun _ => by rw [h2, hpos]; dsimp only; omega
  · rw [← habs.phrase]
    exact h.getPart fun _ => by rw [h3, hpos]; dsimp only; omega
  · intro n
    have hlines : b.initHeaderIter.Lines := by
      intro p hp
      have hvec : b._header_vec = _ := hh.heads.vec
      obtain ⟨hbeg, hle, hend⟩ := HttpMsg.mem_linePos t.headers (hvec ▸ hp)
      have hstart : t.head.length = (HttpMsg.startLine t.line1 t.line2 t.line3).length +
          (HttpMsg.lineBytes t.headers).length := List.length_append
      change 0 ≤ p.beg ∧ p.beg + 2 ≤ p.end_ ∧ p.end_ ≤ b._buffer._pos
      omega
    have hs : b.initHeaderIter.Sound := { h with }
    rw [hs.nextHeaders n hlines, ← habs.headers n]
    rfl
  · rw [← habs.body]
    exact h.getPart fun _ => by rw [hbody, hpos]; dsimp only; omega

end HttpBaseMsg

/-! ## The round trip -/

open HttpMsg HttpSvrSendMsg SetCall

/-- **A reply is read as it was set**: calls of the setters in order are accepted, and so
is `SetBody`; when the bytes are fewer than 2^31 the client consumes them in any chunks, its
parser is over exactly after the last one, and then its getters return what was set. -/
theorem HttpSvrSendMsg.reply_round_trip {cs : List SetCall} (h : InOrder cs)
    (hv : ∀ c ∈ cs, c.Valid) {body : List Byte} (hpos : 1 ≤ body.length)
    (hn : body.length < 2 ^ 31) :
    ∃ s s', runAll .new cs = some s ∧ s.setBody body body.length = .ok (true, s') ∧
      (s'._pbuffer.length < 2 ^ 31 → ∀ buffer : Buffer, buffer.WF →
        ∀ chunks : List (List Byte), chunks.flatten <+: s'._pbuffer →
          ∃ b, Parser.feed (HttpBaseMsg.parse .cli) (.clear .cli buffer) chunks =
              .ok (chunks.map List.length, b) ∧
            (b._flag = .over ↔ chunks.flatten = s'._pbuffer) ∧
            (chunks.flatten = s'._pbuffer → b.Holds cs body)) := by
  obtain ⟨s, f, hrun, hset⟩ := setBody_reply hv hpos h
  refine ⟨s, _, hrun, hset, ?_⟩
  intro hlt buffer hwf chunks hchunks
  have hne : body ≠ [] := List.ne_nil_of_length_pos hpos
  obtain ⟨m, hfeed, hover, hparts⟩ := feed_text .cli (reply_sized hv hpos hn) hne hchunks
  have hshort : (HttpBaseMsg.clear .cli buffer).Short chunks.flatten := by
    change 0 + chunks.flatten.length < 2 ^ 31
    rw [Nat.zero_add]
    exact Nat.lt_of_le_of_lt hchunks.length_le hlt
  rw [← HttpBaseMsg.toMsg_clear .cli buffer] at hfeed
  obtain ⟨b, hfeed', hs, hm⟩ := (HttpBaseMsg.sound_clear hwf).feed chunks hshort hfeed
  refine ⟨b, hfeed', ?_, ?_⟩
  · rw [← hover, ← hm]
    rfl
  intro hall
  obtain ⟨hp, hheld⟩ := hparts hall
  have habs : HttpCliRecvMsg.Holds m cs body :=
    { version := congrArg HttpParts.line1 hp
      status := congrArg HttpParts.line2 hp
      phrase := congrArg HttpParts.line3 hp
      headers := nextHeaders_first (m := m.initHeaderIter) (congrArg HttpParts.headers hp) rfl
      body := congrArg HttpParts.body hp }
  rw [← hm] at habs hheld
  exact hs.holds hheld habs

/-- A redirection: the phrase ends in a CR, and the fields come in another order. -/
def redirect : List SetCall :=
  [.setHttpVersion defaultVersion, .setStatusCode (chars ['3', '0', '2']),
    .setStatusPhrase (chars ['F', 'o', 'u', 'n', 'd', '\r'])] ++
  [.setContentLanguage (chars ['e', 'n']), .setLocation (chars ['/', 'a', ' ', 'b'])]

theorem HttpSvrSendMsg.reply_round_trip_redirect :
    ∃ s s', runAll .new redirect = some s ∧ s.setBody (chars ['h', 'i']) 2 = .ok (true, s') ∧
      s'._pbuffer.length = 121 ∧ ∀ buffer : Buffer, buffer.WF →
        ∀ chunks : List (List Byte), chunks.flatten <+: s'._pbuffer →
          ∃ b, Parser.feed (HttpBaseMsg.parse .cli) (.clear .cli buffer) chunks =
              .ok (chunks.map List.length, b) ∧
            (b._flag = .over ↔ chunks.flatten = s'._pbuffer) ∧
            (chunks.flatten = s'._pbuffer → b.Holds redirect (chars ['h', 'i'])) := by
  have horder : InOrder redirect := InOrder.fields _ _ _ _ (by decide) (by decide)
  obtain ⟨s, s', hrun, hset, hround⟩ := reply_round_trip horder (by decide)
    (show 1 ≤ (chars ['h', 'i']).length by decide) (by decide)
  have hlen : (runAll .new redirect).map (fun s =>
      (s.setBody (chars ['h', 'i']) (chars ['h', 'i']).length).toOption.map fun r => r.2._pbuffer.length) =
        some (some 121) := by decide +kernel
  rw [hrun, Option.map_some, hset] at hlen
  have hlen' : s'._pbuffer.length = 121 := Option.some.inj (Option.some.inj hlen)
  exact ⟨s, s', hrun, hset, hlen', hround (by omega)⟩

/-! ## A reply past 2^31 bytes -/

namespace HttpBaseMsg

open HttpText

variable {k : HttpKind} {b : HttpBaseMsg} {t : HttpText}

/-- **A body that ends past 2^31 bytes** is read, and the position of its end is negative. -/
theorem parse_body_long (k : HttpKind) (h : b.Sound) (hf : b._flag = .body) (hb : b._bodysize = -1)
    {body : List Byte} (hlen : b._checkContentLen = .ok body.length) (hne : body ≠ [])
    (hbody : body.length < 2 ^ 31) (hlo : 2 ^ 31 ≤ b._buffer._pos + body.length)
    (hhi : b._buffer._pos + body.length + bufferDefaultSize < 2 ^ 32) :
    ∃ b', parse k b body = .ok (body.length, b') ∧
      b'._body = ⟨b._buffer._pos, (b._buffer._pos + body.length : ℕ) - 2 ^ 32⟩ := by
  have hpos := List.length_pos_iff.mpr hne
  -- the body begins here
  obtain ⟨b₁, hb₁⟩ : ∃ b₁ : HttpBaseMsg, b₁ = { b with
      _bodysize := body.length, _body := { b._body with beg := b.pos } } := ⟨_, rfl⟩
  have hbuf : b₁._buffer = b._buffer := by rw [hb₁]
  have hwf : b₁._buffer.WF := hbuf ▸ h.wf
  have hmiss : b₁.toMsg.missing = body.length := by
    have hsize : b₁.toMsg.size = b.pos := by
      rw [h.pos_eq, ← h.size_eq, hb₁]
      rfl
    rw [HttpMsg.missing, hsize, hb₁]
    change (body.length : ℤ) - (b.pos - b.pos) = _
    omega
  have hleft := left_eq hwf (by omega) (by omega)
  rw [hmiss] at hleft
  have hcopy : b._parseBody body = b₁.copyBody body := by
    rw [_parseBody, if_neg hne, if_pos hb, hlen, ok_bind, if_neg (by omega), hb₁]
  obtain ⟨hw, hwpos⟩ := write_wf (b := { b₁ with _flag := .over }) hwf (Nat.le_refl body.length)
    (by change b₁._buffer._pos + _ + _ < _; rw [hbuf]; exact hhi)
  have hend : (wrote { b₁ with _flag := .over } body body.length).pos =
      (b._buffer._pos + body.length : ℕ) - 2 ^ 32 := by
    rw [hwpos]
    change toInt32 (b₁._buffer._pos + body.length) = _
    rw [hbuf, toInt32_neg hlo (by omega)]
  obtain ⟨-, -, -, -, -, -, hb1, hb2, hb3, -⟩ := HttpMsg.flags_ne k
  refine ⟨{ wrote { b₁ with _flag := .over } body body.length with
    _body := ⟨b₁._body.beg, (b._buffer._pos + body.length : ℕ) - 2 ^ 32⟩ }, ?_, ?_⟩
  · rw [parse, hf, if_neg hb1, if_neg hb2, if_neg hb3, if_neg (by decide), if_pos rfl, hcopy, copyBody,
      hleft, if_neg (by omega), if_neg (by omega), hw, ok_bind, hend, Int.toNat_natCast]
    rfl
  · have hbeg : b₁._body.beg = b._buffer._pos := by
      rw [hb₁]
      exact h.pos_eq
    rw [hbeg]

/-- **A message past 2^31 bytes** is read, but the length that `GetBody` computes is not an
`int`. -/
theorem getBody_long (k : HttpKind) (hs : t.Sized) (hne : t.body ≠ []) (hhead : t.head.length < 2 ^ 31)
    (hbody : t.body.length < 2 ^ 31) (hlo : 2 ^ 31 ≤ t.bytes.length)
    (hhi : t.bytes.length + bufferDefaultSize < 2 ^ 32) {buffer : Buffer} (hwf : buffer.WF) :
    ∃ b, Parser.feed (parse k) (clear k buffer) [t.head, t.body] =
        .ok ([t.head.length, t.body.length], b) ∧ b.getBody = .error .overflow := by
  have hbytes : t.bytes.length = t.head.length + t.body.length := List.length_append
  obtain ⟨m, hread, hparse⟩ := parse_head_text k t []
  have hparse' : HttpMsg.parse k (clear k buffer).toMsg t.head = .ok (t.head.length, m) := by
    rw [List.append_nil] at hparse
    rw [toMsg_clear, hparse]
    rfl
  obtain ⟨b₁, hp₁, hs₁, hm₁, -, hpos₁⟩ := (sound_clear hwf).parse
    (show 0 + t.head.length < 2 ^ 31 by omega) hparse'
  have hpos₁' : b₁._buffer._pos = t.head.length := by
    rw [hpos₁]
    exact Nat.zero_add _
  rw [← hm₁] at hread
  have hf : b₁._flag = .body := hread.flag
  have hbs : b₁._bodysize = -1 := hread.bodysize
  have hlen : b₁._checkContentLen = .ok t.body.length :=
    (checkLines_eq hs₁.wf (hs₁.header hf hbs) _ hs₁.vec).trans ((checkContentLen_head hread).trans hs)
  obtain ⟨b₂, hp₂, hb₂⟩ := parse_body_long k hs₁ hf hbs hlen hne hbody (by omega) (by omega)
  refine ⟨b₂, ?_, ?_⟩
  · simp only [Parser.feed, hp₁, hp₂]
    rfl
  · have hend : b₂._body.end_ = (t.bytes.length : ℤ) - 2 ^ 32 := by rw [hb₂, hpos₁', ← hbytes]
    have hbeg : b₂._body.beg = t.head.length := by rw [hb₂, hpos₁']
    rw [getBody, if_neg (by omega), substr, int, if_neg (by omega)]
    rfl

end HttpBaseMsg

/-- The head of a reply with nothing set is short. -/
theorem head_missing {body : List Byte} (hpos : 0 < body.length) (hn : body.length < 2 ^ 31) :
    (reply [] (by decide) body hpos).head.length < 1000 := by
  have hlen := decimal_length hpos hn
  have hhead : (reply [] (by decide) body hpos).head =
      startLine defaultVersion defaultStatus defaultPhrase ++
        lineBytes [typeName ++ defaultType, _constr ++ decimal body.length] := rfl
  have hstart : (startLine defaultVersion defaultStatus defaultPhrase).length < 100 := by decide
  have htype : (typeName ++ defaultType).length < 100 := by decide
  have hconstr : _constr.length < 100 := by decide
  rw [hhead]
  simp only [lineBytes, List.length_append, List.flatMap_cons, List.flatMap_nil, List.length_cons,
    List.length_nil] at htype ⊢
  omega

/-- A body of 2^31 - 1 bytes: with the head before it `GetBody` is undefined. -/
theorem HttpSvrSendMsg.not_reply_round_trip : ¬ ∀ (cs : List SetCall) (body : List Byte), InOrder cs →
    (∀ c ∈ cs, c.Valid) → 1 ≤ body.length → body.length < 2 ^ 31 →
    ∃ s s', runAll .new cs = some s ∧ s.setBody body body.length = .ok (true, s') ∧
      ∀ buffer : Buffer, buffer.WF → ∀ chunks : List (List Byte), (∀ c ∈ chunks, c.length < 2 ^ 31) →
        chunks.flatten = s'._pbuffer →
        ∃ b, Parser.feed (HttpBaseMsg.parse .cli) (.clear .cli buffer) chunks =
          .ok (chunks.map List.length, b) ∧ b.Holds cs body := by
  intro h
  obtain ⟨body, hlen⟩ : ∃ body : List Byte, body.length = 2 ^ 31 - 1 :=
    ⟨List.replicate (2 ^ 31 - 1) 0, List.length_replicate⟩
  have hpos : 0 < body.length := by omega
  have hn : body.length < 2 ^ 31 := by omega
  have hv : ∀ c ∈ ([] : List SetCall), c.Valid := by decide
  obtain ⟨s, s', hrun, hset, hread⟩ := h [] body .missing hv hpos hn
  -- the bytes that are sent
  obtain ⟨s₁, f, hrun₁, hset₁⟩ := setBody_reply hv hpos .missing
  rw [hrun] at hrun₁
  cases hrun₁
  rw [hset] at hset₁
  cases hset₁
  have hhead := head_missing hpos hn
  have hhead0 := (reply [] hv body hpos).head_pos
  have hbytes : (reply [] hv body hpos).bytes.length = (reply [] hv body hpos).head.length + body.length :=
    List.length_append
  obtain ⟨b, hfeed, hget⟩ := HttpBaseMsg.getBody_long .cli (t := reply [] hv body hpos)
    (reply_sized hv hpos hn) (List.ne_nil_of_length_pos hpos) (by omega) hn (by omega)
    (by simp only [bufferDefaultSize]; omega) Buffer.new_wf
  obtain ⟨b₁, hfeed₁, hholds⟩ := hread .new Buffer.new_wf [(reply [] hv body hpos).head, body]
    (by
      intro c hc
      rcases List.mem_cons.mp hc with rfl | hc
      · omega
      · rw [List.mem_singleton.mp hc]; exact hn)
    (by rw [List.flatten_cons, List.flatten_singleton]; rfl)
  have hsame := hfeed.symm.trans hfeed₁
  cases hsame
  rw [hholds.body] at hget
  cases hget

end Netlib
