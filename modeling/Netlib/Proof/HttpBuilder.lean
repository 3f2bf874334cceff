import Netlib.Spec.HttpBuilder
import Netlib.Proof.HttpReply

/-!
# Where the reply builder builds replies

The flags of `HttpSvrSendMsg` say how far the reply is (`Tracks`), so a setter that writes
text adds its own part in its place, but for the header setters: they do not look at the
body flag. The two setters that write pointers never write their part (`builds_iff`).
-/

namespace Netlib

open HttpMsg HttpSvrSendMsg

/-! ## The fields -/

namespace HeaderField

/-- A literal is its name, a colon and a blank. -/
structure Literal (l : List Byte) : Prop where
  bytes : nameOf l ++ [58, sp] = l
  name_ne : nameOf l ≠ []
  name : ∀ x ∈ nameOf l, x ≠ 58 ∧ x ≠ cr ∧ x ≠ lf

theorem Literal.wellFormed {l v : List Byte} (h : Literal l) (hv : line v = none) :
    (⟨nameOf l, v⟩ : HeaderField).WellFormed := ⟨h.name_ne, h.name, hv⟩

theorem Literal.field {l : List Byte} (h : Literal l) (v : List Byte) :
    l ++ v ++ [cr, lf] = (⟨nameOf l, v⟩ : HeaderField).bytes := by
  rw [HeaderField.bytes, h.bytes]

theorem literal_location : Literal locationName :=
  ⟨by decide +kernel, by decide +kernel, by decide +kernel⟩

theorem literal_encoding : Literal encodingName :=
  ⟨by decide +kernel, by decide +kernel, by decide +kernel⟩

theorem literal_type : Literal typeName :=
  ⟨by decide +kernel, by decide +kernel, by decide +kernel⟩

theorem literal_language : Literal languageName :=
  ⟨by decide +kernel, by decide +kernel, by decide +kernel⟩

theorem literal_length : Literal _constr :=
  ⟨by decide +kernel, by decide +kernel, by decide +kernel⟩

end HeaderField

open HeaderField

namespace Draft

/-- How many of the parts of the start line, and the body, are there. -/
def rank : Draft → ℕ
  | empty => 0
  | version _ => 1
  | status _ _ => 2
  | head _ _ _ _ => 3
  | whole _ _ _ _ _ => 4

variable {d : Draft}

theorem rank_head (h : d.rank = 3) : ∃ ver code phrase fields, d = head ver code phrase fields := by
  cases d with
  | head ver code phrase fields => exact ⟨ver, code, phrase, fields, rfl⟩
  | _ => cases h

theorem addField_whole (h : 3 < d.rank) (f : HeaderField) : d.addField f = none := by
  cases d with
  | whole => rfl
  | _ => simp [rank] at h

theorem addField_bytes {d' : Draft} {f : HeaderField} (h : d.addField f = some d') :
    d'.bytes = d.bytes ++ f.bytes := by
  cases d with
  | head ver code phrase fields =>
    cases h
    simp [bytes]
  | _ => cases h

end Draft

/-! ## What the flags say -/

namespace HttpSvrSendMsg

/-- **The object holds the reply** `d`. -/
structure Tracks (s : HttpSvrSendMsg) (d : Draft) : Prop where
  buffer : s._pbuffer = d.bytes
  wellFormed : d.WellFormed
  ver : .ver ∈ s._flag ↔ 0 < d.rank
  statusCode : .statusCode ∈ s._flag ↔ 1 < d.rank
  statusPhrase : .statusPhrase ∈ s._flag ↔ 2 < d.rank
  body : .body ∈ s._flag ↔ 3 < d.rank
  contType : .contType ∈ s._flag ↔ d.hasType = true

variable {s : HttpSvrSendMsg} {d : Draft}

theorem Tracks.new : Tracks .new .empty :=
  ⟨rfl, trivial, by decide, by decide, by decide, by decide, by decide⟩

theorem Tracks.start (h : s.Tracks d) : (∀ f ∈ startFlags, f ∈ s._flag) ↔ 2 < d.rank := by
  have hver := h.ver
  have hcode := h.statusCode
  have hphrase := h.statusPhrase
  simp only [startFlags, List.mem_cons, List.not_mem_nil, or_false, forall_eq_or_imp, forall_eq]
  constructor
  · rintro ⟨-, -, h3⟩
    exact hphrase.mp h3
  · intro hlt
    exact ⟨hver.mpr (by omega), hcode.mpr (by omega), hphrase.mpr hlt⟩

theorem set_refused {own : SendFlag} (h : s.Refuses own) (bytes : List Byte) :
    s.set own startFlags bytes = (false, s) := if_neg h

theorem set_accepted {own : SendFlag} (h : ¬ s.Refuses own) (bytes : List Byte) :
    s.set own startFlags bytes = (true, ⟨s._pbuffer ++ bytes, own :: s._flag⟩) :=
  if_pos (not_not.mp h)

/-- A header field after the start line. -/
theorem Tracks.addField (h : s.Tracks d) (hrank : d.rank = 3) (own : SendFlag) {f : HeaderField}
    (hf : f.WellFormed) (hown : own ∉ startFlags ∧ own ≠ .body)
    (htype : own = .contType ↔ f.name = nameOf typeName) :
    ∃ d', d.addField f = some d' ∧ Tracks ⟨s._pbuffer ++ f.bytes, own :: s._flag⟩ d' := by
  obtain ⟨ver, code, phrase, fields, rfl⟩ := Draft.rank_head hrank
  obtain ⟨hnot, hbody⟩ := hown
  simp only [startFlags, List.mem_cons, List.not_mem_nil, or_false, not_or] at hnot
  obtain ⟨hver, hcode, hphrase⟩ := hnot
  refine ⟨_, rfl, ?_, ?_, ?_, ?_, ?_, ?_, ?_⟩
  · rw [Draft.addField_bytes (d := .head ver code phrase fields) (f := f) rfl, h.buffer]
  · obtain ⟨h1, h2, h3, h4⟩ := h.wellFormed
    refine ⟨h1, h2, h3, ?_⟩
    intro g hg
    rcases List.mem_append.mp hg with hg | hg
    · exact h4 g hg
    · rw [List.mem_singleton.mp hg]
      exact hf
  · rw [List.mem_cons, or_iff_right (Ne.symm hver)]
    exact h.ver
  · rw [List.mem_cons, or_iff_right (Ne.symm hcode)]
    exact h.statusCode
  · rw [List.mem_cons, or_iff_right (Ne.symm hphrase)]
    exact h.statusPhrase
  · rw [List.mem_cons, or_iff_right (Ne.symm hbody)]
    exact h.body
  · have hold := h.contType
    simp only [Draft.hasType, Draft.fields, List.any_append, List.any_cons, List.any_nil,
      Bool.or_false, Bool.or_eq_true, decide_eq_true_eq] at hold ⊢
    rw [List.mem_cons, hold, eq_comm, htype, or_comm]

/-- **A header setter** that writes its field. -/
theorem Tracks.field (h : s.Tracks d) {own : SendFlag} {f : HeaderField} (hf : f.WellFormed)
    (hown : own ∉ startFlags ∧ own ≠ .body) (htype : own = .contType ↔ f.name = nameOf typeName)
    (hbody : .body ∈ s._flag → s.Refuses own) :
    s.set own startFlags f.bytes = (false, s) ∨
    ∃ s' d', s.set own startFlags f.bytes = (true, s') ∧ d.addField f = some d' ∧ s'.Tracks d' := by
  by_cases hr : s.Refuses own
  · exact .inl (set_refused hr _)
  have hstart := h.start.mp (not_not.mp hr).2
  have hnot : ¬ 3 < d.rank := fun hlt => hr (hbody (h.body.mpr hlt))
  obtain ⟨d', hadd, htracks⟩ := h.addField (by omega) own hf hown htype
  exact .inr ⟨_, d', set_accepted hr _, hadd, htracks⟩

/-! ## The start line -/

theorem Tracks.setHttpVersion (h : s.Tracks d) {v : List Byte} (hv : line v = none) :
    .ver ∈ s._flag ∧ s.setHttpVersion v = (false, s) ∨
    d = .empty ∧ ∃ s', s.setHttpVersion v = (true, s') ∧ s'.Tracks (.version v) := by
  unfold HttpSvrSendMsg.setHttpVersion HttpSvrSendMsg.set
  by_cases hver : .ver ∈ s._flag
  · exact .inl ⟨hver, if_neg fun hcond => hcond.1 hver⟩
  right
  have h0 := mt h.ver.mpr hver
  cases d with
  | empty =>
    have hbuf : s._pbuffer = [] := h.buffer
    refine ⟨rfl, _, if_pos ⟨hver, by simp⟩, ?_, hv, ?_, ?_, ?_, ?_, ?_⟩
    · rw [hbuf]
      rfl
    · simp [Draft.rank]
    · simpa [Draft.rank] using h.statusCode
    · simpa [Draft.rank] using h.statusPhrase
    · simpa [Draft.rank] using h.body
    · simpa [Draft.hasType, Draft.fields] using h.contType
  | _ => simp [Draft.rank] at h0

theorem Tracks.setStatusCode (h : s.Tracks d) {v : List Byte} (hv : line v = none) :
    (.statusCode ∈ s._flag ∨ .ver ∉ s._flag) ∧ s.setStatusCode v = (false, s) ∨
    ∃ ver s', d = .version ver ∧ s.setStatusCode v = (true, s') ∧ s'.Tracks (.status ver v) := by
  unfold HttpSvrSendMsg.setStatusCode HttpSvrSendMsg.set
  by_cases hcond : .statusCode ∉ s._flag ∧ ∀ f ∈ [SendFlag.ver], f ∈ s._flag
  · right
    have h0 := h.ver.mp (hcond.2 .ver List.mem_cons_self)
    have h1 := mt h.statusCode.mpr hcond.1
    cases d with
    | version ver =>
      have hbuf : s._pbuffer = ver ++ [sp] := h.buffer
      refine ⟨ver, _, rfl, if_pos hcond, ?_, ⟨h.wellFormed, hv⟩, ?_, ?_, ?_, ?_, ?_⟩
      · rw [hbuf]
        rfl
      · simpa [Draft.rank] using h.ver
      · simp [Draft.rank]
      · simpa [Draft.rank] using h.statusPhrase
      · simpa [Draft.rank] using h.body
      · simpa [Draft.hasType, Draft.fields] using h.contType
    | _ => simp [Draft.rank] at h0 h1
  · refine .inl ⟨?_, if_neg hcond⟩
    simpa only [List.mem_singleton, forall_eq, not_and_or, not_not] using hcond

theorem Tracks.setStatusPhrase (h : s.Tracks d) {v : List Byte} (hv : line v = none) :
    (.statusPhrase ∈ s._flag ∨ .statusCode ∉ s._flag) ∧ s.setStatusPhrase v = (false, s) ∨
    ∃ ver code s', d = .status ver code ∧ s.setStatusPhrase v = (true, s') ∧
      s'.Tracks (.head ver code v []) := by
  unfold HttpSvrSendMsg.setStatusPhrase HttpSvrSendMsg.set
  by_cases hcond : .statusPhrase ∉ s._flag ∧ ∀ f ∈ [SendFlag.ver, .statusCode], f ∈ s._flag
  · right
    have h1 := h.statusCode.mp (hcond.2 .statusCode (by simp))
    have h2 := mt h.statusPhrase.mpr hcond.1
    cases d with
    | status ver code =>
      have hbuf : s._pbuffer = ver ++ [sp] ++ (code ++ [sp]) := h.buffer
      refine ⟨ver, code, _, rfl, if_pos hcond, ?_, ⟨h.wellFormed.1, h.wellFormed.2, hv, by simp⟩, ?_,
        ?_, ?_, ?_, ?_⟩
      · rw [hbuf]
        simp [Draft.bytes, startLine]
      · simpa [Draft.rank] using h.ver
      · simpa [Draft.rank] using h.statusCode
      · simp [Draft.rank]
      · simpa [Draft.rank] using h.body
      · simpa [Draft.hasType, Draft.fields] using h.contType
    | _ => simp [Draft.rank] at h1 h2
  · refine .inl ⟨?_, if_neg hcond⟩
    by_contra hno
    rw [not_or, not_not] at hno
    refine hcond ⟨hno.1, ?_⟩
    have hver := h.ver.mpr (by have := h.statusCode.mp hno.2; omega)
    intro f hf
    rcases List.mem_cons.mp hf with rfl | hf
    · exact hver
    · rw [List.mem_singleton.mp hf]
      exact hno.2

/-! ## `SetBody` -/

/-- A part that is missing is added. -/
theorem orSet_has {f : SendFlag} (h : f ∈ s._flag) (set : HttpSvrSendMsg → Bool × HttpSvrSendMsg) :
    s.orSet f set = s := if_pos h

theorem orSet_missing {f : SendFlag} (h : f ∉ s._flag) (set : HttpSvrSendMsg → Bool × HttpSvrSendMsg) :
    s.orSet f set = (set s).2 := if_neg h

theorem Tracks.orVersion (h : s.Tracks d) :
    (s.orSet .ver (·.setHttpVersion defaultVersion)).Tracks d.orVersion := by
  rcases h.setHttpVersion (v := defaultVersion) (by decide) with ⟨hver, -⟩ | ⟨rfl, s', hset, hs'⟩
  · have h0 := h.ver.mp hver
    have hsame : d.orVersion = d := by
      cases d with
      | empty => simp [Draft.rank] at h0
      | _ => rfl
    rw [orSet_has hver, hsame]
    exact h
  · rw [orSet_missing (mt h.ver.mp (by decide)), hset]
    exact hs'

theorem Tracks.orStatus (h : s.Tracks d) (h0 : 0 < d.rank) :
    (s.orSet .statusCode (·.setStatusCode defaultStatus)).Tracks d.orStatus := by
  rcases h.setStatusCode (v := defaultStatus) (by decide) with ⟨hcode, -⟩ | ⟨ver, s', rfl, hset, hs'⟩
  · have hhas : .statusCode ∈ s._flag := hcode.resolve_right (not_not.mpr (h.ver.mpr h0))
    have h1 := h.statusCode.mp hhas
    have hsame : d.orStatus = d := by
      cases d with
      | version => simp [Draft.rank] at h1
      | _ => rfl
    rw [orSet_has hhas, hsame]
    exact h
  · rw [orSet_missing (mt h.statusCode.mp (by simp [Draft.rank])), hset]
    exact hs'

theorem Tracks.orPhrase (h : s.Tracks d) (h1 : 1 < d.rank) :
    (s.orSet .statusPhrase (·.setStatusPhrase defaultPhrase)).Tracks d.orPhrase := by
  rcases h.setStatusPhrase (v := defaultPhrase) (by decide) with
    ⟨hphrase, -⟩ | ⟨ver, code, s', rfl, hset, hs'⟩
  · have hhas : .statusPhrase ∈ s._flag := hphrase.resolve_right (not_not.mpr (h.statusCode.mpr h1))
    have h2 := h.statusPhrase.mp hhas
    have hsame : d.orPhrase = d := by
      cases d with
      | status => simp [Draft.rank] at h2
      | _ => rfl
    rw [orSet_has hhas, hsame]
    exact h
  · rw [orSet_missing (mt h.statusPhrase.mp (by simp [Draft.rank])), hset]
    exact hs'

theorem typeField_bytes (v : List Byte) :
    typeName ++ v ++ [cr, lf] = (Draft.typeField v).bytes := literal_type.field v

theorem Tracks.orType (h : s.Tracks d) (hrank : d.rank = 3) :
    (s.orSet .contType (·.setContentType defaultType)).Tracks d.orType ∧ d.orType.rank = 3 := by
  by_cases htype : .contType ∈ s._flag
  · have hsame : d.orType = d := if_pos (h.contType.mp htype)
    rw [orSet_has htype, hsame]
    exact ⟨h, hrank⟩
  · have hnew : d.orType = (d.addField (Draft.typeField defaultType)).getD d :=
      if_neg (mt h.contType.mpr htype)
    have hacc : ¬ s.Refuses .contType := not_not.mpr ⟨htype, h.start.mpr (by omega)⟩
    obtain ⟨d', hadd, hd'⟩ := h.addField hrank .contType (f := Draft.typeField defaultType)
      (literal_type.wellFormed (by decide)) (by decide) (by simp [Draft.typeField])
    obtain ⟨ver, code, phrase, fields, rfl⟩ := Draft.rank_head hrank
    rw [orSet_missing htype, hnew, hadd, HttpSvrSendMsg.setContentType, typeField_bytes,
      set_accepted hacc]
    refine ⟨hd', ?_⟩
    cases hadd
    rfl

/-- **What is missing is added.** -/
theorem Tracks.setMissing (h : s.Tracks d) (hbody : .body ∉ s._flag) :
    s.setMissing.Tracks d.orVersion.orStatus.orPhrase.orType ∧
      d.orVersion.orStatus.orPhrase.orType.rank = 3 := by
  have hlt := mt h.body.mpr hbody
  have hv := h.orVersion
  have hranks : 0 < d.orVersion.rank ∧ 1 < d.orVersion.orStatus.rank ∧
      d.orVersion.orStatus.orPhrase.rank = 3 := by
    cases d with
    | whole => simp [Draft.rank] at hlt
    | _ => simp [Draft.orVersion, Draft.orStatus, Draft.orPhrase, Draft.rank]
  have hs := hv.orStatus hranks.1
  have hp := hs.orPhrase hranks.2.1
  exact hp.orType hranks.2.2

theorem line_decimal (n : ℕ) : line (decimal n) = none := by
  rcases Nat.eq_zero_or_pos n with rfl | hn
  · decide
  · -- no digit is a CR
    have hcr : cr ∉ decimal n := fun hmem => absurd (decimal_digits hn cr hmem).1 (by decide)
    simpa using line_none_append hcr (b := []) rfl

/-- **`SetBody`** completes the reply, once. -/
theorem Tracks.setBody (h : s.Tracks d) (body : List Byte) :
    .body ∈ s._flag ∧ s.setBody body body.length = .ok (false, s) ∨
    ∃ s' d', s.setBody body body.length = .ok (true, s') ∧ d.add (.setBody body) = some d' ∧
      s'.Tracks d' := by
  by_cases hbody : .body ∈ s._flag
  · exact .inl ⟨hbody, if_pos hbody⟩
  right
  obtain ⟨hm, hrank⟩ := h.setMissing hbody
  rw [Draft.add]
  generalize d.orVersion.orStatus.orPhrase.orType = e at hm hrank
  obtain ⟨ver, code, phrase, fields, rfl⟩ := Draft.rank_head hrank
  have hlen : (0 : ℤ) ≤ body.length ∧ (body.length : ℤ) ≤ body.length := ⟨by omega, le_refl _⟩
  have hset : s.setBody body body.length = .ok (true, ⟨s.setMissing._pbuffer ++ _constr ++
      decimal body.length ++ [cr, lf, cr, lf] ++ body, .body :: s.setMissing._flag⟩) := by
    unfold HttpSvrSendMsg.setBody
    rw [if_neg hbody]
    simp only [if_pos hlen, Int.toNat_natCast, List.take_length]
  refine ⟨_, _, hset, rfl, ?_, ?_, ?_, ?_, ?_, ?_, ?_⟩
  · rw [hm.buffer]
    have hfield := literal_length.field (decimal body.length)
    simp only [Draft.bytes, List.flatMap_append, List.flatMap_cons, List.flatMap_nil, List.append_nil,
      ← hfield, List.append_assoc]
    rfl
  · obtain ⟨h1, h2, h3, h4⟩ := hm.wellFormed
    refine ⟨h1, h2, h3, ?_⟩
    intro f hf
    rcases List.mem_append.mp hf with hf | hf
    · exact h4 f hf
    · rw [List.mem_singleton.mp hf]
      exact literal_length.wellFormed (line_decimal body.length)
  · simpa [Draft.rank] using hm.ver
  · simpa [Draft.rank] using hm.statusCode
  · simpa [Draft.rank] using hm.statusPhrase
  · simp [Draft.rank]
  · have htype := hm.contType
    have hname : nameOf _constr ≠ nameOf typeName := by decide
    simp only [Draft.hasType, Draft.fields, List.any_append, List.any_cons, List.any_nil, hname,
      decide_false, Bool.or_false] at htype ⊢
    rw [List.mem_cons, or_iff_right (by decide)]
    exact htype

end HttpSvrSendMsg

/-! ## Any calls -/

namespace SvrCall

variable {at_ : Literals} {s : HttpSvrSendMsg} {d : Draft} {c : SvrCall}

/-- **A call that meets the condition** adds its part or changes nothing. -/
theorem step_ok (at_ : Literals) (h : s.Tracks d) (hv : c.Valid) (hc : CallOk s c) :
    ∃ ok s', c.run at_ s = .ok (ok, s') ∧
      if ok then ∃ d', d.add c = some d' ∧ s'.Tracks d' else s' = s := by
  -- a setter of a header field
  have hfield : ∀ (own : SendFlag) {literal v : List Byte}, Literal literal → line v = none →
      own ∉ startFlags ∧ own ≠ .body → (own = .contType ↔ nameOf literal = nameOf typeName) →
      (.body ∈ s._flag → s.Refuses own) →
      ∃ ok s', s.set own startFlags (literal ++ v ++ [cr, lf]) = (ok, s') ∧
        if ok then ∃ d', d.addField ⟨nameOf literal, v⟩ = some d' ∧ s'.Tracks d' else s' = s := by
    intro own literal v hl hline hown htype hbody
    rw [hl.field]
    rcases h.field (hl.wellFormed hline) hown htype hbody with hset | ⟨s', d', hset, hadd, hs'⟩
    · exact ⟨false, s, hset, rfl⟩
    · exact ⟨true, s', hset, d', hadd, hs'⟩
  cases c with
  | part c =>
    cases c with
    | setHttpVersion v =>
      rcases h.setHttpVersion hv with ⟨-, hset⟩ | ⟨rfl, s', hset, hs'⟩
      · exact ⟨false, s, congrArg _ hset, rfl⟩
      · exact ⟨true, s', congrArg _ hset, _, rfl, hs'⟩
    | setStatusCode v =>
      rcases h.setStatusCode hv with ⟨-, hset⟩ | ⟨ver, s', rfl, hset, hs'⟩
      · exact ⟨false, s, congrArg _ hset, rfl⟩
      · exact ⟨true, s', congrArg _ hset, _, rfl, hs'⟩
    | setStatusPhrase v =>
      rcases h.setStatusPhrase hv with ⟨-, hset⟩ | ⟨ver, code, s', rfl, hset, hs'⟩
      · exact ⟨false, s, congrArg _ hset, rfl⟩
      · exact ⟨true, s', congrArg _ hset, _, rfl, hs'⟩
    | setLocation v =>
      obtain ⟨ok, s', hset, hrest⟩ := hfield .location literal_location hv (by decide)
        (by decide) (hc rfl)
      exact ⟨ok, s', congrArg _ hset, hrest⟩
    | setContentEncode v =>
      obtain ⟨ok, s', hset, hrest⟩ := hfield .contCoding literal_encoding hv (by decide)
        (by decide) (hc rfl)
      exact ⟨ok, s', congrArg _ hset, hrest⟩
    | setContentType v =>
      obtain ⟨ok, s', hset, hrest⟩ := hfield .contType literal_type hv (by decide)
        (by decide) (hc rfl)
      exact ⟨ok, s', congrArg _ hset, hrest⟩
    | setContentLanguage v =>
      obtain ⟨ok, s', hset, hrest⟩ := hfield .contLanguage literal_language hv (by decide)
        (by decide) (hc rfl)
      exact ⟨ok, s', congrArg _ hset, hrest⟩
  | setSever v => exact ⟨false, s, congrArg _ (set_refused hc _), rfl⟩
  | setDate v => exact ⟨false, s, congrArg _ (set_refused hc _), rfl⟩
  | setBody body =>
    rcases h.setBody body with ⟨-, hset⟩ | ⟨s', d', hset, hadd, hs'⟩
    · exact ⟨false, s, hset, rfl⟩
    · exact ⟨true, s', hset, d', hadd, hs'⟩

/-- Two pointers in place of `Name: ` and CR LF. -/
theorem pointers_ne (p q : Pointer) {name v : List Byte} (hname : name.length < 12) :
    p.bytes ++ v ++ q.bytes ≠ (⟨name, v⟩ : HeaderField).bytes := by
  intro heq
  have hlen := congrArg List.length heq
  simp only [HeaderField.bytes, List.length_append, p.size, q.size, List.length_cons,
    List.length_nil] at hlen
  omega

/-- **A call that does not meet it** returns true and leaves something else. -/
theorem step_bad (at_ : Literals) (h : s.Tracks d) (hc : ¬ CallOk s c) :
    ∃ s', c.run at_ s = .ok (true, s') ∧ ∀ d', d.add c = some d' → s'._pbuffer ≠ d'.bytes := by
  cases c with
  | part c =>
    simp only [CallOk, Classical.not_imp] at hc
    obtain ⟨hfield, hbody, hacc⟩ := hc
    obtain ⟨l, hl⟩ := Option.isSome_iff_exists.mp hfield
    refine ⟨_, congrArg _ ((SetCall.run_field hl s).trans (set_accepted hacc _)), ?_⟩
    -- no field is due after the body
    intro d' hadd
    have hnone := Draft.addField_whole (h.body.mp hbody)
    cases c
    case setHttpVersion | setStatusCode | setStatusPhrase => cases hl
    all_goals
      rw [Draft.add, hnone] at hadd
      cases hadd
  | setSever v =>
    refine ⟨_, congrArg _ (set_accepted hc _), ?_⟩
    intro d' hadd heq
    rw [Draft.addField_bytes hadd] at heq
    change s._pbuffer ++ _ = _ at heq
    rw [h.buffer, List.append_cancel_left_eq] at heq
    exact pointers_ne _ _ (by decide) heq
  | setDate v =>
    refine ⟨_, congrArg _ (set_accepted hc _), ?_⟩
    intro d' hadd heq
    rw [Draft.addField_bytes hadd] at heq
    change s._pbuffer ++ _ = _ at heq
    rw [h.buffer, List.append_cancel_left_eq] at heq
    exact pointers_ne _ _ (by decide) heq
  | setBody body => exact absurd trivial hc

theorem Builds.buffer {cs : List SvrCall} (h : Builds at_ s d cs) : s._pbuffer = d.bytes := by
  cases cs with
  | nil => exact h.1
  | cons c cs => exact h.1.1

theorem builds_tracks (cs : List SvrCall) : ∀ {s : HttpSvrSendMsg} {d : Draft}, s.Tracks d →
    (∀ c ∈ cs, c.Valid) → (Builds at_ s d cs ↔ CallsOk at_ s cs) := by
  induction cs with
  | nil =>
    intro s d h _
    exact ⟨fun _ => trivial, fun _ => ⟨h.buffer, h.wellFormed⟩⟩
  | cons c cs ih =>
    intro s d h hv
    have hrest : ∀ {s : HttpSvrSendMsg} {d : Draft}, s.Tracks d →
        (Builds at_ s d cs ↔ CallsOk at_ s cs) :=
      fun h => ih h fun c hc => hv c (List.mem_cons_of_mem _ hc)
    by_cases hc : CallOk s c
    · obtain ⟨ok, s', hrun, hstep⟩ := step_ok at_ h (hv c List.mem_cons_self) hc
      have hcalls : CallsOk at_ s (c :: cs) ↔ CallsOk at_ s' cs := by
        simp [CallsOk, hc, hrun]
      rw [hcalls]
      cases ok with
      | true =>
        obtain ⟨d', hadd, hs'⟩ := hstep
        rw [← hrest hs']
        simp [Builds, hrun, hadd, h.buffer, h.wellFormed]
      | false =>
        cases hstep
        rw [← hrest h]
        simp [Builds, hrun, h.buffer, h.wellFormed]
    · obtain ⟨s', hrun, hne⟩ := step_bad at_ h hc
      refine ⟨?_, fun hcs => absurd hcs.1 hc⟩
      rintro ⟨-, ok, s'', hrun', hstep⟩
      rw [hrun] at hrun'
      cases hrun'
      obtain ⟨d', hadd, hbuilds⟩ := hstep
      exact absurd hbuilds.buffer (hne d' hadd)

/-- **When the setters build a reply**, for all calls in any order. -/
theorem builds_iff (at_ : Literals) {cs : List SvrCall} (hv : ∀ c ∈ cs, c.Valid) :
    Builds at_ .new .empty cs ↔ CallsOk at_ .new cs := builds_tracks cs Tracks.new hv

/-- A start line, then a server, then a body. -/
def serverReply : List SvrCall :=
  [.part (.setHttpVersion defaultVersion), .part (.setStatusCode defaultStatus),
    .part (.setStatusPhrase defaultPhrase), .setSever (chars ['a']), .setBody (chars ['h', 'i'])]

theorem serverReply_valid : ∀ c ∈ serverReply, c.Valid := by decide

/-- The literals of a program. -/
def literals : Literals :=
  let p : Pointer := ⟨List.replicate 8 0, rfl⟩
  ⟨p, p, p, p⟩

theorem builds_iff_serverReply :
    Builds literals .new .empty serverReply ↔ CallsOk literals .new serverReply :=
  builds_iff literals serverReply_valid

/-- The server field is not text. -/
theorem not_builds : ¬ ∀ at_ cs, (∀ c ∈ cs, c.Valid) → Builds at_ .new .empty cs := by
  intro h
  have hcalls := (builds_tracks _ Tracks.new serverReply_valid).mp (h literals serverReply serverReply_valid)
  have hserver := (((hcalls.2 _ _ rfl).2 _ _ rfl).2 _ _ rfl).1
  exact hserver (by decide)

end SvrCall

end Netlib
