import Netlib.Spec.HttpBaseMsg
import Netlib.Proof.Buffer
import Netlib.Proof.HttpParse

/-!
# Messages below 2^31 bytes

While the message is shorter than 2^31 bytes, a position is the number of bytes before it:
no `int` overflows, every byte that is looked at is there, and `Write` appends (`Sound`).
So the parser in 32 bits does what `HttpMsg.parse` does with the content of its buffer
(`parse_refines`), and the getters return what those of `HttpMsg` do.
-/

namespace Netlib

open Lib

namespace HttpBaseMsg

variable {k : HttpKind} {b : HttpBaseMsg} {buf : List Byte}

theorem int_ok {z : ℤ} (hlo : -2 ^ 31 ≤ z) (hhi : z < 2 ^ 31) : int z = .ok z := if_pos ⟨hlo, hhi⟩

theorem ok_bind {α β : Type} (a : α) (f : α → Except HttpFault β) : (Except.ok a >>= f) = f a := rfl

/-- **What the positions of a short message are**: each lies in the message buffer, a CR
that is pending is after the beginning of the line, and the header block ends where the
body has not begun. -/
structure Sound (b : HttpBaseMsg) : Prop where
  wf : b._buffer.WF
  short : b._buffer._pos < 2 ^ 31
  header2 : 0 ≤ b._header2.beg ∧ b._header2.beg ≤ b._buffer._pos
  pending : b._assistflag = true → b._header2.beg < b._buffer._pos
  vec : ∀ p ∈ b._header_vec, 0 ≤ p.beg ∧ p.beg < 2 ^ 31 ∧ 0 ≤ p.end_ ∧ p.end_ < 2 ^ 31
  body : 0 ≤ b._body.beg ∧ b._body.beg ≤ b._buffer._pos
  bodysize : -1 ≤ b._bodysize ∧ b._bodysize < 2 ^ 31
  header : b._flag = .body → b._bodysize = -1 → b._header.end_ = b._buffer._pos

theorem sound_clear {buffer : Buffer} (h : buffer.WF) : (clear k buffer).Sound where
  wf := h.clear
  short := (by decide : (0 : ℕ) < 2 ^ 31)
  header2 := ⟨Int.le_refl _, Int.le_refl _⟩
  pending := fun h => absurd h Bool.false_ne_true
  vec := fun _ hp => absurd hp List.not_mem_nil
  body := ⟨Int.le_refl _, Int.le_refl _⟩
  bodysize := ⟨Int.le_refl _, (by decide : (-1 : ℤ) < 2 ^ 31)⟩
  header := fun _ _ => rfl

theorem toMsg_clear (k : HttpKind) (buffer : Buffer) :
    (clear k buffer).toMsg = HttpMsg.clear k := by
  simp only [toMsg, clear, HttpMsg.clear, Buffer.clear_content]

theorem Sound.pos_eq (h : b.Sound) : b.pos = b._buffer._pos := toInt32_of_lt h.short

theorem Sound.size_eq (h : b.Sound) : b.toMsg.size = b._buffer._pos :=
  congrArg Nat.cast h.wf.content_length

/-! ## `Write` -/

/-- The message with `n` more bytes. -/
def wrote (b : HttpBaseMsg) (buf : List Byte) (n : ℕ) : HttpBaseMsg :=
  { b with _buffer := b._buffer.write buf n }

/-- `Write` while the allocation fits 32 bits. -/
theorem write_wf (h : b._buffer.WF) {n : ℕ} (hn : n ≤ buf.length)
    (hhi : b._buffer._pos + n + bufferDefaultSize < 2 ^ 32) :
    b.write buf n = .ok (b.wrote buf n) ∧ (b.wrote buf n).pos = toInt32 (b._buffer._pos + n) := by
  obtain ⟨hwf, -, hpos, -⟩ := h.write hn hhi
  refine ⟨?_, congrArg toInt32 hpos⟩
  rw [write, if_pos ⟨Int.natCast_nonneg n, Int.ofNat_le.mpr hn⟩, Int.toNat_natCast]
  exact if_pos hwf.data

/-- **`Write` appends.** The header block is written before the body is looked at. -/
theorem Sound.write (h : b.Sound) (hf : b._flag = .body → b._bodysize ≠ -1) {n : ℕ}
    (hn : n ≤ buf.length) (hlt : b._buffer._pos + n < 2 ^ 31) :
    b.write buf n = .ok (b.wrote buf n) ∧ (b.wrote buf n).Sound ∧
      (b.wrote buf n).toMsg = b.toMsg.push (buf.take n) ∧
      (b.wrote buf n)._buffer._pos = b._buffer._pos + n := by
  obtain ⟨hwf, hcontent, hpos, -⟩ := h.wf.write hn (by simp only [bufferDefaultSize]; omega)
  -- positions that lie in the buffer still do
  have hle : (b._buffer._pos : ℤ) ≤ (b._buffer.write buf n)._pos := by rw [hpos]; omega
  refine ⟨(write_wf h.wf hn (by simp only [bufferDefaultSize]; omega)).1, ?_, ?_, hpos⟩
  · exact
      { wf := hwf
        short := by rw [wrote, hpos]; exact hlt
        header2 := ⟨h.header2.1, Int.le_trans h.header2.2 hle⟩
        pending := fun hp => Int.lt_of_lt_of_le (h.pending hp) hle
        vec := h.vec
        body := ⟨h.body.1, Int.le_trans h.body.2 hle⟩
        bodysize := h.bodysize
        header := fun hb hs => absurd hs (hf hb) }
  · simp only [wrote, toMsg, HttpMsg.push, hcontent]

/-- The last byte of a message that is not empty. -/
theorem Sound.lastByte (h : b.Sound) {x : Byte} (hx : b._buffer.content.getLast? = some x) :
    b.lastByte = .ok x := by
  have htake : b._buffer.content.take b.pos.toNat = b._buffer.content := by
    rw [h.pos_eq, Int.toNat_natCast, ← h.wf.content_length, List.take_length]
  simp only [HttpBaseMsg.lastByte, htake, hx]

/-! ## A line -/

/-- What a scan for CR LF leaves: `n` bytes are copied, and with a whole line both of
its last bytes are behind the beginning of the line. -/
structure LineRead (b : HttpBaseMsg) (buf : List Byte) (hit : Bool) (n : ℕ) (b' : HttpBaseMsg) :
    Prop where
  run : b.readLine buf = .ok (hit, n, b')
  toMsg : b.toMsg.readLine buf = .ok (hit, n, b'.toMsg)
  le : n ≤ buf.length
  pos : b'._buffer._pos = b._buffer._pos + n
  line : hit = true → b._header2.beg + 2 ≤ b'._buffer._pos
  sound : b'.Sound
  flag : b'._flag = b._flag
  header2 : b'._header2 = b._header2

/-- The scan when no CR is pending. -/
theorem readLine_fresh (h : b.Sound) (hf : b._flag ≠ .body) (ha : b._assistflag = false)
    (hne : buf ≠ []) (hlt : b._buffer._pos + buf.length < 2 ^ 31) :
    ∃ hit n b', LineRead b buf hit n b' := by
  obtain ⟨hit, n, hp⟩ : ∃ hit n, parse2 cr lf buf = (hit, n) := ⟨_, _, rfl⟩
  have hle : n ≤ buf.length := by
    have := HttpMsg.parse2_le cr lf buf
    rwa [hp] at this
  have hpos : 0 < n := by
    have := HttpMsg.parse2_pos cr lf hne
    rwa [hp] at this
  obtain ⟨hw, hsound, hmsg, hwpos⟩ := h.write (fun hb => absurd hb hf) hle (by omega)
  have habs := HttpMsg.readLine_fresh (m := b.toMsg) ha hp
  rw [← hmsg] at habs
  have hrun : b.readLine buf =
      if hit then .ok (true, n, b.wrote buf n)
      else do
        let x ← (b.wrote buf n).lastByte
        return (false, n, if x = cr then { b.wrote buf n with _assistflag := true } else b.wrote buf n) := by
    have ha' : (b.wrote buf n)._assistflag = false := ha
    simp only [readLine, hp, ha, Bool.false_eq_true, if_false, hw, ok_bind, ha']
    rfl
  cases hit with
  | true =>
    have h2 : 2 ≤ n := by
      have hscan : (parse2 cr lf buf).1 = true := by rw [hp]
      have htwo := HttpMsg.two_le_parse2 hscan
      rwa [hp] at htwo
    have hbeg := h.header2.2
    exact ⟨true, n, b.wrote buf n, hrun, habs, hle, hwpos, fun _ => by rw [hwpos]; omega, hsound,
      rfl, rfl⟩
  | false =>
    -- something was copied, so that there is a last byte
    obtain ⟨x, hx⟩ : ∃ x, (b.wrote buf n)._buffer.content.getLast? = some x := by
      rw [← Option.isSome_iff_exists, List.getLast?_isSome, ← List.length_pos_iff,
        hsound.wf.content_length, hwpos]
      omega
    rw [hsound.lastByte hx, ok_bind] at hrun
    simp only [Bool.false_eq_true, if_false] at hrun habs
    by_cases hcr : x = cr
    · -- the CR was copied in this call
      rw [if_pos hcr] at hrun
      rw [if_pos (by rw [← hcr]; exact hx)] at habs
      have hpending : b._header2.beg < (b.wrote buf n)._buffer._pos := by
        have := h.header2.2
        rw [hwpos]
        omega
      exact ⟨false, n, _, hrun, habs, hle, hwpos, fun h => absurd h Bool.false_ne_true,
        { hsound with pending := fun _ => hpending }, rfl, rfl⟩
    · rw [if_neg hcr] at hrun
      have hne' : ¬ (b.wrote buf n).toMsg._buffer.getLast? = some cr := by
        intro heq
        exact hcr (Option.some.inj (hx.symm.trans heq))
      rw [if_neg hne'] at habs
      exact ⟨false, n, _, hrun, habs, hle, hwpos, fun h => absurd h Bool.false_ne_true, hsound, rfl, rfl⟩

/-- **The scan for CR LF**, with a CR pending or not. -/
theorem Sound.readLine (h : b.Sound) (hf : b._flag ≠ .body) (hne : buf ≠ [])
    (hlt : b._buffer._pos + buf.length < 2 ^ 31) : ∃ hit n b', LineRead b buf hit n b' := by
  cases ha : b._assistflag with
  | false => exact readLine_fresh h hf ha hne hlt
  | true =>
    rcases buf with _ | ⟨x, t⟩
    · exact absurd rfl hne
    by_cases hx : x = lf
    · -- the LF of a CR that came with an earlier call
      subst hx
      have hle : 1 ≤ (lf :: t).length := Nat.succ_le_succ (Nat.zero_le _)
      obtain ⟨hw, hsound, hmsg, hwpos⟩ := h.write (fun hb => absurd hb hf) hle (by omega)
      have hrun : b.readLine (lf :: t) = .ok (true, 1, b.wrote (lf :: t) 1) := by
        have hw' : b.write (lf :: t) (1 : ℕ) = .ok (b.wrote (lf :: t) 1) := hw
        simp only [HttpBaseMsg.readLine, ha, if_true, List.head?_cons, ne_eq, not_true_eq_false,
          if_false, hw', ok_bind]
        rfl
      have habs := HttpMsg.readLine_lf (m := b.toMsg) ha t
      have hpending := h.pending ha
      refine ⟨true, 1, _, hrun, ?_, hle, hwpos, fun _ => by rw [hwpos]; omega, hsound, rfl, rfl⟩
      rw [habs, hmsg]
      rfl
    · -- a pending CR that no LF follows is forgotten
      have hx' : (x :: t).head? ≠ some lf := by simpa using hx
      have hrun : b.readLine (x :: t) = ({ b with _assistflag := false } : HttpBaseMsg).readLine (x :: t) := by
        simp only [HttpBaseMsg.readLine, ha, if_true, if_pos hx', Bool.false_eq_true, if_false]
      have hs : ({ b with _assistflag := false } : HttpBaseMsg).Sound :=
        { h with pending := fun hp => absurd hp Bool.false_ne_true }
      obtain ⟨hit, n, b', hread⟩ := readLine_fresh hs hf rfl hne hlt
      exact ⟨hit, n, b', { hread with
        run := hrun.trans hread.run
        toMsg := (HttpMsg.readLine_other (m := b.toMsg) ha hx t).trans hread.toMsg }⟩

/-! ## The body -/

/-- **The same outcome in both models**: the same failure, or the same count and the same
message, whose positions are sound again. -/
inductive Refines : Except HttpFault (ℕ × HttpBaseMsg) → Except HttpFault (ℕ × HttpMsg) → Prop
  | ok {n : ℕ} {b : HttpBaseMsg} {m : HttpMsg} (sound : b.Sound) (toMsg : b.toMsg = m) :
      Refines (.ok (n, b)) (.ok (n, m))
  | error (e : HttpFault) : Refines (.error e) (.error e)

theorem Refines.plus {r : Except HttpFault (ℕ × HttpBaseMsg)} {r' : Except HttpFault (ℕ × HttpMsg)}
    (h : Refines r r') (n : ℕ) : Refines (plus n r) (HttpMsg.plus n r') := by
  cases h with
  | ok hs hm => exact .ok hs hm
  | error e => exact .error e

/-- The number that `atoi` gives is an `int`. -/
theorem atoi_range {l : List Byte} {z : ℤ} (h : atoi l = some z) : -2 ^ 31 ≤ z ∧ z < 2 ^ 31 := by
  have hbmod : ∀ y : ℤ, -2 ^ 31 ≤ y.bmod (2 ^ 32) ∧ y.bmod (2 ^ 32) < 2 ^ 31 := fun y =>
    ⟨Int.le_bmod (by decide), Int.bmod_lt (by decide)⟩
  unfold atoi at h
  split at h
  · cases h
  · split_ifs at h
    all_goals
      obtain ⟨n, -, rfl⟩ := Option.map_eq_some_iff.mp h
      exact hbmod _

theorem readValue_range {pbeg : List Byte} {z : ℤ} (h : HttpMsg.readValue pbeg = .ok z) :
    -2 ^ 31 ≤ z ∧ z < 2 ^ 31 := by
  unfold HttpMsg.readValue at h
  split at h
  · cases h
  · split at h
    · cases h
    · rename_i hz
      cases h
      exact atoi_range hz

theorem checkLines_range (m : HttpMsg) (l : List StrPos) {z : ℤ} (h : m.checkLines l = .ok z) :
    -2 ^ 31 ≤ z ∧ z < 2 ^ 31 := by
  induction l with
  | nil =>
    cases h
    decide
  | cons iter rest ih =>
    rw [HttpMsg.checkLines] at h
    split_ifs at h
    · exact ih h
    · split at h
      · cases h
      · split at h
        · cases h
        · exact readValue_range h
        · exact ih h

/-- **The search for the Content-Length** in the header lines of a short message. -/
theorem checkLines_eq (hwf : b._buffer.WF) (hend : b._header.end_ = b._buffer._pos) (l : List StrPos)
    (hl : ∀ p ∈ l, 0 ≤ p.beg ∧ p.beg < 2 ^ 31 ∧ 0 ≤ p.end_ ∧ p.end_ < 2 ^ 31) :
    b.checkLines l = b.toMsg.checkLines l := by
  have hblock : ∀ pos, b.block pos = b.toMsg.block pos := by
    intro pos
    have htake : b._buffer.content.take b._header.end_.toNat = b._buffer.content := by
      rw [hend, Int.toNat_natCast, ← hwf.content_length, List.take_length]
    simp only [block, HttpMsg.block, toMsg, htake]
  induction l with
  | nil => rfl
  | cons iter rest ih =>
    obtain ⟨hb0, hb1, he0, he1⟩ := hl iter List.mem_cons_self
    have hrest := ih fun p hp => hl p (List.mem_cons_of_mem _ hp)
    rw [checkLines, HttpMsg.checkLines, int_ok (by omega) (by omega), ok_bind, hrest, hblock]
    split
    · rfl
    · cases b.toMsg.block iter.beg with
      | error e => rfl
      | ok mem =>
        simp only [ok_bind]
        rcases HttpMsg.matchConstr HttpMsg._constr mem with e | ⟨hit, pbeg⟩
        · rfl
        · cases hit <;> rfl

/-- The bytes missing, computed as unsigned. -/
theorem left_eq (hwf : b._buffer.WF) (hlo : -2 ^ 31 ≤ b.toMsg.missing) (hhi : b.toMsg.missing < 2 ^ 31) :
    toInt32 (toU32 (b._bodysize - (b._buffer.size - b._body.beg))) = b.toMsg.missing := by
  have hmiss : b._bodysize - (b._buffer.size - b._body.beg) = b.toMsg.missing := by
    rw [HttpMsg.missing, HttpMsg.size]
    simp only [toMsg, hwf.content_length]
    rfl
  rw [hmiss, toInt32_toU32 hlo hhi]

/-- A length that is negative. -/
theorem copyBody_neg (hwf : b._buffer.WF) (hlo : -2 ^ 31 ≤ b.toMsg.missing) (hneg : b.toMsg.missing < 0) :
    Refines (b.copyBody buf) (b.toMsg.copyBody buf) := by
  have hgt : ¬ b.toMsg.missing > buf.length := by omega
  have hbad : ¬ (0 ≤ b.toMsg.missing ∧ b.toMsg.missing ≤ buf.length) := by omega
  rw [HttpMsg.copyBody_neg hneg, copyBody, left_eq hwf hlo (by omega), if_neg hgt, if_neg hgt, write,
    if_neg hbad]
  exact .error _

/-- **The copy of the body.** -/
theorem copyBody_refines (h : b.Sound) (hf : b._flag = .body) (hb : b._bodysize ≠ -1)
    (hlt : b._buffer._pos + buf.length < 2 ^ 31) :
    Refines (b.copyBody buf) (b.toMsg.copyBody buf) := by
  have hsize := h.size_eq
  have hbody := h.body
  have hbs := h.bodysize
  have hshort := h.short
  have hmiss : b.toMsg.missing = b._bodysize - (b._buffer._pos - b._body.beg) := by
    rw [HttpMsg.missing, hsize]
    rfl
  have hleft := left_eq h.wf (by omega) (by omega)
  by_cases hneg : b.toMsg.missing < 0
  · exact copyBody_neg h.wf (by omega) hneg
  by_cases hall : b.toMsg.missing ≤ buf.length
  · -- the last bytes of the body
    obtain ⟨n, hn⟩ : ∃ n : ℕ, b.toMsg.missing = n := ⟨b.toMsg.missing.toNat, by omega⟩
    have hover : ({ b with _flag := .over } : HttpBaseMsg).Sound :=
      { h with header := fun hb => by cases hb }
    have hle : n ≤ buf.length := by omega
    obtain ⟨hw, hsound, hmsg, hwpos⟩ := hover.write (fun hb => by cases hb) hle
      (by change b._buffer._pos + n < _; omega)
    rw [HttpMsg.copyBody_all (by omega) hall, copyBody, hleft, if_neg (by omega), if_neg (by omega), hn,
      hw, ok_bind, Int.toNat_natCast]
    have hpos : (wrote { b with _flag := .over } buf n).pos =
        (wrote { b with _flag := .over } buf n).toMsg.size := by rw [hsound.pos_eq, hsound.size_eq]
    have hend : { (wrote { b with _flag := .over } buf n).toMsg with
        _body := ⟨b._body.beg, (wrote { b with _flag := .over } buf n).pos⟩ } =
        (b.toMsg.push (buf.take n)).endBody := by
      rw [hpos, hmsg]
      rfl
    exact .ok { hsound with } hend
  · -- all bytes are of the body
    obtain ⟨hw, hsound, hmsg, -⟩ := h.write (fun _ => hb) (Nat.le_refl buf.length) hlt
    have hnover : ¬ (b.wrote buf buf.length)._flag = .over := by
      change ¬ b._flag = .over
      rw [hf]
      decide
    rw [HttpMsg.copyBody_more hf (by omega), copyBody, hleft, if_pos (by omega), if_pos (by omega), hw,
      ok_bind, if_neg hnover, Int.toNat_natCast]
    rw [List.take_length] at hmsg
    exact .ok hsound hmsg

theorem parseBody_refines (h : b.Sound) (hf : b._flag = .body)
    (hlt : b._buffer._pos + buf.length < 2 ^ 31) :
    Refines (b._parseBody buf) (b.toMsg._parseBody buf) := by
  unfold _parseBody HttpMsg._parseBody
  by_cases hne : buf = []
  · rw [if_pos hne, if_pos hne]
    exact .ok h rfl
  rw [if_neg hne, if_neg hne]
  by_cases hb : b._bodysize = -1
  · -- the first byte after the head
    have hcheck : b._checkContentLen = b.toMsg._checkContentLen :=
      checkLines_eq h.wf (h.header hf hb) b._header_vec h.vec
    rw [if_pos hb, if_pos (show b.toMsg._bodysize = -1 from hb), hcheck]
    cases hc : b.toMsg._checkContentLen with
    | error e => exact .error e
    | ok n =>
      have hn := checkLines_range _ _ hc
      simp only [ok_bind]
      by_cases h0 : n = 0
      · rw [if_pos h0, if_pos h0]
        exact .ok { h with
          bodysize := ⟨(by decide : (-1 : ℤ) ≤ 0), (by decide : (0 : ℤ) < 2 ^ 31)⟩
          header := fun hb => by cases hb } rfl
      rw [if_neg h0, if_neg h0]
      -- the body begins here
      have hpos := h.pos_eq
      have hsize := h.size_eq
      obtain ⟨b₁, hb₁⟩ : ∃ b₁ : HttpBaseMsg,
          b₁ = { b with _bodysize := n, _body := { b._body with beg := b.pos } } := ⟨_, rfl⟩
      have hmsg : b₁.toMsg = { b.toMsg with
          _bodysize := n, _body := { b.toMsg._body with beg := b.toMsg.size } } := by
        rw [hsize, ← hpos, hb₁]
        rfl
      have hsize₁ : b₁._bodysize = n := by rw [hb₁]
      have hbeg₁ : b₁._body.beg = b._buffer._pos := by rw [hb₁]; exact hpos
      have hbuf₁ : b₁._buffer = b._buffer := by rw [hb₁]
      rw [← hmsg, ← hb₁]
      by_cases hneg : n < 0
      · have hmiss : b₁.toMsg.missing = n := by
          rw [hmsg]
          change n - (b.toMsg.size - b.toMsg.size) = n
          omega
        exact copyBody_neg (hbuf₁ ▸ h.wf) (by omega) (by omega)
      · have hsound : b₁.Sound :=
          { wf := hbuf₁ ▸ h.wf
            short := by rw [hbuf₁]; exact h.short
            header2 := by rw [hbuf₁, hb₁]; exact h.header2
            pending := by rw [hbuf₁, hb₁]; exact h.pending
            vec := by rw [hb₁]; exact h.vec
            body := by rw [hbuf₁, hbeg₁]; omega
            bodysize := by rw [hsize₁]; omega
            header := by rw [hsize₁]; omega }
        exact copyBody_refines hsound (by rw [hb₁]; exact hf) (by omega) (by rw [hbuf₁]; exact hlt)
  · rw [if_neg hb, if_neg (show b.toMsg._bodysize ≠ -1 from hb)]
    by_cases h0 : b._bodysize = 0
    · rw [if_pos h0, if_pos (show b.toMsg._bodysize = 0 from h0)]
      exact .ok h rfl
    · rw [if_neg h0, if_neg (show b.toMsg._bodysize ≠ 0 from h0)]
      exact copyBody_refines h hf hb hlt

/-! ## The head -/

/-- A header line goes to the vector. -/
theorem Sound.pushHeader (h : b.Sound) (hf : b._flag ≠ .body) :
    b.pushHeader.Sound ∧ b.pushHeader.toMsg = b.toMsg.pushHeader := by
  have hpos := h.pos_eq
  have hshort := h.short
  have hbeg := h.header2
  have hmsg : b.pushHeader.toMsg = b.toMsg.pushHeader := by
    unfold HttpBaseMsg.pushHeader HttpMsg.pushHeader
    rw [h.size_eq, ← hpos]
    rfl
  refine ⟨{ h with
    pending := fun hp => absurd hp Bool.false_ne_true
    vec := ?_
    header := fun hb => absurd hb hf }, hmsg⟩
  intro p hp
  rcases List.mem_append.mp hp with hp | hp
  · exact h.vec p hp
  · rw [List.mem_singleton.mp hp]
    refine ⟨hbeg.1, ?_, ?_, ?_⟩
    · change b._header2.beg < 2 ^ 31
      omega
    · change 0 ≤ b.pos
      omega
    · change b.pos < 2 ^ 31
      omega

/-- **The header lines**, then the body. -/
theorem parseHead_refines (fuel : ℕ) : ∀ {b : HttpBaseMsg} {buf : List Byte}, b.Sound →
    b._flag = .head → b._buffer._pos + buf.length < 2 ^ 31 →
    Refines (parseHead fuel b buf) (HttpMsg.parseHead fuel b.toMsg buf) := by
  induction fuel with
  | zero =>
    intro b buf h _ _
    exact .ok h rfl
  | succ fuel ih =>
    intro b buf h hf hlt
    rw [parseHead, HttpMsg.parseHead]
    by_cases hne : buf = []
    · rw [if_pos hne, if_pos hne]
      exact .ok h rfl
    rw [if_neg hne, if_neg hne]
    have hbody : b._flag ≠ .body := by
      rw [hf]
      decide
    obtain ⟨hit, n, b', hread⟩ := h.readLine hbody hne hlt
    have hrest : b'._buffer._pos + (buf.drop n).length < 2 ^ 31 := by
      have := hread.le
      rw [hread.pos, List.length_drop]
      omega
    rw [hread.run, hread.toMsg, ok_bind]
    cases hit with
    | false => exact .ok hread.sound rfl
    | true =>
      obtain ⟨hs, hm⟩ := hread.sound.pushHeader (by rw [hread.flag]; exact hbody)
      have hshort := hread.sound.short
      have hline := hread.line rfl
      have hbeg := h.header2.1
      have hbeg2 : b'.toMsg.pushHeader._header2.beg = b._header2.beg := by
        change b'._header2.beg = _
        rw [hread.header2]
      -- the line has its CR LF, so that this is a position in the buffer
      have hnext : int (b'.toMsg.pushHeader._header2.beg + 2) =
          .ok (b'.toMsg.pushHeader._header2.beg + 2) := int_ok (by omega) (by omega)
      have hend : b'.pos = b'._buffer._pos := hread.sound.pos_eq
      have hh2 : b'.pushHeader._header2 = b'.toMsg.pushHeader._header2 := by
        rw [← hm]
        rfl
      simp only [if_true, hh2, hnext, ok_bind]
      by_cases hempty : b'.toMsg.pushHeader._header2.beg + 2 = b'.toMsg.pushHeader._header2.end_
      · -- the body follows
        rw [if_pos hempty, if_pos hempty]
        refine Refines.plus ?_ n
        -- from here on the header block ends where the buffer does, until the body is written
        have hsb : b'.pushHeader.startBody.Sound :=
          { hs with header := fun _ _ => hend }
        have hmb : b'.pushHeader.startBody.toMsg = b'.toMsg.pushHeader.startBody := by
          rw [← hm]
          rfl
        rw [← hmb]
        exact parseBody_refines hsb rfl hrest
      · rw [if_neg hempty, if_neg hempty]
        refine Refines.plus ?_ n
        have hsh : b'.pushHeader.startHeader.Sound :=
          { hs with
            header2 := ⟨by change 0 ≤ b'.pos; omega, by change b'.pos ≤ b'._buffer._pos; omega⟩
            pending := fun hp => absurd hp Bool.false_ne_true
            header := fun hb => by cases hb }
        have hmh : b'.pushHeader.startHeader.toMsg = b'.toMsg.pushHeader.startHeader := by
          rw [← hm]
          unfold startHeader HttpMsg.startHeader
          rw [hs.size_eq, ← hs.pos_eq]
          rfl
        rw [← hmh]
        exact ih hsh rfl hrest

/-! ## The start line -/

/-- A part of the start line ends: the same message, and no `int` overflows. -/
structure Ends (r : Except HttpFault HttpBaseMsg) (b : HttpBaseMsg) (m : HttpMsg) (f : ParseFlag)
    (b' : HttpBaseMsg) : Prop where
  run : r = .ok b'
  sound : b'.Sound
  toMsg : b'.toMsg = m
  flag : b'._flag = f
  buffer : b'._buffer = b._buffer

theorem Sound.endLine1 (h : b.Sound) (k : HttpKind) :
    ∃ b', Ends (b.endLine1 k) b (b.toMsg.endLine1 k) k.flag2 b' := by
  have hpos := h.pos_eq
  have hshort := h.short
  have hrun : b.endLine1 k = .ok { b with
      _line1 := ⟨b._line1.beg, b.pos - 1⟩
      _flag := k.flag2
      _line2 := ⟨b.pos, b._line2.end_⟩ } := by
    rw [HttpBaseMsg.endLine1, int_ok (by omega) (by omega)]
    rfl
  refine ⟨_, hrun, ?_, ?_, rfl, rfl⟩
  · exact { h with header := fun hb => absurd hb (by cases k <;> exact ParseFlag.noConfusion) }
  · rw [HttpMsg.endLine1, h.size_eq, ← hpos]
    rfl

theorem Sound.endLine2 (h : b.Sound) (k : HttpKind) :
    ∃ b', Ends (b.endLine2 k) b (b.toMsg.endLine2 k) k.flag3 b' := by
  have hpos := h.pos_eq
  have hshort := h.short
  have hrun : b.endLine2 k = .ok { b with
      _line2 := ⟨b._line2.beg, b.pos - 1⟩
      _flag := k.flag3
      _line3 := ⟨b.pos, b._line3.end_⟩ } := by
    rw [HttpBaseMsg.endLine2, int_ok (by omega) (by omega)]
    rfl
  refine ⟨_, hrun, ?_, ?_, rfl, rfl⟩
  · exact { h with header := fun hb => absurd hb (by cases k <;> exact ParseFlag.noConfusion) }
  · rw [HttpMsg.endLine2, h.size_eq, ← hpos]
    rfl

theorem Sound.endLine3 (h : b.Sound) : ∃ b', Ends b.endLine3 b b.toMsg.endLine3 .head b' := by
  have hpos := h.pos_eq
  have hshort := h.short
  have hrun : b.endLine3 = .ok { b with
      _line3 := ⟨b._line3.beg, b.pos - 2⟩
      _flag := .head
      _header2 := ⟨b.pos, b._header2.end_⟩
      _header := ⟨b.pos, b._header.end_⟩
      _assistflag := false } := by
    rw [HttpBaseMsg.endLine3, int_ok (by omega) (by omega)]
    rfl
  refine ⟨_, hrun, ?_, ?_, rfl, rfl⟩
  · exact { h with
      header2 := ⟨by change 0 ≤ b.pos; omega, by change b.pos ≤ b._buffer._pos; omega⟩
      pending := fun hp => absurd hp Bool.false_ne_true
      header := fun hb => by cases hb }
  · rw [HttpMsg.endLine3, h.size_eq, ← hpos]
    rfl

theorem parseLine3_refines (h : b.Sound) (hf : b._flag ≠ .body)
    (hlt : b._buffer._pos + buf.length < 2 ^ 31) :
    Refines (b.parseLine3 buf) (b.toMsg.parseLine3 buf) := by
  rw [parseLine3, HttpMsg.parseLine3]
  by_cases hne : buf = []
  · rw [if_pos hne, if_pos hne]
    exact .ok h rfl
  rw [if_neg hne, if_neg hne]
  obtain ⟨hit, n, b₁, hread⟩ := h.readLine hf hne hlt
  rw [hread.run, hread.toMsg, ok_bind]
  cases hit with
  | false => exact .ok hread.sound rfl
  | true =>
    obtain ⟨b₂, hend⟩ := hread.sound.endLine3
    simp only [if_true, hend.run, ok_bind]
    rw [← hend.toMsg]
    refine Refines.plus (parseHead_refines _ hend.sound hend.flag ?_) n
    have := hread.le
    rw [hend.buffer, hread.pos, List.length_drop]
    omega

theorem parseLine2_refines (h : b.Sound) (hf : b._flag ≠ .body)
    (hlt : b._buffer._pos + buf.length < 2 ^ 31) :
    Refines (b.parseLine2 k buf) (b.toMsg.parseLine2 k buf) := by
  rw [parseLine2, HttpMsg.parseLine2]
  by_cases hne : buf = []
  · rw [if_pos hne, if_pos hne]
    exact .ok h rfl
  rw [if_neg hne, if_neg hne]
  have hle := HttpMsg.parse1_le sp buf
  obtain ⟨hw, hsound, hmsg, hwpos⟩ := h.write (fun hb => absurd hb hf) hle (by omega)
  simp only [hw, HttpMsg.write_nat hle, ok_bind, ← hmsg]
  by_cases hhit : (parse1 sp buf).1 = true
  · obtain ⟨b', hend⟩ := hsound.endLine2 k
    simp only [hhit, if_true, hend.run, ok_bind, ← hend.toMsg]
    refine Refines.plus (parseLine3_refines hend.sound ?_ ?_) _
    · rw [hend.flag]
      exact (HttpMsg.flags_ne k).2.2.2.2.2.2.2.2.1.symm
    · rw [hend.buffer, hwpos, List.length_drop]
      omega
  · simp only [if_neg hhit]
    exact .ok hsound rfl

theorem parseLine1_refines (h : b.Sound) (hf : b._flag ≠ .body)
    (hlt : b._buffer._pos + buf.length < 2 ^ 31) :
    Refines (b.parseLine1 k buf) (b.toMsg.parseLine1 k buf) := by
  rw [parseLine1, HttpMsg.parseLine1]
  have hle := HttpMsg.parse1_le sp buf
  obtain ⟨hw, hsound, hmsg, hwpos⟩ := h.write (fun hb => absurd hb hf) hle (by omega)
  simp only [hw, HttpMsg.write_nat hle, ok_bind, ← hmsg]
  by_cases hhit : (parse1 sp buf).1 = true
  · obtain ⟨b', hend⟩ := hsound.endLine1 k
    simp only [hhit, if_true, hend.run, ok_bind, ← hend.toMsg]
    refine Refines.plus (parseLine2_refines hend.sound ?_ ?_) _
    · rw [hend.flag]
      exact (HttpMsg.flags_ne k).2.2.2.2.2.2.2.1.symm
    · rw [hend.buffer, hwpos, List.length_drop]
      omega
  · simp only [if_neg hhit]
    exact .ok hsound rfl

/-- **The parser in 32 bits refines `HttpMsg.parse`** while the message is short. -/
theorem parse_refines (k : HttpKind) (h : b.Sound) (hlt : b.Short buf) :
    Refines (parse k b buf) (HttpMsg.parse k b.toMsg buf) := by
  obtain ⟨-, -, -, -, -, -, hb1, hb2, hb3, -⟩ := HttpMsg.flags_ne k
  have hne : ∀ {f}, b._flag = f → ParseFlag.body ≠ f → b._flag ≠ .body := by
    intro f hf hb heq
    exact hb (heq.symm.trans hf)
  have hflag : b.toMsg._flag = b._flag := rfl
  rw [parse, HttpMsg.parse, hflag]
  split_ifs with h1 h2 h3 hh hb
  · exact parseLine1_refines h (hne h1 hb1) hlt
  · exact parseLine2_refines h (hne h2 hb2) hlt
  · exact parseLine3_refines h (hne h3 hb3) hlt
  · exact parseHead_refines _ h hh hlt
  · exact parseBody_refines h hb hlt
  · exact .ok h rfl

/-! ## Calls one after the other -/

/-- **A call that `HttpMsg.parse` describes.** -/
theorem Sound.parse (h : b.Sound) (hlt : b.Short buf) {n : ℕ} {m : HttpMsg}
    (hp : HttpMsg.parse k b.toMsg buf = .ok (n, m)) :
    ∃ b', HttpBaseMsg.parse k b buf = .ok (n, b') ∧ b'.Sound ∧ b'.toMsg = m ∧ n ≤ buf.length ∧
      b'._buffer._pos = b._buffer._pos + n := by
  have href := parse_refines k h hlt
  rw [hp] at href
  generalize hr : HttpBaseMsg.parse k b buf = r at href
  cases href with
  | @ok _ b' _ hs hm =>
    have hle := ((HttpMsg.parse_resumable k).consumed hp).1
    have hbuf := congrArg List.length (HttpMsg.parse_buffer k buf hp)
    rw [← hm, List.length_append, List.length_take, Nat.min_eq_left hle] at hbuf
    exact ⟨b', rfl, hs, hm, hle, by rw [← hs.wf.content_length, ← h.wf.content_length]; exact hbuf⟩

/-- A failure that `HttpMsg.parse` describes. -/
theorem Sound.parse_error (h : b.Sound) (hlt : b.Short buf) {e : HttpFault}
    (hp : HttpMsg.parse k b.toMsg buf = .error e) : HttpBaseMsg.parse k b buf = .error e := by
  have href := parse_refines k h hlt
  rw [hp] at href
  generalize hr : HttpBaseMsg.parse k b buf = r at href
  cases href
  rfl

/-- **The states of a short message** are sound, and `HttpMsg.parse` reaches them. -/
theorem Reachable.sound (h : Reachable k Short b) : b.Sound ∧ HttpMsg.Reachable k b.toMsg := by
  obtain ⟨buffer, hwf, hrun⟩ := h
  refine hrun.inv (I := fun b => b.Sound ∧ HttpMsg.Reachable k b.toMsg)
    ⟨sound_clear hwf, toMsg_clear k buffer ▸ .refl⟩ ?_
  rintro b buf b' ⟨hs, hreach⟩ hlt hstep
  unfold Parser.step at hstep
  split at hstep
  · cases hstep
  · rename_i n b₁ hp
    obtain rfl : b₁ = b' := Option.some.inj hstep
    cases hm : HttpMsg.parse k b.toMsg buf with
    | error e =>
      rw [hs.parse_error hlt hm] at hp
      cases hp
    | ok r =>
      obtain ⟨i, m⟩ := r
      obtain ⟨b₂, hp₂, hs₂, hm₂, -, -⟩ := hs.parse hlt hm
      rw [hp₂] at hp
      cases hp
      refine ⟨hs₂, hreach.next (a := buf) trivial ?_⟩
      rw [Parser.step, hm, hm₂]

/-- **Chunks of a short message.** -/
theorem Sound.feed (chunks : List (List Byte)) : ∀ {b : HttpBaseMsg}, b.Sound →
    b.Short chunks.flatten → ∀ {ns : List ℕ} {m : HttpMsg},
      Parser.feed (HttpMsg.parse k) b.toMsg chunks = .ok (ns, m) →
      ∃ b', Parser.feed (HttpBaseMsg.parse k) b chunks = .ok (ns, b') ∧ b'.Sound ∧ b'.toMsg = m := by
  induction chunks with
  | nil =>
    intro b h _ ns m hfeed
    cases hfeed
    exact ⟨b, rfl, h, rfl⟩
  | cons c cs ih =>
    intro b h hlt ns m hfeed
    have hlt' : b._buffer._pos + (c.length + cs.flatten.length) < 2 ^ 31 := by
      rw [← List.length_append]
      exact hlt
    rw [Parser.feed] at hfeed
    cases hp : HttpMsg.parse k b.toMsg c with
    | error e =>
      rw [hp] at hfeed
      cases hfeed
    | ok r =>
      obtain ⟨n, m₁⟩ := r
      obtain ⟨b₁, hp₁, hs₁, hm₁, hle, hpos⟩ := h.parse (show b._buffer._pos + c.length < 2 ^ 31 by omega) hp
      rw [hp] at hfeed
      simp only at hfeed
      cases hrest : Parser.feed (HttpMsg.parse k) m₁ cs with
      | error e =>
        rw [hrest] at hfeed
        cases hfeed
      | ok r =>
        obtain ⟨is, m₂⟩ := r
        rw [hrest] at hfeed
        cases hfeed
        rw [← hm₁] at hrest
        obtain ⟨b₂, hfeed₂, hs₂, hm₂⟩ := ih hs₁
          (show b₁._buffer._pos + cs.flatten.length < 2 ^ 31 by omega) hrest
        refine ⟨b₂, ?_, hs₂, hm₂⟩
        simp only [Parser.feed, hp₁, hfeed₂]
        rfl

/-! ## The getters -/

/-- A string between two positions in the message buffer. -/
theorem Sound.substr (h : b.Sound) {p : StrPos} (hbeg : 0 ≤ p.beg) (hle : p.beg ≤ p.end_)
    (hend : p.end_ ≤ b._buffer._pos) : b.substr p = .ok (b.toMsg.substr p) := by
  have hshort := h.short
  rw [HttpBaseMsg.substr, int_ok (by omega) (by omega), ok_bind, string, h.wf.content_length,
    if_pos ⟨hbeg, by omega, by omega⟩]
  rfl

/-- The header lines lie in the message buffer, each with its CR LF. -/
def Lines (b : HttpBaseMsg) : Prop :=
  ∀ p ∈ b._header_vec, 0 ≤ p.beg ∧ p.beg + 2 ≤ p.end_ ∧ p.end_ ≤ b._buffer._pos

theorem Sound.nextHeader (h : b.Sound) (hl : b.Lines) :
    ∃ b', b.nextHeader = .ok (b.toMsg.nextHeader.1, b') ∧ b'.toMsg = b.toMsg.nextHeader.2 ∧
      b'.Sound ∧ b'.Lines := by
  have hget : b.toMsg._header_vec[b.toMsg._header_iter]? = b._header_vec[b._header_iter]? := rfl
  unfold HttpBaseMsg.nextHeader HttpMsg.nextHeader
  rw [hget]
  cases hp : b._header_vec[b._header_iter]? with
  | none => exact ⟨b, rfl, rfl, h, hl⟩
  | some p =>
    obtain ⟨hbeg, hle, hend⟩ := hl p (List.mem_of_getElem? hp)
    have hshort := h.short
    have hlen : p.end_ - p.beg - 2 = p.end_ - 2 - p.beg := by omega
    have hstr : b.string p.beg (p.end_ - p.beg - 2) =
        .ok (b.toMsg.substr { p with end_ := p.end_ - 2 }) := by
      rw [string, h.wf.content_length, if_pos ⟨hbeg, by omega, by omega⟩, HttpMsg.substr, hlen]
      rfl
    simp only [int_ok (show -2 ^ 31 ≤ p.end_ - p.beg by omega) (by omega),
      int_ok (show -2 ^ 31 ≤ p.end_ - p.beg - 2 by omega) (by omega), ok_bind, hstr]
    exact ⟨{ b with _header_iter := b._header_iter + 1 }, rfl, rfl, { h with }, hl⟩

/-- **The calls of `NextHeader`.** -/
theorem Sound.nextHeaders (n : ℕ) : ∀ {b : HttpBaseMsg}, b.Sound → b.Lines →
    HttpBaseMsg.nextHeaders n b = .ok (b.toMsg.nextHeaders n) := by
  induction n with
  | zero => exact fun _ _ => rfl
  | succ n ih =>
    intro b h hl
    obtain ⟨b', hnext, hmsg, hs, hl'⟩ := h.nextHeader hl
    rw [HttpBaseMsg.nextHeaders, HttpMsg.nextHeaders, hnext, ok_bind, ← hmsg]
    simp only [ih hs hl', ok_bind]
    rfl

end HttpBaseMsg

end Netlib
