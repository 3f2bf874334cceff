import Mathlib.Data.List.Basic
import Mathlib.Data.Nat.Basic
import Mathlib.Tactic.Common

/-!
# Framings and chunked readers

A `Framing` finds the first frame of a stream: it needs more symbols, rejects
the stream, or gives a payload and the number of symbols it takes. Its answers
are stable: more symbols after an accepted frame or a rejection change nothing.
`decode` is the one-shot reference decoder, which takes frames as long as it can.

A reader is handed the stream in chunks. `Framing.Reads` says that one call of a
reader does to the pending symbols what the reference decoder does to them with
the chunk appended; `Framing.Reads.agrees` is the conclusion for any number of
calls: the answers and deliveries are those of the reference decoder on what has
arrived, whatever the chunks.
-/

namespace Netlib.Lib

variable {β π : Type*}

/-- The first frame of a stream. -/
inductive Next (π : Type*)
  | more
  | reject
  | frame (p : π) (n : ℕ)

/-- **A framing**: a stable rule for the first frame of a stream. -/
structure Framing (β π : Type*) where
  next : List β → Next π
  frame_pos : ∀ {s p n}, next s = .frame p n → 0 < n ∧ n ≤ s.length
  frame_append : ∀ {s p n} (t : List β), next s = .frame p n → next (s ++ t) = .frame p n
  reject_append : ∀ {s} (t : List β), next s = .reject → next (s ++ t) = .reject

/-- What the reference decoder makes of a stream: the payloads, the symbols of the
frame that is not complete, and whether no frame was rejected. -/
structure Decoded (β π : Type*) where
  frames : List π
  tail : List β
  ok : Bool
  deriving DecidableEq

/-- A frame before what is decoded after it. -/
def Decoded.cons (p : π) (d : Decoded β π) : Decoded β π := { d with frames := p :: d.frames }

/-- **The reference decoder.** -/
def Framing.decode (F : Framing β π) (s : List β) : Decoded β π :=
  match _h : F.next s with
  | .more => ⟨[], s, true⟩
  | .reject => ⟨[], s, false⟩
  | .frame p n => (F.decode (s.drop n)).cons p
termination_by s.length
decreasing_by
  have := F.frame_pos ‹_›
  simp only [List.length_drop]; omega

namespace Framing

variable {F : Framing β π}

theorem decode_more {s : List β} (h : F.next s = .more) : F.decode s = ⟨[], s, true⟩ := by
  rw [decode]; split <;> simp_all

theorem decode_reject {s : List β} (h : F.next s = .reject) : F.decode s = ⟨[], s, false⟩ := by
  rw [decode]; split <;> simp_all

theorem decode_frame {s : List β} {p : π} {n : ℕ} (h : F.next s = .frame p n) :
    F.decode s = (F.decode (s.drop n)).cons p := by
  rw [decode]
  split
  · simp_all
  · simp_all
  · rename_i p' n' h'
    rw [h] at h'
    cases h'; rfl

/-- **Decoding in two parts.** After an accepted first part the decoder goes on
with the symbols left of it; after a rejected one nothing is decoded. -/
theorem decode_append (s t : List β) :
    F.decode (s ++ t) =
      if (F.decode s).ok then
        { F.decode ((F.decode s).tail ++ t) with
          frames := (F.decode s).frames ++ (F.decode ((F.decode s).tail ++ t)).frames }
      else ⟨(F.decode s).frames, (F.decode s).tail ++ t, false⟩ := by
  induction hn : s.length using Nat.strongRecOn generalizing s with
  | _ k ih =>
    cases h : F.next s with
    | more => simp [decode_more h]
    | reject => simp [decode_reject h, decode_reject (F.reject_append t h)]
    | frame p n =>
      obtain ⟨h0, hle⟩ := F.frame_pos h
      have hd : (s ++ t).drop n = s.drop n ++ t := List.drop_append_of_le_length hle
      have hs := ih (s.drop n).length (by simp only [List.length_drop]; omega) (s.drop n) rfl
      rw [decode_frame (F.frame_append t h), decode_frame h, hd, hs]
      by_cases hok : (F.decode (s.drop n)).ok <;> simp [Decoded.cons, hok]

/-- **A prefix of an accepted stream** is accepted, and its frames come first. -/
theorem decode_prefix {s t : List β} (h : s <+: t) (ht : (F.decode t).ok = true) :
    (F.decode s).ok = true ∧ (F.decode s).frames <+: (F.decode t).frames := by
  obtain ⟨r, rfl⟩ := h
  rw [decode_append] at ht ⊢
  split at ht
  · rename_i hs
    rw [if_pos hs]
    exact ⟨hs, List.prefix_append _ _⟩
  · cases ht

/-- What is left of an accepted stream holds no complete frame. -/
theorem next_tail (s : List β) (h : (F.decode s).ok = true) : F.next (F.decode s).tail = .more := by
  induction hn : s.length using Nat.strongRecOn generalizing s with
  | _ k ih =>
    cases hx : F.next s with
    | more => rw [decode_more hx]; exact hx
    | reject => rw [decode_reject hx] at h; simp at h
    | frame p n =>
      obtain ⟨h0, hle⟩ := F.frame_pos hx
      rw [decode_frame hx] at h ⊢
      exact ih (s.drop n).length (by simp only [List.length_drop]; omega) (s.drop n) h rfl

end Framing

/-! ## Readers -/

variable {σ : Type*} {F : Framing β π}

/-- The calls of a reader on chunks that arrive one after the other: each gives
whether the stream is still accepted and the payloads delivered by this call. A
reader is not called again after it rejected, and `none` is a call that does not return. -/
def calls (call : σ → List β → Option (Bool × List π × σ)) :
    σ → List (List β) → Option (List (Bool × List π) × σ)
  | s, [] => some ([], s)
  | s, c :: cs => do
    let (ok, ps, s') ← call s c
    if ok then
      let (as, s'') ← calls call s' cs
      return ((ok, ps) :: as, s'')
    else return ([(ok, ps)], s')

/-- **The answers on `cs` agree with the reference decoder**: after each call the
payloads delivered so far are those of the bytes handed over so far, the call
rejects exactly when those bytes are rejected, and the calls stop only there. -/
structure Agrees (F : Framing β π) (cs : List (List β)) (as : List (Bool × List π)) : Prop where
  length_le : as.length ≤ cs.length
  ok : ∀ k a, as[k]? = some a → a.1 = (F.decode (cs.take (k + 1)).flatten).ok
  frames : ∀ k ≤ as.length, (as.take k).flatMap Prod.snd = (F.decode (cs.take k).flatten).frames
  stop : as.length < cs.length → (F.decode (cs.take as.length).flatten).ok = false

/-- One call of the reader is one more chunk for the reference decoder. `R` ties
the reader's state to the pending symbols. -/
def Framing.Reads (F : Framing β π) (R : σ → List β → Prop) (Q : List β → Prop)
    (call : σ → List β → Option (Bool × List π × σ)) : Prop :=
  ∀ s tail c, R s tail → F.next tail = .more → Q c →
    ∃ s', call s c = some ((F.decode (tail ++ c)).ok, (F.decode (tail ++ c)).frames, s') ∧
      ((F.decode (tail ++ c)).ok = true → R s' (F.decode (tail ++ c)).tail)

variable {R : σ → List β → Prop} {Q : List β → Prop}
  {call : σ → List β → Option (Bool × List π × σ)}

/-- The calls from a state that holds what is left of the bytes `acc`. -/
theorem Framing.Reads.calls_from (hR : F.Reads R Q call) (cs : List (List β)) :
    ∀ (s : σ) (acc : List β), (F.decode acc).ok = true → R s (F.decode acc).tail →
      (∀ c ∈ cs, Q c) →
      ∃ as s', calls call s cs = some (as, s') ∧ as.length ≤ cs.length ∧
        (∀ k a, as[k]? = some a → a.1 = (F.decode (acc ++ (cs.take (k + 1)).flatten)).ok) ∧
        (∀ k ≤ as.length, (F.decode acc).frames ++ (as.take k).flatMap Prod.snd =
          (F.decode (acc ++ (cs.take k).flatten)).frames) ∧
        (as.length < cs.length → (F.decode (acc ++ (cs.take as.length).flatten)).ok = false) := by
  induction cs with
  | nil =>
    intro s acc _ _ _
    exact ⟨[], s, rfl, Nat.le_refl _, by simp, by simp, by simp⟩
  | cons c cs ih =>
    intro s acc hok hRs hQ
    have happ := decode_append (F := F) acc c
    rw [if_pos hok] at happ
    obtain ⟨s', hcall, hR'⟩ := hR s (F.decode acc).tail c hRs (next_tail acc hok)
      (hQ c List.mem_cons_self)
    have hok' : (F.decode (acc ++ c)).ok = (F.decode ((F.decode acc).tail ++ c)).ok := by rw [happ]
    have hfr : (F.decode (acc ++ c)).frames =
        (F.decode acc).frames ++ (F.decode ((F.decode acc).tail ++ c)).frames := by rw [happ]
    have htl : (F.decode (acc ++ c)).tail = (F.decode ((F.decode acc).tail ++ c)).tail := by rw [happ]
    rw [← hok', ← htl] at hR'
    rw [← hok'] at hcall
    by_cases hb : (F.decode (acc ++ c)).ok = true
    · -- the call accepts: go on with the bytes `acc ++ c`
      obtain ⟨as, s'', h1, h2, h3, h4, h5⟩ := ih s' (acc ++ c) hb (hR' hb)
        (fun x hx => hQ x (List.mem_cons_of_mem _ hx))
      refine ⟨(true, (F.decode ((F.decode acc).tail ++ c)).frames) :: as, s'', ?_, ?_, ?_, ?_, ?_⟩
      · simp [calls, hcall, hb, h1]
      · simpa using h2
      · intro k a hk
        rcases k with _ | k
        · simp at hk; subst hk; simpa using hb.symm
        · simpa using h3 k a (by simpa using hk)
      · intro k hk
        rcases k with _ | k
        · simp
        · have := h4 k (by simpa using hk)
          rw [hfr] at this
          simpa using this
      · intro hlt
        simpa using h5 (by simpa using hlt)
    · -- the call rejects: no further call
      have hb' : (F.decode (acc ++ c)).ok = false := by simpa using hb
      refine ⟨[(false, (F.decode ((F.decode acc).tail ++ c)).frames)], s', ?_, ?_, ?_, ?_, ?_⟩
      · simp [calls, hcall, hb']
      · simp
      · intro k a hk
        rcases k with _ | k
        · simp at hk; subst hk; simpa using hb'.symm
        · simp at hk
      · intro k hk
        have : k = 0 ∨ k = 1 := by simp at hk; omega
        rcases this with rfl | rfl
        · simp
        · simp [hfr]
      · intro _; simpa using hb'

/-- **Chunked reading agrees with the reference decoder**, on every cut of the stream. -/
theorem Framing.Reads.agrees (hR : F.Reads R Q call) {s : σ} (hs : R s []) (h0 : F.next [] = .more)
    {cs : List (List β)} (hQ : ∀ c ∈ cs, Q c) :
    ∃ as s', calls call s cs = some (as, s') ∧ Agrees F cs as := by
  have hd : F.decode [] = ⟨[], [], true⟩ := decode_more h0
  obtain ⟨as, s', h1, h2, h3, h4, h5⟩ := hR.calls_from cs s [] (by rw [hd]) (by rw [hd]; exact hs) hQ
  rw [hd] at h4
  exact ⟨as, s', h1, h2, by simpa using h3, by simpa using h4, by simpa using h5⟩

end Netlib.Lib
