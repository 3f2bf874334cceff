import Netlib.Spec.CoRpc
import Netlib.Proof.ScClient

/-!
# The connections of coroutines

The server deals with the frames of a connection once each and in their order (`CoLink.Tidy`). What a
connector is handed is the reply to the one request on its connection, or an answer to a keep-alive
(`CoLink.Asking`).
-/

namespace Netlib

open Lib BaseScClient

variable {ω : Type*}

/-! ## The server -/

namespace ScServer

/-- A keep-alive is answered, if the socket has its data. -/
theorem onReceiveData_keepAlive (_handlers : ℕ → Option (IServerHandler ω)) {s : ScConn ω}
    (hdealt : s.dealt = []) (hsends : s.sends = []) {b : Buffer} (hb : b.WF)
    (hun : b.unread = le32 keepaliveId) :
    (onReceiveData _handlers s b).1.dealt = [] ∧ (onReceiveData _handlers s b).1.sends = [] ∨
      (onReceiveData _handlers s b).1.dealt = [.keepAlive] ∧
        (onReceiveData _handlers s b).1.sends = [le32 keepaliveAckId] := by
  have hun' : b.unread = le32 keepaliveId ++ [] := by rw [hun, List.append_nil]
  obtain ⟨hr, hwf, -⟩ := hb.readWord_eq (by decide) hun'
  unfold onReceiveData
  cases s.info with
  | none => exact .inl ⟨hdealt, hsends⟩
  | some pscinfo =>
    right
    have hfilled := hwf.filled_clear.writeWord keepaliveAckId (by decide)
    simp only [hr, if_pos, hdealt, hsends, List.nil_append, true_and]
    rw [hfilled.wf.sendData, hfilled.unread, List.nil_append]

end ScServer

/-! ## Connections -/

/-- The three words of a request, and of the reply to it. -/
def Asked.head (a : Asked) (idx : ℕ) : List Byte := words twowayType (toU32 a.args.msg_type) idx

/-- The frames that are sent: keep-alives and requests. -/
inductive Framed : Option Asked → List Byte → Prop
  | keepAlive : Framed none (le32 keepaliveId)
  | request (a : Asked) {idx : ℕ} (hidx : idx < 2 ^ 32) : Framed (some a) (a.head idx ++ a.args.msg)

/-- The frames that come back. -/
inductive Replied : Option Asked → List Byte → List Byte → Prop
  | keepAlive : Replied none (le32 keepaliveId) (le32 keepaliveAckId)
  | request (a : Asked) (idx : ℕ) (bytes : List Byte) :
      Replied (some a) (a.head idx ++ a.args.msg) (a.head idx ++ bytes)

/-- Only keep-alives. -/
def Beats (frames : List (Option Asked × List Byte)) : Prop := ∀ f ∈ frames, f.1 = none

/-- Only answers to keep-alives. -/
def Acks (replies : List (List Byte)) : Prop := ∀ d ∈ replies, d = le32 keepaliveAckId

theorem Beats.snoc {fs : List (Option Asked × List Byte)} (h : Beats fs) (data : List Byte) :
    Beats (fs ++ [(none, data)]) := by
  intro f hf
  rcases List.mem_append.mp hf with hf | hf
  · exact h f hf
  · rw [List.mem_singleton.mp hf]

theorem Beats.tail {f : Option Asked × List Byte} {fs : List (Option Asked × List Byte)}
    (h : Beats (f :: fs)) : Beats fs := fun x hx => h x (List.mem_cons_of_mem _ hx)

theorem Acks.snoc {ds : List (List Byte)} (h : Acks ds) : Acks (ds ++ [le32 keepaliveAckId]) := by
  intro d hd
  rcases List.mem_append.mp hd with hd | hd
  · exact h d hd
  · exact List.mem_singleton.mp hd

theorem Acks.tail {d : List Byte} {ds : List (List Byte)} (h : Acks (d :: ds)) : Acks ds := fun x hx =>
  h x (List.mem_cons_of_mem _ hx)

namespace CoLink

variable {l : CoLink}

/-- The frames that the server has not taken. -/
def waiting (l : CoLink) : List (Option Asked × List Byte) := l.sent.drop l.frames

/-- The replies that the connector was not handed. -/
def coming (l : CoLink) : List (List Byte) := l.replies.drop l.got

/-- **What the server has dealt with** are frames of the connection, each once and in their order. -/
structure Tidy (l : CoLink) : Prop where
  info : ∀ i, l.info = some i → i.buffer.WF
  frames : l.frames ≤ l.sent.length
  got : l.got ≤ l.replies.length
  framed : ∀ f ∈ l.sent, Framed f.1 f.2
  genuine : ∀ s ∈ l.served, ∃ f, l.sent[s.frame]? = some f ∧ s.dealt = coDealt f.1
  below : ∀ s ∈ l.served, s.frame < l.frames
  order : (l.served.map Served.frame).Pairwise (· < ·)

theorem connected_tidy (port : ℕ) : (connected port).Tidy where
  info i h := by
    obtain rfl := Option.some.inj h
    exact Buffer.new_wf
  frames := Nat.le_refl 0
  got := Nat.le_refl 0
  framed f hf := by cases hf
  genuine s hs := by cases hs
  below s hs := by cases hs
  order := List.Pairwise.nil

theorem waiting_cons {f : Option Asked × List Byte} (h : l.sent[l.frames]? = some f) :
    l.waiting = f :: l.sent.drop (l.frames + 1) := by
  obtain ⟨hlt, rfl⟩ := List.getElem?_eq_some_iff.mp h
  exact List.drop_eq_getElem_cons hlt

theorem coming_cons {d : List Byte} (h : l.replies[l.got]? = some d) :
    l.coming = d :: l.replies.drop (l.got + 1) := by
  obtain ⟨hlt, rfl⟩ := List.getElem?_eq_some_iff.mp h
  exact List.drop_eq_getElem_cons hlt

/-- A frame is dealt with, and its reply is put on the connection or refused; or nothing is. -/
structure Serves (l l' : CoLink) (f : Option Asked × List Byte) : Prop where
  sent : l'.sent = l.sent
  frames : l'.frames = l.frames + 1
  got : l'.got = l.got
  info : ∀ i, l'.info = some i → i.buffer.WF
  done : l'.served = l.served ∧ l'.replies = l.replies ∨
    ∃ d, Replied f.1 f.2 d ∧ l'.served = l.served ++ [⟨l.frames, coDealt f.1, d⟩] ∧
      (l'.replies = l.replies ∨ l'.replies = l.replies ++ [d])

/-- **`OnReceiveData` of the server** for the next frame. -/
theorem Tidy.onServe (h : l.Tidy) (_handlers : ℕ → Option (ScHandler ω)) (user : ω)
    {f : Option Asked × List Byte} (hf : l.sent[l.frames]? = some f) {frame : Buffer} (hb : frame.WF)
    (hun : frame.unread = f.2) (now : ℕ) (sock : TcpBaseSocket) (err : Bool) :
    l.Serves (l.serve _handlers user frame now sock err).1 f := by
  set s := (ScServer.onReceiveData (fun id => (_handlers id).map ScHandler.toIServerHandler)
    ⟨l.info, user, [], []⟩ frame).1 with hs
  have hdone : s.dealt = [] ∧ s.sends = [] ∨
      ∃ d, Replied f.1 f.2 d ∧ s.dealt = [coDealt f.1] ∧ s.sends = [d] := by
    obtain ⟨x, data⟩ := f
    cases h.framed _ (List.mem_of_getElem? hf) with
    | keepAlive =>
      rcases ScServer.onReceiveData_keepAlive (fun id => (_handlers id).map ScHandler.toIServerHandler)
        (s := ⟨l.info, user, [], []⟩) rfl rfl hb hun with h | ⟨hd, hr⟩
      · exact .inl h
      · exact .inr ⟨_, .keepAlive, hd, hr⟩
    | @request a idx hidx =>
      have hreq : frame.unread = words (ScKind.scClient.wayOf true) (toU32 a.args.msg_type) idx ++
          a.args.msg := hun
      obtain ⟨s', hs', -, hres⟩ := ScServer.onReceiveData_reply _handlers
        (s := ⟨l.info, user, [], []⟩) h.info rfl rfl hb (toU32_lt a.args.msg_type) hidx hreq
      rw [← hs] at hs'
      rw [toInt32_toU32 a.args.int.1 a.args.int.2, if_pos rfl, ← hs'] at hres
      rcases hres with hres | ⟨bytes, hr, hd⟩
      · exact .inl hres
      · exact .inr ⟨_, .request a idx bytes, hd, hr⟩
  have hwf : ∀ i, s.info = some i → i.buffer.WF :=
    (ScServer.onReceiveData_wf (s := ⟨l.info, user, [], []⟩) h.info hb).1
  refine ⟨rfl, rfl, rfl, hwf, ?_⟩
  simp only [serve, ← hs]
  rcases hdone with ⟨hd, hr⟩ | ⟨d, hrep, hd, hr⟩
  · left
    rw [hd, hr]
    exact ⟨List.append_nil _, List.append_nil _⟩
  · right
    refine ⟨d, hrep, ?_, ?_⟩
    · rw [hd, hr]
      rfl
    · rw [hr, List.filter_singleton]
      cases (sock.send now d err).1 with
      | true => exact .inr rfl
      | false => exact .inl (List.append_nil _)

/-- What is sent and served stays. -/
structure Extends (l l' : CoLink) : Prop where
  sent : l.sent <+: l'.sent
  served : ∀ s ∈ l.served, s ∈ l'.served

theorem Extends.get {l' : CoLink} (h : l.Extends l') {i : ℕ} {f : Option Asked × List Byte}
    (hf : l.sent[i]? = some f) : l'.sent[i]? = some f := by
  obtain ⟨more, hmore⟩ := h.sent
  rw [← hmore, List.getElem?_append_left (List.getElem?_eq_some_iff.mp hf).1, hf]

theorem push_extends (l : CoLink) (f : Option Asked × List Byte) : l.Extends (l.push f) :=
  ⟨List.prefix_append _ _, fun _ hs => hs⟩

theorem read_extends (l : CoLink) (got : ℕ) : l.Extends { l with got := got } :=
  ⟨List.prefix_refl _, fun _ hs => hs⟩

theorem Serves.extends {l' : CoLink} {f : Option Asked × List Byte} (h : l.Serves l' f) :
    l.Extends l' := by
  refine ⟨⟨[], by rw [List.append_nil, h.sent]⟩, fun s hs => ?_⟩
  rcases h.done with ⟨he, -⟩ | ⟨d, -, he, -⟩
  · rw [he]
    exact hs
  · rw [he]
    exact List.mem_append_left _ hs

theorem Tidy.serve {l' : CoLink} (h : l.Tidy) {f : Option Asked × List Byte}
    (hf : l.sent[l.frames]? = some f) (hs : l.Serves l' f) : l'.Tidy := by
  have hlt := (List.getElem?_eq_some_iff.mp hf).1
  have hgot : l.got ≤ l'.replies.length := by
    rcases hs.done with ⟨-, he⟩ | ⟨d, -, -, he | he⟩
    · rw [he]
      exact h.got
    · rw [he]
      exact h.got
    · rw [he, List.length_append]
      exact Nat.le_add_right_of_le h.got
  have hserved : ∀ {P : Served → Prop}, (∀ s ∈ l.served, P s) →
      (∀ d, P ⟨l.frames, coDealt f.1, d⟩) → ∀ s ∈ l'.served, P s := by
    intro P hold hnew s hmem
    rcases hs.done with ⟨he, -⟩ | ⟨d, -, he, -⟩
    · rw [he] at hmem
      exact hold s hmem
    · rw [he] at hmem
      rcases List.mem_append.mp hmem with hmem | hmem
      · exact hold s hmem
      · rw [List.mem_singleton.mp hmem]
        exact hnew d
  refine ⟨hs.info, ?_, ?_, ?_, ?_, ?_, ?_⟩
  · rw [hs.frames, hs.sent]
    exact hlt
  · rw [hs.got]
    exact hgot
  · rw [hs.sent]
    exact h.framed
  · rw [hs.sent]
    exact hserved h.genuine fun d => ⟨f, hf, rfl⟩
  · rw [hs.frames]
    exact hserved (fun s hmem => Nat.lt_succ_of_lt (h.below s hmem)) fun d => Nat.lt_succ_self _
  · rcases hs.done with ⟨he, -⟩ | ⟨d, -, he, -⟩
    · rw [he]
      exact h.order
    · rw [he, List.map_append, List.pairwise_append]
      refine ⟨h.order, List.pairwise_singleton _ _, ?_⟩
      intro x hx y hy
      obtain ⟨s, hmem, rfl⟩ := List.mem_map.mp hx
      rw [List.mem_singleton.mp hy]
      exact h.below s hmem

theorem Tidy.push (h : l.Tidy) {f : Option Asked × List Byte} (hf : Framed f.1 f.2) :
    (l.push f).Tidy where
  info := h.info
  frames := by
    change l.frames ≤ (l.sent ++ [f]).length
    rw [List.length_append]
    exact Nat.le_add_right_of_le h.frames
  got := h.got
  framed x hx := by
    rcases List.mem_append.mp hx with hx | hx
    · exact h.framed x hx
    · rw [List.mem_singleton.mp hx]
      exact hf
  genuine s hs := by
    obtain ⟨x, hx, hd⟩ := h.genuine s hs
    exact ⟨x, (l.push_extends f).get hx, hd⟩
  below := h.below
  order := h.order

theorem Tidy.read (h : l.Tidy) {d : List Byte} (hd : l.replies[l.got]? = some d) :
    Tidy { l with got := l.got + 1 } :=
  ⟨h.info, h.frames, (List.getElem?_eq_some_iff.mp hd).1, h.framed, h.genuine, h.below, h.order⟩

/-! ## What a connector waits for -/

/-- **Nothing but keep-alives** is on the connection. -/
structure Quiet (l : CoLink) : Prop where
  waiting : Beats l.waiting
  coming : Acks l.coming

/-- A reply to the request of an attempt, with its pack index. -/
def Reply (l : CoLink) (a : Asked) (idx : ℕ) (d : List Byte) : Prop :=
  ∃ s ∈ l.served, (l.sent[s.frame]?).map Prod.fst = some (some a) ∧ s.data = d ∧
    ∃ bytes, d = a.head idx ++ bytes

/-- **One request is on the connection**, or its reply, or nothing of the two any more. -/
inductive Asking (l : CoLink) (a : Asked) (idx : ℕ) : Prop
  | asked {pre post : List (Option Asked × List Byte)}
      (waiting : l.waiting = pre ++ (some a, a.head idx ++ a.args.msg) :: post) (hpre : Beats pre)
      (hpost : Beats post) (coming : Acks l.coming)
  | quiet (h : l.Quiet)
  | replied (waiting : Beats l.waiting) {pre post : List (List Byte)} {d : List Byte}
      (coming : l.coming = pre ++ d :: post) (hpre : Acks pre) (hpost : Acks post)
      (reply : l.Reply a idx d)

theorem connected_quiet (port : ℕ) : (connected port).Quiet := by
  constructor
  · intro f hf
    cases hf
  · intro d hd
    cases hd

theorem Reply.mono {l' : CoLink} {a : Asked} {idx : ℕ} {d : List Byte} (h : l.Reply a idx d)
    (hl : l.Extends l') : l'.Reply a idx d := by
  obtain ⟨s, hs, hsent, hd⟩ := h
  obtain ⟨f, hf, hfa⟩ := Option.map_eq_some_iff.mp hsent
  refine ⟨s, hl.served s hs, ?_, hd⟩
  rw [hl.get hf]
  exact congrArg some hfa

theorem Tidy.waiting_push (h : l.Tidy) (f : Option Asked × List Byte) :
    (l.push f).waiting = l.waiting ++ [f] :=
  List.drop_append_of_le_length h.frames

theorem Quiet.keepAlive (h : l.Quiet) (ht : l.Tidy) (data : List Byte) :
    (l.push (none, data)).Quiet := by
  refine ⟨?_, h.coming⟩
  rw [ht.waiting_push]
  exact h.waiting.snoc data

theorem Asking.keepAlive {a : Asked} {idx : ℕ} (h : l.Asking a idx) (ht : l.Tidy) (data : List Byte) :
    (l.push (none, data)).Asking a idx := by
  cases h with
  | @asked pre post waiting hpre hpost coming =>
    have hpush : (l.push (none, data)).waiting =
        pre ++ (some a, a.head idx ++ a.args.msg) :: (post ++ [(none, data)]) := by
      rw [ht.waiting_push, waiting, List.append_assoc]
      rfl
    exact .asked hpush hpre (hpost.snoc data) coming
  | quiet h => exact .quiet (h.keepAlive ht data)
  | replied waiting coming hpre hpost reply =>
    refine .replied ?_ coming hpre hpost (reply.mono (l.push_extends _))
    rw [ht.waiting_push]
    exact waiting.snoc data

/-- **The request** is put on a quiet connection. -/
theorem Quiet.ask (h : l.Quiet) (ht : l.Tidy) (a : Asked) (idx : ℕ) :
    (l.push (some a, a.head idx ++ a.args.msg)).Asking a idx :=
  .asked (ht.waiting_push _) h.waiting (fun _ hf => by cases hf) h.coming

theorem Serves.waiting_eq {l' : CoLink} {f : Option Asked × List Byte} (hs : l.Serves l' f) :
    l'.waiting = l.sent.drop (l.frames + 1) := by
  unfold waiting
  rw [hs.sent, hs.frames]

theorem Serves.coming_eq {l' : CoLink} {f : Option Asked × List Byte} (h : l.Tidy)
    (hs : l.Serves l' f) :
    l'.coming = l.coming ∨ ∃ d, Replied f.1 f.2 d ∧ l'.coming = l.coming ++ [d] ∧
      l'.served = l.served ++ [⟨l.frames, coDealt f.1, d⟩] := by
  unfold coming
  rw [hs.got]
  rcases hs.done with ⟨-, he⟩ | ⟨d, hd, hserved, he | he⟩
  · rw [he]
    exact .inl rfl
  · rw [he]
    exact .inl rfl
  · rw [he, List.drop_append_of_le_length h.got]
    exact .inr ⟨d, hd, rfl, hserved⟩

/-- What comes back after a keep-alive was served. -/
theorem Serves.beat {l' : CoLink} {data : List Byte} (h : l.Tidy) (hs : l.Serves l' (none, data)) :
    l'.coming = l.coming ∨ l'.coming = l.coming ++ [le32 keepaliveAckId] := by
  rcases hs.coming_eq h with he | ⟨d, hd, he, -⟩
  · exact .inl he
  · cases hd with
    | keepAlive => exact .inr he

theorem Quiet.serve {l' : CoLink} (h : l.Quiet) (ht : l.Tidy) {f : Option Asked × List Byte}
    (hf : l.sent[l.frames]? = some f) (hs : l.Serves l' f) : l'.Quiet := by
  have hw := h.waiting
  rw [waiting_cons hf] at hw
  obtain ⟨x, data⟩ := f
  obtain rfl : x = none := hw _ List.mem_cons_self
  refine ⟨?_, ?_⟩
  · rw [hs.waiting_eq]
    exact hw.tail
  · rcases hs.beat ht with he | he
    · rw [he]
      exact h.coming
    · rw [he]
      exact h.coming.snoc

/-- **The server takes a frame** of a connection with a request. -/
theorem Asking.serve {l' : CoLink} {a : Asked} {idx : ℕ} (h : l.Asking a idx) (ht : l.Tidy)
    {f : Option Asked × List Byte} (hf : l.sent[l.frames]? = some f) (hs : l.Serves l' f) :
    l'.Asking a idx := by
  have hcons := waiting_cons hf
  cases h with
  | @asked pre post waiting hpre hpost coming =>
    rw [hcons] at waiting
    cases pre with
    | nil =>
      -- it is the request
      obtain ⟨rfl, hrest⟩ := List.cons.inj waiting
      have hbeats : Beats l'.waiting := by
        rw [hs.waiting_eq, hrest]
        exact hpost
      rcases hs.coming_eq ht with he | ⟨d, hd, he, hserved⟩
      · refine .quiet ⟨hbeats, ?_⟩
        rw [he]
        exact coming
      · have hlast : l'.coming = l.coming ++ d :: [] := he
        refine .replied hbeats hlast coming (fun _ hd => by cases hd) ?_
        refine ⟨_, by rw [hserved]; exact List.mem_append_right _ List.mem_cons_self, ?_, rfl, ?_⟩
        · rw [hs.sent, hf]
          rfl
        · generalize hdata : a.head idx ++ a.args.msg = data at hd
          cases hd with
          | request _ idx' bytes =>
            have hhead : a.head idx = a.head idx' := List.append_cancel_right hdata
            exact ⟨bytes, by rw [hhead]⟩
    | cons x pre =>
      -- it is a keep-alive before the request
      obtain ⟨rfl, hrest⟩ := List.cons.inj waiting
      obtain ⟨y, data⟩ := f
      obtain rfl : y = none := hpre _ List.mem_cons_self
      refine .asked (hs.waiting_eq.trans hrest) hpre.tail hpost ?_
      rcases hs.beat ht with he | he
      · rw [he]
        exact coming
      · rw [he]
        exact coming.snoc
  | quiet h => exact .quiet (h.serve ht hf hs)
  | @replied waiting pre post d coming hpre hpost reply =>
    -- the request was dealt with, so it is a keep-alive after it
    rw [hcons] at waiting
    obtain ⟨y, data⟩ := f
    obtain rfl : y = none := waiting _ List.mem_cons_self
    have hbeats : Beats l'.waiting := by
      rw [hs.waiting_eq]
      exact waiting.tail
    rcases hs.beat ht with he | he
    · exact .replied hbeats (he.trans coming) hpre hpost (reply.mono hs.extends)
    · have hlast : l'.coming = pre ++ d :: (post ++ [le32 keepaliveAckId]) := by
        rw [he, coming, List.append_assoc]
        rfl
      exact .replied hbeats hlast hpre hpost.snoc (reply.mono hs.extends)

theorem Quiet.read (h : l.Quiet) {d : List Byte} (hd : l.replies[l.got]? = some d) :
    d = le32 keepaliveAckId ∧ Quiet { l with got := l.got + 1 } := by
  have hc := h.coming
  rw [coming_cons hd] at hc
  exact ⟨hc d List.mem_cons_self, h.waiting, hc.tail⟩

/-- **The connector is handed a reply**: an answer to a keep-alive, or the one to its request, after
which nothing more is to come. -/
theorem Asking.read {a : Asked} {idx : ℕ} (h : l.Asking a idx) {d : List Byte}
    (hd : l.replies[l.got]? = some d) :
    d = le32 keepaliveAckId ∧ Asking { l with got := l.got + 1 } a idx ∨
      ¬ l.Quiet ∧ Quiet { l with got := l.got + 1 } ∧ Reply { l with got := l.got + 1 } a idx d := by
  have hcons := coming_cons hd
  cases h with
  | @asked pre post waiting hpre hpost coming =>
    rw [hcons] at coming
    exact .inl ⟨coming d List.mem_cons_self, .asked (l := { l with got := l.got + 1 }) waiting hpre hpost
      coming.tail⟩
  | quiet h => exact .inl ⟨(h.read hd).1, .quiet (h.read hd).2⟩
  | @replied waiting pre post d' coming hpre hpost reply =>
    have hne : d' ≠ le32 keepaliveAckId := by
      obtain ⟨-, -, -, -, bytes, rfl⟩ := reply
      intro he
      have := congrArg List.length he
      rw [List.length_append] at this
      change 12 + bytes.length = 4 at this
      omega
    rw [hcons] at coming
    cases pre with
    | nil =>
      obtain ⟨rfl, hrest⟩ := List.cons.inj coming
      right
      refine ⟨?_, ⟨waiting, ?_⟩, reply.mono (l.read_extends _)⟩
      · intro hq
        have hc := hq.coming
        rw [hcons] at hc
        exact hne (hc d List.mem_cons_self)
      · change Acks (l.replies.drop (l.got + 1))
        rw [hrest]
        exact hpost
    | cons x pre =>
      obtain ⟨rfl, hrest⟩ := List.cons.inj coming
      exact .inl ⟨hpre _ List.mem_cons_self, .replied (l := { l with got := l.got + 1 }) waiting hrest
        hpre.tail hpost (reply.mono (l.read_extends _))⟩

end CoLink

end Netlib
