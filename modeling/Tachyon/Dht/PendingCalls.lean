import Tachyon.Dht.Correlation

/-!
# The table of pending requests

`send_rpc` and the queries of `iterative_find_node` register a request and wait for its answer,
and the receive loop takes the entry of an answer out. A call can also end in an error, a
timeout or, for `send_rpc`, because its caller is dropped. This module says exactly when a
call leaves its entry behind.
-/

namespace Tachyon

/-- The two places that register requests. -/
inductive CallKind
  | sendRpc
  /-- A query of `iterative_find_node`, a task of its own. -/
  | query
  deriving DecidableEq

/-- The message is what a call of its kind waits for. -/
def CallKind.accepts : CallKind → KademliaMessage → Bool
  | .sendRpc, _ | .query, .findNodeResponse _ _ _ => true
  | .query, _ => false

/-- How far a call has come. `send_rpc` registers its request before it encodes the message, a
query after it. -/
inductive CallPhase
  | numbered
  | encoded
  | registered
  | sending
  | waiting
  | ended
  deriving DecidableEq

/-- A call, with the message in its channel. -/
structure PendingCall where
  kind : CallKind
  phase : CallPhase
  response : Option KademliaMessage

/-- The request is not registered yet. -/
def PendingCall.Unregistered (c : PendingCall) : Prop := c.phase = .numbered ∨ c.phase = .encoded

/-- The calls of a node by their numbers, and the receive loop; an entry of the pending requests
is the sender of a call's channel. -/
structure CallNode where
  receiver : Receiver ℕ
  nextRequestId : ℕ
  calls : ℕ → Option PendingCall

/-- What happens to the calls. A call goes on by its own steps; a datagram can arrive between
any two. -/
inductive CallEvent
  | start (kind : CallKind)
  /-- A number for a message that waits for no answer. -/
  | skip
  | register (number : ℕ)
  | encode (number : ℕ) (ok : Bool)
  | send (number : ℕ) (ok : Bool)
  | datagram (g : Datagram)
  /-- The call takes the message out of its channel. -/
  | finish (number : ℕ)
  /-- The sender of the channel is gone. -/
  | closed (number : ℕ)
  | timeout (number : ℕ)
  /-- The caller of `send_rpc` is dropped while it sends or waits. -/
  | cancel (number : ℕ)

namespace CallNode

/-- The state that `bind` and the start of the receive loop leave. -/
def new (dht : KademliaDht) (windowStart : ℕ) : CallNode :=
  ⟨⟨dht, fun _ => none, ⟨windowStart, 0⟩⟩, 1, fun _ => none⟩

def setCall (number : ℕ) (c : PendingCall) (s : CallNode) : CallNode :=
  { s with calls := Function.update s.calls number (some c) }

/-- `pending_requests.insert`. -/
def insert (number : ℕ) (s : CallNode) : CallNode :=
  { s with receiver := { s.receiver with
      pending := Function.update s.receiver.pending (requestIdOf number) (some number) } }

/-- `pending_requests.remove`. -/
def remove (number : ℕ) (s : CallNode) : CallNode :=
  { s with receiver := { s.receiver with
      pending := Function.update s.receiver.pending (requestIdOf number) none } }

/-- `sender.send`; the channel of an ended call is gone. -/
def deliver (number : ℕ) (msg : KademliaMessage) (s : CallNode) : CallNode :=
  match s.calls number with
  | none => s
  | some c =>
    if c.phase = .ended then s else s.setCall number { c with response := some msg }

/-- The step of a call. -/
def callStep (number : ℕ) (c : PendingCall) (s : CallNode) : CallEvent → Option CallNode
  | .register _ =>
    match c.kind, c.phase with
    | .sendRpc, .numbered => some ((s.insert number).setCall number { c with phase := .registered })
    | .query, .encoded => some ((s.insert number).setCall number { c with phase := .sending })
    | _, _ => none
  | .encode _ ok =>
    match c.kind, c.phase with
    | .sendRpc, .registered =>
      some (s.setCall number { c with phase := if ok then .sending else .ended })
    | .query, .numbered =>
      some (s.setCall number { c with phase := if ok then .encoded else .ended })
    | _, _ => none
  | .send _ ok =>
    match c.kind, c.phase, ok with
    | _, .sending, true => some (s.setCall number { c with phase := .waiting })
    | .sendRpc, .sending, false => some (s.setCall number { c with phase := .ended })
    | .query, .sending, false =>
      some ((s.remove number).setCall number { c with phase := .ended })
    | _, _, _ => none
  | .finish _ =>
    match c.phase, c.response with
    | .waiting, some msg =>
      some ((if c.kind.accepts msg then s else s.remove number).setCall number
        { c with phase := .ended })
    | _, _ => none
  | .closed _ =>
    if c.phase = .waiting ∧ c.response = none ∧
        s.receiver.pending (requestIdOf number) ≠ some number then
      some ((s.remove number).setCall number { c with phase := .ended })
    else none
  | .timeout _ =>
    if c.phase = .waiting then some ((s.remove number).setCall number { c with phase := .ended })
    else none
  | .cancel _ =>
    if c.kind = .sendRpc ∧ (c.phase = .sending ∨ c.phase = .waiting) then
      some (s.setCall number { c with phase := .ended })
    else none
  | _ => none

/-- The node after an event. -/
def step (p : Primitives) (sign : List UInt8 → DhtSignature) (s : CallNode) (e : CallEvent) :
    Option CallNode :=
  match e with
  | .start kind =>
    some ({ s with nextRequestId := s.nextRequestId + 1 }.setCall s.nextRequestId
      ⟨kind, .numbered, none⟩)
  | .skip => some { s with nextRequestId := s.nextRequestId + 1 }
  | .datagram g =>
    let (receiver, outcome) := s.receiver.receive p sign g
    match outcome with
    | .matched number msg => some ({ s with receiver := receiver }.deliver number msg)
    | _ => some { s with receiver := receiver }
  | .register number | .encode number _ | .send number _ | .finish number | .closed number
  | .timeout number | .cancel number =>
    (s.calls number).bind fun c => s.callStep number c e

/-! ### Entries and calls -/

/-- The call has started and not ended. -/
def Live (number : ℕ) (s : CallNode) : Prop := ∃ c, s.calls number = some c ∧ c.phase ≠ .ended

/-- Every entry belongs to a call that has not ended. -/
def EntriesLive (s : CallNode) : Prop :=
  ∀ id number, s.receiver.pending id = some number → s.Live number

/-- What is expected of the table: every entry is that of a call that still waits, and once all
calls have ended it is empty and every datagram is taken for a request. -/
structure Hygienic (p : Primitives) (sign : List UInt8 → DhtSignature) (s : CallNode) : Prop where
  entries : ∀ id number, s.receiver.pending id = some number →
    s.Live number ∧ requestIdOf number = id
  emptied : (∀ number, ¬s.Live number) → ∀ id, s.receiver.pending id = none
  requests : (∀ number, ¬s.Live number) → ∀ g number msg,
    (s.receiver.receive p sign g).2 ≠ .matched number msg

/-- The call does not end in an error of `send_rpc`, or with its caller, while its entry is in
the table. -/
def LeavesNothing (s : CallNode) : CallEvent → Prop
  | .encode number false | .send number false | .cancel number =>
    ∀ c, s.calls number = some c → c.kind = .sendRpc →
      s.receiver.pending (requestIdOf number) ≠ some number
  | _ => True

/-- An entry is that of a call that has registered its request and has no message yet. -/
structure EntriesRegistered (s : CallNode) : Prop where
  entry : ∀ id number, s.receiver.pending id = some number → requestIdOf number = id ∧
    ∃ c, s.calls number = some c ∧ c.response = none ∧ ¬c.Unregistered
  silent : ∀ number c, s.calls number = some c → c.Unregistered → c.response = none
  fresh : ∀ number, s.nextRequestId ≤ number → s.calls number = none

section Steps

variable {p : Primitives} {sign : List UInt8 → DhtSignature} {s s' : CallNode} {number : ℕ}
  {c : PendingCall} {e : CallEvent}

theorem EntriesRegistered.entry_eq (h : s.EntriesRegistered) {id : RequestId}
    (hentry : s.receiver.pending id = some number) :
    s.receiver.pending (requestIdOf number) = some number := by
  rw [(h.entry id number hentry).1]
  exact hentry

/-- Under the invariant only the calls of the entries are left to ask for. -/
theorem EntriesRegistered.hygienic_iff (h : s.EntriesRegistered) :
    s.Hygienic p sign ↔ s.EntriesLive := by
  constructor
  · exact fun hs id number hentry => (hs.entries id number hentry).1
  · intro hs
    have hempty (hended : ∀ number, ¬s.Live number) (id : RequestId) :
        s.receiver.pending id = none := by
      cases hentry : s.receiver.pending id with
      | none => rfl
      | some number => exact absurd (hs id number hentry) (hended number)
    refine ⟨fun id number hentry => ⟨hs id number hentry, (h.entry id number hentry).1⟩, hempty,
      fun hended g number msg hmatched => ?_⟩
    rcases receive_cases p sign g s.receiver with ⟨-, heq⟩ | ⟨requestId, msg', -,
      ⟨call, hcall, heq⟩ | ⟨-, -, heq⟩ | ⟨-, -, heq⟩⟩
    · rw [heq] at hmatched
      cases hmatched
    · rw [hempty hended requestId] at hcall
      cases hcall
    · rw [heq] at hmatched
      cases hmatched
    · rw [heq] at hmatched
      cases hmatched

theorem setCall_calls_self : (s.setCall number c).calls number = some c :=
  Function.update_self ..

theorem setCall_calls_of_ne {number' : ℕ} (h : number' ≠ number) :
    (s.setCall number c).calls number' = s.calls number' := Function.update_of_ne h ..

theorem setCall_live_iff {number' : ℕ} :
    (s.setCall number c).Live number' ↔
      if number' = number then c.phase ≠ .ended else s.Live number' := by
  unfold Live setCall
  dsimp only
  split
  · rename_i heq
    subst heq
    rw [Function.update_self]
    constructor
    · rintro ⟨c', hc', hphase⟩
      obtain rfl := Option.some.inj hc'
      exact hphase
    · exact fun hphase => ⟨c, rfl, hphase⟩
  · rename_i hne
    rw [Function.update_of_ne hne]

/-- A call that goes on keeps its entry alive. -/
theorem EntriesLive.setCall (h : s.EntriesLive) (hphase : c.phase ≠ .ended) :
    (s.setCall number c).EntriesLive := by
  intro id number' hentry
  rw [setCall_live_iff]
  split
  · exact hphase
  · exact h id number' hentry

/-- A call that ends must have no entry. -/
theorem entriesLive_setCall_iff (h : s.EntriesLive) (hinv : s.EntriesRegistered)
    (hphase : c.phase = .ended) : (s.setCall number c).EntriesLive ↔
      s.receiver.pending (requestIdOf number) ≠ some number := by
  constructor
  · intro hlive hentry
    have hnumber := hlive _ _ hentry
    rw [setCall_live_iff, if_pos rfl] at hnumber
    exact hnumber hphase
  · intro hnone id number' hentry
    rw [setCall_live_iff]
    split
    · rename_i heq
      subst heq
      exact absurd (hinv.entry_eq hentry) hnone
    · exact h id number' hentry

theorem EntriesRegistered.setCall (h : s.EntriesRegistered) (hstarted : number < s.nextRequestId)
    (hentry : s.receiver.pending (requestIdOf number) = some number →
      c.response = none ∧ ¬c.Unregistered) (hsilent : c.Unregistered → c.response = none) :
    (s.setCall number c).EntriesRegistered := by
  constructor
  · intro id number' hpending
    obtain ⟨hid, c', hc', hrest⟩ := h.entry id number' hpending
    refine ⟨hid, ?_⟩
    by_cases heq : number' = number
    · subst heq
      exact ⟨c, setCall_calls_self, hentry (h.entry_eq hpending)⟩
    · exact ⟨c', (setCall_calls_of_ne heq).trans hc', hrest⟩
  · intro number' c' hc'
    by_cases heq : number' = number
    · subst heq
      obtain rfl := Option.some.inj (setCall_calls_self.symm.trans hc')
      exact hsilent
    · rw [setCall_calls_of_ne heq] at hc'
      exact h.silent number' c' hc'
  · intro number' hle
    have hne : number' ≠ number := by
      rintro rfl
      exact absurd hle (not_le.mpr hstarted)
    rw [setCall_calls_of_ne hne]
    exact h.fresh number' hle

theorem EntriesRegistered.skip (h : s.EntriesRegistered) :
    EntriesRegistered { s with nextRequestId := s.nextRequestId + 1 } :=
  ⟨h.entry, h.silent, fun number hle => h.fresh number (Nat.le_of_succ_le hle)⟩

/-- A registered call has its entry, in the place of another call of the same number. -/
theorem insert_pending {id : RequestId} {number' : ℕ}
    (hentry : (s.insert number).receiver.pending id = some number') :
    (id = requestIdOf number ∧ number' = number) ∨
      (id ≠ requestIdOf number ∧ s.receiver.pending id = some number') := by
  unfold insert at hentry
  dsimp only at hentry
  by_cases hid : id = requestIdOf number
  · rw [hid, Function.update_self] at hentry
    exact Or.inl ⟨hid, (Option.some.inj hentry).symm⟩
  · rw [Function.update_of_ne hid] at hentry
    exact Or.inr ⟨hid, hentry⟩

theorem EntriesRegistered.register (h : s.EntriesRegistered) (hstarted : number < s.nextRequestId)
    (hresponse : c.response = none) (hregistered : ¬c.Unregistered) :
    ((s.insert number).setCall number c).EntriesRegistered := by
  constructor
  · intro id number' hpending
    by_cases heq : number' = number
    · subst heq
      refine ⟨?_, c, setCall_calls_self, hresponse, hregistered⟩
      rcases insert_pending hpending with ⟨hid, -⟩ | ⟨-, hpending⟩
      · exact hid.symm
      · exact (h.entry id number' hpending).1
    · rcases insert_pending hpending with ⟨-, hsame⟩ | ⟨-, hpending⟩
      · exact absurd hsame heq
      · obtain ⟨hid, c', hc', hrest⟩ := h.entry id number' hpending
        exact ⟨hid, c', (setCall_calls_of_ne heq).trans hc', hrest⟩
  · intro number' c' hc' hunregistered
    by_cases heq : number' = number
    · subst heq
      obtain rfl := Option.some.inj (setCall_calls_self.symm.trans hc')
      exact hresponse
    · rw [setCall_calls_of_ne heq] at hc'
      exact h.silent number' c' hc' hunregistered
  · intro number' hle
    have hne : number' ≠ number := by
      rintro rfl
      exact absurd hle (not_le.mpr hstarted)
    rw [setCall_calls_of_ne hne]
    exact h.fresh number' hle

theorem EntriesLive.register (h : s.EntriesLive) (hphase : c.phase ≠ .ended) :
    ((s.insert number).setCall number c).EntriesLive := by
  intro id number' hentry
  rw [setCall_live_iff]
  split
  · exact hphase
  · rename_i hne
    rcases insert_pending hentry with ⟨-, hsame⟩ | ⟨-, hpending⟩
    · exact absurd hsame hne
    · exact h id number' hpending

/-- After a removal, the entries are the others. -/
theorem remove_pending {id : RequestId} {number' : ℕ}
    (hentry : (s.remove number).receiver.pending id = some number') :
    id ≠ requestIdOf number ∧ s.receiver.pending id = some number' := by
  unfold remove at hentry
  dsimp only at hentry
  by_cases hid : id = requestIdOf number
  · rw [hid, Function.update_self] at hentry
    cases hentry
  · rw [Function.update_of_ne hid] at hentry
    exact ⟨hid, hentry⟩

theorem EntriesRegistered.remove (h : s.EntriesRegistered) :
    (s.remove number).EntriesRegistered := by
  refine ⟨fun id number' hentry => ?_, h.silent, h.fresh⟩
  exact h.entry id number' (remove_pending hentry).2

theorem EntriesLive.remove (h : s.EntriesLive) : (s.remove number).EntriesLive :=
  fun id number' hentry => h id number' (remove_pending hentry).2

theorem remove_removes : (s.remove number).receiver.pending (requestIdOf number) = none :=
  Function.update_self ..

/-- A call that goes on. -/
theorem setCall_spec (hinv : s.EntriesRegistered) (hlive : s.EntriesLive)
    (hstarted : number < s.nextRequestId) (hphase : c.phase ≠ .ended)
    (hentry : s.receiver.pending (requestIdOf number) = some number →
      c.response = none ∧ ¬c.Unregistered) (hsilent : c.Unregistered → c.response = none) :
    (s.setCall number c).EntriesRegistered ∧ (s.setCall number c).EntriesLive :=
  ⟨hinv.setCall hstarted hentry hsilent, hlive.setCall hphase⟩

/-- A call that ends and removes its entry. -/
theorem remove_setCall_spec (hinv : s.EntriesRegistered) (hlive : s.EntriesLive)
    (hstarted : number < s.nextRequestId) (hphase : c.phase = .ended) :
    ((s.remove number).setCall number c).EntriesRegistered ∧
      ((s.remove number).setCall number c).EntriesLive := by
  have hnone : (s.remove number).receiver.pending (requestIdOf number) ≠ some number := by
    rw [remove_removes]
    exact Option.some_ne_none number |>.symm
  have hregistered : ¬c.Unregistered := by
    rintro (h | h) <;> rw [hphase] at h <;> cases h
  exact ⟨hinv.remove.setCall hstarted (fun h => absurd h hnone) fun h => absurd h hregistered,
    (entriesLive_setCall_iff hlive.remove hinv.remove hphase).mpr hnone⟩

theorem EntriesRegistered.started (h : s.EntriesRegistered) (hcall : s.calls number = some c) :
    number < s.nextRequestId := by
  by_contra hle
  rw [h.fresh number (not_lt.mp hle)] at hcall
  cases hcall

/-- At an ending of a call, nothing is left exactly if this call leaves nothing. -/
theorem leavesNothing_iff (hcall : s.calls number = some c)
    (he : e = .encode number false ∨ e = .send number false ∨ e = .cancel number) :
    s.LeavesNothing e ↔
      (c.kind = .sendRpc → s.receiver.pending (requestIdOf number) ≠ some number) := by
  have hunfold : s.LeavesNothing e ↔ ∀ c, s.calls number = some c → c.kind = .sendRpc →
      s.receiver.pending (requestIdOf number) ≠ some number := by
    rcases he with rfl | rfl | rfl <;> exact Iff.rfl
  rw [hunfold]
  constructor
  · exact fun h => h c hcall
  · intro h c' hc'
    obtain rfl := Option.some.inj (hcall.symm.trans hc')
    exact h

/-- A registration of a request. -/
theorem register_spec (hinv : s.EntriesRegistered) (hlive : s.EntriesLive)
    (hcall : s.calls number = some c) (hunregistered : c.Unregistered) {phase : CallPhase}
    (hphase : phase = .registered ∨ phase = .sending) :
    ((s.insert number).setCall number { c with phase := phase }).EntriesRegistered ∧
      ((s.insert number).setCall number { c with phase := phase }).EntriesLive := by
  have hregistered : ¬PendingCall.Unregistered { c with phase := phase } := by
    rintro (h | h) <;> rcases hphase with rfl | rfl <;> cases h
  have hended : phase ≠ .ended := by
    rintro rfl
    rcases hphase with h | h <;> cases h
  exact ⟨hinv.register (hinv.started hcall) (hinv.silent number c hcall hunregistered) hregistered,
    hlive.register hended⟩

/-- A step of a call that keeps its entry and goes on. -/
theorem advance_spec (hinv : s.EntriesRegistered) (hlive : s.EntriesLive)
    (hcall : s.calls number = some c) {phase : CallPhase} (hended : phase ≠ .ended)
    (hnext : PendingCall.Unregistered { c with phase := phase } ↔ c.Unregistered) :
    (s.setCall number { c with phase := phase }).EntriesRegistered ∧
      (s.setCall number { c with phase := phase }).EntriesLive := by
  refine setCall_spec hinv hlive (hinv.started hcall) hended (fun hentry => ?_)
    fun h => hinv.silent number c hcall (hnext.mp h)
  obtain ⟨-, c', hc', hresponse, hregistered⟩ := hinv.entry _ _ hentry
  obtain rfl := Option.some.inj (hcall.symm.trans hc')
  exact ⟨hresponse, fun h => hregistered (hnext.mp h)⟩

/-- A call that ends and leaves its entry, if it has one. -/
theorem end_spec (hinv : s.EntriesRegistered) (hlive : s.EntriesLive)
    (hcall : s.calls number = some c) :
    (s.setCall number { c with phase := .ended }).EntriesRegistered ∧
      ((s.setCall number { c with phase := .ended }).EntriesLive ↔
        s.receiver.pending (requestIdOf number) ≠ some number) := by
  have hnone : ¬PendingCall.Unregistered { c with phase := .ended } := by
    rintro (h | h) <;> cases h
  refine ⟨hinv.setCall (hinv.started hcall) (fun hentry => ?_) fun h => absurd h hnone,
    entriesLive_setCall_iff hlive hinv rfl⟩
  obtain ⟨-, c', hc', hresponse, -⟩ := hinv.entry _ _ hentry
  obtain rfl := Option.some.inj (hcall.symm.trans hc')
  exact ⟨hresponse, hnone⟩

/-- A call that is not registered yet has no entry. -/
theorem EntriesRegistered.no_entry (h : s.EntriesRegistered) (hcall : s.calls number = some c)
    (hunregistered : c.Unregistered) :
    s.receiver.pending (requestIdOf number) ≠ some number := by
  intro hentry
  obtain ⟨-, c', hc', -, hregistered⟩ := h.entry _ _ hentry
  obtain rfl := Option.some.inj (hcall.symm.trans hc')
  exact hregistered hunregistered

/-- A message in the channel of a call whose entry was taken out. -/
theorem deliver_spec (hinv : s.EntriesRegistered) (hlive : s.EntriesLive) {msg : KademliaMessage}
    (hregistered : ∀ c, s.calls number = some c → ¬c.Unregistered)
    (hnone : s.receiver.pending (requestIdOf number) ≠ some number) :
    (s.deliver number msg).EntriesRegistered ∧ (s.deliver number msg).EntriesLive := by
  unfold deliver
  split
  · exact ⟨hinv, hlive⟩
  · rename_i c hcall
    split
    · exact ⟨hinv, hlive⟩
    · rename_i hended
      exact setCall_spec hinv hlive (hinv.started hcall) hended (fun h => absurd h hnone)
        fun h => absurd h (hregistered c hcall)

/-- A datagram takes at most the entry of the call it answers. -/
theorem datagram_spec (hinv : s.EntriesRegistered) (hlive : s.EntriesLive) {g : Datagram}
    (hstep : s.step p sign (.datagram g) = some s') :
    s'.EntriesRegistered ∧ s'.EntriesLive := by
  unfold step at hstep
  dsimp only at hstep
  rcases receive_cases p sign g s.receiver with ⟨-, heq⟩ | ⟨requestId, msg, -,
    ⟨number, hentry, heq⟩ | ⟨-, -, heq⟩ | ⟨-, -, heq⟩⟩
  · rw [heq] at hstep
    obtain rfl := Option.some.inj hstep
    exact ⟨hinv, hlive⟩
  · obtain ⟨hid, c, hcall, hresponse, hregistered⟩ := hinv.entry _ _ hentry
    rw [heq, ← hid] at hstep
    obtain rfl := Option.some.inj hstep
    have hremoves : (s.remove number).receiver.pending (requestIdOf number) ≠ some number := by
      rw [remove_removes]
      exact (Option.some_ne_none number).symm
    refine deliver_spec (s := s.remove number) hinv.remove hlive.remove (fun c' hc' => ?_) hremoves
    obtain rfl := Option.some.inj (hcall.symm.trans hc')
    exact hregistered
  · rw [heq] at hstep
    obtain rfl := Option.some.inj hstep
    exact ⟨⟨hinv.entry, hinv.silent, hinv.fresh⟩, hlive⟩
  · rw [heq] at hstep
    obtain rfl := Option.some.inj hstep
    exact ⟨⟨hinv.entry, hinv.silent, hinv.fresh⟩, hlive⟩

/-- A step that leaves nothing whatever the state. -/
theorem spec_of_leavesNothing (h : s'.EntriesRegistered ∧ s'.EntriesLive) (hs : s.LeavesNothing e) :
    s'.EntriesRegistered ∧ (s'.EntriesLive ↔ s.LeavesNothing e) :=
  ⟨h.1, iff_of_true h.2 hs⟩

/-- An error or a cancellation of `send_rpc` leaves the entry. -/
theorem leave_spec (hinv : s.EntriesRegistered) (hlive : s.EntriesLive)
    (hcall : s.calls number = some c) (hkind : c.kind = .sendRpc)
    (he : e = .encode number false ∨ e = .send number false ∨ e = .cancel number) :
    (s.setCall number { c with phase := .ended }).EntriesRegistered ∧
      ((s.setCall number { c with phase := .ended }).EntriesLive ↔ s.LeavesNothing e) := by
  obtain ⟨hend, hiff⟩ := end_spec hinv hlive hcall
  refine ⟨hend, hiff.trans ?_⟩
  rw [leavesNothing_iff hcall he]
  exact ⟨fun h _ => h, fun h => h hkind⟩

theorem encode_spec (hinv : s.EntriesRegistered) (hlive : s.EntriesLive)
    (hcall : s.calls number = some c) {ok : Bool}
    (hstep : s.callStep number c (.encode number ok) = some s') :
    s'.EntriesRegistered ∧ (s'.EntriesLive ↔ s.LeavesNothing (.encode number ok)) := by
  unfold callStep at hstep
  dsimp only at hstep
  split at hstep
  · rename_i hkind hphase
    have hnext : PendingCall.Unregistered { c with phase := .sending } ↔ c.Unregistered := by
      simp [PendingCall.Unregistered, hphase]
    cases ok with
    | true =>
      obtain rfl := Option.some.inj hstep
      exact spec_of_leavesNothing (advance_spec hinv hlive hcall (fun h => nomatch h) hnext) trivial
    | false =>
      obtain rfl := Option.some.inj hstep
      exact leave_spec hinv hlive hcall hkind (Or.inl rfl)
  · rename_i hkind hphase
    have hunregistered : c.Unregistered := Or.inl hphase
    have hnext : PendingCall.Unregistered { c with phase := .encoded } ↔ c.Unregistered :=
      iff_of_true (Or.inr rfl) hunregistered
    cases ok with
    | true =>
      obtain rfl := Option.some.inj hstep
      exact spec_of_leavesNothing (advance_spec hinv hlive hcall (fun h => nomatch h) hnext) trivial
    | false =>
      obtain rfl := Option.some.inj hstep
      obtain ⟨hend, hiff⟩ := end_spec hinv hlive hcall
      refine ⟨hend, iff_of_true (hiff.mpr (hinv.no_entry hcall hunregistered)) ?_⟩
      rw [leavesNothing_iff hcall (Or.inl rfl), hkind]
      exact fun h => nomatch h
  · cases hstep

theorem send_spec (hinv : s.EntriesRegistered) (hlive : s.EntriesLive)
    (hcall : s.calls number = some c) {ok : Bool}
    (hstep : s.callStep number c (.send number ok) = some s') :
    s'.EntriesRegistered ∧ (s'.EntriesLive ↔ s.LeavesNothing (.send number ok)) := by
  unfold callStep at hstep
  dsimp only at hstep
  split at hstep
  · rename_i hphase
    have hnext : PendingCall.Unregistered { c with phase := .waiting } ↔ c.Unregistered := by
      simp [PendingCall.Unregistered, hphase]
    obtain rfl := Option.some.inj hstep
    exact spec_of_leavesNothing (advance_spec hinv hlive hcall (fun h => nomatch h) hnext) trivial
  · rename_i hkind hphase
    obtain rfl := Option.some.inj hstep
    exact leave_spec hinv hlive hcall hkind (Or.inr (Or.inl rfl))
  · rename_i hkind hphase
    obtain rfl := Option.some.inj hstep
    refine spec_of_leavesNothing (remove_setCall_spec hinv hlive (hinv.started hcall) rfl) ?_
    rw [leavesNothing_iff hcall (Or.inr (Or.inl rfl)), hkind]
    exact fun h => nomatch h
  · cases hstep

theorem finish_spec (hinv : s.EntriesRegistered) (hlive : s.EntriesLive)
    (hcall : s.calls number = some c) (hstep : s.callStep number c (.finish number) = some s') :
    s'.EntriesRegistered ∧ s'.EntriesLive := by
  unfold callStep at hstep
  dsimp only at hstep
  split at hstep
  · rename_i msg hphase hresponse
    obtain rfl := Option.some.inj hstep
    split
    · -- the entry went out when the message came in
      obtain ⟨hend, hiff⟩ := end_spec hinv hlive hcall
      refine ⟨hend, hiff.mpr fun hentry => ?_⟩
      obtain ⟨-, c', hc', hnone, -⟩ := hinv.entry _ _ hentry
      obtain rfl := Option.some.inj (hcall.symm.trans hc')
      rw [hresponse] at hnone
      cases hnone
    · exact remove_setCall_spec hinv hlive (hinv.started hcall) rfl
  · cases hstep

/-- A call that gives up takes its entry with it. -/
theorem giveUp_spec (hinv : s.EntriesRegistered) (hlive : s.EntriesLive)
    (hcall : s.calls number = some c) {P : Prop} [Decidable P]
    (hstep : (if P then some ((s.remove number).setCall number { c with phase := .ended })
      else none) = some s') : s'.EntriesRegistered ∧ s'.EntriesLive := by
  split at hstep
  · obtain rfl := Option.some.inj hstep
    exact remove_setCall_spec hinv hlive (hinv.started hcall) rfl
  · cases hstep

/-- A started call has no entry. -/
theorem start_spec (hinv : s.EntriesRegistered) (hlive : s.EntriesLive) (kind : CallKind) :
    (({ s with nextRequestId := s.nextRequestId + 1 } : CallNode).setCall s.nextRequestId
      ⟨kind, .numbered, none⟩).EntriesRegistered ∧
    (({ s with nextRequestId := s.nextRequestId + 1 } : CallNode).setCall s.nextRequestId
      ⟨kind, .numbered, none⟩).EntriesLive := by
  have hnone (hentry : s.receiver.pending (requestIdOf s.nextRequestId) = some s.nextRequestId) :
      False := by
    obtain ⟨-, c, hcall, -⟩ := hinv.entry _ _ hentry
    exact absurd (hinv.started hcall) (lt_irrefl _)
  exact setCall_spec hinv.skip hlive (Nat.lt_succ_self _) (fun h => nomatch h)
    (fun hentry => (hnone hentry).elim) fun _ => rfl

/-- Any event keeps the invariant, and the entries stay those of live calls exactly if it leaves
nothing. -/
theorem step_spec (hinv : s.EntriesRegistered) (hlive : s.EntriesLive)
    (hstep : s.step p sign e = some s') :
    s'.EntriesRegistered ∧ (s'.EntriesLive ↔ s.LeavesNothing e) := by
  cases e with
  | start kind =>
    obtain rfl := Option.some.inj hstep
    exact spec_of_leavesNothing (start_spec hinv hlive kind) trivial
  | skip =>
    obtain rfl := Option.some.inj hstep
    exact spec_of_leavesNothing ⟨hinv.skip, hlive⟩ trivial
  | datagram g => exact spec_of_leavesNothing (datagram_spec hinv hlive hstep) trivial
  | register number =>
    obtain ⟨c, hcall, hstep⟩ := Option.bind_eq_some_iff.mp hstep
    unfold callStep at hstep
    dsimp only at hstep
    split at hstep
    · rename_i hphase
      obtain rfl := Option.some.inj hstep
      exact spec_of_leavesNothing
        (register_spec hinv hlive hcall (Or.inl hphase) (Or.inl rfl)) trivial
    · rename_i hphase
      obtain rfl := Option.some.inj hstep
      exact spec_of_leavesNothing
        (register_spec hinv hlive hcall (Or.inr hphase) (Or.inr rfl)) trivial
    · cases hstep
  | encode number ok =>
    obtain ⟨c, hcall, hstep⟩ := Option.bind_eq_some_iff.mp hstep
    exact encode_spec hinv hlive hcall hstep
  | send number ok =>
    obtain ⟨c, hcall, hstep⟩ := Option.bind_eq_some_iff.mp hstep
    exact send_spec hinv hlive hcall hstep
  | finish number =>
    obtain ⟨c, hcall, hstep⟩ := Option.bind_eq_some_iff.mp hstep
    exact spec_of_leavesNothing (finish_spec hinv hlive hcall hstep) trivial
  | closed number =>
    obtain ⟨c, hcall, hstep⟩ := Option.bind_eq_some_iff.mp hstep
    exact spec_of_leavesNothing (giveUp_spec hinv hlive hcall hstep) trivial
  | timeout number =>
    obtain ⟨c, hcall, hstep⟩ := Option.bind_eq_some_iff.mp hstep
    exact spec_of_leavesNothing (giveUp_spec hinv hlive hcall hstep) trivial
  | cancel number =>
    obtain ⟨c, hcall, hstep⟩ := Option.bind_eq_some_iff.mp hstep
    unfold callStep at hstep
    dsimp only at hstep
    split at hstep
    · rename_i hkind
      obtain rfl := Option.some.inj hstep
      exact leave_spec hinv hlive hcall hkind.1 (Or.inr (Or.inr rfl))
    · cases hstep

end Steps

theorem new_entriesRegistered (dht : KademliaDht) (windowStart : ℕ) :
    (new dht windowStart).EntriesRegistered :=
  ⟨(fun _ _ h => nomatch h), (fun _ _ h => nomatch h), fun _ _ => rfl⟩

end CallNode

/-- In a run of calls and datagrams the table is as expected in every state if and only if no
`send_rpc` ends in an error, or with its caller, while its entry is in the table. -/
theorem pending_hygiene_iff (p : Primitives) (sign : List UInt8 → DhtSignature) (dht : KademliaDht)
    (windowStart : ℕ) (events : List CallEvent) :
    EventRuns.EachState (CallNode.step p sign) (CallNode.Hygienic p sign) (.new dht windowStart)
      events ↔
    EventRuns.EachStep (CallNode.step p sign) CallNode.LeavesNothing (.new dht windowStart)
      events := by
  refine @EventRuns.eachState_iff_eachStep _ _ (CallNode.step p sign) CallNode.LeavesNothing
    CallNode.EntriesRegistered (CallNode.Hygienic p sign) _ events (fun _ => True)
    (fun s e s' _ hinv hs hstep => ?_) (fun _ _ => trivial)
    (CallNode.new_entriesRegistered dht windowStart) ?_
  · obtain ⟨hinv', hiff⟩ := CallNode.step_spec hinv (hinv.hygienic_iff.mp hs) hstep
    exact ⟨hinv', hinv'.hygienic_iff.trans hiff⟩
  · rw [(CallNode.new_entriesRegistered dht windowStart).hygienic_iff]
    exact fun _ _ h => nomatch h

/-- A `send_rpc` to an address that cannot be resolved: the call is over and its entry stays. -/
theorem unresolvable_address : ∃ p sign dht windowStart events,
    ¬EventRuns.EachState (CallNode.step p sign) (CallNode.Hygienic p sign) (.new dht windowStart)
      events := by
  let sign (_ : List UInt8) : DhtSignature := ⟨List.replicate 64 0, List.replicate 32 3,
    List.length_replicate, List.length_replicate⟩
  let dht := KademliaDht.new (.ofByte 0 0) 0
  let events : List CallEvent := [.start .sendRpc, .register 1, .encode 1 true, .send 1 false]
  refine ⟨pingPrimitives, sign, dht, 0, events, fun hstates => ?_⟩
  have hrun : (EventRuns.run (CallNode.step pingPrimitives sign) (.new dht 0) events).any fun s =>
      s.receiver.pending 1 = some 1 ∧ (s.calls 1).all fun c => c.phase = .ended := by
    decide +kernel
  obtain ⟨s, hs, hlast⟩ := (Option.any_eq_true _ _).mp hrun
  obtain ⟨hentry, hended⟩ := of_decide_eq_true hlast
  obtain ⟨⟨c, hcall, hphase⟩, -⟩ := (hstates.last hs).entries 1 1 hentry
  rw [hcall] at hended
  exact hphase (of_decide_eq_true hended)

end Tachyon
