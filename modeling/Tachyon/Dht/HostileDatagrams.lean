import Tachyon.Dht.SignedMessages
import Tachyon.Dht.RecvLoop

/-!
# Hostile datagrams

The receive loop survives every datagram whose timestamps the clock of the platform can hold,
and only these: any other timestamp that decoding comes to ends the process, before the
signature is looked at.
-/

namespace Tachyon

namespace Postcard

variable (w : Postcard)

/-- The milliseconds of a node, after its identifier and its address. -/
def readTimestamp : WireReader UInt64 := do
  let _ ← w.readId
  let _ ← w.readStr
  w.readU64

/-- The milliseconds of the nodes, as far as they can be read. -/
def nodeTimestamps : ℕ → List UInt8 → List UInt64
  | 0, _ => []
  | n + 1, input =>
    match w.readTimestamp input with
    | .error _ => []
    | .ok (millis, rest) => millis :: nodeTimestamps n rest

/-- The number of the nodes, after what a message has before them. -/
def readNodeCount : WireReader ℕ := do
  let variant ← w.variant.reader .malformed
  match variant.toNat with
  | 3 => do
    let _ ← w.readId
    w.readLen
  | 5 => do
    let _ ← w.readId
    let _ ← w.readOption w.readBytes
    w.readLen
  | _ => .fail .malformed

/-- The milliseconds that follow the number of the nodes. -/
def timestampsFrom : Except WireError (ℕ × List UInt8) → List UInt64
  | .error _ => []
  | .ok (n, rest) => w.nodeTimestamps n rest

/-- The milliseconds that decoding comes to. -/
def timestamps (bytes : List UInt8) : List UInt64 := w.timestampsFrom (w.readNodeCount bytes)

/-- Some timestamp that decoding comes to is too late for the clock. -/
def Overflows (clock : SystemClock) (millis : List UInt64) : Prop :=
  ∃ m ∈ millis, clock.maxMillis < m.toNat

section Panics

variable {w} {clock : SystemClock}

theorem readU8_avoids : w.readU8.Avoids .panic := w.u8.reader_avoids (by decide)

theorem readLen_avoids : w.readLen.Avoids .panic := w.len.reader_avoids (by decide)

theorem readVec_avoids {α : Type} {read : WireReader α} (h : read.Avoids .panic) :
    (w.readVec read).Avoids .panic := readLen_avoids.bind fun n => h.many n

theorem readBytes_avoids : w.readBytes.Avoids .panic := readVec_avoids readU8_avoids

theorem readId_avoids : w.readId.Avoids .panic := by
  refine (readU8_avoids.many 20).bind fun bytes => ?_
  split
  · exact TokenReader.Avoids.pure _ _
  · exact TokenReader.Avoids.fail (by decide)

theorem readSignature_avoids : w.readSignature.Avoids .panic := by
  refine readBytes_avoids.bind fun sig => readBytes_avoids.bind fun publicKey => ?_
  split
  · exact TokenReader.Avoids.pure _ _
  · exact TokenReader.Avoids.fail (by decide)

theorem readOption_avoids {α : Type} {read : WireReader α} (h : read.Avoids .panic) :
    (w.readOption read).Avoids .panic := by
  refine (w.tag.reader_avoids (by decide)).bind fun isSome => ?_
  split
  · exact h.bind fun a => TokenReader.Avoids.pure _ _
  · exact TokenReader.Avoids.pure _ _

theorem readTimestamp_avoids : w.readTimestamp.Avoids .panic :=
  readId_avoids.bind fun _ => (w.str.reader_avoids (by decide)).bind fun _ =>
    w.u64.reader_avoids (by decide)

/-- A node that can be read up to its time is read, or overflows the clock. -/
theorem readNode_of_ok {input rest : List UInt8} {millis : UInt64}
    (h : w.readTimestamp input = .ok (millis, rest)) :
    if millis.toNat ≤ clock.maxMillis then ∃ n, w.readNode clock input = .ok (n, rest)
    else w.readNode clock input = .error .panic := by
  obtain ⟨id, afterId, hid, h⟩ := TokenReader.bind_eq_ok_iff.mp h
  obtain ⟨addr, afterAddr, haddr, hmillis⟩ := TokenReader.bind_eq_ok_iff.mp h
  have hread : w.readNode clock input = ((w.readTime clock) >>= fun lastSeen =>
      (pure ⟨id, addr, lastSeen⟩ : WireReader DhtNode)) afterAddr := by
    rw [readNode, TokenReader.bind_of_ok hid, TokenReader.bind_of_ok haddr]
  rw [hread, readTime]
  split
  · rename_i hle
    refine ⟨⟨id, addr, SystemTime.ofMillis millis⟩, TokenReader.bind_eq_ok_iff.mpr
      ⟨SystemTime.ofMillis millis, rest, ?_, rfl⟩⟩
    rw [TokenReader.bind_of_ok hmillis, if_pos hle]
    rfl
  · rename_i hlt
    apply TokenReader.bind_of_error
    rw [TokenReader.bind_of_ok hmillis, if_neg hlt]
    rfl

/-- A node that cannot be read up to its time fails for the same reason. -/
theorem readNode_of_error {input : List UInt8} {e : WireError}
    (h : w.readTimestamp input = .error e) : w.readNode clock input = .error e := by
  rcases TokenReader.bind_eq_error_iff.mp h with hid | ⟨id, afterId, hid, h⟩
  · exact TokenReader.bind_of_error hid
  rcases TokenReader.bind_eq_error_iff.mp h with haddr | ⟨addr, afterAddr, haddr, hmillis⟩
  · rw [readNode, TokenReader.bind_of_ok hid]
    exact TokenReader.bind_of_error haddr
  · rw [readNode, TokenReader.bind_of_ok hid, TokenReader.bind_of_ok haddr]
    exact TokenReader.bind_of_error (TokenReader.bind_of_error hmillis)

/-- Reading nodes panics exactly at a timestamp that is too late. -/
theorem many_readNode_panics_iff (n : ℕ) (input : List UInt8) :
    (w.readNode clock).many n input = .error .panic ↔
      Overflows clock (w.nodeTimestamps n input) := by
  induction n generalizing input with
  | zero =>
    refine iff_of_false (fun h => ?_) (by simp [Overflows, nodeTimestamps])
    cases h
  | succ n ih =>
    have hlater : ((w.readNode clock).many (n + 1)) input = .error .panic ↔
        w.readNode clock input = .error .panic ∨ ∃ a rest, w.readNode clock input = .ok (a, rest) ∧
          (w.readNode clock).many n rest = .error .panic := by
      rw [TokenReader.many, TokenReader.bind_eq_error_iff]
      simp only [TokenReader.Avoids.bind_right_iff fun _ => TokenReader.Avoids.pure _ _]
    rw [hlater, nodeTimestamps]
    cases h : w.readTimestamp input with
    | error e =>
      have he : e ≠ .panic := fun he => readTimestamp_avoids input (he ▸ h)
      simp [readNode_of_error h, he, Overflows]
    | ok result =>
      obtain ⟨millis, rest⟩ := result
      have hnode := @readNode_of_ok w clock _ _ _ h
      split at hnode
      · rename_i hle
        obtain ⟨node, hnode⟩ := hnode
        simp [hnode, ih, Overflows, not_lt.mpr hle]
      · rename_i hlt
        simp [hnode, Overflows, not_le.mp hlt]

/-- After parts that cannot panic and before others, the nodes of a message decide. -/
theorem bind_readNodes_panics_iff {α β : Type} {r : WireReader α}
    {k : α → List DhtNode → WireReader β} (hr : r.Avoids .panic)
    (hk : ∀ a nodes, (k a nodes).Avoids .panic) (input : List UInt8) :
    (r >>= fun a => w.readNodes clock >>= k a) input = .error .panic ↔
      Overflows clock (w.timestampsFrom ((r >>= fun _ => w.readLen) input)) := by
  rw [hr.bind_left_iff]
  simp only [TokenReader.Avoids.bind_right_iff (hk _), readNodes, readVec,
    readLen_avoids.bind_left_iff, many_readNode_panics_iff]
  cases hfirst : r input with
  | error e =>
    rw [TokenReader.bind_of_error hfirst]
    simp [timestampsFrom, Overflows]
  | ok result =>
    obtain ⟨a, afterFirst⟩ := result
    rw [TokenReader.bind_of_ok hfirst]
    cases hlen : w.readLen afterFirst with
    | error e => simp [timestampsFrom, Overflows, hlen]
    | ok result =>
      obtain ⟨n, rest⟩ := result
      simp [timestampsFrom, hlen]

/-- A reader that cannot panic agrees with a message without nodes. -/
theorem panics_iff_of_avoids {α : Type} {r : WireReader α} (h : r.Avoids .panic)
    (input : List UInt8) : r input = .error .panic ↔
      Overflows clock (w.timestampsFrom (.error .malformed)) :=
  iff_of_false (h input) (by simp [timestampsFrom, Overflows])

/-- Decoding panics exactly if it comes to a timestamp that is too late. -/
theorem readMessage_panics_iff (bytes : List UInt8) :
    w.readMessage clock bytes = .error .panic ↔ Overflows clock (w.timestamps bytes) := by
  have hsignature : (w.readOption w.readSignature).Avoids .panic :=
    readOption_avoids readSignature_avoids
  have hid : w.readId.Avoids .panic := readId_avoids
  have hbytes : w.readBytes.Avoids .panic := readBytes_avoids
  have hpure {α : Type} (a : α) : (pure a : WireReader α).Avoids .panic :=
    TokenReader.Avoids.pure a _
  unfold readMessage timestamps readNodeCount
  cases hvariant : w.variant.reader WireError.malformed bytes with
  | error e =>
    have he : e ≠ .panic := fun he => w.variant.reader_avoids (by decide) bytes (he ▸ hvariant)
    rw [TokenReader.bind_of_error hvariant, TokenReader.bind_of_error hvariant]
    simp [timestampsFrom, Overflows, he]
  | ok result =>
    obtain ⟨variant, input⟩ := result
    rw [TokenReader.bind_of_ok hvariant, TokenReader.bind_of_ok hvariant]
    generalize variant.toNat = index
    obtain rfl | rfl | rfl | rfl | rfl | rfl | rfl | ⟨i, rfl⟩ : index = 0 ∨ index = 1 ∨
        index = 2 ∨ index = 3 ∨ index = 4 ∨ index = 5 ∨ index = 6 ∨ ∃ i, index = i + 7 := by
      by_cases h : index < 7
      · omega
      · exact Or.inr (Or.inr (Or.inr (Or.inr (Or.inr (Or.inr (Or.inr ⟨index - 7, by omega⟩))))))
    · exact panics_iff_of_avoids (hid.bind fun _ => hsignature.bind fun _ => hpure _) input
    · exact panics_iff_of_avoids (hid.bind fun _ => hsignature.bind fun _ => hpure _) input
    · exact panics_iff_of_avoids
        (hid.bind fun _ => hid.bind fun _ => hsignature.bind fun _ => hpure _) input
    · exact bind_readNodes_panics_iff hid (fun _ _ => hsignature.bind fun _ => hpure _) input
    · exact panics_iff_of_avoids
        (hid.bind fun _ => hbytes.bind fun _ => hsignature.bind fun _ => hpure _) input
    · -- the value stands between the sender and the nodes
      cases hsender : w.readId input with
      | error e =>
        have he : e ≠ .panic := fun he => hid input (he ▸ hsender)
        change (w.readId >>= _) input = _ ↔
          Overflows clock (w.timestampsFrom ((w.readId >>= _) input))
        rw [TokenReader.bind_of_error hsender, TokenReader.bind_of_error hsender]
        simp [timestampsFrom, Overflows, he]
      | ok result =>
        obtain ⟨senderId, rest⟩ := result
        change (w.readId >>= _) input = _ ↔
          Overflows clock (w.timestampsFrom ((w.readId >>= _) input))
        rw [TokenReader.bind_of_ok hsender, TokenReader.bind_of_ok hsender]
        exact bind_readNodes_panics_iff (readOption_avoids hbytes)
          (fun _ _ => hsignature.bind fun _ => hpure _) rest
    · exact panics_iff_of_avoids (hid.bind fun _ => hbytes.bind fun _ => hbytes.bind fun _ =>
        hsignature.bind fun _ => hpure _) input
    · exact panics_iff_of_avoids (TokenReader.Avoids.fail (by decide)) input

theorem wireDecode_panics_iff (bytes : List UInt8) :
    w.wireDecode clock bytes = .error .panic ↔ Overflows clock (w.timestamps bytes) := by
  rw [← readMessage_panics_iff]
  unfold wireDecode
  cases w.readMessage clock bytes with
  | error e => simp
  | ok result => simp

end Panics

end Postcard

/-! ### The loop -/

section Loop

variable {Call : Type} (k : Packages) (clock : SystemClock) (sign : List UInt8 → DhtSignature)

/-- One turn of `recv_loop_inner`, `none` where it panics. -/
def Receiver.turn (g : Datagram) (s : Receiver Call) : Option (Receiver Call × Outcome Call) :=
  if g.bytes.length < 8 ∨ maxMessageSize < g.bytes.length then some (s, .dropped)
  else
    match k.postcard.wireDecode clock (g.bytes.drop 8) with
    | .error .panic => none
    | _ => some (s.receive (k.primitives clock) sign g)

/-- The loop with the tasks that send requests, `none` where a turn panics. -/
def Receiver.turns : List (LoopEvent Call) → Receiver Call → Option (Receiver Call)
  | [], s => some s
  | .datagram g :: events, s => (s.turn k clock sign g).bind fun r => turns events r.1
  | .register requestId call :: events, s =>
    turns events (s.handle (k.primitives clock) sign (.register requestId call))
  | .unregister requestId :: events, s =>
    turns events (s.handle (k.primitives clock) sign (.unregister requestId))

/-- The datagram is too short or too long to be decoded, or the clock can hold every timestamp
that decoding comes to. -/
def Datagram.TimesFit (g : Datagram) : Prop :=
  g.bytes.length < 8 ∨ maxMessageSize < g.bytes.length ∨
    ∀ m ∈ k.postcard.timestamps (g.bytes.drop 8), m.toNat ≤ clock.maxMillis

variable {k clock}

theorem turn_isSome_iff (g : Datagram) (s : Receiver Call) :
    (s.turn k clock sign g).isSome ↔ g.TimesFit k clock := by
  unfold Receiver.turn Datagram.TimesFit
  split
  · rename_i hsize
    simp [← or_assoc, hsize]
  · rename_i hsize
    have hfit : (∀ m ∈ k.postcard.timestamps (g.bytes.drop 8), m.toNat ≤ clock.maxMillis) ↔
        k.postcard.wireDecode clock (g.bytes.drop 8) ≠ .error .panic := by
      rw [Ne, Postcard.wireDecode_panics_iff]
      simp [Postcard.Overflows]
    rw [← or_assoc, or_iff_right hsize, hfit]
    split
    · rename_i hpanic
      simp [hpanic]
    · rename_i hother
      simp only [Option.isSome_some, true_iff]
      exact hother

/-- A turn that does not panic is that of the receive loop. -/
theorem turn_eq_receive {g : Datagram} (h : g.TimesFit k clock) (s : Receiver Call) :
    s.turn k clock sign g = some (s.receive (k.primitives clock) sign g) := by
  have hsome := (turn_isSome_iff sign g s).mpr h
  revert hsome
  unfold Receiver.turn
  split
  · rename_i hsize
    have hdropped : g.accepted (k.primitives clock) = none := by simp [Datagram.accepted, hsize]
    simp [Receiver.receive, hdropped]
  · split
    · simp
    · exact fun _ => rfl

/-- Every time fits in the seconds of Linux. -/
theorem linux_timesFit (g : Datagram) : g.TimesFit k .linux := by
  refine Or.inr (Or.inr fun m _ => ?_)
  have hlt := m.toNat_lt
  have hmax : SystemClock.linux.maxMillis = (2 ^ 63 - 1) * 1000 + 999 := rfl
  omega

theorem turns_isSome_iff (events : List (LoopEvent Call)) (s : Receiver Call) :
    (s.turns k clock sign events).isSome ↔ ∀ g, .datagram g ∈ events → g.TimesFit k clock := by
  induction events generalizing s with
  | nil => simp [Receiver.turns]
  | cons event events ih =>
    cases event with
    | datagram g =>
      have hfirst := @turn_isSome_iff Call k clock sign g s
      rw [Receiver.turns]
      cases hturn : s.turn k clock sign g with
      | none =>
        rw [hturn] at hfirst
        have hfails : ¬g.TimesFit k clock := by simpa using hfirst
        simp only [Option.bind_none, Option.isSome_none, Bool.false_eq_true, false_iff]
        exact fun h => hfails (h g List.mem_cons_self)
      | some r =>
        rw [hturn] at hfirst
        have hfits : g.TimesFit k clock := by simpa using hfirst
        simp only [Option.bind_some, ih, List.mem_cons, LoopEvent.datagram.injEq]
        constructor
        · rintro h g' (rfl | hg')
          · exact hfits
          · exact h g' hg'
        · exact fun h g' hg' => h g' (Or.inr hg')
    | register requestId call => simp [Receiver.turns, ih]
    | unregister requestId => simp [Receiver.turns, ih]

/-- A loop that gets through is the receive loop. -/
theorem turns_eq_runLoop {events : List (LoopEvent Call)}
    (h : ∀ g, .datagram g ∈ events → g.TimesFit k clock) (s : Receiver Call) :
    s.turns k clock sign events = some (s.runLoop (k.primitives clock) sign events) := by
  induction events generalizing s with
  | nil => rfl
  | cons event events ih =>
    have hrest : ∀ g, .datagram g ∈ events → g.TimesFit k clock :=
      fun g hg => h g (List.mem_cons_of_mem _ hg)
    cases event with
    | datagram g =>
      rw [Receiver.turns, turn_eq_receive sign (h g List.mem_cons_self), Option.bind_some]
      exact ih hrest _
    | register requestId call => exact ih hrest _
    | unregister requestId => exact ih hrest _

end Loop

/-- Whatever datagrams come in, the loop gets through them if and only if each of them is too
short or too long, or holds only timestamps that the clock can hold, as far as it can be decoded;
and then every datagram is handled or dropped. -/
theorem receive_loop_survives_iff {Call : Type} (k : Packages) (clock : SystemClock)
    (sign : List UInt8 → DhtSignature) (events : List (LoopEvent Call)) (s : Receiver Call) :
    ((s.turns k clock sign events).isSome ↔ ∀ g, .datagram g ∈ events → g.TimesFit k clock) ∧
    ∀ s', s.turns k clock sign events = some s' →
      s' = s.runLoop (k.primitives clock) sign events := by
  refine ⟨turns_isSome_iff sign events s, fun s' hturns => ?_⟩
  have hsome : (s.turns k clock sign events).isSome := by simp [hturns]
  rw [turns_eq_runLoop sign ((turns_isSome_iff sign events s).mp hsome) s] at hturns
  exact (Option.some.inj hturns).symm

/-- A node of `find_node` that was last seen at the end of 64 bits of milliseconds, on Windows. -/
theorem late_timestamp : ∃ (k : Packages) (sign : List UInt8 → DhtSignature)
    (s : Receiver ℕ) (g : Datagram), s.turns k .windows sign [.datagram g] = none := by
  let sign (_ : List UInt8) : DhtSignature := ⟨List.replicate 64 0, List.replicate 32 3,
    List.length_replicate, List.length_replicate⟩
  let s : Receiver ℕ := ⟨KademliaDht.new (.ofByte 0 0) 0, fun _ => none, ⟨0, 0⟩⟩
  let g : Datagram := ⟨List.replicate 8 0 ++ 3 :: List.replicate 20 0 ++ 1 :: List.replicate 20 0 ++
    0 :: List.replicate 9 0xFF ++ [1, 0], "198.51.100.1:6881", 0, 0⟩
  refine ⟨paddingPackages, sign, s, g, ?_⟩
  have hlate : ¬g.TimesFit paddingPackages .windows := by
    have hany : ((paddingPackages.postcard.timestamps (g.bytes.drop 8)).any fun m =>
        SystemClock.windows.maxMillis < m.toNat) = true := by
      decide +kernel
    rintro (hshort | hlong | hfit)
    · exact absurd hshort (by decide)
    · exact absurd hlong (by decide +kernel)
    · obtain ⟨m, hm, hlt⟩ := List.any_eq_true.mp hany
      have hle := hfit m hm
      simp only [decide_eq_true_eq] at hlt
      omega
  rw [← turn_isSome_iff sign g s] at hlate
  simp [Receiver.turns, Option.not_isSome_iff_eq_none.mp hlate]

end Tachyon
