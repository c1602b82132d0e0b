import Rel4u.Channel.Run
import Rel4u.Channel.Sack
import Rel4u.Worker.Chunks

/-!
# Recovery

`Channel.Run` says what a session never does, whatever the network loses. Here the network stops
losing: in a `round` the sender makes one retransmission pass, the receiver handles every packet of
it, and the acknowledgement it then sends comes back. Nothing is assumed about what happened before
the first round, which may find messages and acknowledgements missing at any place.

The rank is the distance from the receiver's expected number to the sender's next one. A round
brings the sender's head to the expected number, and if it was there already and is not at the end,
the expected number moves: the pass is limited to 16 slots, but the head's is the first of them.
So there are at most as many rounds as messages outstanding, and one more.
-/

namespace Rel4u

open Serial (wrap IsRingSize)

namespace RecvWindow

/-- A window that has delivered all it can has done so again after any DATA packet. -/
theorem Rep.expReady_onData {w : RecvWindow} {e : ℕ} (hw : w.Rep e) (hready : w.expReady = false)
    (hdr : Header) (payload : List UInt8) :
    (w.onData hdr payload readySlots).2.1.expReady = false := by
  obtain ⟨code, w', out, hrun, hkeep⟩ :=
    onData_spec payload hw.drains (hw.drains_storePacket payload)
  rw [hrun readySlots (by decide)]
  exact hkeep hready

/-- **The packet that such a window waits for moves the expected number.** -/
theorem Rep.expected_moves {w : RecvWindow} {e : ℕ} (hw : w.Rep e) (hready : w.expReady = false)
    {hdr : Header} (hrel : Reliable hdr.deliveryMode) (payload : List UInt8)
    (hseq : hdr.seqNum = w.expectedSeq) :
    (w.onData hdr payload readySlots).2.1.expectedSeq ≠ w.expectedSeq := by
  have hpos := hw.ring.pos
  have hsm := hw.small
  have hempty : (w.cell e).received = false := by
    rw [Bool.eq_false_iff, ne_eq, ← hw.expReady_iff, hready]
    decide
  have hend := hw.expReady_onData hready hdr payload
  rw [hw.expected] at hseq
  rcases hw.onData_cases hrel payload (show 0 < readySlots by decide) with
    ⟨code, w', e', out, -, -, hall⟩ | ⟨p, w', e', out, hp, hp', hseq', -, hd, hrun⟩
  · rw [hall e le_rfl (by omega) hseq] at hempty
    exact Bool.noConfusion hempty
  · obtain rfl : p = e := Serial.wrap_inj (hseq'.symm.trans hseq) (by omega) (by omega)
    rw [hrun] at hend ⊢
    have hcap : (w.arrive p hdr payload).capacity = w.capacity := rfl
    have hle := hd.le
    -- a drain that stops at once would leave the packet at the expected place
    have hne : e' ≠ p := by
      rintro rfl
      have hkept := hd.kept e' le_rfl (by rw [hcap]; omega)
      rw [hw.cell_arrive le_rfl hp' le_rfl hp', if_pos rfl] at hkept
      have hready' : w'.expReady = true := hd.rep.expReady_iff.2 (by rw [hkept]; rfl)
      rw [hready'] at hend
      exact Bool.noConfusion hend
    have hfar : e' ≤ p + w.capacity.toNat := by
      by_contra hgt
      have := (hd.received (p + w.capacity.toNat) (by omega) (by omega)).1
      rw [hcap] at this
      omega
    rw [hd.rep.expected, hw.expected]
    intro heq
    exact hne (Serial.wrap_inj heq (by omega) (by omega))

end RecvWindow

/-! ### A pass over due slots -/

/-- A pass that finds the head due sends it first. -/
theorem retransmit_head {w : SendWindow} {h n : ℕ} (hw : w.Rep h n) (hlt : h < n) {rtt : Rtt}
    {nowNs : UInt64} (hdue : (w.cell h).Due nowNs rtt.getRto) (sessionId : UInt32)
    (ackInfo : UInt32 × UInt32) :
    ∃ rest, (retransmit w rtt nowNs sessionId ackInfo).2.2 =
      slotPacket sessionId ackInfo (w.cell h) :: rest := by
  have hexp : w.getExpired nowNs rtt.getRto 16 = h % w.slots.length ::
      ((w.dueFrom nowNs rtt.getRto (h + 1) (n - (h + 1))).take 15).map (· % w.slots.length) := by
    rw [hw.getExpired_eq, show n - h = n - (h + 1) + 1 by omega, SendWindow.dueFrom_succ,
      if_pos hdue]
    rfl
  unfold retransmit
  rw [hexp]
  exact ⟨_, rfl⟩

namespace Channel

/-- The worker handles a DATA packet. -/
def receive (s : Channel) (pkt : Packet) : Channel :=
  { s with
    receiver := (s.receiver.onData pkt.hdr pkt.payload readySlots).2.1
    delivered := s.delivered ++ (s.receiver.onData pkt.hdr pkt.payload readySlots).2.2 }

/-- The sender's retransmission pass. -/
def resend (s : Channel) (sessionId : UInt32) (ackInfo : UInt32 × UInt32) (nowNs : UInt64) :
    Channel :=
  { s with
    sender := (retransmit s.sender s.rtt nowNs sessionId ackInfo).1
    rtt := (retransmit s.sender s.rtt nowNs sessionId ackInfo).2.1
    data := (retransmit s.sender s.rtt nowNs sessionId ackInfo).2.2 ++ s.data }

/-- The receiver's acknowledgement reaches the sender. -/
def acknowledge (s : Channel) (nowNs : UInt64) : Channel :=
  { s with
    acks := s.receiver.getAckInfo :: s.acks
    sender := (s.sender.onAck s.receiver.getAckInfo.1 s.receiver.getAckInfo.2 nowNs s.rtt).1
    rtt := (s.sender.onAck s.receiver.getAckInfo.1 s.receiver.getAckInfo.2 nowNs s.rtt).2 }

/-- **A round in which nothing is lost**: a retransmission pass at time `nowNs`, whose packets all
arrive, and one acknowledgement for them. -/
def round (sessionId : UInt32) (ackInfo : UInt32 × UInt32) (s : Channel) (nowNs : UInt64) :
    Channel :=
  (((retransmit s.sender s.rtt nowNs sessionId ackInfo).2.2).foldl receive
    (s.resend sessionId ackInfo nowNs)).acknowledge nowNs

/-- At each round's time the timeout of the oldest outstanding message is up. -/
def Timely (sessionId : UInt32) (ackInfo : UInt32 × UInt32) : Channel → List UInt64 → Prop
  | _, [] => True
  | s, t :: ts =>
    (s.Outstanding s.sender.headSeq → (s.sendSlot s.sender.headSeq).Due t s.rtt.getRto) ∧
      Timely sessionId ackInfo (s.round sessionId ackInfo t) ts

instance decidableTimely (sessionId : UInt32) (ackInfo : UInt32 × UInt32) :
    ∀ (s : Channel) (ts : List UInt64), Decidable (Timely sessionId ackInfo s ts)
  | _, [] => .isTrue trivial
  | s, t :: ts =>
    have := decidableTimely sessionId ackInfo (s.round sessionId ackInfo t) ts
    inferInstanceAs (Decidable (_ ∧ _))

section Round

variable {base : ℕ} {s s' : Channel} {h e : ℕ}

/-- The invariant of a run, and nothing deliverable is left in the receive window. -/
structure Settled (base : ℕ) (s : Channel) (h e : ℕ) : Prop extends Inv base s h e where
  ready : s.receiver.expReady = false
  small : s.pushed.length < 2 ^ 30

/-- A position that the receiver has not accepted is outstanding. -/
theorem Inv.outstanding (hi : Inv base s h e) {p : ℕ} (hp : h ≤ p)
    (hp' : p < base + s.log.length) (hno : ¬ s.receiver.Accepted e p) : s.Outstanding (wrap p) := by
  have hslot : s.sendSlot (wrap p) = s.sender.cell p := by
    rw [sendSlot, hi.inStep.send.slotIdx, SendWindow.slot_mod]
  have hrange := (hi.inStep.send.inRange_iff (wrap p)).2 ⟨p, hp, hp', rfl⟩
  rw [Bool.and_eq_true] at hrange
  refine ⟨hrange.2, hrange.1, ?_, ?_, ?_⟩
  · rw [hslot]
    exact hi.inStep.send.inUse p hp hp'
  · rw [hslot]
    exact hi.inStep.send.seqNum p hp hp'
  · rw [hslot, Bool.eq_false_iff]
    exact fun hacked => hno (hi.inStep.acked p hp hp' hacked)

/-- The expected position has not been accepted. -/
theorem Settled.not_accepted (hs : Settled base s h e) : ¬ s.receiver.Accepted e e := by
  rintro (hlt | ⟨-, hrec⟩)
  · omega
  · have hready := hs.inStep.recv.expReady_iff.2 hrec
    rw [hs.ready] at hready
    exact Bool.noConfusion hready

/-- The pass keeps the invariant, and its packets are of the log. -/
theorem Settled.resend (hs : Settled base s h e) (sessionId : UInt32) (ackInfo : UInt32 × UInt32)
    (nowNs : UInt64) :
    Settled base (s.resend sessionId ackInfo nowNs) h e ∧
      ∀ pkt ∈ (retransmit s.sender s.rtt nowNs sessionId ackInfo).2.2,
        FromLog base s.log pkt := by
  obtain ⟨h1, -, h3, h4⟩ := retransmit_rep hs.inStep.send s.rtt nowNs sessionId ackInfo
  have hfrom : ∀ pkt ∈ (retransmit s.sender s.rtt nowNs sessionId ackInfo).2.2,
      FromLog base s.log pkt := by
    intro pkt hpkt
    obtain ⟨q, hq, hq', -, rfl⟩ := h4 pkt hpkt
    exact hs.inStep.fromLog_slotPacket hq hq' _ _
  refine ⟨?_, hfrom⟩
  exact
    { inStep := hs.inStep.congr_send h1 h3
      delivered := hs.delivered
      fromLog := fun pkt hpkt =>
        (List.mem_append.1 hpkt).elim (hfrom pkt) (hs.fromLog pkt)
      honest := hs.honest
      numbers := hs.numbers
      ready := hs.ready
      small := hs.small }

/-- A packet of the log keeps the invariant; the one that is waited for moves the receiver. -/
theorem Settled.receive (hs : Settled base s h e) {pkt : Packet}
    (hpkt : FromLog base s.log pkt) :
    ∃ e', e ≤ e' ∧ Settled base (s.receive pkt) h e' ∧ (pkt.hdr.seqNum = wrap e → e < e') := by
  have hsmall : s.log.length < 2 ^ 30 := by rw [log_length]; exact hs.small
  obtain ⟨e', hle, hs', hd', -, hacc⟩ :=
    hs.inStep.onData hs.delivered hsmall hpkt (show 0 < readySlots by decide)
  have hrel : Reliable pkt.hdr.deliveryMode := by
    obtain ⟨k, hk, -⟩ := hpkt
    exact hs.inStep.reliable _ (List.mem_of_getElem? hk)
  refine ⟨e', hle, ?_, fun hseq => ?_⟩
  · exact
      { inStep := hs'
        delivered := hd'
        fromLog := hs.fromLog
        honest := fun ack hack => (hs.honest ack hack).mono hle hacc
        numbers := hs.numbers
        ready := hs.inStep.recv.expReady_onData hs.ready pkt.hdr pkt.payload
        small := hs.small }
  · have hmoves := hs.inStep.recv.expected_moves hs.ready hrel pkt.payload
      (hseq.trans hs.inStep.recv.expected.symm)
    rw [hs'.recv.expected, hs.inStep.recv.expected] at hmoves
    exact lt_of_le_of_ne hle fun heq => hmoves (by rw [heq])

theorem Settled.foldl_receive {pkts : List Packet} : ∀ {s : Channel} {e : ℕ},
    Settled base s h e → (∀ pkt ∈ pkts, FromLog base s.log pkt) →
    ∃ e', e ≤ e' ∧ Settled base (pkts.foldl Channel.receive s) h e' ∧
      (∀ pkt rest, pkts = pkt :: rest → pkt.hdr.seqNum = wrap e → e < e') := by
  induction pkts with
  | nil =>
    intro s e hs _
    exact ⟨e, le_rfl, hs, fun pkt rest heq => absurd heq (by simp)⟩
  | cons pkt pkts ih =>
    intro s e hs hfrom
    rw [List.forall_mem_cons] at hfrom
    obtain ⟨e₁, hle₁, hs₁, hmove⟩ := hs.receive hfrom.1
    obtain ⟨e₂, hle₂, hs₂, -⟩ := ih hs₁ hfrom.2
    refine ⟨e₂, hle₁.trans hle₂, hs₂, fun pkt' rest heq hseq => ?_⟩
    rw [List.cons.injEq] at heq
    rw [← heq.1] at hseq
    exact (hmove hseq).trans_le hle₂

/-- The receiver's own acknowledgement brings the head to the expected number. -/
theorem Settled.acknowledge (hs : Settled base s h e) (nowNs : UInt64) :
    Settled base (s.acknowledge nowNs) e e := by
  have hsmall : s.log.length < 2 ^ 30 := by rw [log_length]; exact hs.small
  have hhonest := hs.inStep.honest_getAckInfo
  have hstep := hs.inStep.onAck hsmall hhonest nowNs s.rtt
  have hack : s.receiver.getAckInfo.1 = wrap e - 1 := by
    rw [← hs.inStep.recv.expected]
    rfl
  have hb := hs.inStep.base_le
  have hcum : SendWindow.cumTo s.receiver.getAckInfo.1 h (base + s.log.length) = e := by
    rw [hack]
    exact SendWindow.cumTo_pred hs.inStep.head_le hs.inStep.le_next (by omega)
  rw [hcum] at hstep
  exact
    { inStep := hstep
      delivered := hs.delivered
      fromLog := hs.fromLog
      honest := fun ack hmem => by
        rcases List.mem_cons.1 hmem with rfl | hmem'
        · exact hhonest
        · exact hs.honest ack hmem'
      numbers := hs.numbers
      ready := hs.ready
      small := hs.small }

/-- **A round** brings the head to the expected number, and if it was there, and is not at the end,
the expected number moves. -/
theorem Settled.round (hs : Settled base s h e) {sessionId : UInt32} {ackInfo : UInt32 × UInt32}
    {nowNs : UInt64}
    (hdue : s.Outstanding s.sender.headSeq → (s.sendSlot s.sender.headSeq).Due nowNs s.rtt.getRto) :
    ∃ e', e ≤ e' ∧ Settled base (s.round sessionId ackInfo nowNs) e' e' ∧
      (h = e → e < base + s.log.length → e < e') := by
  obtain ⟨hs₁, hfrom⟩ := hs.resend sessionId ackInfo nowNs
  obtain ⟨e', hle, hs₂, hmove⟩ := hs₁.foldl_receive hfrom
  refine ⟨e', hle, hs₂.acknowledge nowNs, fun heq hlt => ?_⟩
  subst heq
  have hslot : s.sendSlot s.sender.headSeq = s.sender.cell h := by
    rw [sendSlot, hs.inStep.send.head, hs.inStep.send.slotIdx, SendWindow.slot_mod]
  have hout : s.Outstanding s.sender.headSeq := by
    rw [hs.inStep.send.head]
    exact hs.outstanding le_rfl hlt hs.not_accepted
  have hhead := hdue hout
  rw [hslot] at hhead
  obtain ⟨rest, hpkts⟩ := retransmit_head hs.inStep.send hlt hhead sessionId ackInfo
  exact hmove _ rest hpkts (hs.inStep.send.seqNum h le_rfl hlt)

/-- With nothing left to be acknowledged, everything has been delivered. -/
theorem Settled.all_delivered (hs : Settled base s h e)
    (heq : s.sender.headSeq = s.sender.nextSeq) :
    s.deliveredOrdered = (s.pushed.filter fun x => isOrdered x.2.mode).map Prod.snd ∧
      s.deliveredUnordered.Perm (s.pushed.filter fun x => isUnordered x.2.mode) := by
  have hbefore : ∀ x ∈ s.pushed, seqLt x.1 s.receiver.expectedSeq = true :=
    fun x hx => hs.all_before_expected hs.small heq hx
  have hord := hs.deliveredOrdered_eq hs.small
  have hunord := hs.deliveredUnordered_perm hs.small
  rw [List.filter_congr fun x hx => by rw [hbefore x hx, Bool.true_and]] at hord
  rw [List.filter_congr fun x hx => by
    rw [Accepted, hbefore x hx, Bool.true_or, Bool.true_and]] at hunord
  exact ⟨hord, hunord⟩

theorem pushed_foldl_receive (pkts : List Packet) (s : Channel) :
    (pkts.foldl receive s).pushed = s.pushed := by
  induction pkts generalizing s with
  | nil => rfl
  | cons pkt pkts ih => rw [List.foldl_cons, ih]; rfl

theorem pushed_round (sessionId : UInt32) (ackInfo : UInt32 × UInt32) (s : Channel)
    (nowNs : UInt64) : (s.round sessionId ackInfo nowNs).pushed = s.pushed := by
  rw [Channel.round, Channel.acknowledge, pushed_foldl_receive]
  rfl

/-- From a head at the expected number, as many rounds as there are messages beyond it are
enough. -/
theorem Settled.rounds {sessionId : UInt32} {ackInfo : UInt32 × UInt32} (ts : List UInt64) :
    ∀ {s : Channel} {e : ℕ}, Settled base s e e → base + s.log.length ≤ e + ts.length →
      Timely sessionId ackInfo s ts →
      Settled base (ts.foldl (Channel.round sessionId ackInfo) s) (base + s.log.length)
        (base + s.log.length) := by
  induction ts with
  | nil =>
    intro s e hs hlen _
    have hle := hs.inStep.le_next
    rw [List.length_nil] at hlen
    obtain rfl : e = base + s.log.length := by omega
    exact hs
  | cons t ts ih =>
    intro s e hs hlen htimely
    obtain ⟨e', hle, hs', hmove⟩ := hs.round htimely.1
    have hlog : (s.round sessionId ackInfo t).log = s.log := by
      rw [log, pushed_round, log]
    have hrest := ih hs' (by
      rw [hlog]
      rw [List.length_cons] at hlen
      by_cases hlt : e < base + s.log.length
      · have := hmove rfl hlt
        omega
      · omega) htimely.2
    rw [hlog] at hrest
    exact hrest

end Round

/-- In every reachable state nothing deliverable is left in the receive window. -/
theorem Settled.of_reachable {sendCapacity recvCapacity initialSeq : UInt32}
    (hs : IsRingSize sendCapacity) (hs' : sendCapacity.toNat ≤ 2 ^ 30)
    (hr : IsRingSize recvCapacity) (hr' : recvCapacity.toNat ≤ 2 ^ 30) {s : Channel}
    (hrun : Reachable sendCapacity recvCapacity initialSeq s) (hlt : s.pushed.length < 2 ^ 30) :
    ∃ h e, Settled initialSeq.toNat s h e := by
  have hready : s.receiver.expReady = false := by
    induction hrun with
    | refl =>
      have hrep := RecvWindow.fresh_rep hr hr' initialSeq
      rw [start, RecvWindow.init_eq_fresh hr, Bool.eq_false_iff, ne_eq, hrep.expReady_iff,
        RecvWindow.cell_fresh]
      decide
    | tail hreach hst ih =>
      have hle := hst.pushed_length_le
      obtain ⟨h, e, hi⟩ := Inv.of_reachable hs hs' hr hr' hreach (by omega)
      have hbefore := ih (by omega)
      cases hst with
      | receive pkt hpkt => exact hi.inStep.recv.expReady_onData hbefore pkt.hdr pkt.payload
      | push | transmit | retransmit | sendAck | onAck => exact hbefore
  obtain ⟨h, e, hi⟩ := Inv.of_reachable hs hs' hr hr' hrun hlt
  exact ⟨h, e, { toInv := hi, ready := hready, small := hlt }⟩

/-- **A session recovers.** Whatever the network has dropped, repeated and reordered so far: once it
delivers, as many rounds as there are outstanding messages, and one more, bring everything that has
been pushed to the receiver, the ordered messages in their order and each message once, and leave
the sender with nothing to be acknowledged. -/
theorem recovers {sendCapacity recvCapacity initialSeq : UInt32}
    (hs : IsRingSize sendCapacity) (hs' : sendCapacity.toNat ≤ 2 ^ 30)
    (hr : IsRingSize recvCapacity) (hr' : recvCapacity.toNat ≤ 2 ^ 30) {s : Channel}
    (hrun : Reachable sendCapacity recvCapacity initialSeq s) (hlt : s.pushed.length < 2 ^ 30)
    {sessionId : UInt32} {ackInfo : UInt32 × UInt32} {ts : List UInt64}
    (htimely : Timely sessionId ackInfo s ts)
    (hlen : (s.sender.nextSeq - s.sender.headSeq).toNat < ts.length) :
    let s' := ts.foldl (Channel.round sessionId ackInfo) s
    s'.pushed = s.pushed ∧ s'.sender.headSeq = s'.sender.nextSeq ∧
      s'.deliveredOrdered = (s.pushed.filter fun x => isOrdered x.2.mode).map Prod.snd ∧
      s'.deliveredUnordered.Perm (s.pushed.filter fun x => isUnordered x.2.mode) := by
  intro s'
  obtain ⟨h, e, hset⟩ := Settled.of_reachable hs hs' hr hr' hrun hlt
  have hpushed : s'.pushed = s.pushed :=
    List.foldlRecOn ts (Channel.round sessionId ackInfo) (motive := fun s' => s'.pushed = s.pushed)
      rfl fun s₁ ih t _ => (pushed_round sessionId ackInfo s₁ t).trans ih
  cases ts with
  | nil => exact absurd hlen (Nat.not_lt_zero _)
  | cons t ts =>
    obtain ⟨e', hle, hset', -⟩ := hset.round htimely.1
    have hlog : (s.round sessionId ackInfo t).log = s.log := by rw [log, pushed_round, log]
    have hhe := hset.inStep.head_le
    rw [hset.inStep.send.fuel_eq, List.length_cons] at hlen
    have hend := hset'.rounds ts (by rw [hlog]; omega) htimely.2
    rw [hlog] at hend
    have hheads : s'.sender.headSeq = s'.sender.nextSeq := by
      have hnext := hend.inStep.send.next
      have hlog' : s'.log = s.log := by rw [log, hpushed, log]
      rw [show s'.sender.headSeq = _ from hend.inStep.send.head,
        show s'.sender.nextSeq = _ from hnext]
      show wrap _ = wrap (_ + s'.log.length)
      rw [hlog']
    obtain ⟨hord, hunord⟩ := hend.all_delivered hheads
    have hpushed' : s'.pushed = s.pushed := hpushed
    exact ⟨hpushed, hheads, hpushed' ▸ hord, hpushed' ▸ hunord⟩

/-- The state in which the second of two messages has arrived recovers in three rounds. -/
theorem recovers_crossed :
    let s' := [1000000000, 3000000000, 9000000000].foldl (Channel.round 1 (0, 0)) crossed
    s'.sender.headSeq = s'.sender.nextSeq ∧ s'.deliveredOrdered = [.ofPush 3 [7] 1] := by
  have htimely : Timely 1 (0, 0) crossed [1000000000, 3000000000, 9000000000] := by
    decide +kernel
  obtain ⟨-, hheads, hord, -⟩ := recovers ⟨1, by decide, rfl⟩ (by decide) ⟨2, by decide, rfl⟩
    (by decide) reachable_crossed (by decide) htimely (by decide +kernel)
  exact ⟨hheads, hord⟩

end Channel

end Rel4u
