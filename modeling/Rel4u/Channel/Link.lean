import Rel4u.Channel.Run

/-!
# Two parties of a session

Each party of a session has a send window and a receive window. `Link A B ab ba` says that the four
windows agree in both directions, given everything `A` has ever sent to `B` (`ab`) and back (`ba`).
A party does nothing to its windows but what `Acts` lists: it takes packets of the other's, pushes
messages, retransmits, and sends packets that carry its own acknowledgement. `Link.acts` says that
this keeps the link, so an endpoint only has to show that it `Acts`.

* `Handed`: what has been handed out of a receive window;
* `Dir`: one direction, which covers the rings of `2 ^ 31` slots: they never hold anything, and
  a small window that never holds anything stands in for them;
* `Link.inOrder`: the order of the two windows' counters;
* `Link.rejoin`: a party that has neither sent nor accepted a message may start over.
-/

namespace Rel4u

open Serial (wrap IsRingSize)

/-! ### What a receive window has handed out -/

/-- Every message of the log that is before `e`, or is unordered and accepted, is in `out`, under
its number. -/
def Handed (base : ℕ) (log : List Message) (rw : RecvWindow) (e : ℕ) (out : List RecvSlot) : Prop :=
  ∀ k m, log[k]? = some m →
    (base + k < e ∨ (rw.Accepted e (base + k) ∧ isUnordered m.mode = true)) →
    ∃ s ∈ out, s.seqNum = wrap (base + k) ∧ s.message = m

section Handed

variable {base : ℕ} {log : List Message} {sw : SendWindow} {rw rw' : RecvWindow} {h e e' : ℕ}
  {out out' : List RecvSlot}

theorem Handed.mono (hh : Handed base log rw e out) (hsub : out ⊆ out') :
    Handed base log rw e out' := by
  intro k m hk hcase
  obtain ⟨s, hs, hs'⟩ := hh k m hk hcase
  exact ⟨s, hsub hs, hs'⟩

/-- A message that has just been pushed is not accepted yet. -/
theorem Handed.push (hs : InStep base log sw rw h e) (hh : Handed base log rw e out)
    (m : Message) : Handed base (log ++ [m]) rw e out := by
  have hle := hs.le_next
  intro k m' hk hcase
  by_cases hlt : k < log.length
  · rw [List.getElem?_append_left hlt] at hk
    exact hh k m' hk hcase
  · have hnot : ¬ base + k < base + log.length := by omega
    rcases hcase with hcase | ⟨hcase, -⟩
    · omega
    · exact absurd (hs.accepted_lt hcase) hnot

/-- Draining hands out the ordered messages it passes; the unordered ones went before. -/
theorem Handed.drained (hs : InStep base log sw rw h e) (hh : Handed base log rw e out)
    (hd : RecvWindow.Drained rw e rw' e' out') : Handed base log rw' e' (out ++ out') := by
  intro k m hk hcase
  have hold : (base + k < e ∨ (rw.Accepted e (base + k) ∧ isUnordered m.mode = true)) →
      ∃ s ∈ out ++ out', s.seqNum = wrap (base + k) ∧ s.message = m :=
    hh.mono (List.subset_append_left out out') k m hk
  rcases hcase with hcase | ⟨hacc, hmode⟩
  · by_cases hlt : base + k < e
    · exact hold (Or.inl hlt)
    · obtain ⟨hin, hrec⟩ := hd.received (base + k) (by omega) hcase
      obtain ⟨m', hm', hmode, hmsg⟩ := hs.held (base + k) (by omega) hin hrec
      have hmm : m' = m := by
        rw [show base + k - base = k by omega, hk, Option.some.injEq] at hm'
        exact hm'.symm
      subst hmm
      rcases hs.reliable m' (List.mem_of_getElem? hk) with hord | hunord
      · have hslot : rw.cell (base + k) ∈ out' := by
          rw [hd.out_eq, RecvWindow.orderedSlots, List.mem_filter]
          refine ⟨List.mem_map.2 ⟨base + k, List.mem_range'_1.2 (by omega), rfl⟩, ?_⟩
          exact decide_eq_true (hmode.symm.trans hord)
        exact ⟨_, List.mem_append_right out hslot,
          hs.recv.seqNum _ (by omega) hin hrec, (hmsg hord).symm⟩
      · exact hold (Or.inr ⟨Or.inr ⟨hin, hrec⟩, decide_eq_true hunord⟩)
  · exact hold (Or.inr ⟨(hd.accepted_iff _).1 hacc, hmode⟩)

/-- A packet that is stored is handed out at once if it is unordered. -/
theorem Handed.arrive (hs : InStep base log sw rw h e) (hh : Handed base log rw e out)
    (hsmall : log.length < 2 ^ 30) {pkt : Packet} (hpkt : FromLog base log pkt) {p : ℕ}
    (hp : e ≤ p) (hp' : p < e + rw.capacity.toNat) (hseq : pkt.hdr.seqNum = wrap p) :
    Handed base log (rw.arrive p pkt.hdr pkt.payload) e
      (out ++ RecvWindow.immediate pkt.hdr pkt.payload) := by
  obtain ⟨hbp, hlog⟩ := hpkt.position hs hsmall hp hp' hseq
  intro k m hk hcase
  have hold := hh.mono (List.subset_append_left out (RecvWindow.immediate pkt.hdr pkt.payload)) k m
    hk
  rcases hcase with hcase | ⟨hacc, hmode⟩
  · exact hold (Or.inl hcase)
  · rcases (hs.recv.accepted_arrive_iff hp hp' _ _ _).1 hacc with heq | hacc
    · rw [show p - base = k by omega, hk, Option.some.injEq] at hlog
      subst hlog
      have himm : RecvWindow.immediate pkt.hdr pkt.payload =
          [RecvWindow.readySlot pkt.hdr pkt.payload] := if_pos (of_decide_eq_true hmode)
      refine ⟨RecvWindow.readySlot pkt.hdr pkt.payload, ?_, hseq.trans (by rw [heq]), ?_⟩
      · rw [himm]
        exact List.mem_append_right out List.mem_cons_self
      · simp [RecvWindow.readySlot, RecvSlot.message, Packet.message]
    · exact hold (Or.inr ⟨hacc, hmode⟩)

end Handed

/-! ### Any packet, any push -/

section InStep

variable {base : ℕ} {log : List Message} {sw : SendWindow} {rw rw' : RecvWindow} {h e e' : ℕ}
  {out ready : List RecvSlot}

theorem InStep.mark (hs : InStep base log sw rw h e) (highest : UInt32) (has : Bool) :
    InStep base log sw (rw.mark highest has) h e :=
  { hs with recv := hs.recv.mark_rep highest has }

/-- **Handling any DATA packet keeps the windows in step**, provided a reliable one is of the
log. -/
theorem InStep.takes (hs : InStep base log sw rw h e) (hh : Handed base log rw e out)
    (hsmall : log.length < 2 ^ 30) {pkt : Packet}
    (hpkt : Reliable pkt.hdr.deliveryMode → FromLog base log pkt) {code : ℤ}
    (ht : rw.Takes e pkt.hdr pkt.payload code rw' e' ready) :
    InStep base log sw rw' h e' ∧ Handed base log rw' e' (out ++ ready) ∧ e ≤ e' ∧
      ∀ p, rw.Accepted e p → rw'.Accepted e' p := by
  cases ht with
  | pass code highest has imm out' w' e' hcode himm hd =>
    have hs' := hs.mark highest has
    have hh' : Handed base log (rw.mark highest has) e (out ++ imm) :=
      hh.mono (List.subset_append_left out imm)
    refine ⟨hs'.drained hd, ?_, hd.le, fun p hp => (hd.accepted_iff p).2 hp⟩
    rw [← List.append_assoc]
    exact hh'.drained hs' hd
  | store p out' w' e' hrel hp hp' hseq hnew hd =>
    have hlog := hpkt hrel
    have hs' := hs.arrive hsmall hlog hp hp' hseq
    refine ⟨hs'.drained hd, ?_, hd.le, fun q hq => ?_⟩
    · rw [← List.append_assoc]
      exact (hh.arrive hs hsmall hlog hp hp' hseq).drained hs' hd
    · exact (hd.accepted_iff q).2 ((hs.recv.accepted_arrive_iff hp hp' _ _ q).2 (Or.inr hq))

/-- The packet of a push carries the message. -/
theorem message_push (type : PktType) (mode : UInt8) (sessionId seq : UInt32)
    (ackInfo : UInt32 × UInt32) (data : List UInt8) {len : ℕ} (hlen : len ≤ maxPayloadSize) :
    (mkPacket type mode sessionId seq ackInfo data len).message = Message.ofPush mode data len := by
  have hl : (UInt16.ofNat len).toNat = len := by
    rw [UInt16.toNat_ofNat_of_lt']
    exact lt_of_le_of_lt hlen (by decide)
  simp [mkPacket, Packet.message, Message.ofPush, hl]

end InStep

/-! ### One direction -/

/-- The send window, or the one that stands in for it. -/
def SendAs (log : List Message) (sw sv : SendWindow) : Prop :=
  sw = sv ∨ (sw.Idle ∧ sw.nextSeq = 1 ∧ log = [])

/-- The receive window, or the one that stands in for it. -/
def RecvAs (e : ℕ) (rw rv : RecvWindow) : Prop :=
  rw = rv ∨ (rw.Idle ∧ rw.expectedSeq = 1 ∧ e = 1 ∧ ∀ p, ¬ rv.Accepted 1 (p + 1))

/-- **The messages of a session in one direction**: the log, the window they are sent from, with
its head at `h`, the window they arrive in, which expects `e`, and what it has handed out. -/
def Dir (log : List Message) (sw : SendWindow) (rw : RecvWindow) (out : List RecvSlot)
    (h e : ℕ) : Prop :=
  ∃ sv rv, InStep 1 log sv rv h e ∧ Handed 1 log rv e out ∧ SendAs log sw sv ∧ RecvAs e rw rv

theorem RecvWindow.Idle.not_accepted {rw : RecvWindow} (hw : rw.Idle) (p : ℕ) :
    ¬ rw.Accepted 1 (p + 1) := by
  rintro (h | ⟨-, h⟩)
  · omega
  · have hempty : (rw.cell (p + 1)).received = false := hw.empty _
    rw [hempty] at h
    exact Bool.noConfusion h

/-- An acknowledgement of a window that has accepted nothing selects nothing. -/
theorem Honest.of_none {rw rw' : RecvWindow} {ack : UInt32 × UInt32} (ha : Honest 1 rw 1 ack)
    (hnone : ∀ p, ¬ rw.Accepted 1 (p + 1)) : Honest 1 rw' 1 ack := by
  obtain ⟨a, h1, h2, h3, h4⟩ := ha
  refine ⟨a, h1, h2, h3, fun i hi hbit => ?_⟩
  have := h4 i hi hbit
  rw [show a + i = i + 1 by omega] at this
  exact absurd this (hnone i)

/-- Packets that carry no acknowledgement are honest. -/
theorem honest_zero {rw : RecvWindow} {e : ℕ} (he : 1 ≤ e) : Honest 1 rw e (0, 0) :=
  ⟨1, le_rfl, he, by decide, fun i _ hbit => absurd hbit (by simp)⟩

section Dir

variable {log : List Message} {sw sw' : SendWindow} {rw rw' : RecvWindow} {out : List RecvSlot}
  {h e : ℕ}

theorem RecvAs.honest {rv : RecvWindow} (hr : RecvAs e rw rv) {ack : UInt32 × UInt32}
    (ha : Honest 1 rw e ack) : Honest 1 rv e ack := by
  rcases hr with rfl | ⟨hidle, -, rfl, -⟩
  · exact ha
  · exact ha.of_none hidle.not_accepted

theorem Dir.one_le (hd : Dir log sw rw out h e) : 1 ≤ e := by
  obtain ⟨sv, rv, hs, -⟩ := hd
  exact hs.base_le.trans hs.head_le

theorem Dir.honest_getAckInfo (hd : Dir log sw rw out h e) : Honest 1 rw e rw.getAckInfo := by
  obtain ⟨sv, rv, hs, -, -, rfl | ⟨hidle, hexp, rfl, -⟩⟩ := hd
  · exact hs.honest_getAckInfo
  · rw [RecvWindow.getAckInfo, hidle.sackMask_eq, hexp]
    exact honest_zero le_rfl

/-- Where the sender's counter stands. -/
theorem Dir.nextSeq_eq (hd : Dir log sw rw out h e) : sw.nextSeq = wrap (1 + log.length) := by
  obtain ⟨sv, rv, hs, -, rfl | ⟨-, hnext, rfl⟩, -⟩ := hd
  · exact hs.send.next
  · exact hnext

/-- A reliable message enters the window. -/
theorem Dir.push (hd : Dir log sw rw out h e) {mode : UInt8} (hmode : Reliable mode)
    {data : List UInt8} {len : ℕ} {nowNs : UInt64} {seq : UInt32}
    (hpush : sw.push mode data len nowNs = .ok (sw', seq)) :
    Dir (log ++ [Message.ofPush mode data len]) sw' rw out h e ∧ len ≤ maxPayloadSize ∧
      seq = wrap (1 + log.length) := by
  obtain ⟨hlen, hc, rfl, rfl⟩ := Channel.push_ok hmode hpush
  refine ⟨?_, hlen, hd.nextSeq_eq⟩
  obtain ⟨sv, rv, hs, hh, rfl | ⟨hidle, -⟩, hr⟩ := hd
  · exact ⟨_, rv, hs.push hmode data hlen nowNs hc, hh.push hs _, Or.inl rfl, hr⟩
  · rw [hidle.canSend_eq] at hc
    exact Bool.noConfusion hc

/-- An unreliable message passes the window by. -/
theorem Dir.push_unreliable (hd : Dir log sw rw out h e) (n : UInt32) :
    Dir log { sw with nextUnrelSeq := n } rw out h e := by
  obtain ⟨sv, rv, hs, hh, rfl | ⟨hidle, hrest⟩, hr⟩ := hd
  · exact ⟨{ sw with nextUnrelSeq := n }, rv, { hs with send := { hs.send with } }, hh,
      Or.inl rfl, hr⟩
  · exact ⟨sv, rv, hs, hh, Or.inr ⟨{ hidle with }, hrest⟩, hr⟩

theorem Dir.onAck (hd : Dir log sw rw out h e) (hsmall : log.length < 2 ^ 30)
    {ack : UInt32 × UInt32} (ha : Honest 1 rw e ack) (nowNs : UInt64) (rtt : Rtt) :
    ∃ h', Dir log (sw.onAck ack.1 ack.2 nowNs rtt).1 rw out h' e := by
  obtain ⟨sv, rv, hs, hh, rfl | ⟨hidle, hrest⟩, hr⟩ := hd
  · exact ⟨_, _, rv, hs.onAck hsmall (hr.honest ha) nowNs rtt, hh, Or.inl rfl, hr⟩
  · rw [hidle.onAck_eq]
    exact ⟨h, sv, rv, hs, hh, Or.inr ⟨hidle, hrest⟩, hr⟩

/-- Retransmission changes nothing that matters, and sends messages of the log. -/
theorem Dir.retransmit (hd : Dir log sw rw out h e) (rtt : Rtt) (nowNs : UInt64)
    (sessionId : UInt32) (ackInfo : UInt32 × UInt32) :
    Dir log (Rel4u.retransmit sw rtt nowNs sessionId ackInfo).1 rw out h e ∧
      ∀ pkt ∈ (Rel4u.retransmit sw rtt nowNs sessionId ackInfo).2.2, FromLog 1 log pkt := by
  obtain ⟨sv, rv, hs, hh, rfl | ⟨hidle, hrest⟩, hr⟩ := hd
  · obtain ⟨h1, -, h3, h4⟩ := retransmit_rep hs.send rtt nowNs sessionId ackInfo
    refine ⟨⟨_, rv, hs.congr_send h1 h3, hh, Or.inl rfl, hr⟩, fun pkt hpkt => ?_⟩
    obtain ⟨q, hq, hq', -, rfl⟩ := h4 pkt hpkt
    exact hs.fromLog_slotPacket hq hq' _ _
  · have heq : Rel4u.retransmit sw rtt nowNs sessionId ackInfo = (sw, rtt, []) := by
      simp [Rel4u.retransmit, hidle.getExpired_eq]
    rw [heq]
    exact ⟨⟨sv, rv, hs, hh, Or.inr ⟨hidle, hrest⟩, hr⟩,
      fun pkt hpkt => absurd hpkt List.not_mem_nil⟩

/-- A DATA packet arrives. -/
theorem Dir.onData (hd : Dir log sw rw out h e) (hsmall : log.length < 2 ^ 30) {pkt : Packet}
    (hpkt : Reliable pkt.hdr.deliveryMode → FromLog 1 log pkt) {maxReady : ℕ}
    (hmax : 0 < maxReady) :
    ∃ e', Dir log sw (rw.onData pkt.hdr pkt.payload maxReady).2.1
        (out ++ (rw.onData pkt.hdr pkt.payload maxReady).2.2) h e' ∧
      ∀ ack, Honest 1 rw e ack →
        Honest 1 (rw.onData pkt.hdr pkt.payload maxReady).2.1 e' ack := by
  obtain ⟨sv, rv, hs, hh, hsend, rfl | ⟨hidle, hexp, rfl, hnone⟩⟩ := hd
  · obtain ⟨e', ht⟩ := hs.recv.takes_onData pkt.hdr pkt.payload hmax
    obtain ⟨h1, h2, h3, h4⟩ := hs.takes hh hsmall hpkt ht
    exact ⟨e', ⟨sv, _, h1, h2, hsend, Or.inl rfl⟩, fun ack ha => ha.mono h3 h4⟩
  · obtain ⟨code, highest, has, imm, hrun, -⟩ := hidle.onData_eq pkt.hdr pkt.payload hmax
    rw [hrun]
    refine ⟨1, ⟨sv, rv, hs, hh.mono (List.subset_append_left out imm), hsend, Or.inr ?_⟩, ?_⟩
    · exact ⟨hidle.mark_idle highest has, hexp, rfl, hnone⟩
    · exact fun ack ha => ha.of_none hidle.not_accepted

/-- The counters are in order. -/
theorem Dir.inOrder (hd : Dir log sw rw out h e) (hsmall : log.length < 2 ^ 30) :
    seqLte sw.headSeq rw.expectedSeq = true ∧ seqLte rw.expectedSeq sw.nextSeq = true := by
  have hnext := hd.nextSeq_eq
  obtain ⟨sv, rv, hs, -, hsend, hr⟩ := hd
  have hle := hs.le_next
  have hhe := hs.head_le
  have hb := hs.base_le
  have hexp : rw.expectedSeq = wrap e := by
    rcases hr with rfl | ⟨-, hexp, rfl, -⟩
    · exact hs.recv.expected
    · exact hexp
  have hhead : sw.headSeq = wrap h := by
    rcases hsend with rfl | ⟨hidle, hone, rfl⟩
    · exact hs.send.head
    · have h1 : h = 1 := by
        rw [List.length_nil] at hle
        omega
      rw [hidle.empty, hone, h1]
      rfl
  rw [hnext, hexp, hhead]
  have h1 : seqDiff (wrap h) (wrap e) = (h : ℤ) - e := Serial.diff_wrap (by omega) (by omega)
  have h2 : seqDiff (wrap e) (wrap (1 + log.length)) = (e : ℤ) - (1 + log.length : ℕ) :=
    Serial.diff_wrap (by omega) (by omega)
  rw [seqLte, seqLte, h1, h2, decide_eq_true_eq, decide_eq_true_eq]
  constructor <;> omega

end Dir

/-! ### Fresh windows -/

theorem isRingSize_two : IsRingSize 2 := ⟨1, by norm_num, by decide⟩

/-- A window of any size accepted by the source, at sequence number 1, and what stands in for
it. -/
theorem exists_sendAs {c : UInt32} (hc : IsRingSize c) :
    ∃ sv : SendWindow, sv.Rep 1 1 ∧ SendAs [] (SendWindow.fresh c 1) sv := by
  rcases hc.small_or_half with hs | hs
  · exact ⟨_, SendWindow.fresh_rep hc hs 1, Or.inl rfl⟩
  · have hidle : (SendWindow.fresh c 1).Idle := by
      refine ⟨hs, rfl, ?_⟩
      have hlen : (SendWindow.fresh c 1).slots.length = c.toNat := by simp [SendWindow.fresh]
      exact List.ne_nil_of_length_pos (hlen ▸ hc.pos)
    exact ⟨_, SendWindow.fresh_rep isRingSize_two (by decide) 1, Or.inr ⟨hidle, rfl, rfl⟩⟩

theorem RecvWindow.fresh_not_accepted (c s : UInt32) (p : ℕ) :
    ¬ (RecvWindow.fresh c s).Accepted 1 (p + 1) := by
  rintro (h | ⟨-, h⟩)
  · omega
  · rw [RecvWindow.cell_fresh] at h
    exact Bool.noConfusion h

theorem exists_recvAs {c : UInt32} (hc : IsRingSize c) :
    ∃ rv : RecvWindow, rv.Rep 1 ∧ (∀ p, ¬ rv.Accepted 1 (p + 1)) ∧
      RecvAs 1 (RecvWindow.fresh c 1) rv := by
  rcases hc.small_or_half with hs | hs
  · exact ⟨_, RecvWindow.fresh_rep hc hs 1, RecvWindow.fresh_not_accepted c 1, Or.inl rfl⟩
  · have hidle : (RecvWindow.fresh c 1).Idle := hs ▸ RecvWindow.fresh_idle 1
    have hnone := RecvWindow.fresh_not_accepted 2 1
    exact ⟨_, RecvWindow.fresh_rep isRingSize_two (by decide) 1, hnone,
      Or.inr ⟨hidle, rfl, rfl, hnone⟩⟩

section Fresh

variable {log : List Message} {sw : SendWindow} {rw : RecvWindow} {out : List RecvSlot} {h e : ℕ}

/-- A sender that has sent nothing may start over. -/
theorem Dir.restart_sender (hd : Dir log sw rw out h e) (hnil : log = []) {c : UInt32}
    (hc : IsRingSize c) : Dir [] (SendWindow.fresh c 1) rw out 1 e := by
  obtain ⟨sv, rv, hs, hh, -, hr⟩ := hd
  subst hnil
  obtain ⟨sv', hrep, has⟩ := exists_sendAs hc
  have hle := hs.le_next
  have hb := hs.base_le
  have hhe := hs.head_le
  refine ⟨sv', rv, ?_, hh, has, hr⟩
  exact
    { send := hrep
      recv := hs.recv
      base_le := le_rfl
      head_le := by omega
      le_next := hle
      reliable := hs.reliable
      content := fun p hp hp' => by rw [List.length_nil] at hp'; omega
      acked := fun p hp hp' => by rw [List.length_nil] at hp'; omega
      held := hs.held }

/-- A receiver that has accepted nothing may start over. -/
theorem Dir.restart_receiver (hd : Dir log sw rw out h e) (he : e = 1)
    (hnone : ∀ p, ¬ rw.Accepted 1 (p + 1)) {c : UInt32} (hc : IsRingSize c) :
    Dir log sw (RecvWindow.fresh c 1) [] h 1 := by
  obtain ⟨sv, rv, hs, -, hsend, hr⟩ := hd
  subst he
  obtain ⟨rv', hrep, hnone', has⟩ := exists_recvAs hc
  have hb := hs.base_le
  have hhe := hs.head_le
  have hrv : ∀ p, ¬ rv.Accepted 1 (p + 1) := by
    rcases hr with rfl | ⟨-, -, -, hrv⟩
    · exact hnone
    · exact hrv
  have hnot : ∀ p, 1 ≤ p → ¬ rv'.Accepted 1 p := fun p hp => by
    have := hnone' (p - 1)
    rwa [show p - 1 + 1 = p by omega] at this
  refine ⟨sv, rv', ?_, ?_, hsend, has⟩
  · exact
      { send := hs.send
        recv := hrep
        base_le := hb
        head_le := hhe
        le_next := hs.le_next
        reliable := hs.reliable
        content := hs.content
        acked := fun p hp hp' ha => by
          have := hs.acked p hp hp' ha
          rw [show p = p - 1 + 1 by omega] at this
          exact absurd this (hrv _)
        held := fun p hp hp' hr => absurd (Or.inr ⟨hp', hr⟩) (hnot p hp) }
  · intro k m hk hcase
    rcases hcase with hcase | ⟨hacc, -⟩
    · omega
    · exact absurd hacc (hnot _ (by omega))

theorem dir_fresh {c d : UInt32} (hc : IsRingSize c) (hd : IsRingSize d) :
    Dir [] (SendWindow.fresh c 1) (RecvWindow.fresh d 1) [] 1 1 := by
  obtain ⟨sv, hrep, has⟩ := exists_sendAs hc
  obtain ⟨rv, hrep', hnone, has'⟩ := exists_recvAs hd
  refine ⟨sv, rv, ?_, fun k m hk => by simp at hk, has, has'⟩
  exact
    { send := hrep
      recv := hrep'
      base_le := le_rfl
      head_le := le_rfl
      le_next := le_rfl
      reliable := fun m hm => absurd hm List.not_mem_nil
      content := fun p hp hp' => by rw [List.length_nil] at hp'; omega
      acked := fun p hp hp' => by rw [List.length_nil] at hp'; omega
      held := fun p hp hp' hr => by
        have := hnone (p - 1)
        rw [show p - 1 + 1 = p by omega] at this
        exact absurd (Or.inr ⟨hp', hr⟩) this }

end Fresh

/-! ### Both directions -/

/-- One end of a session: its windows, the reliable messages it has pushed, and the slots that it
has taken out of its receive window. -/
structure Party where
  send : SendWindow
  recv : RecvWindow
  sent : List Message
  got : List RecvSlot

/-- A party of fresh windows of `c` slots. -/
def Party.fresh (c : UInt32) : Party :=
  { send := SendWindow.fresh c 1, recv := RecvWindow.fresh c 1, sent := [], got := [] }

/-- What a packet of a party says is true: a reliable message is one it has pushed, and the
acknowledgement is one it can have sent when its receive window expects `e`. -/
structure Truthful (sent : List Message) (rw : RecvWindow) (e : ℕ) (pkt : Packet) : Prop where
  data : pkt.hdr.packetType = PktType.data.code → Reliable pkt.hdr.deliveryMode →
    FromLog 1 sent pkt
  ack : Honest 1 rw e (pkt.hdr.ackNum, pkt.hdr.sackMask)

/-- The link with its positions: the heads of the send windows and what the receive windows
expect. -/
structure LinkAt (A B : Party) (ab ba : List Packet) (hA eA hB eB : ℕ) : Prop where
  there : Dir A.sent A.send B.recv B.got hA eB
  back : Dir B.sent B.send A.recv A.got hB eA
  short : A.sent.length < 2 ^ 30
  short' : B.sent.length < 2 ^ 30
  fromA : ∀ pkt ∈ ab, Truthful A.sent A.recv eA pkt
  fromB : ∀ pkt ∈ ba, Truthful B.sent B.recv eB pkt

/-- **The two parties' windows agree**, and with them everything sent so far. -/
def Link (A B : Party) (ab ba : List Packet) : Prop := ∃ hA eA hB eB, LinkAt A B ab ba hA eA hB eB

/-- The packet carries the acknowledgement of the window, or none. -/
def AckOf (rw : RecvWindow) (pkt : Packet) : Prop :=
  (pkt.hdr.ackNum, pkt.hdr.sackMask) = rw.getAckInfo ∨ (pkt.hdr.ackNum, pkt.hdr.sackMask) = (0, 0)

/-- **All that a party does** under session id `id`, given the packets it can receive: the party
after it, and what it sends. -/
inductive Acts (id : UInt32) (inbox : List Packet) : Party → Party → List Packet → Prop
  | refl (A : Party) : Acts id inbox A A []
  | trans {A B C : Party} {out₁ out₂ : List Packet} (h₁ : Acts id inbox A B out₁)
      (h₂ : Acts id inbox B C out₂) : Acts id inbox A C (out₁ ++ out₂)
  | emit (A : Party) (pkt : Packet) (hid : pkt.hdr.sessionId = id)
      (htype : pkt.hdr.packetType ≠ PktType.data.code) (hack : AckOf A.recv pkt) :
      Acts id inbox A A [pkt]
  | push (A : Party) (mode : UInt8) (data : List UInt8) (len : ℕ) (nowNs : UInt64)
      (sendWin : SendWindow) (seq : UInt32) (hmode : Reliable mode)
      (hpush : A.send.push mode data len nowNs = .ok (sendWin, seq))
      (hshort : sendWin.nextSeq.toNat ≤ 2 ^ 30) :
      Acts id inbox A
        { A with send := sendWin, sent := A.sent ++ [Message.ofPush mode data len] }
        [mkPacket .data mode id seq A.recv.getAckInfo data len]
  | pushUnreliable (A : Party) (mode : UInt8) (data : List UInt8) (len : ℕ) (nowNs : UInt64)
      (sendWin : SendWindow) (seq : UInt32) (hmode : ¬ Reliable mode)
      (hpush : A.send.push mode data len nowNs = .ok (sendWin, seq)) :
      Acts id inbox A { A with send := sendWin }
        [mkPacket .data mode id seq A.recv.getAckInfo data len]
  | retransmit (A : Party) (rtt : Rtt) (nowNs : UInt64) :
      Acts id inbox A
        { A with send := (Rel4u.retransmit A.send rtt nowNs id A.recv.getAckInfo).1 }
        (Rel4u.retransmit A.send rtt nowNs id A.recv.getAckInfo).2.2
  | ack (A : Party) (pkt : Packet) (hmem : pkt ∈ inbox) (nowNs : UInt64) (rtt : Rtt) :
      Acts id inbox A
        { A with send := (A.send.onAck pkt.hdr.ackNum pkt.hdr.sackMask nowNs rtt).1 } []
  | data (A : Party) (pkt : Packet) (hmem : pkt ∈ inbox)
      (htype : pkt.hdr.packetType = PktType.data.code) :
      Acts id inbox A
        { A with
          recv := (A.recv.onData pkt.hdr pkt.payload readySlots).2.1
          got := A.got ++ (A.recv.onData pkt.hdr pkt.payload readySlots).2.2 } []

theorem retransmit_packet {w : SendWindow} {rtt : Rtt} {nowNs : UInt64} {id : UInt32}
    {ackInfo : UInt32 × UInt32} {pkt : Packet}
    (h : pkt ∈ (Rel4u.retransmit w rtt nowNs id ackInfo).2.2) :
    pkt.hdr.sessionId = id ∧ (pkt.hdr.ackNum, pkt.hdr.sackMask) = ackInfo := by
  unfold Rel4u.retransmit at h
  dsimp only at h
  split_ifs at h
  · obtain ⟨i, -, rfl⟩ := List.mem_map.1 h
    exact ⟨rfl, rfl⟩
  · exact absurd h List.not_mem_nil

section Link

variable {A B C : Party} {ab ba out : List Packet} {id : UInt32} {hA eA hB eB : ℕ}

/-- A party only sends under its session id. -/
theorem Acts.sessionId_eq (h : Acts id ba A C out) : ∀ pkt ∈ out, pkt.hdr.sessionId = id := by
  induction h with
  | refl | ack | data => exact fun pkt hpkt => absurd hpkt List.not_mem_nil
  | trans _ _ ih₁ ih₂ =>
    intro pkt hpkt
    rcases List.mem_append.1 hpkt with hpkt | hpkt
    · exact ih₁ pkt hpkt
    · exact ih₂ pkt hpkt
  | emit A pkt hid =>
    intro p hp
    rw [List.mem_singleton.1 hp]
    exact hid
  | push | pushUnreliable =>
    intro p hp
    rw [List.mem_singleton.1 hp]
    rfl
  | retransmit => exact fun pkt hpkt => (retransmit_packet hpkt).1

theorem LinkAt.symm (hl : LinkAt A B ab ba hA eA hB eB) : LinkAt B A ba ab hB eB hA eA :=
  ⟨hl.back, hl.there, hl.short', hl.short, hl.fromB, hl.fromA⟩

theorem Link.symm (hl : Link A B ab ba) : Link B A ba ab := by
  obtain ⟨hA, eA, hB, eB, hl⟩ := hl
  exact ⟨hB, eB, hA, eA, hl.symm⟩

theorem LinkAt.honest_of_ackOf (hl : LinkAt A B ab ba hA eA hB eB) {pkt : Packet}
    (hack : AckOf A.recv pkt) : Honest 1 A.recv eA (pkt.hdr.ackNum, pkt.hdr.sackMask) := by
  rcases hack with hack | hack <;> rw [hack]
  · exact hl.back.honest_getAckInfo
  · exact honest_zero hl.back.one_le

theorem truthful_append {sent : List Message} {rw : RecvWindow} {e : ℕ}
    (h : ∀ pkt ∈ ab, Truthful sent rw e pkt) (h' : ∀ pkt ∈ out, Truthful sent rw e pkt) :
    ∀ pkt ∈ ab ++ out, Truthful sent rw e pkt := by
  intro pkt hpkt
  rcases List.mem_append.1 hpkt with hpkt | hpkt
  · exact h pkt hpkt
  · exact h' pkt hpkt

/-- A reliable push. -/
theorem LinkAt.push (hl : LinkAt A B ab ba hA eA hB eB) {mode : UInt8} (hmode : Reliable mode)
    {data : List UInt8} {len : ℕ} {nowNs : UInt64} {sendWin : SendWindow} {seq : UInt32}
    (hpush : A.send.push mode data len nowNs = .ok (sendWin, seq))
    (hshort : sendWin.nextSeq.toNat ≤ 2 ^ 30) :
    LinkAt { A with send := sendWin, sent := A.sent ++ [Message.ofPush mode data len] } B
      (ab ++ [mkPacket .data mode id seq A.recv.getAckInfo data len]) ba hA eA hB eB := by
  obtain ⟨hdir, hlen, hseq⟩ := hl.there.push hmode hpush
  have hsmall := hl.short
  have hnext := hdir.nextSeq_eq
  have hlog : (A.sent ++ [Message.ofPush mode data len]).length = A.sent.length + 1 := by simp
  refine
    { there := hdir
      back := hl.back
      short := ?_
      short' := hl.short'
      fromA := truthful_append (fun pkt hpkt => ?_) fun pkt hpkt => ?_
      fromB := hl.fromB }
  · show (A.sent ++ [Message.ofPush mode data len]).length < 2 ^ 30
    rw [hnext, hlog, Serial.wrap_toNat, Nat.mod_eq_of_lt (by omega)] at hshort
    omega
  · obtain ⟨h1, h2⟩ := hl.fromA pkt hpkt
    exact ⟨fun htype hrel => (h1 htype hrel).append _, h2⟩
  · rw [List.mem_singleton.1 hpkt]
    refine ⟨fun _ _ => ⟨A.sent.length, ?_, hseq⟩, hl.back.honest_getAckInfo⟩
    rw [message_push _ _ _ _ _ _ hlen]
    simp

/-- **Whatever a party does keeps the link.** -/
theorem Link.acts (hl : Link A B ab ba) (h : Acts id ba A C out) : Link C B (ab ++ out) ba := by
  induction h generalizing ab with
  | refl => rwa [List.append_nil]
  | trans _ _ ih₁ ih₂ =>
    rw [← List.append_assoc]
    exact ih₂ (ih₁ hl)
  | emit A pkt hid htype hack =>
    obtain ⟨hA, eA, hB, eB, hl⟩ := hl
    refine ⟨hA, eA, hB, eB, { hl with fromA := truthful_append hl.fromA fun p hp => ?_ }⟩
    rw [List.mem_singleton.1 hp]
    exact ⟨fun hdata => absurd hdata htype, hl.honest_of_ackOf hack⟩
  | push A mode data len nowNs sendWin seq hmode hpush hshort =>
    obtain ⟨hA, eA, hB, eB, hl⟩ := hl
    exact ⟨hA, eA, hB, eB, hl.push hmode hpush hshort⟩
  | pushUnreliable A mode data len nowNs sendWin seq hmode hpush =>
    obtain ⟨hA, eA, hB, eB, hl⟩ := hl
    refine ⟨hA, eA, hB, eB,
      { hl with there := ?_, fromA := truthful_append hl.fromA fun p hp => ?_ }⟩
    · rw [SendWindow.push_unreliable hmode hpush]
      exact hl.there.push_unreliable _
    · rw [List.mem_singleton.1 hp]
      exact ⟨fun _ hrel => absurd hrel hmode, hl.back.honest_getAckInfo⟩
  | retransmit A rtt nowNs =>
    obtain ⟨hA, eA, hB, eB, hl⟩ := hl
    obtain ⟨hdir, hfrom⟩ := hl.there.retransmit rtt nowNs id A.recv.getAckInfo
    refine ⟨hA, eA, hB, eB,
      { hl with there := hdir, fromA := truthful_append hl.fromA fun p hp => ?_ }⟩
    refine ⟨fun _ _ => hfrom p hp, ?_⟩
    rw [(retransmit_packet hp).2]
    exact hl.back.honest_getAckInfo
  | ack A pkt hmem nowNs rtt =>
    obtain ⟨hA, eA, hB, eB, hl⟩ := hl
    obtain ⟨h', hdir⟩ := hl.there.onAck hl.short (hl.fromB pkt hmem).ack nowNs rtt
    rw [List.append_nil]
    exact ⟨h', eA, hB, eB, { hl with there := hdir }⟩
  | data A pkt hmem htype =>
    obtain ⟨hA, eA, hB, eB, hl⟩ := hl
    obtain ⟨e', hdir, hack⟩ := hl.back.onData hl.short' ((hl.fromB pkt hmem).data htype)
      (show 0 < readySlots by decide)
    rw [List.append_nil]
    refine ⟨hA, e', hB, eB, { hl with back := hdir, fromA := fun p hp => ?_ }⟩
    exact ⟨(hl.fromA p hp).data, hack _ (hl.fromA p hp).ack⟩

/-- **The counters of the two windows of either direction are in order.** -/
theorem Link.inOrder (hl : Link A B ab ba) :
    seqLte A.send.headSeq B.recv.expectedSeq = true ∧
      seqLte B.recv.expectedSeq A.send.nextSeq = true ∧
      seqLte B.send.headSeq A.recv.expectedSeq = true ∧
      seqLte A.recv.expectedSeq B.send.nextSeq = true := by
  obtain ⟨hA, eA, hB, eB, hl⟩ := hl
  obtain ⟨h1, h2⟩ := hl.there.inOrder hl.short
  obtain ⟨h3, h4⟩ := hl.back.inOrder hl.short'
  exact ⟨h1, h2, h3, h4⟩

/-- Two parties that have not met. -/
theorem link_fresh {c d : UInt32} (hc : IsRingSize c) (hd : IsRingSize d) :
    Link (Party.fresh c) (Party.fresh d) [] [] :=
  ⟨1, 1, 1, 1,
    { there := dir_fresh hc hd
      back := dir_fresh hd hc
      short := Nat.two_pow_pos 30
      short' := Nat.two_pow_pos 30
      fromA := fun _ hpkt => absurd hpkt List.not_mem_nil
      fromB := fun _ hpkt => absurd hpkt List.not_mem_nil }⟩

end Link

/-! ### Starting over -/

/-- The windows have neither sent nor accepted a reliable message. -/
def Untouched (sw : SendWindow) (rw : RecvWindow) : Prop :=
  sw.nextSeq = 1 ∧ rw.expectedSeq = 1 ∧ ∀ s ∈ rw.slots, s.received = false

instance (sw : SendWindow) (rw : RecvWindow) : Decidable (Untouched sw rw) :=
  inferInstanceAs (Decidable (_ ∧ _ ∧ _))

theorem RecvWindow.not_accepted_of_empty {rw : RecvWindow} (h : ∀ s ∈ rw.slots, s.received = false)
    (p : ℕ) : ¬ rw.Accepted 1 (p + 1) := by
  rintro (hp | ⟨-, hr⟩)
  · omega
  · have hslot : (rw.slot ((p + 1) % rw.slots.length)).received = false := by
      rw [RecvWindow.slot, List.getD_eq_getElem?_getD]
      cases hget : rw.slots[(p + 1) % rw.slots.length]? with
      | none => rfl
      | some s => exact h s (List.mem_of_getElem? hget)
    rw [RecvWindow.slot_mod] at hslot
    rw [hslot] at hr
    exact Bool.noConfusion hr

/-- **A party that has neither sent nor accepted anything may start over**: for its peer this is as
if it had not started. -/
theorem Link.rejoin {A B : Party} {ab ba : List Packet} (hl : Link A B ab ba)
    (hu : Untouched A.send A.recv) {c : UInt32} (hc : IsRingSize c) :
    Link (Party.fresh c) B ab ba := by
  obtain ⟨hA, eA, hB, eB, hl⟩ := hl
  obtain ⟨hnext, hexp, hempty⟩ := hu
  have hshort := hl.short
  have hshort' := hl.short'
  have hnone := RecvWindow.not_accepted_of_empty hempty
  -- the counters say that nothing was sent and nothing is before the expected number
  have hnil : A.sent = [] := by
    have h1 := hl.there.nextSeq_eq
    rw [hnext] at h1
    have h2 := Serial.wrap_inj (show wrap 1 = wrap (1 + A.sent.length) from h1) (by omega)
      (by omega)
    exact List.length_eq_zero_iff.1 (by omega)
  have he : eA = 1 := by
    obtain ⟨sv, rv, hs, -, -, rfl | ⟨-, -, h1, -⟩⟩ := hl.back
    · have h1 := hs.recv.expected
      have hle := hs.le_next
      rw [hexp] at h1
      exact (Serial.wrap_inj (show wrap 1 = wrap eA from h1) (by omega) (by omega)).symm
    · exact h1
  subst he
  refine ⟨1, 1, hB, eB,
    { there := hl.there.restart_sender hnil hc
      back := hl.back.restart_receiver rfl hnone hc
      short := Nat.two_pow_pos 30
      short' := hl.short'
      fromA := fun pkt hpkt => ?_
      fromB := hl.fromB }⟩
  obtain ⟨h1, h2⟩ := hl.fromA pkt hpkt
  rw [hnil] at h1
  exact ⟨h1, h2.of_none hnone⟩

end Rel4u
