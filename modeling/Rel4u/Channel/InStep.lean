import Rel4u.Worker.SharedInv

/-!
# Two windows in step

A send window and the receive window of its peer, both started at position `base`, and the log of
the messages pushed so far: message `k` of the log has position `base + k`. `InStep` relates the
three. Packets are related to the log alone: a DATA packet is `FromLog` if it carries the log's
message under its sequence number, an acknowledgement is `Honest` if some earlier state of the
receive window could have sent it. Both are kept by every later step, so nothing is assumed about
the order or the number of times packets arrive.

Each operation of either window has one lemma here that keeps `InStep`. Runs of two windows, and
of whole endpoints, use these lemmas and never look inside the windows.
-/

namespace Rel4u

open Serial (wrap)

/-- A DATA packet that carries a message of the log under that message's number. -/
def FromLog (base : ℕ) (log : List Message) (pkt : Packet) : Prop :=
  ∃ k, log[k]? = some pkt.message ∧ pkt.hdr.seqNum = wrap (base + k)

/-- An acknowledgement of positions that the receive window at `e` has accepted. -/
def Honest (base : ℕ) (rw : RecvWindow) (e : ℕ) (ack : UInt32 × UInt32) : Prop :=
  ∃ a, base ≤ a ∧ a ≤ e ∧ ack.1 = wrap a - 1 ∧
    ∀ i < 32, ack.2 &&& ((1 : UInt32) <<< UInt32.ofNat i) ≠ 0 → rw.Accepted e (a + i)

/-- **The send window at `h`, the receive window at `e` and the log agree.** -/
structure InStep (base : ℕ) (log : List Message) (sw : SendWindow) (rw : RecvWindow)
    (h e : ℕ) : Prop where
  send : sw.Rep h (base + log.length)
  recv : rw.Rep e
  base_le : base ≤ h
  head_le : h ≤ e
  le_next : e ≤ base + log.length
  reliable : ∀ m ∈ log, Reliable m.mode
  content : ∀ p, h ≤ p → p < base + log.length → log[p - base]? = some (sw.cell p).message
  acked : ∀ p, h ≤ p → p < base + log.length → (sw.cell p).acked = true → rw.Accepted e p
  held : ∀ p, e ≤ p → p < e + rw.capacity.toNat → (rw.cell p).received = true →
    ∃ m, log[p - base]? = some m ∧ m.mode = (rw.cell p).deliveryMode ∧
      (m.mode = DeliveryMode.reliableOrdered.code → m = (rw.cell p).message)

section Basics

variable {base : ℕ} {log : List Message} {sw : SendWindow} {rw : RecvWindow} {h e : ℕ}

theorem FromLog.append {pkt : Packet} (hp : FromLog base log pkt) (log' : List Message) :
    FromLog base (log ++ log') pkt := by
  obtain ⟨k, hk, hs⟩ := hp
  have hlt : k < log.length := (List.getElem?_eq_some_iff.1 hk).1
  exact ⟨k, by rw [List.getElem?_append_left hlt]; exact hk, hs⟩

theorem Honest.mono {rw' : RecvWindow} {e' : ℕ} {ack : UInt32 × UInt32}
    (ha : Honest base rw e ack) (hle : e ≤ e') (hacc : ∀ p, rw.Accepted e p → rw'.Accepted e' p) :
    Honest base rw' e' ack := by
  obtain ⟨a, h1, h2, h3, h4⟩ := ha
  exact ⟨a, h1, h2.trans hle, h3, fun i hi hb => hacc _ (h4 i hi hb)⟩

/-- An accepted position is the position of a message of the log. -/
theorem InStep.accepted_lt (hs : InStep base log sw rw h e) {p : ℕ} (ha : rw.Accepted e p) :
    p < base + log.length := by
  have hle := hs.le_next
  have hb := hs.base_le
  have hh := hs.head_le
  by_cases hp : p < e
  · omega
  · rcases ha with ha | ⟨h1, h2⟩
    · omega
    · obtain ⟨m, hm, -⟩ := hs.held p (by omega) h1 h2
      have := (List.getElem?_eq_some_iff.1 hm).1
      omega

/-- The acknowledgement info of the receive window is honest. -/
theorem InStep.honest_getAckInfo (hs : InStep base log sw rw h e) :
    Honest base rw e rw.getAckInfo := by
  have hb := hs.base_le
  have hh := hs.head_le
  refine ⟨e, by omega, le_rfl, by rw [RecvWindow.getAckInfo, hs.recv.expected], ?_⟩
  intro i hi hbit
  obtain ⟨h1, h2⟩ := (hs.recv.sackMask_bit hi).1 hbit
  exact Or.inr ⟨by omega, h2⟩

theorem message_slotPacket (sessionId : UInt32) (ackInfo : UInt32 × UInt32) (s : SendSlot) :
    (slotPacket sessionId ackInfo s).message = s.message := by
  simp [slotPacket, mkPacket, Packet.message, SendSlot.message]

/-- The packet of a position of the send window carries its message. -/
theorem InStep.fromLog_slotPacket (hs : InStep base log sw rw h e) {p : ℕ} (hp : h ≤ p)
    (hp' : p < base + log.length) (sessionId : UInt32) (ackInfo : UInt32 × UInt32) :
    FromLog base log (slotPacket sessionId ackInfo (sw.cell p)) := by
  have hb := hs.base_le
  refine ⟨p - base, ?_, ?_⟩
  · rw [message_slotPacket]
    exact hs.content p hp hp'
  · show (sw.cell p).seqNum = _
    rw [hs.send.seqNum p hp hp']
    congr 1
    omega

end Basics

/-! ### The sender's operations -/

section Sender

variable {base : ℕ} {log : List Message} {sw : SendWindow} {rw : RecvWindow} {h e : ℕ}

/-- **A push appends its message to the log.** -/
theorem InStep.push (hs : InStep base log sw rw h e) {mode : UInt8} (hmode : Reliable mode)
    (data : List UInt8) {len : ℕ} (hlen : len ≤ maxPayloadSize) (nowNs : UInt64)
    (hc : sw.canSend = true) :
    InStep base (log ++ [Message.ofPush mode data len]) (sw.pushed mode data len nowNs) rw h e := by
  have hn := hs.send.canSend_iff.1 hc
  have hle := hs.le_next
  have hb := hs.base_le
  have hh := hs.head_le
  have hcell := fun p hp hp' => hs.send.cell_pushed mode data len nowNs (p := p) hp hp' hn
  have hlog : (log ++ [Message.ofPush mode data len]).length = log.length + 1 := by simp
  -- an old entry keeps its index
  have hold : ∀ p m, log[p - base]? = some m →
      (log ++ [Message.ofPush mode data len])[p - base]? = some m := by
    intro p m hm
    rw [List.getElem?_append_left (List.getElem?_eq_some_iff.1 hm).1]
    exact hm
  refine
    { send := by rw [hlog]; exact hs.send.push_rep hmode data hlen nowNs hc
      recv := hs.recv
      base_le := hb
      head_le := hh
      le_next := by rw [hlog]; omega
      reliable := ?_
      content := ?_
      acked := ?_
      held := ?_ }
  · intro m hm
    rcases List.mem_append.1 hm with hm | hm
    · exact hs.reliable m hm
    · rw [List.mem_singleton.1 hm]; exact hmode
  · intro p hp hp'
    rw [hlog] at hp'
    rw [hcell p hp (by omega)]
    split_ifs with hpn
    · rw [message_pushedSlot _ _ _ hlen, List.getElem?_append_right (by omega)]
      simp [hpn]
    · exact hold p _ (hs.content p hp (by omega))
  · intro p hp hp' ha
    rw [hlog] at hp'
    rw [hcell p hp (by omega)] at ha
    split_ifs at ha with hpn
    · exact Bool.noConfusion ha
    · exact hs.acked p hp (by omega) ha
  · intro p hp hp' hr
    obtain ⟨m, hm, hm'⟩ := hs.held p hp hp' hr
    exact ⟨m, hold p m hm, hm'⟩

/-- The cumulative loop stops at the acknowledged position, or does not move. -/
theorem cumTo_honest {h n a : ℕ} (hlo : a ≤ h + 2 ^ 31) (hhi : h + 1 < a + 2 ^ 31) :
    SendWindow.cumTo (wrap a - 1) h n ≤ max h a := by
  have hd : seqDiff (wrap h) (wrap a - 1) = (h : ℤ) + 1 - a := Serial.diff_wrap_pred hlo hhi
  unfold SendWindow.cumTo
  rw [hd]
  split_ifs <;> omega

/-- **An honest acknowledgement keeps the windows in step.** -/
theorem InStep.onAck (hs : InStep base log sw rw h e) (hsmall : log.length < 2 ^ 30)
    {ack : UInt32 × UInt32} (ha : Honest base rw e ack) (nowNs : UInt64) (rtt : Rtt) :
    InStep base log (sw.onAck ack.1 ack.2 nowNs rtt).1 rw
      (SendWindow.cumTo ack.1 h (base + log.length)) e := by
  obtain ⟨a, ha1, ha2, ha3, ha4⟩ := ha
  obtain ⟨hrep, -, hcell⟩ := hs.send.onAck_rep ack.1 ack.2 nowNs rtt
  have hle := hs.le_next
  have hb := hs.base_le
  have hh := hs.head_le
  have hbd := hs.send.bound
  have hge := SendWindow.cumTo_ge ack.1 hs.send.le
  have hto : SendWindow.cumTo ack.1 h (base + log.length) ≤ e := by
    have := cumTo_honest (n := base + log.length) (show a ≤ h + 2 ^ 31 by omega)
      (by omega)
    rw [← ha3] at this
    omega
  -- past the new head, an acknowledgement changes only the flag of the selected positions
  have hcell' : ∀ p, SendWindow.cumTo ack.1 h (base + log.length) ≤ p → p < base + log.length →
      (sw.onAck ack.1 ack.2 nowNs rtt).1.cell p =
        if SendWindow.Sacks ack.1 ack.2 p then (sw.cell p).ack else sw.cell p := by
    intro p hp hp'
    rw [hcell p (by omega) (by omega), if_neg (by omega)]
    simp [hp']
  refine
    { send := hrep
      recv := hs.recv
      base_le := by omega
      head_le := hto
      le_next := hle
      reliable := hs.reliable
      content := ?_
      acked := ?_
      held := hs.held }
  · intro p hp hp'
    rw [hs.content p (by omega) hp', hcell' p hp hp']
    split_ifs <;> rfl
  · intro p hp hp' hacked
    rw [hcell' p hp hp'] at hacked
    split_ifs at hacked with hsel
    · obtain ⟨i, hi, hbit, hnum⟩ := hsel
      have hpos : wrap (a + i) = wrap p := by
        rw [← hnum, ha3, UInt32.sub_add_cancel, Serial.wrap_add]; rfl
      have hpa : a + i = p := Serial.wrap_inj hpos (by omega) (by omega)
      rw [← hpa]
      exact ha4 i hi hbit
    · exact hs.acked p (by omega) hp' hacked

/-- Changing times and counts of slots keeps the windows in step. -/
theorem InStep.congr_send (hs : InStep base log sw rw h e) {sw' : SendWindow}
    (hrep : sw'.Rep h (base + log.length))
    (hfield : ∀ {β : Type} (f : SendSlot → β),
      (∀ (s : SendSlot) (t : UInt64), f (s.resent t) = f s) → ∀ p, f (sw'.cell p) = f (sw.cell p)) :
    InStep base log sw' rw h e where
  send := hrep
  recv := hs.recv
  base_le := hs.base_le
  head_le := hs.head_le
  le_next := hs.le_next
  reliable := hs.reliable
  content := fun p hp hp' => by
    rw [hfield SendSlot.message (fun _ _ => rfl)]; exact hs.content p hp hp'
  acked := fun p hp hp' ha => by
    rw [hfield (·.acked) (fun _ _ => rfl)] at ha; exact hs.acked p hp hp' ha
  held := hs.held

end Sender

/-! ### The receiver's operations -/

section Receiver

variable {base : ℕ} {log : List Message} {sw : SendWindow} {rw rw' : RecvWindow} {h e e' : ℕ}
  {out : List RecvSlot}

/-- **Draining keeps the windows in step.** -/
theorem InStep.drained (hs : InStep base log sw rw h e)
    (hd : RecvWindow.Drained rw e rw' e' out) : InStep base log sw rw' h e' := by
  have hle := hd.le
  have hh := hs.head_le
  refine
    { send := hs.send
      recv := hd.rep
      base_le := hs.base_le
      head_le := by omega
      le_next := ?_
      reliable := hs.reliable
      content := hs.content
      acked := fun p hp hp' ha => (hd.accepted_iff p).2 (hs.acked p hp hp' ha)
      held := ?_ }
  · rcases Nat.eq_or_lt_of_le hle with heq | hlt
    · rw [← heq]; exact hs.le_next
    · have := hs.accepted_lt (Or.inr (hd.received (e' - 1) (by omega) (by omega)))
      omega
  · intro p hp hp' hr
    rw [hd.cap] at hp'
    have hin : p < e + rw.capacity.toNat := by
      by_contra hge
      rw [hd.cleared p (by omega) hp'] at hr
      exact Bool.noConfusion hr
    rw [hd.kept p hp hin] at hr ⊢
    exact hs.held p (by omega) hin hr

/-- A packet of the log that falls into the window sits at its own position. -/
theorem FromLog.position (hs : InStep base log sw rw h e) (hsmall : log.length < 2 ^ 30)
    {pkt : Packet} (hpkt : FromLog base log pkt) {p : ℕ} (hp : e ≤ p)
    (hp' : p < e + rw.capacity.toNat) (hseq : pkt.hdr.seqNum = wrap p) :
    base ≤ p ∧ log[p - base]? = some pkt.message := by
  obtain ⟨k, hk, hseq'⟩ := hpkt
  have hlt : k < log.length := (List.getElem?_eq_some_iff.1 hk).1
  have hb := hs.base_le
  have hh := hs.head_le
  have hle := hs.le_next
  have hsm := hs.recv.small
  have hpk : p = base + k := Serial.wrap_inj (hseq.symm.trans hseq') (by omega) (by omega)
  refine ⟨by omega, ?_⟩
  rw [show p - base = k by omega]
  exact hk

theorem message_arrivedSlot {pkt : Packet}
    (hmode : pkt.hdr.deliveryMode = DeliveryMode.reliableOrdered.code) (old : RecvSlot) :
    (RecvWindow.arrivedSlot pkt.hdr pkt.payload old).message = pkt.message := by
  simp only [RecvWindow.arrivedSlot, RecvSlot.message, Packet.message, hmode, true_and]
  split_ifs with hpos
  · simp
  · have h0 : pkt.hdr.payloadLen.toNat = 0 := by
      rw [gt_iff_lt, UInt16.lt_iff_toNat_lt] at hpos
      exact Nat.eq_zero_of_not_pos hpos
    simp [h0]

/-- **Storing a packet of the log keeps the windows in step.** -/
theorem InStep.arrive (hs : InStep base log sw rw h e) (hsmall : log.length < 2 ^ 30)
    {pkt : Packet} (hpkt : FromLog base log pkt) {p : ℕ} (hp : e ≤ p)
    (hp' : p < e + rw.capacity.toNat) (hseq : pkt.hdr.seqNum = wrap p) :
    InStep base log sw (rw.arrive p pkt.hdr pkt.payload) h e := by
  obtain ⟨hbp, hlog⟩ := hpkt.position hs hsmall hp hp' hseq
  have hrel : Reliable pkt.hdr.deliveryMode := hs.reliable _ (List.mem_of_getElem? hlog)
  refine
    { send := hs.send
      recv := hs.recv.arrive_rep hp hp' hseq hrel pkt.payload
      base_le := hs.base_le
      head_le := hs.head_le
      le_next := hs.le_next
      reliable := hs.reliable
      content := hs.content
      acked := fun q hq hq' ha =>
        (hs.recv.accepted_arrive_iff hp hp' _ _ q).2 (Or.inr (hs.acked q hq hq' ha))
      held := ?_ }
  intro q hq hq' hr
  have hq'' : q < e + rw.capacity.toNat := hq'
  rw [hs.recv.cell_arrive hp hp' hq hq''] at hr ⊢
  split_ifs at hr ⊢ with hqp
  · rw [hqp]
    exact ⟨pkt.message, hlog, rfl, fun hmode => (message_arrivedSlot hmode _).symm⟩
  · exact hs.held q hq hq'' hr

end Receiver

end Rel4u
