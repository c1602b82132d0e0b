import Rel4u.Channel.Delivery

/-!
# One direction of a session over a faulty network

A send window and a receive window exchange DATA packets and acknowledgements over a network that
drops, duplicates and reorders. The network keeps everything ever sent; a delivery picks any
packet of it, any number of times, or never.

* `Channel.Step` is the step relation, `Channel.Reachable` its runs from two created windows;
* `Channel.Inv` is kept by every step (`Inv.step`), hence by every run (`Inv.of_reachable`);
* `Channel.delivery_exact`: exactly-once and in-order delivery;
* `Channel.acked_sound`: the sender forgets only what the receiver has accepted.

Both results are stated in the sequence numbers of the source.
-/

namespace Rel4u

open Serial (wrap IsRingSize)

/-- The two windows, everything sent so far, and two histories: the messages pushed, each with the
sequence number `push` assigned to it, and the slots handed to the receiving worker. -/
structure Channel where
  sender : SendWindow
  rtt : Rtt
  receiver : RecvWindow
  data : List Packet
  acks : List (UInt32 × UInt32)
  pushed : List (UInt32 × Message)
  delivered : List RecvSlot

namespace Channel

/-- Two windows created at `initialSeq`. -/
def start (sendCapacity recvCapacity initialSeq : UInt32) : Channel :=
  { sender := ((default : SendWindow).init sendCapacity initialSeq true).2
    rtt := Rtt.default
    receiver := ((default : RecvWindow).init recvCapacity initialSeq true).2
    data := []
    acks := []
    pushed := []
    delivered := [] }

/-- The slot of a sequence number in the send window. -/
def sendSlot (s : Channel) (seq : UInt32) : SendSlot := s.sender.slot (s.sender.slotIdx seq)

/-- The slot of a sequence number in the receive window. -/
def recvSlot (s : Channel) (seq : UInt32) : RecvSlot := s.receiver.slot (s.receiver.slotIdx seq)

/-- The sequence number is in the sender's retransmission set: the test of the expiry scan, apart
from its clock. -/
def Outstanding (s : Channel) (seq : UInt32) : Prop :=
  seqGte seq s.sender.headSeq = true ∧ seqLt seq s.sender.nextSeq = true ∧
    (s.sendSlot seq).inUse = true ∧ (s.sendSlot seq).seqNum = seq ∧ (s.sendSlot seq).acked = false

instance (s : Channel) (seq : UInt32) : Decidable (s.Outstanding seq) :=
  inferInstanceAs (Decidable (_ ∧ _))

/-- One step of either endpoint or of the network. -/
inductive Step : Channel → Channel → Prop
  | push (s : Channel) (mode : UInt8) (data : List UInt8) (len : ℕ) (nowNs : UInt64)
      (win : SendWindow) (seq : UInt32) (hmode : Reliable mode)
      (hpush : s.sender.push mode data len nowNs = .ok (win, seq)) :
      Step s { s with
        sender := win
        pushed := s.pushed ++ [(seq, Message.ofPush mode data len)] }
  | transmit (s : Channel) (seq sessionId : UInt32) (ackInfo : UInt32 × UInt32)
      (hout : s.Outstanding seq) :
      Step s { s with data := slotPacket sessionId ackInfo (s.sendSlot seq) :: s.data }
  | retransmit (s : Channel) (seq sessionId : UInt32) (ackInfo : UInt32 × UInt32) (nowNs : UInt64)
      (hout : s.Outstanding seq) :
      Step s { s with
        sender := s.sender.resend nowNs (s.sender.slotIdx seq)
        data := slotPacket sessionId ackInfo (s.sendSlot seq) :: s.data }
  | receive (s : Channel) (pkt : Packet) (hpkt : pkt ∈ s.data) :
      Step s { s with
        receiver := (s.receiver.onData pkt.hdr pkt.payload readySlots).2.1
        delivered := s.delivered ++ (s.receiver.onData pkt.hdr pkt.payload readySlots).2.2 }
  | sendAck (s : Channel) : Step s { s with acks := s.receiver.getAckInfo :: s.acks }
  | onAck (s : Channel) (ack : UInt32 × UInt32) (nowNs : UInt64) (hack : ack ∈ s.acks) :
      Step s { s with
        sender := (s.sender.onAck ack.1 ack.2 nowNs s.rtt).1
        rtt := (s.sender.onAck ack.1 ack.2 nowNs s.rtt).2 }

/-- The states of the runs that start from two windows of the given capacities. -/
def Reachable (sendCapacity recvCapacity initialSeq : UInt32) (s : Channel) : Prop :=
  Relation.ReflTransGen Step (start sendCapacity recvCapacity initialSeq) s

/-- The messages pushed, without their numbers. -/
def log (s : Channel) : List Message := s.pushed.map Prod.snd

/-- **The invariant of a run**, with the positions of the two windows. -/
structure Inv (base : ℕ) (s : Channel) (h e : ℕ) : Prop where
  inStep : InStep base s.log s.sender s.receiver h e
  delivered : Delivered base s.log s.receiver e s.delivered
  fromLog : ∀ pkt ∈ s.data, FromLog base s.log pkt
  honest : ∀ ack ∈ s.acks, Honest base s.receiver e ack
  numbers : s.pushed.map Prod.fst = (List.range s.pushed.length).map fun k => wrap (base + k)

theorem log_length (s : Channel) : s.log.length = s.pushed.length := by simp [log]

/-- A push that succeeds had room and wrote the next slot. -/
theorem push_ok {w w' : SendWindow} {mode : UInt8} {data : List UInt8} {len : ℕ} {nowNs : UInt64}
    {seq : UInt32} (hmode : Reliable mode) (hpush : w.push mode data len nowNs = .ok (w', seq)) :
    len ≤ maxPayloadSize ∧ w.canSend = true ∧ w' = w.pushed mode data len nowNs ∧
      seq = w.nextSeq := by
  have hlen : len ≤ maxPayloadSize := by
    by_contra hlt
    simp [SendWindow.push, if_pos (not_le.1 hlt)] at hpush
  have hc : w.canSend = true := by
    by_contra hno
    have hf : w.isFull = true := by
      rw [SendWindow.isFull_eq_not_canSend, Bool.not_eq_true] at *
      rw [hno]; rfl
    simp [SendWindow.push, if_neg (not_lt.2 hlen), if_pos hmode, hf] at hpush
  rw [SendWindow.push_eq_pushed hlen hmode hc] at hpush
  simp only [Except.ok.injEq, Prod.mk.injEq] at hpush
  exact ⟨hlen, hc, hpush.1.symm, hpush.2.symm⟩

theorem Outstanding.position {base : ℕ} {s : Channel} {h e : ℕ} {seq : UInt32}
    (hi : Inv base s h e) (hout : s.Outstanding seq) :
    ∃ p, h ≤ p ∧ p < base + s.log.length ∧ s.sendSlot seq = s.sender.cell p := by
  obtain ⟨hge, hlt, -⟩ := hout
  obtain ⟨p, hp, hp', rfl⟩ := (hi.inStep.send.inRange_iff seq).1 (by rw [hge, hlt]; rfl)
  exact ⟨p, hp, hp', by rw [sendSlot, hi.inStep.send.slotIdx, SendWindow.slot_mod]⟩

/-- **Every step keeps the invariant.** -/
theorem Inv.step {base : ℕ} {s s' : Channel} {h e : ℕ} (hi : Inv base s h e) (hst : Step s s')
    (hlt : s.pushed.length < 2 ^ 30) : ∃ h' e', Inv base s' h' e' := by
  have hsmall : s.log.length < 2 ^ 30 := by rw [log_length]; exact hlt
  cases hst with
  | push mode data len nowNs win seq hmode hpush =>
    obtain ⟨hlen, hc, rfl, rfl⟩ := push_ok hmode hpush
    have hlog : (s.pushed ++ [(s.sender.nextSeq, Message.ofPush mode data len)]).map Prod.snd =
        s.log ++ [Message.ofPush mode data len] := by simp [log]
    refine ⟨h, e, ?_⟩
    refine
      { inStep := by simpa [log, hlog] using hi.inStep.push hmode data hlen nowNs hc
        delivered := by simpa [log] using hi.delivered.push hi.inStep (Message.ofPush mode data len)
        fromLog := fun pkt hpkt => by simpa [log] using (hi.fromLog pkt hpkt).append _
        honest := hi.honest
        numbers := ?_ }
    have hn := hi.inStep.send.next
    simp [hi.numbers, List.range_succ, hn, log_length]
  | transmit seq sessionId ackInfo hout =>
    obtain ⟨p, hp, hp', hslot⟩ := hout.position hi
    refine ⟨h, e, hi.inStep, hi.delivered, ?_, hi.honest, hi.numbers⟩
    intro pkt hpkt
    rcases List.mem_cons.1 hpkt with rfl | hpkt
    · rw [hslot]; exact hi.inStep.fromLog_slotPacket hp hp' _ _
    · exact hi.fromLog pkt hpkt
  | retransmit seq sessionId ackInfo nowNs hout =>
    obtain ⟨p, hp, hp', hslot⟩ := hout.position hi
    refine ⟨h, e, ?_, hi.delivered, ?_, hi.honest, hi.numbers⟩
    · exact hi.inStep.congr_send (hi.inStep.send.resend_rep nowNs _)
        fun f hf p => SendWindow.cell_resend_field f hf _ _ _ p
    · intro pkt hpkt
      rcases List.mem_cons.1 hpkt with rfl | hpkt
      · rw [hslot]; exact hi.inStep.fromLog_slotPacket hp hp' _ _
      · exact hi.fromLog pkt hpkt
  | receive pkt hpkt =>
    obtain ⟨e', hle, hs', hd', -, hacc⟩ :=
      hi.inStep.onData hi.delivered hsmall (hi.fromLog pkt hpkt) (show 0 < readySlots by decide)
    exact ⟨h, e', hs', hd', hi.fromLog, fun ack hack => (hi.honest ack hack).mono hle hacc,
      hi.numbers⟩
  | sendAck =>
    refine ⟨h, e, hi.inStep, hi.delivered, hi.fromLog, ?_, hi.numbers⟩
    intro ack hack
    rcases List.mem_cons.1 hack with rfl | hack
    · exact hi.inStep.honest_getAckInfo
    · exact hi.honest ack hack
  | onAck ack nowNs hack =>
    exact ⟨_, e, hi.inStep.onAck hsmall (hi.honest ack hack) nowNs s.rtt, hi.delivered, hi.fromLog,
      hi.honest, hi.numbers⟩

theorem Step.pushed_length_le {s s' : Channel} (hst : Step s s') :
    s.pushed.length ≤ s'.pushed.length := by
  cases hst <;> simp

section Created

variable {sendCapacity recvCapacity initialSeq : UInt32}

theorem inv_start (hs : IsRingSize sendCapacity) (hs' : sendCapacity.toNat ≤ 2 ^ 30)
    (hr : IsRingSize recvCapacity) (hr' : recvCapacity.toNat ≤ 2 ^ 30) :
    Inv initialSeq.toNat (start sendCapacity recvCapacity initialSeq) initialSeq.toNat
      initialSeq.toNat := by
  have hsend := SendWindow.fresh_rep hs hs' initialSeq
  have hrecv := RecvWindow.fresh_rep hr hr' initialSeq
  have e1 : (start sendCapacity recvCapacity initialSeq).sender =
      SendWindow.fresh sendCapacity initialSeq := by
    rw [start, SendWindow.init_eq_fresh hs]
  have e2 : (start sendCapacity recvCapacity initialSeq).receiver =
      RecvWindow.fresh recvCapacity initialSeq := by
    rw [start, RecvWindow.init_eq_fresh hr]
  refine
    { inStep :=
        { send := by rw [e1]; exact hsend
          recv := by rw [e2]; exact hrecv
          base_le := le_rfl
          head_le := le_rfl
          le_next := by simp [start, log]
          reliable := by simp [start, log]
          content := by intro p h1 h2; simp [start, log] at h2; omega
          acked := by intro p h1 h2; simp [start, log] at h2; omega
          held := ?_ }
      delivered := ⟨by simp [start, log], by simp [start, log, unorderedAccepted]⟩
      fromLog := by simp [start]
      honest := by simp [start]
      numbers := by simp [start] }
  intro p _ _ hrc
  rw [e2, RecvWindow.cell_fresh] at hrc
  exact Bool.noConfusion hrc

/-- **The invariant holds along every run with fewer than `2 ^ 30` pushes.** -/
theorem Inv.of_reachable (hs : IsRingSize sendCapacity) (hs' : sendCapacity.toNat ≤ 2 ^ 30)
    (hr : IsRingSize recvCapacity) (hr' : recvCapacity.toNat ≤ 2 ^ 30) {s : Channel}
    (hrun : Reachable sendCapacity recvCapacity initialSeq s) (hlt : s.pushed.length < 2 ^ 30) :
    ∃ h e, Inv initialSeq.toNat s h e := by
  induction hrun with
  | refl => exact ⟨_, _, inv_start hs hs' hr hr'⟩
  | tail _ hst ih =>
    have hle := hst.pushed_length_le
    obtain ⟨h, e, hi⟩ := ih (by omega)
    exact hi.step hst (by omega)

end Created

/-! ### The results, in sequence numbers -/

/-- The receiver has accepted the packet: its number is before `expectedSeq` or its slot holds
it. -/
def Accepted (s : Channel) (seq : UInt32) : Bool :=
  seqLt seq s.receiver.expectedSeq ||
    ((s.recvSlot seq).received && decide ((s.recvSlot seq).seqNum = seq))

/-- The numbered unordered messages delivered so far. -/
def deliveredUnordered (s : Channel) : List (UInt32 × Message) :=
  (s.delivered.filter fun x => isUnordered x.deliveryMode).map fun x => (x.seqNum, x.message)

/-- The ordered messages delivered so far. -/
def deliveredOrdered (s : Channel) : List Message :=
  (s.delivered.filter fun x => isOrdered x.deliveryMode).map RecvSlot.message

section Numbers

variable {base : ℕ} {s : Channel} {h e : ℕ}

theorem Inv.seqLt_expected (hi : Inv base s h e) (hlt : s.pushed.length < 2 ^ 30) {k : ℕ}
    (hk : k < s.pushed.length) :
    seqLt (wrap (base + k)) s.receiver.expectedSeq = decide (base + k < e) := by
  have hle := hi.inStep.le_next
  have hb := hi.inStep.base_le
  have hh := hi.inStep.head_le
  rw [log_length] at hle
  rw [seqLt, seqDiff, hi.inStep.recv.expected, Serial.diff_wrap (by omega) (by omega)]
  exact decide_eq_decide.2 (by omega)

theorem Inv.accepted_iff (hi : Inv base s h e) (hlt : s.pushed.length < 2 ^ 30) {k : ℕ}
    (hk : k < s.pushed.length) :
    s.Accepted (wrap (base + k)) = true ↔ s.receiver.Accepted e (base + k) := by
  have hle := hi.inStep.le_next
  have hb := hi.inStep.base_le
  have hh := hi.inStep.head_le
  rw [log_length] at hle
  have hslot : s.recvSlot (wrap (base + k)) = s.receiver.cell (base + k) := by
    rw [recvSlot, hi.inStep.recv.slotIdx, RecvWindow.slot_mod]
  rw [Accepted, hi.seqLt_expected hlt hk, hslot, Bool.or_eq_true, decide_eq_true_eq]
  by_cases hp : base + k < e
  · exact ⟨fun _ => Or.inl hp, fun _ => Or.inl hp⟩
  · rw [hi.inStep.recv.marked_iff (by omega) (by omega)]
    exact Iff.rfl

/-- Message `k` was pushed under the number of position `base + k`. -/
theorem Inv.number (hi : Inv base s h e) {k : ℕ} (hk : k < s.pushed.length) :
    s.pushed[k].1 = wrap (base + k) := by
  have hfst : (s.pushed.map Prod.fst)[k]? =
      ((List.range s.pushed.length).map fun k => wrap (base + k))[k]? := by rw [hi.numbers]
  simpa [hk] using hfst

theorem Inv.pushed_eq (hi : Inv base s h e) :
    s.pushed = (List.range s.pushed.length).map
      fun k => (wrap (base + k), s.log.getD k default) := by
  refine List.ext_getElem (by simp) fun k hk _ => ?_
  rw [List.getElem_map, List.getElem_range]
  exact Prod.ext (hi.number hk) (by simp [log, hk])

theorem Inv.exists_index (hi : Inv base s h e) {x : UInt32 × Message} (hx : x ∈ s.pushed) :
    ∃ k < s.pushed.length, x.1 = wrap (base + k) ∧ s.log[k]? = some x.2 := by
  obtain ⟨k, hk, rfl⟩ := List.mem_iff_getElem.1 hx
  exact ⟨k, hk, hi.number hk, by simp [log, hk]⟩

theorem Inv.nodup_numbers (hi : Inv base s h e) (hlt : s.pushed.length < 2 ^ 30) :
    (s.pushed.map Prod.fst).Nodup := by
  rw [hi.numbers]
  refine List.Nodup.map_on (fun a ha b hb hab => ?_) List.nodup_range
  rw [List.mem_range] at ha hb
  have := Serial.wrap_inj hab (by omega) (by omega)
  omega

theorem Inv.deliveredOrdered_eq (hi : Inv base s h e) (hlt : s.pushed.length < 2 ^ 30) :
    s.deliveredOrdered = (s.pushed.filter fun x =>
      seqLt x.1 s.receiver.expectedSeq && isOrdered x.2.mode).map Prod.snd := by
  have hb := hi.inStep.base_le
  have hh := hi.inStep.head_le
  -- the filter keeps nothing beyond the expected position, and there it only reads the mode
  have hlow : ∀ x ∈ s.pushed.take (e - base), seqLt x.1 s.receiver.expectedSeq = true := by
    intro x hx
    obtain ⟨k, hk, rfl⟩ := List.mem_iff_getElem.1 hx
    rw [List.length_take] at hk
    rw [List.getElem_take, hi.number (by omega), hi.seqLt_expected hlt (by omega)]
    exact decide_eq_true (by omega)
  have hhigh : ∀ x ∈ s.pushed.drop (e - base), seqLt x.1 s.receiver.expectedSeq = false := by
    intro x hx
    obtain ⟨k, hk, rfl⟩ := List.mem_iff_getElem.1 hx
    rw [List.length_drop] at hk
    rw [List.getElem_drop, hi.number (by omega), hi.seqLt_expected hlt (by omega)]
    exact decide_eq_false (by omega)
  rw [deliveredOrdered, hi.delivered.ordered, log, ← List.map_take]
  nth_rewrite 2 [← List.take_append_drop (e - base) s.pushed]
  rw [List.filter_append, List.filter_map]
  have h1 : ((s.pushed.drop (e - base)).filter fun x =>
      seqLt x.1 s.receiver.expectedSeq && isOrdered x.2.mode) = [] := by
    rw [List.filter_eq_nil_iff]
    intro x hx
    simp [hhigh x hx]
  rw [h1, List.append_nil]
  congr 1
  refine List.filter_congr fun x hx => ?_
  simp [hlow x hx]

theorem Inv.deliveredUnordered_perm (hi : Inv base s h e) (hlt : s.pushed.length < 2 ^ 30) :
    s.deliveredUnordered.Perm
      (s.pushed.filter fun x => s.Accepted x.1 && isUnordered x.2.mode) := by
  have heq : (s.pushed.filter fun x => s.Accepted x.1 && isUnordered x.2.mode) =
      unorderedAccepted base s.log s.receiver e := by
    rw [hi.pushed_eq, List.filter_map, unorderedAccepted, log_length]
    congr 1
    refine List.filter_congr fun k hk => ?_
    have hk' := List.mem_range.1 hk
    simp only [Function.comp_apply, unorderedAt]
    congr 1
    rw [Bool.eq_iff_iff, decide_eq_true_eq]
    exact hi.accepted_iff hlt hk'
  rw [heq]
  exact hi.delivered.unordered

/-- With nothing left to acknowledge, everything pushed is before the expected number. -/
theorem Inv.all_before_expected (hi : Inv base s h e) (hlt : s.pushed.length < 2 ^ 30)
    (heq : s.sender.headSeq = s.sender.nextSeq) {x : UInt32 × Message} (hx : x ∈ s.pushed) :
    seqLt x.1 s.receiver.expectedSeq = true := by
  obtain ⟨k, hk, hnum, -⟩ := hi.exists_index hx
  have hh := hi.inStep.head_le
  have hb := hi.inStep.send.bound
  have hsm := hi.inStep.send.small
  have hle := hi.inStep.send.le
  rw [hi.inStep.send.head, hi.inStep.send.next] at heq
  have hhn := Serial.wrap_inj heq (by omega) (by omega)
  rw [log_length] at hhn
  rw [hnum, hi.seqLt_expected hlt hk]
  exact decide_eq_true (by omega)

end Numbers

/-- **Exactly-once, in-order delivery.** In every state that a session can reach with fewer than
`2 ^ 30` pushes, whatever the network drops, repeats or reorders: the ordered messages delivered
are those pushed before `expectedSeq`, in push order; the unordered messages delivered are those
accepted, each once under its own number; and when the sender has nothing left to be acknowledged
everything has been delivered. -/
theorem delivery_exact {sendCapacity recvCapacity initialSeq : UInt32}
    (hs : IsRingSize sendCapacity) (hs' : sendCapacity.toNat ≤ 2 ^ 30)
    (hr : IsRingSize recvCapacity) (hr' : recvCapacity.toNat ≤ 2 ^ 30) {s : Channel}
    (hrun : Reachable sendCapacity recvCapacity initialSeq s) (hlt : s.pushed.length < 2 ^ 30) :
    s.deliveredOrdered = (s.pushed.filter fun x =>
        seqLt x.1 s.receiver.expectedSeq && isOrdered x.2.mode).map Prod.snd ∧
    s.deliveredUnordered.Perm
      (s.pushed.filter fun x => s.Accepted x.1 && isUnordered x.2.mode) ∧
    (s.pushed.map Prod.fst).Nodup ∧
    (s.sender.headSeq = s.sender.nextSeq →
      s.deliveredOrdered = (s.pushed.filter fun x => isOrdered x.2.mode).map Prod.snd ∧
      s.deliveredUnordered.Perm (s.pushed.filter fun x => isUnordered x.2.mode)) := by
  obtain ⟨h, e, hi⟩ := Inv.of_reachable hs hs' hr hr' hrun hlt
  have hord := hi.deliveredOrdered_eq hlt
  have hun := hi.deliveredUnordered_perm hlt
  refine ⟨hord, hun, hi.nodup_numbers hlt, fun heq => ⟨?_, ?_⟩⟩
  · rw [hord]
    congr 1
    refine List.filter_congr fun x hx => ?_
    rw [hi.all_before_expected hlt heq hx, Bool.true_and]
  · have hfilter : (s.pushed.filter fun x => s.Accepted x.1 && isUnordered x.2.mode) =
        s.pushed.filter fun x => isUnordered x.2.mode := by
      refine List.filter_congr fun x hx => ?_
      rw [Accepted, hi.all_before_expected hlt heq hx, Bool.true_or, Bool.true_and]
    rw [← hfilter]
    exact hun

/-- Two messages pushed across the wrap of the counter; only the second, an unordered one, has
arrived, and its acknowledgement has come back. -/
def crossed : Channel :=
  let s := start 2 4 0xFFFFFFFF
  let s := { s with
    sender := (s.sender.pushed 3 [7] 1 0).pushed 2 [9] 1 0
    pushed := [(0xFFFFFFFF, .ofPush 3 [7] 1), (0, .ofPush 2 [9] 1)] }
  let pkt := slotPacket 1 (0, 0) (s.sendSlot 0)
  let s := { s with
    data := [pkt]
    receiver := (s.receiver.onData pkt.hdr pkt.payload readySlots).2.1
    delivered := (s.receiver.onData pkt.hdr pkt.payload readySlots).2.2 }
  let ack := s.receiver.getAckInfo
  { s with
    acks := [ack]
    sender := (s.sender.onAck ack.1 ack.2 5 s.rtt).1
    rtt := (s.sender.onAck ack.1 ack.2 5 s.rtt).2 }

theorem reachable_crossed : Reachable 2 4 0xFFFFFFFF crossed := by
  have h := Relation.ReflTransGen.refl (r := Step) (a := start 2 4 0xFFFFFFFF)
  have h := h.tail (.push _ 3 [7] 1 0 _ _ (by decide) rfl)
  have h := h.tail (.push _ 2 [9] 1 0 _ _ (by decide) rfl)
  have h := h.tail (.transmit _ 0 1 (0, 0) (by decide +kernel))
  have h := h.tail (.receive _ _ List.mem_cons_self)
  have h := h.tail (.sendAck _)
  exact h.tail (.onAck _ _ 5 List.mem_cons_self)

theorem delivery_exact_crossed :
    crossed.deliveredUnordered = [(0, .ofPush 2 [9] 1)] ∧
    crossed.deliveredUnordered.Perm
      (crossed.pushed.filter fun x => crossed.Accepted x.1 && isUnordered x.2.mode) :=
  ⟨by decide +kernel, (delivery_exact ⟨1, by decide, rfl⟩ (by decide) ⟨2, by decide, rfl⟩
    (by decide) reachable_crossed (by decide)).2.1⟩

/-- **Acknowledgements are sound.** In every state that a session can reach with fewer than
`2 ^ 30` pushes: the counters of the two windows are in order; a number that the sender has passed
or marked acknowledged has been accepted by the receiver; and a number that the receiver has not
accepted is still outstanding at the sender, with the message that was pushed. -/
theorem acked_sound {sendCapacity recvCapacity initialSeq : UInt32}
    (hs : IsRingSize sendCapacity) (hs' : sendCapacity.toNat ≤ 2 ^ 30)
    (hr : IsRingSize recvCapacity) (hr' : recvCapacity.toNat ≤ 2 ^ 30) {s : Channel}
    (hrun : Reachable sendCapacity recvCapacity initialSeq s) (hlt : s.pushed.length < 2 ^ 30) :
    seqLte s.sender.headSeq s.receiver.expectedSeq = true ∧
    seqLte s.receiver.expectedSeq s.sender.nextSeq = true ∧
    (∀ x ∈ s.pushed, seqLt x.1 s.sender.headSeq = true ∨
        ((s.sendSlot x.1).seqNum = x.1 ∧ (s.sendSlot x.1).acked = true) →
      s.Accepted x.1 = true) ∧
    ∀ x ∈ s.pushed, s.Accepted x.1 = false →
      s.Outstanding x.1 ∧ (s.sendSlot x.1).message = x.2 := by
  obtain ⟨h, e, hi⟩ := Inv.of_reachable hs hs' hr hr' hrun hlt
  have hle := hi.inStep.le_next
  have hb := hi.inStep.base_le
  have hh := hi.inStep.head_le
  have hslot : ∀ k, s.sendSlot (wrap (initialSeq.toNat + k)) =
      s.sender.cell (initialSeq.toNat + k) := by
    intro k
    rw [sendSlot, hi.inStep.send.slotIdx, SendWindow.slot_mod]
  -- past the head, the acknowledged positions are accepted
  have hacc : ∀ k < s.pushed.length, initialSeq.toNat + k < h ∨
      (s.sender.cell (initialSeq.toNat + k)).acked = true →
      s.receiver.Accepted e (initialSeq.toNat + k) := by
    intro k hk hc
    by_cases hkh : initialSeq.toNat + k < h
    · exact Or.inl (by omega)
    · rw [← log_length] at hk
      exact hi.inStep.acked _ (by omega) (by omega) (hc.resolve_left hkh)
  have hhead : ∀ k < s.pushed.length, seqLt (wrap (initialSeq.toNat + k)) s.sender.headSeq =
      decide (initialSeq.toNat + k < h) := by
    intro k hk
    rw [log_length] at hle
    rw [seqLt, seqDiff, hi.inStep.send.head, Serial.diff_wrap (by omega) (by omega)]
    exact decide_eq_decide.2 (by omega)
  rw [log_length] at hle
  refine ⟨?_, ?_, ?_, ?_⟩
  · rw [seqLte, seqDiff, hi.inStep.send.head, hi.inStep.recv.expected,
      Serial.diff_wrap (by omega) (by omega)]
    exact decide_eq_true (by omega)
  · rw [seqLte, seqDiff, hi.inStep.send.next, hi.inStep.recv.expected, log_length,
      Serial.diff_wrap (by omega) (by omega)]
    exact decide_eq_true (by omega)
  · intro x hx hc
    obtain ⟨k, hk, hnum, -⟩ := hi.exists_index hx
    rw [hnum, hhead k hk, hslot, decide_eq_true_eq] at hc
    rw [hnum, hi.accepted_iff hlt hk]
    exact hacc k hk (hc.imp_right fun h2 => h2.2)
  · intro x hx hno
    obtain ⟨k, hk, hnum, hmsg⟩ := hi.exists_index hx
    have hnot : ¬ s.receiver.Accepted e (initialSeq.toNat + k) := by
      rw [← hi.accepted_iff hlt hk, ← hnum, hno]
      exact Bool.noConfusion
    have hge : h ≤ initialSeq.toNat + k := by
      by_contra hlt'
      exact hnot (hacc k hk (Or.inl (by omega)))
    have hlt' : initialSeq.toNat + k < initialSeq.toNat + s.log.length := by
      rw [log_length]; omega
    have hrange := (hi.inStep.send.inRange_iff x.1).2 ⟨_, hge, hlt', hnum⟩
    rw [Bool.and_eq_true] at hrange
    refine ⟨⟨hrange.2, hrange.1, ?_, ?_, ?_⟩, ?_⟩
    · rw [hnum, hslot]
      exact hi.inStep.send.inUse _ hge hlt'
    · rw [hnum, hslot]
      exact hi.inStep.send.seqNum _ hge hlt'
    · rw [hnum, hslot]
      by_contra hac
      exact hnot (hacc k hk (Or.inr (by simpa using hac)))
    · rw [hnum, hslot]
      have := hi.inStep.content _ hge hlt'
      rw [show initialSeq.toNat + k - initialSeq.toNat = k by omega, hmsg] at this
      exact (Option.some.inj this).symm

theorem acked_sound_crossed :
    crossed.Accepted 0xFFFFFFFF = false ∧ crossed.Outstanding 0xFFFFFFFF ∧
      (crossed.sendSlot 0xFFFFFFFF).message = .ofPush 3 [7] 1 :=
  ⟨by decide +kernel, (acked_sound ⟨1, by decide, rfl⟩ (by decide) ⟨2, by decide, rfl⟩
    (by decide) reachable_crossed (by decide)).2.2.2 (0xFFFFFFFF, .ofPush 3 [7] 1)
      List.mem_cons_self (by decide +kernel)⟩

end Channel

end Rel4u
