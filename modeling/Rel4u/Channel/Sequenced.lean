import Rel4u.Window.AckLaws
import Rel4u.Window.Unreliable
import Rel4u.Worker.SharedInv

/-!
# Unreliable messages over a faulty network

One direction of a session with messages of all four modes. The unreliable ones draw their numbers
from a counter of their own and are sent once; they share the packets, the receive window and the
receiving worker with the reliable ones, which are retransmitted. The network drops, repeats and
reorders.

`sequenced_subsequence`: what arrives of the mode-1 messages is a subsequence of what was sent,
although packets of the same counter in mode 0 and duplicates of any age arrive between them.
-/

namespace Rel4u

open Serial (wrap IsRingSize)

namespace RecvWindow

/-! ### What the worker's loops do to the unreliable part -/

theorem popReady_keeps (w : RecvWindow) (maxReady : ℕ) :
    (w.popReady maxReady).1.highestUnrel = w.highestUnrel ∧
      ∀ s ∈ (w.popReady maxReady).2, Reliable s.deliveryMode := by
  constructor
  · -- a window is itself with its own marks
    have hself := w.popLoop_mark w.highestUnrelSeq w.hasHighestUnrel maxReady w.slots.length []
    rw [show w.mark w.highestUnrelSeq w.hasHighestUnrel = w from rfl] at hself
    rw [popReady, hself]
    rfl
  · intro s hs
    exact (mem_popLoop hs).resolve_left List.not_mem_nil

theorem drainFull_keeps (maxReady fuel : ℕ) : ∀ (w : RecvWindow) (ready : List RecvSlot),
    (drainFull maxReady fuel w ready).1.highestUnrel = w.highestUnrel ∧
      ∀ s ∈ (drainFull maxReady fuel w ready).2, Reliable s.deliveryMode := by
  induction fuel with
  | zero => exact fun w ready => ⟨rfl, List.forall_mem_nil _⟩
  | succ fuel ih =>
    intro w ready
    obtain ⟨h1, h2⟩ := w.popReady_keeps maxReady
    obtain ⟨h3, h4⟩ := ih (w.popReady maxReady).1 (w.popReady maxReady).2
    rw [drainFull]
    dsimp only
    split_ifs
    · exact ⟨h3.trans h1, List.forall_mem_append.2 ⟨h2, h4⟩⟩
    · exact ⟨h1, List.forall_mem_nil _⟩
    · exact ⟨rfl, List.forall_mem_nil _⟩

theorem drainReady_keeps (maxReady fuel : ℕ) : ∀ w : RecvWindow,
    (drainReady maxReady fuel w).1.highestUnrel = w.highestUnrel ∧
      ∀ s ∈ (drainReady maxReady fuel w).2, Reliable s.deliveryMode := by
  induction fuel with
  | zero => exact fun w => ⟨rfl, List.forall_mem_nil _⟩
  | succ fuel ih =>
    intro w
    obtain ⟨h1, h2⟩ := w.popReady_keeps maxReady
    obtain ⟨h3, h4⟩ := ih (w.popReady maxReady).1
    rw [drainReady]
    dsimp only
    split_ifs
    · exact ⟨h3.trans h1, List.forall_mem_append.2 ⟨h2, h4⟩⟩
    · exact ⟨h1, List.forall_mem_nil _⟩

/-- The sequenced slots among those handed out. -/
def sequenced (ready : List RecvSlot) : List RecvSlot :=
  ready.filter fun s => decide (s.deliveryMode = DeliveryMode.unreliableOrdered.code)

theorem sequenced_append (a b : List RecvSlot) :
    sequenced (a ++ b) = sequenced a ++ sequenced b := List.filter_append ..

theorem sequenced_of_reliable {ready : List RecvSlot} (h : ∀ s ∈ ready, Reliable s.deliveryMode) :
    sequenced ready = [] := by
  rw [sequenced, List.filter_eq_nil_iff]
  intro s hs hmode
  have hrel := h s hs
  rw [of_decide_eq_true hmode] at hrel
  exact absurd hrel (by decide)

/-- The worker hands out what the call of `on_packet` does, and reliable slots. -/
theorem onData_keeps (w : RecvWindow) (hdr : Header) (payload : List UInt8) (maxReady : ℕ) :
    (w.onData hdr payload maxReady).2.1.highestUnrel =
        (w.onPacket hdr payload maxReady).2.1.highestUnrel ∧
      sequenced (w.onData hdr payload maxReady).2.2 =
        sequenced (if (w.onPacket hdr payload maxReady).1 = 0 then
          (w.onPacket hdr payload maxReady).2.2 else []) := by
  rw [onData]
  dsimp only
  split_ifs
  · obtain ⟨h1, h2⟩ := drainFull_keeps maxReady
      ((w.onPacket hdr payload maxReady).2.1.slots.length + 1)
      (w.onPacket hdr payload maxReady).2.1 (w.onPacket hdr payload maxReady).2.2
    exact ⟨h1, by rw [sequenced_append, sequenced_of_reliable h2, List.append_nil]⟩
  · obtain ⟨h1, h2⟩ := drainReady_keeps maxReady
      ((w.onPacket hdr payload maxReady).2.1.slots.length + 1)
      (w.onPacket hdr payload maxReady).2.1
    exact ⟨h1, sequenced_of_reliable h2⟩
  · exact ⟨rfl, rfl⟩

/-- The call of `on_packet` that the workers make. -/
def workerCall (hdr : Header) (payload : List UInt8) : PacketCall :=
  { hdr, payload, maxReady := ⟨readySlots, by decide⟩ }

/-- **A mode-1 packet that is ahead of those handed out** is handed out and remembered. -/
theorem onData_ahead (w : RecvWindow) {hdr : Header} (payload : List UInt8)
    (h : hdr.deliveryMode = DeliveryMode.unreliableOrdered.code)
    (hgt : (w.highestUnrel.all fun s => seqGt hdr.seqNum s) = true) :
    (w.onData hdr payload readySlots).2.1.highestUnrel = some hdr.seqNum ∧
      sequenced (w.onData hdr payload readySlots).2.2 = [readySlot hdr payload] := by
  obtain ⟨h1, h2⟩ := w.onData_keeps hdr payload readySlots
  have hrun := onPacket_sequenced (w := w) (c := workerCall hdr payload) h
  rw [if_pos (by exact hgt)] at hrun
  have hmode : decide ((readySlot hdr payload).deliveryMode =
      DeliveryMode.unreliableOrdered.code) = true := decide_eq_true h
  rw [h1, h2, show w.onPacket hdr payload readySlots = _ from hrun]
  refine ⟨rfl, ?_⟩
  show sequenced [readySlot hdr payload] = _
  rw [sequenced, List.filter_singleton, hmode, cond_true]

/-- One that is not ahead is dropped. -/
theorem onData_behind (w : RecvWindow) {hdr : Header} (payload : List UInt8)
    (h : hdr.deliveryMode = DeliveryMode.unreliableOrdered.code)
    (hgt : ¬ (w.highestUnrel.all fun s => seqGt hdr.seqNum s) = true) :
    (w.onData hdr payload readySlots).2.1.highestUnrel = w.highestUnrel ∧
      sequenced (w.onData hdr payload readySlots).2.2 = [] := by
  obtain ⟨h1, h2⟩ := w.onData_keeps hdr payload readySlots
  have hrun := onPacket_sequenced (w := w) (c := workerCall hdr payload) h
  rw [if_neg (by exact hgt)] at hrun
  rw [h1, h2, show w.onPacket hdr payload readySlots = _ from hrun]
  exact ⟨rfl, rfl⟩

/-- Packets of the other modes have no part in it. -/
theorem onData_other (w : RecvWindow) {hdr : Header} (payload : List UInt8)
    (h : hdr.deliveryMode ≠ DeliveryMode.unreliableOrdered.code) :
    (w.onData hdr payload readySlots).2.1.highestUnrel = w.highestUnrel ∧
      sequenced (w.onData hdr payload readySlots).2.2 = [] := by
  obtain ⟨h1, h2⟩ := w.onData_keeps hdr payload readySlots
  have hmode : (workerCall hdr payload).hasMode .unreliableOrdered = false := decide_eq_false h
  refine ⟨h1.trans (highestUnrel_onPacket (w := w) (c := workerCall hdr payload) h), ?_⟩
  rw [h2]
  split_ifs
  · exact filter_ready_of_hasMode_eq_false (by decide) hmode
  · rfl

end RecvWindow

/-- One direction of a session: the two ends, everything sent so far, and two histories: the
unreliable messages pushed, with their numbers, and the slots handed out at the other end. -/
structure MixedChannel where
  sender : SendWindow
  rtt : Rtt
  receiver : RecvWindow
  net : List Packet
  pushed : List (UInt32 × Message)
  delivered : List RecvSlot

namespace MixedChannel

/-- Two windows created at `initialSeq`. -/
def start (sendCapacity recvCapacity initialSeq : UInt32) : MixedChannel :=
  { sender := ((default : SendWindow).init sendCapacity initialSeq true).2
    rtt := Rtt.default
    receiver := ((default : RecvWindow).init recvCapacity initialSeq true).2
    net := []
    pushed := []
    delivered := [] }

/-- One step of either worker, or of the network. -/
inductive Step : MixedChannel → MixedChannel → Prop
  | push (s : MixedChannel) (mode : UInt8) (data : List UInt8) (len : ℕ) (nowNs : UInt64)
      (win : SendWindow) (seq sessionId : UInt32) (ackInfo : UInt32 × UInt32)
      (hpush : s.sender.push mode data len nowNs = .ok (win, seq)) :
      Step s { s with
        sender := win
        net := mkPacket .data mode sessionId seq ackInfo data len :: s.net
        pushed :=
          if Reliable mode then s.pushed else s.pushed ++ [(seq, Message.ofPush mode data len)] }
  | onAck (s : MixedChannel) (ackNum sackMask : UInt32) (nowNs : UInt64) :
      Step s { s with
        sender := (s.sender.onAck ackNum sackMask nowNs s.rtt).1
        rtt := (s.sender.onAck ackNum sackMask nowNs s.rtt).2 }
  | retransmit (s : MixedChannel) (nowNs : UInt64) (sessionId : UInt32)
      (ackInfo : UInt32 × UInt32) :
      Step s { s with
        sender := (Rel4u.retransmit s.sender s.rtt nowNs sessionId ackInfo).1
        rtt := (Rel4u.retransmit s.sender s.rtt nowNs sessionId ackInfo).2.1
        net := (Rel4u.retransmit s.sender s.rtt nowNs sessionId ackInfo).2.2 ++ s.net }
  | receive (s : MixedChannel) (pkt : Packet) (hpkt : pkt ∈ s.net) :
      Step s { s with
        receiver := (s.receiver.onData pkt.hdr pkt.payload readySlots).2.1
        delivered := s.delivered ++ (s.receiver.onData pkt.hdr pkt.payload readySlots).2.2 }

/-- The states of the runs that start from two windows of the given capacities. -/
def Reachable (sendCapacity recvCapacity initialSeq : UInt32) (s : MixedChannel) : Prop :=
  Relation.ReflTransGen Step (start sendCapacity recvCapacity initialSeq) s

/-- The mode-1 messages among those pushed. -/
def sequencedOf (pushed : List (UInt32 × Message)) : List (UInt32 × Message) :=
  pushed.filter fun x => decide (x.2.mode = DeliveryMode.unreliableOrdered.code)

/-- The mode-1 messages handed out. -/
def deliveredSequenced (s : MixedChannel) : List (UInt32 × Message) :=
  (RecvWindow.sequenced s.delivered).map fun x => (x.seqNum, x.message)

/-- **The invariant of a run.** `top` is the position after the last mode-1 message handed out. -/
structure Inv (base : ℕ) (s : MixedChannel) (top : ℕ) : Prop where
  next : s.sender.nextUnrelSeq = wrap (base + s.pushed.length)
  letters : ∀ x ∈ s.sender.letters, Reliable x.2.mode
  numbers : ∀ k x, s.pushed[k]? = some x → x.1 = wrap (base + k)
  net : ∀ pkt ∈ s.net, Reliable pkt.hdr.deliveryMode ∨
    ∃ k : ℕ, s.pushed[k]? = some (pkt.hdr.seqNum, pkt.message)
  top_le : top ≤ s.pushed.length
  highest : s.receiver.highestUnrel = if top = 0 then none else some (wrap (base + (top - 1)))
  line : s.deliveredSequenced.Sublist (sequencedOf (s.pushed.take top))

section Inv

variable {base top : ℕ} {s s' : MixedChannel}

theorem getElem?_append_of_some {α : Type*} {l m : List α} {k : ℕ} {x : α}
    (h : l[k]? = some x) : (l ++ m)[k]? = some x := by
  rw [List.getElem?_append_left (List.getElem?_eq_some_iff.1 h).1]
  exact h

/-- An unreliable message is pushed and sent. -/
theorem Inv.pushUnreliable (hi : Inv base s top) {mode : UInt8} {data : List UInt8} {len : ℕ}
    {nowNs : UInt64} {win : SendWindow} {seq : UInt32} (hmode : ¬ Reliable mode)
    (hpush : s.sender.push mode data len nowNs = .ok (win, seq)) (sessionId : UInt32)
    (ackInfo : UInt32 × UInt32) :
    Inv base { s with
      sender := win
      net := mkPacket .data mode sessionId seq ackInfo data len :: s.net
      pushed := s.pushed ++ [(seq, Message.ofPush mode data len)] } top := by
  have hwin := SendWindow.push_unreliable hmode hpush
  have hlen : len ≤ maxPayloadSize ∧ seq = s.sender.nextUnrelSeq := by
    unfold SendWindow.push at hpush
    split_ifs at hpush with hlong
    exact ⟨not_lt.1 hlong, (Prod.mk.inj (Except.ok.inj hpush)).2.symm⟩
  have hseq : seq = wrap (base + s.pushed.length) := hlen.2.trans hi.next
  have hmsg : (mkPacket .data mode sessionId seq ackInfo data len).message =
      Message.ofPush mode data len := by
    have hl : (UInt16.ofNat len).toNat = len := by
      rw [UInt16.toNat_ofNat_of_lt']
      exact lt_of_le_of_lt hlen.1 (by decide)
    simp [mkPacket, Packet.message, Message.ofPush, hl]
  have htop := hi.top_le
  refine
    { next := ?_
      letters := ?_
      numbers := fun k x hk => ?_
      net := fun pkt hpkt => ?_
      top_le := ?_
      highest := hi.highest
      line := ?_ }
  · rw [hwin, List.length_append, List.length_singleton, ← Nat.add_assoc, Serial.wrap_succ,
      ← hi.next]
  · rw [hwin]
    exact hi.letters
  · by_cases hlt : k < s.pushed.length
    · rw [List.getElem?_append_left hlt] at hk
      exact hi.numbers k x hk
    · rw [List.getElem?_append_right (not_lt.1 hlt)] at hk
      obtain ⟨hk0, hx⟩ := List.getElem?_eq_some_iff.1 hk
      rw [List.length_singleton] at hk0
      obtain rfl : k = s.pushed.length := by omega
      simp only [Nat.sub_self, List.getElem_cons_zero] at hx
      rw [← hx]
      exact hseq
  · rcases List.mem_cons.1 hpkt with rfl | hpkt'
    · refine Or.inr ⟨s.pushed.length, ?_⟩
      rw [List.getElem?_append_right le_rfl, Nat.sub_self, hmsg]
      rfl
    · refine (hi.net pkt hpkt').imp_right ?_
      rintro ⟨k, hk⟩
      exact ⟨k, getElem?_append_of_some hk⟩
  · rw [List.length_append]
    omega
  · rw [List.take_append_of_le_length htop]
    exact hi.line

/-- The sender sends reliable messages, or only changes its reliable part. -/
theorem Inv.reliableStep (hi : Inv base s top) {win : SendWindow} {rtt : Rtt} (pkts : List Packet)
    (hnext : win.nextUnrelSeq = s.sender.nextUnrelSeq)
    (hletters : ∀ x ∈ win.letters, Reliable x.2.mode)
    (hpkts : ∀ pkt ∈ pkts, Reliable pkt.hdr.deliveryMode) :
    Inv base { s with sender := win, rtt := rtt, net := pkts ++ s.net } top :=
  { hi with
    next := hnext.trans hi.next
    letters := hletters
    net := fun pkt hpkt =>
      (List.mem_append.1 hpkt).elim (fun h => Or.inl (hpkts pkt h)) (hi.net pkt) }

/-- **A packet arrives.** -/
theorem Inv.receive (hi : Inv base s top) (hsmall : s.pushed.length < 2 ^ 31) {pkt : Packet}
    (hpkt : pkt ∈ s.net) :
    ∃ top', Inv base
      { s with
        receiver := (s.receiver.onData pkt.hdr pkt.payload readySlots).2.1
        delivered := s.delivered ++ (s.receiver.onData pkt.hdr pkt.payload readySlots).2.2 }
      top' := by
  -- what is left to show once the effect on the receiver is known
  have hkeep : ∀ top', top' ≤ s.pushed.length →
      (s.receiver.onData pkt.hdr pkt.payload readySlots).2.1.highestUnrel =
        (if top' = 0 then none else some (wrap (base + (top' - 1)))) →
      (s.deliveredSequenced ++ (RecvWindow.sequenced
        (s.receiver.onData pkt.hdr pkt.payload readySlots).2.2).map
          fun x => (x.seqNum, x.message)).Sublist (sequencedOf (s.pushed.take top')) →
      Inv base { s with
        receiver := (s.receiver.onData pkt.hdr pkt.payload readySlots).2.1
        delivered := s.delivered ++ (s.receiver.onData pkt.hdr pkt.payload readySlots).2.2 }
          top' := by
    intro top' htop' hhighest hline
    refine { hi with top_le := htop', highest := hhighest, line := ?_ }
    rw [deliveredSequenced, RecvWindow.sequenced_append, List.map_append]
    exact hline
  have hnone : (s.deliveredSequenced ++ ([] : List RecvSlot).map
      fun x => (x.seqNum, x.message)).Sublist (sequencedOf (s.pushed.take top)) := by
    rw [List.map_nil, List.append_nil]
    exact hi.line
  by_cases hmode : pkt.hdr.deliveryMode = DeliveryMode.unreliableOrdered.code
  · have hrel : ¬ Reliable pkt.hdr.deliveryMode := by
      rw [hmode]
      decide
    obtain ⟨k, hk⟩ := (hi.net pkt hpkt).resolve_left hrel
    have hklt : k < s.pushed.length := (List.getElem?_eq_some_iff.1 hk).1
    have hseq : pkt.hdr.seqNum = wrap (base + k) := hi.numbers k _ hk
    have htop := hi.top_le
    -- ahead of the mark means at or after `top`
    have hahead : (s.receiver.highestUnrel.all fun x => seqGt pkt.hdr.seqNum x) = true ↔
        top ≤ k := by
      rw [hi.highest, hseq]
      split_ifs with h0
      · simp [h0]
      · rw [Option.all_some, seqGt, seqDiff, Serial.diff_wrap (by omega) (by omega),
          decide_eq_true_eq]
        omega
    by_cases hgt : top ≤ k
    · obtain ⟨h1, h2⟩ := s.receiver.onData_ahead pkt.payload hmode (hahead.2 hgt)
      refine ⟨k + 1, hkeep (k + 1) hklt ?_ ?_⟩
      · rw [h1, hseq, if_neg (Nat.succ_ne_zero k), Nat.add_sub_cancel]
      · have hslot : ((RecvWindow.readySlot pkt.hdr pkt.payload).seqNum,
            (RecvWindow.readySlot pkt.hdr pkt.payload).message) =
            (pkt.hdr.seqNum, pkt.message) := by
          simp [RecvWindow.readySlot, RecvSlot.message, Packet.message]
        have htake : s.pushed.take (k + 1) =
            s.pushed.take k ++ [(pkt.hdr.seqNum, pkt.message)] := by
          rw [List.take_add_one, hk]
          rfl
        have hkept : decide (pkt.message.mode = DeliveryMode.unreliableOrdered.code) = true :=
          decide_eq_true hmode
        rw [h2, List.map_singleton, hslot, htake, sequencedOf, List.filter_append,
          List.filter_singleton, hkept, cond_true]
        refine List.Sublist.append (hi.line.trans ?_) (List.Sublist.refl _)
        exact (List.take_sublist_take_left hgt).filter _
    · obtain ⟨h1, h2⟩ := s.receiver.onData_behind pkt.payload hmode fun h => hgt (hahead.1 h)
      exact ⟨top, hkeep top htop (h1.trans hi.highest) (by rw [h2]; exact hnone)⟩
  · obtain ⟨h1, h2⟩ := s.receiver.onData_other pkt.payload hmode
    exact ⟨top, hkeep top hi.top_le (h1.trans hi.highest) (by rw [h2]; exact hnone)⟩

/-- **Every step keeps the invariant.** -/
theorem Inv.step (hi : Inv base s top) (hst : Step s s') (hsmall : s.pushed.length < 2 ^ 31) :
    ∃ top', Inv base s' top' := by
  cases hst with
  | push mode data len nowNs win seq sessionId ackInfo hpush =>
    by_cases hmode : Reliable mode
    · obtain ⟨-, -, hwin⟩ := SendWindow.push_reliable hmode hpush
      rw [if_pos hmode]
      refine ⟨top, hi.reliableStep [_] ?_ ?_ ?_⟩
      · rw [hwin]
        rfl
      · intro x hx
        rcases List.mem_cons.1 (SendWindow.letters_push hpush hx) with rfl | hx'
        · exact hmode
        · exact hi.letters x hx'
      · intro pkt hpkt
        rw [List.mem_singleton.1 hpkt]
        exact hmode
    · rw [if_neg hmode]
      exact ⟨top, hi.pushUnreliable hmode hpush sessionId ackInfo⟩
  | onAck ackNum sackMask nowNs =>
    refine ⟨top, hi.reliableStep [] ?_ ?_ (List.forall_mem_nil _)⟩
    · exact SendWindow.static_nextUnrelSeq.onAck s.sender ackNum sackMask nowNs s.rtt
    · exact fun x hx => hi.letters x (SendWindow.letters_onAck _ _ _ _ _ hx)
  | retransmit nowNs sessionId ackInfo =>
    obtain ⟨hletters, hpkts⟩ :=
      SendWindow.letters_retransmit s.sender s.rtt nowNs sessionId ackInfo
    refine ⟨top, hi.reliableStep _ ?_ (fun x hx => hi.letters x (hletters hx)) fun pkt hpkt => ?_⟩
    · rw [(retransmit_eq_pass s.sender s.rtt nowNs sessionId ackInfo).1]
      refine List.foldlRecOn _ _ (motive := fun w : SendWindow =>
        w.nextUnrelSeq = s.sender.nextUnrelSeq) rfl ?_
      intro w ih i _
      exact ih
    · exact hi.letters _ (hpkts pkt hpkt)
  | receive pkt hpkt => exact hi.receive hsmall hpkt

theorem Step.pushed_length_le (hst : Step s s') : s.pushed.length ≤ s'.pushed.length := by
  cases hst with
  | push mode =>
    dsimp only
    split_ifs
    · exact le_rfl
    · simp
  | _ => exact le_rfl

end Inv

section Created

variable {sendCapacity recvCapacity initialSeq : UInt32}

theorem inv_start (hs : IsRingSize sendCapacity) (hr : IsRingSize recvCapacity) :
    Inv initialSeq.toNat (start sendCapacity recvCapacity initialSeq) 0 := by
  have hletters : (start sendCapacity recvCapacity initialSeq).sender.letters = [] :=
    SendWindow.letters_init rfl
  exact
    { next := by
        rw [start, SendWindow.init_eq_fresh hs]
        simp [SendWindow.fresh]
      letters := by
        rw [hletters]
        exact List.forall_mem_nil _
      numbers := by simp [start]
      net := List.forall_mem_nil _
      top_le := le_rfl
      highest := by
        rw [start, RecvWindow.init_eq_fresh hr]
        rfl
      line := List.nil_sublist _ }

/-- **Sequenced messages arrive in order and at most once.** In every state a session can reach with
fewer than 2³¹ unreliable messages, whatever the network drops, repeats or reorders: the mode-1
messages handed out are a subsequence of those pushed, and no two of those have the same number. -/
theorem sequenced_subsequence (hs : IsRingSize sendCapacity) (hr : IsRingSize recvCapacity)
    {s : MixedChannel} (hrun : Reachable sendCapacity recvCapacity initialSeq s)
    (hlt : s.pushed.length < 2 ^ 31) :
    s.deliveredSequenced.Sublist (sequencedOf s.pushed) ∧ (s.pushed.map Prod.fst).Nodup := by
  have hinv : ∃ top, Inv initialSeq.toNat s top := by
    induction hrun with
    | refl => exact ⟨0, inv_start hs hr⟩
    | tail _ hst ih =>
      have hle := hst.pushed_length_le
      obtain ⟨top, hi⟩ := ih (by omega)
      exact hi.step hst (by omega)
  obtain ⟨top, hi⟩ := hinv
  refine ⟨hi.line.trans ((List.take_sublist _ _).filter _), ?_⟩
  have hfst : s.pushed.map Prod.fst =
      (List.range s.pushed.length).map fun k => wrap (initialSeq.toNat + k) := by
    refine List.ext_getElem (by simp) fun k hk _ => ?_
    rw [List.length_map] at hk
    rw [List.getElem_map, List.getElem_map, List.getElem_range]
    exact hi.numbers k _ (List.getElem?_eq_getElem hk)
  rw [hfst]
  refine List.Nodup.map_on (fun a ha b hb hab => ?_) List.nodup_range
  rw [List.mem_range] at ha hb
  have := Serial.wrap_inj hab (by omega) (by omega)
  omega

/-- Three messages around 2³², the second of them in mode 0, that arrive in the opposite order. -/
def overtaken : MixedChannel :=
  let s := start 2 2 0xFFFFFFFF
  let p₀ := mkPacket .data 1 7 0xFFFFFFFF (0, 0) [5] 1
  let p₁ := mkPacket .data 0 7 0 (0, 0) [6] 1
  let p₂ := mkPacket .data 1 7 1 (0, 0) [8] 1
  let r₁ := s.receiver.onData p₂.hdr p₂.payload readySlots
  let r₂ := r₁.2.1.onData p₁.hdr p₁.payload readySlots
  let r₃ := r₂.2.1.onData p₀.hdr p₀.payload readySlots
  { s with
    sender := { s.sender with nextUnrelSeq := 2 }
    net := [p₂, p₁, p₀]
    pushed := [(0xFFFFFFFF, .ofPush 1 [5] 1), (0, .ofPush 0 [6] 1), (1, .ofPush 1 [8] 1)]
    receiver := r₃.2.1
    delivered := r₁.2.2 ++ r₂.2.2 ++ r₃.2.2 }

theorem reachable_overtaken : Reachable 2 2 0xFFFFFFFF overtaken := by
  have h := Relation.ReflTransGen.refl (r := Step) (a := start 2 2 0xFFFFFFFF)
  have h := h.tail (.push _ 1 [5] 1 0 _ _ 7 (0, 0) rfl)
  have h := h.tail (.push _ 0 [6] 1 0 _ _ 7 (0, 0) rfl)
  have h := h.tail (.push _ 1 [8] 1 0 _ _ 7 (0, 0) rfl)
  have h := h.tail (.receive _ _ List.mem_cons_self)
  have h := h.tail (.receive _ _ (List.mem_cons_of_mem _ List.mem_cons_self))
  exact h.tail (.receive _ _ (List.mem_cons_of_mem _ (List.mem_cons_of_mem _ List.mem_cons_self)))

theorem sequenced_subsequence_overtaken :
    overtaken.deliveredSequenced = [(1, .ofPush 1 [8] 1)] ∧
      overtaken.deliveredSequenced.Sublist (sequencedOf overtaken.pushed) :=
  ⟨by decide +kernel, (sequenced_subsequence ⟨1, by decide, rfl⟩ ⟨1, by decide, rfl⟩
    reachable_overtaken (by decide)).1⟩

end Created

end MixedChannel

end Rel4u
