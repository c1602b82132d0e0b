import Rel4u.Channel.Link
import Rel4u.Window.AckLaws

/-!
# What a party's acts keep

`Acts` is all that a party of a session does to its windows. Here is what follows from that for the
party alone, whatever its peer does: its windows keep their size and stay well formed
(`Acts.sized`), so that resetting them gives fresh ones, and a party that only sends headers does
nothing to them.
-/

namespace Rel4u

open Serial (IsRingSize)

section Acts

variable {id : UInt32} {inbox inbox' : List Packet} {A B : Party} {out : List Packet}

/-- A party that can receive more can do more. -/
theorem Acts.mono (h : Acts id inbox A B out) (hsub : inbox ⊆ inbox') : Acts id inbox' A B out := by
  induction h with
  | refl A => exact .refl A
  | trans _ _ ih₁ ih₂ => exact .trans ih₁ ih₂
  | emit A pkt hid htype hack => exact .emit A pkt hid htype hack
  | push A mode data len nowNs sendWin seq hmode hpush hshort =>
    exact .push A mode data len nowNs sendWin seq hmode hpush hshort
  | pushUnreliable A mode data len nowNs sendWin seq hmode hpush =>
    exact .pushUnreliable A mode data len nowNs sendWin seq hmode hpush
  | retransmit A rtt nowNs => exact .retransmit A rtt nowNs
  | ack A pkt hmem nowNs rtt => exact .ack A pkt (hsub hmem) nowNs rtt
  | data A pkt hmem htype => exact .data A pkt (hsub hmem) htype

/-- Packets that carry no data. -/
theorem Acts.emits (A : Party) (h : ∀ pkt ∈ out, pkt.hdr.sessionId = id ∧
      pkt.hdr.packetType ≠ PktType.data.code ∧ AckOf A.recv pkt) : Acts id inbox A A out := by
  induction out with
  | nil => exact .refl A
  | cons pkt out ih =>
    obtain ⟨hid, htype, hack⟩ := h pkt List.mem_cons_self
    have hrest := ih fun p hp => h p (List.mem_cons_of_mem pkt hp)
    exact .trans (.emit A pkt hid htype hack) hrest

/-! ### The windows -/

/-- Sending again only writes to slots. -/
theorem SendWindow.Static.retransmit {β : Type*} {f : SendWindow → β} (hf : SendWindow.Static f)
    (w : SendWindow) (rtt : Rtt) (nowNs : UInt64) (id : UInt32) (ackInfo : UInt32 × UInt32) :
    f (Rel4u.retransmit w rtt nowNs id ackInfo).1 = f w := by
  have hfold : ∀ (l : List ℕ) (w : SendWindow),
      f (l.foldl (fun win i => win.resend nowNs i) w) = f w := by
    intro l
    induction l with
    | nil => exact fun _ => rfl
    | cons i l ih => exact fun w => (ih _).trans (hf.setSlot _ _ _)
  unfold Rel4u.retransmit
  dsimp only
  split_ifs
  · exact hfold _ w
  · rfl

theorem push_capacity {w w' : SendWindow} {mode : UInt8} {data : List UInt8} {len : ℕ}
    {nowNs : UInt64} {seq : UInt32} (hpush : w.push mode data len nowNs = .ok (w', seq)) :
    w'.capacity = w.capacity := by
  by_cases hmode : Reliable mode
  · rw [(SendWindow.push_reliable hmode hpush).2.2]
    rfl
  · rw [SendWindow.push_unreliable hmode hpush]

/-- Windows of `c` slots, in a state that some run of them reaches. -/
structure Party.Sized (c : UInt32) (A : Party) : Prop where
  send : A.send.Usable
  sendCap : A.send.capacity = c
  recv : (∃ e, A.recv.Rep e) ∨ (A.recv.Idle ∧ A.recv.slots ≠ [])
  recvCap : A.recv.capacity = c

theorem sized_fresh {c : UInt32} (hc : IsRingSize c) : (Party.fresh c).Sized c where
  send := SendWindow.fresh_usable hc 1
  sendCap := rfl
  recv := by
    rcases hc.small_or_half with hs | hs
    · exact Or.inl ⟨_, RecvWindow.fresh_rep hc hs 1⟩
    · have hlen : (RecvWindow.fresh c 1).slots.length = c.toNat := by simp [RecvWindow.fresh]
      refine Or.inr ⟨hs ▸ RecvWindow.fresh_idle 1, ?_⟩
      exact List.ne_nil_of_length_pos (hlen ▸ hc.pos)
  recvCap := rfl

theorem Party.Sized.data {c : UInt32} (hA : A.Sized c) (pkt : Packet) :
    Party.Sized c { A with
      recv := (A.recv.onData pkt.hdr pkt.payload readySlots).2.1
      got := A.got ++ (A.recv.onData pkt.hdr pkt.payload readySlots).2.2 } := by
  have hpos : 0 < readySlots := by decide
  rcases hA.recv with ⟨e, hrep⟩ | ⟨hidle, halive⟩
  · obtain ⟨e', htakes⟩ := hrep.takes_onData pkt.hdr pkt.payload hpos
    obtain ⟨hrep', hcap⟩ := htakes.rep_capacity
    exact ⟨hA.send, hA.sendCap, Or.inl ⟨e', hrep'⟩, hcap.trans hA.recvCap⟩
  · obtain ⟨code, highest, has, imm, hrun, -⟩ := hidle.onData_eq pkt.hdr pkt.payload hpos
    simp only [hrun]
    exact ⟨hA.send, hA.sendCap, Or.inr ⟨hidle.mark_idle highest has, halive⟩, hA.recvCap⟩

/-- **Whatever a party does keeps its windows well formed.** -/
theorem Acts.sized {c : UInt32} (h : Acts id inbox A B out) (hA : A.Sized c) : B.Sized c := by
  induction h with
  | refl | emit => exact hA
  | trans _ _ ih₁ ih₂ => exact ih₂ (ih₁ hA)
  | push A mode data len nowNs sendWin seq hmode hpush =>
    obtain ⟨h1, h2⟩ := hA.send.push_usable hpush
    exact ⟨h1, h2.trans hA.sendCap, hA.recv, hA.recvCap⟩
  | pushUnreliable A mode data len nowNs sendWin seq hmode hpush =>
    obtain ⟨h1, h2⟩ := hA.send.push_usable hpush
    exact ⟨h1, h2.trans hA.sendCap, hA.recv, hA.recvCap⟩
  | retransmit A rtt nowNs =>
    obtain ⟨h1, h2⟩ := retransmit_usable hA.send rtt nowNs id A.recv.getAckInfo
    exact ⟨h1, h2.trans hA.sendCap, hA.recv, hA.recvCap⟩
  | ack A pkt hmem nowNs rtt =>
    obtain ⟨h1, h2⟩ := hA.send.onAck_usable pkt.hdr.ackNum pkt.hdr.sackMask nowNs rtt
    exact ⟨h1, h2.trans hA.sendCap, hA.recv, hA.recvCap⟩
  | data A pkt hmem htype => exact hA.data pkt

/-- Resetting well-formed windows gives fresh ones. -/
theorem Party.Sized.reset {c : UInt32} (hA : A.Sized c) :
    (A.send.reset 1).2 = SendWindow.fresh c 1 ∧ (A.recv.reset 1).2 = RecvWindow.fresh c 1 := by
  constructor
  · rcases hA.send with ⟨h, n, hrep⟩ | hidle
    · rw [hrep.reset_eq, hA.sendCap]
    · rw [hidle.reset_eq, hA.sendCap]
  · rcases hA.recv with ⟨e, hrep⟩ | ⟨hidle, halive⟩
    · rw [hrep.reset_eq, hA.recvCap]
    · have hc : A.recv.capacity ≠ 0 := by rw [hidle.cap]; decide
      simp [RecvWindow.reset, halive, hc, RecvWindow.fresh, ← hA.recvCap]

end Acts

end Rel4u
