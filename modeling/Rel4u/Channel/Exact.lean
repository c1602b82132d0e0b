import Rel4u.Channel.Acts

/-!
# What a party of a session has been given

`Link` says that the windows of two parties agree and that nothing which has been accepted is
missing from what a party has been given. `Got` is the converse: the party has been given nothing
else. The ordered messages are a beginning of those that were sent, the unordered ones are each
given once, under the number they were sent with.

A party's acts keep it (`Acts.got`), and so does a push of its peer (`Got.push`).
-/

namespace Rel4u

open Serial (wrap IsRingSize)

/-- **`out` is exactly what a receive window has accepted of the log**, and unreliable slots. -/
def Got (log : List Message) (rw : RecvWindow) (out : List RecvSlot) : Prop :=
  (∃ e, rw.Rep e ∧ 1 ≤ e ∧ e ≤ 1 + log.length ∧ Delivered 1 log rw e out) ∨
    (rw.Idle ∧ ∀ s ∈ out, ¬ Reliable s.deliveryMode)

section Got

variable {log : List Message} {sw : SendWindow} {rw : RecvWindow} {h e : ℕ}
  {out given : List RecvSlot}

/-- The widest ring is not one of those that accept something. -/
theorem RecvWindow.Idle.not_rep (hw : rw.Idle) : ¬ rw.Rep e := fun hrep => by
  have hsmall := hrep.small
  rw [hw.cap] at hsmall
  exact absurd hsmall (by decide)

/-- What has been given, beside windows that are in step. -/
theorem Got.inStep (hg : Got log rw out) (hd : Dir log sw rw given h e)
    (hsmall : log.length < 2 ^ 30) :
    (∃ sv, InStep 1 log sv rw h e ∧ Delivered 1 log rw e out) ∨
      (rw.Idle ∧ ∀ s ∈ out, ¬ Reliable s.deliveryMode) := by
  obtain ⟨sv, rv, hs, -, -, rfl | ⟨hidle, -⟩⟩ := hd
  · rcases hg with ⟨e', hrep, -, hle, hdel⟩ | ⟨hidle, -⟩
    · have hle' := hs.le_next
      have heq : wrap e' = wrap e := hrep.expected.symm.trans hs.recv.expected
      obtain rfl := Serial.wrap_inj heq (by omega) (by omega)
      exact Or.inl ⟨sv, hs, hdel⟩
    · exact absurd hs.recv hidle.not_rep
  · rcases hg with ⟨e', hrep, -⟩ | hg
    · exact absurd hrep hidle.not_rep
    · exact Or.inr hg

theorem InStep.got (hs : InStep 1 log sw rw h e) (hd : Delivered 1 log rw e out) :
    Got log rw out :=
  Or.inl ⟨e, hs.recv, hs.base_le.trans hs.head_le, hs.le_next, hd⟩

/-- A push of the peer. -/
theorem Got.push (hg : Got log rw out) (hd : Dir log sw rw given h e)
    (hsmall : log.length < 2 ^ 30) (m : Message) : Got (log ++ [m]) rw out := by
  rcases hg.inStep hd hsmall with ⟨sv, hs, hdel⟩ | hidle
  · left
    refine ⟨e, hs.recv, hs.base_le.trans hs.head_le, ?_, hdel.push hs m⟩
    have hle := hs.le_next
    rw [List.length_append]
    omega
  · exact Or.inr hidle

/-- Unreliable slots beside the others. -/
theorem Delivered.unreliable (hd : Delivered 1 log rw e out) (highest : UInt32) (has : Bool)
    {imm : List RecvSlot} (himm : ∀ s ∈ imm, ¬ Reliable s.deliveryMode) :
    Delivered 1 log (rw.mark highest has) e (out ++ imm) := by
  have hnone : ∀ f : UInt8 → Bool, (∀ mode, f mode = true → Reliable mode) →
      (imm.filter fun s => f s.deliveryMode) = [] := fun f hf =>
    List.filter_eq_nil_iff.2 fun s hs hmode => himm s hs (hf _ hmode)
  refine ⟨?_, ?_⟩
  · rw [List.filter_append, hnone isOrdered fun mode h => Or.inl (of_decide_eq_true h),
      List.append_nil]
    exact hd.ordered
  · rw [List.filter_append, hnone isUnordered fun mode h => Or.inr (of_decide_eq_true h),
      List.append_nil]
    exact hd.unordered

/-- **A DATA packet**, reliable and of the log, or unreliable. -/
theorem Got.onData (hg : Got log rw out) (hd : Dir log sw rw given h e)
    (hsmall : log.length < 2 ^ 30) {pkt : Packet}
    (hpkt : Reliable pkt.hdr.deliveryMode → FromLog 1 log pkt) {maxReady : ℕ}
    (hmax : 0 < maxReady) :
    Got log (rw.onData pkt.hdr pkt.payload maxReady).2.1
      (out ++ (rw.onData pkt.hdr pkt.payload maxReady).2.2) := by
  rcases hg.inStep hd hsmall with ⟨sv, hs, hdel⟩ | ⟨hidle, hout⟩
  · obtain ⟨e', ht⟩ := hs.recv.takes_onData pkt.hdr pkt.payload hmax
    generalize (rw.onData pkt.hdr pkt.payload maxReady).1 = code at ht
    generalize (rw.onData pkt.hdr pkt.payload maxReady).2.1 = w at ht ⊢
    generalize (rw.onData pkt.hdr pkt.payload maxReady).2.2 = ready at ht ⊢
    cases ht with
    | pass code highest has imm out' w' e' hcode himm hdrained =>
      have hs' := hs.mark highest has
      have hdel' := hdel.unreliable highest has fun s hs => (himm s hs).1
      rw [← List.append_assoc]
      exact (hs'.drained hdrained).got (hdel'.drained hs' hdrained)
    | store p out' w' e' hrel hp hp' hseq hnew hdrained =>
      have hs' := hs.arrive hsmall (hpkt hrel) hp hp' hseq
      have hdel' := hdel.arrive hs hsmall (hpkt hrel) hp hp' hseq hnew
      rw [← List.append_assoc]
      exact (hs'.drained hdrained).got (hdel'.drained hs' hdrained)
  · obtain ⟨code, highest, has, imm, hrun, -, himm⟩ := hidle.onData_eq pkt.hdr pkt.payload hmax
    rw [hrun]
    refine Or.inr ⟨hidle.mark_idle highest has, ?_⟩
    exact List.forall_mem_append.2 ⟨hout, fun s hs => (himm s hs).1⟩

/-- Fresh windows have been given nothing. -/
theorem got_fresh {c : UInt32} (hc : IsRingSize c) : Got [] (RecvWindow.fresh c 1) [] := by
  rcases hc.small_or_half with hs | rfl
  · refine Or.inl ⟨1, RecvWindow.fresh_rep hc hs 1, le_rfl, le_rfl, rfl, ?_⟩
    exact List.Perm.nil
  · exact Or.inr ⟨RecvWindow.fresh_idle 1, List.forall_mem_nil _⟩

end Got

section Acts

variable {id : UInt32} {A B C : Party} {ab ba out : List Packet}

/-- What a party has been given has no influence on what it does. -/
theorem Acts.regot (h : Acts id ba A C out) (got : List RecvSlot) :
    ∃ got', Acts id ba { A with got } { C with got := got' } out := by
  induction h generalizing got with
  | refl A => exact ⟨got, .refl _⟩
  | trans _ _ ih₁ ih₂ =>
    obtain ⟨got₁, h₁⟩ := ih₁ got
    obtain ⟨got₂, h₂⟩ := ih₂ got₁
    exact ⟨got₂, .trans h₁ h₂⟩
  | emit A pkt hid htype hack => exact ⟨got, .emit { A with got } pkt hid htype hack⟩
  | push A mode data len nowNs sendWin seq hmode hpush hshort =>
    exact ⟨got, .push { A with got } mode data len nowNs sendWin seq hmode hpush hshort⟩
  | pushUnreliable A mode data len nowNs sendWin seq hmode hpush =>
    exact ⟨got, .pushUnreliable { A with got } mode data len nowNs sendWin seq hmode hpush⟩
  | retransmit A rtt nowNs => exact ⟨got, .retransmit { A with got } rtt nowNs⟩
  | ack A pkt hmem nowNs rtt => exact ⟨got, .ack { A with got } pkt hmem nowNs rtt⟩
  | data A pkt hmem htype => exact ⟨_, .data { A with got } pkt hmem htype⟩

/-- **A linked party is given what its peer has sent, and nothing else.** -/
theorem Acts.got (h : Acts id ba A C out) {got : List RecvSlot} (hl : Link { A with got } B ab ba)
    (hg : Got B.sent A.recv A.got) : Got B.sent C.recv C.got := by
  induction h generalizing ab got with
  | refl | emit | push | pushUnreliable | retransmit | ack => exact hg
  | trans h₁ _ ih₁ ih₂ =>
    obtain ⟨got', h₁'⟩ := h₁.regot got
    exact ih₂ (hl.acts h₁') (ih₁ hl hg)
  | data A pkt hmem htype =>
    obtain ⟨hA, eA, hB, eB, hl⟩ := hl
    exact hg.onData hl.back hl.short' ((hl.fromB pkt hmem).data htype) (by decide)

end Acts

end Rel4u
