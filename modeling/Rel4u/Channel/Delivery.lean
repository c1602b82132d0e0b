import Rel4u.Channel.InStep

/-!
# What has been delivered

`Delivered base log rw e out` says which messages of the log the slots `out`, handed out so far,
are: the ordered ones among them are the ordered messages of the log before position `e`, in the
log's order; the unordered ones are, up to their order, the unordered messages at the accepted
positions, one slot each, under their own sequence numbers.

`InStep.onData` is the one lemma about the worker's handling of a DATA packet.
-/

namespace Rel4u

open Serial (wrap)

/-- The mode byte is that of reliable ordered delivery. -/
def isOrdered (mode : UInt8) : Bool := decide (mode = DeliveryMode.reliableOrdered.code)

/-- The mode byte is that of reliable unordered delivery. -/
def isUnordered (mode : UInt8) : Bool := decide (mode = DeliveryMode.reliableUnordered.code)

theorem isUnordered_of_isOrdered {mode : UInt8} (h : isOrdered mode = true) :
    isUnordered mode = false := by
  rw [isOrdered, decide_eq_true_eq] at h
  rw [h]
  rfl

/-- Message `k` of the log is unordered and its position has been accepted. -/
def unorderedAt (base : ℕ) (log : List Message) (rw : RecvWindow) (e k : ℕ) : Bool :=
  decide (rw.Accepted e (base + k)) && isUnordered (log.getD k default).mode

/-- The unordered messages of the log at accepted positions, with their sequence numbers. -/
def unorderedAccepted (base : ℕ) (log : List Message) (rw : RecvWindow) (e : ℕ) :
    List (UInt32 × Message) :=
  ((List.range log.length).filter (unorderedAt base log rw e)).map
    fun k => (wrap (base + k), log.getD k default)

/-- **The messages of the log that `out` has delivered.** -/
structure Delivered (base : ℕ) (log : List Message) (rw : RecvWindow) (e : ℕ)
    (out : List RecvSlot) : Prop where
  ordered : (out.filter fun s => isOrdered s.deliveryMode).map RecvSlot.message =
    (log.take (e - base)).filter fun m => isOrdered m.mode
  unordered : ((out.filter fun s => isUnordered s.deliveryMode).map
    fun s => (s.seqNum, s.message)).Perm (unorderedAccepted base log rw e)

section Lemmas

variable {base : ℕ} {log : List Message} {sw : SendWindow} {rw rw' : RecvWindow} {h e e' : ℕ}
  {out out' : List RecvSlot}

/-- Only accepted positions and the log matter to the unordered part. -/
theorem unorderedAccepted_congr
    (hacc : ∀ k < log.length, rw'.Accepted e' (base + k) ↔ rw.Accepted e (base + k)) :
    unorderedAccepted base log rw' e' = unorderedAccepted base log rw e := by
  unfold unorderedAccepted
  congr 1
  refine List.filter_congr fun k hk => ?_
  rw [List.mem_range] at hk
  simp only [unorderedAt, hacc k hk]

theorem Delivered.push (hs : InStep base log sw rw h e) (hd : Delivered base log rw e out)
    (m : Message) : Delivered base (log ++ [m]) rw e out := by
  have hle := hs.le_next
  have hb := hs.base_le
  have hh := hs.head_le
  have hnew : ¬ rw.Accepted e (base + log.length) := fun ha => by
    have := hs.accepted_lt ha
    omega
  refine ⟨?_, ?_⟩
  · rw [hd.ordered, List.take_append_of_le_length (by omega)]
  · -- the new entry's position is not accepted, and the old entries keep their indices
    have heq : unorderedAccepted base (log ++ [m]) rw e = unorderedAccepted base log rw e := by
      have hget : ∀ k < log.length, (log ++ [m]).getD k default = log.getD k default := by
        intro k hk
        simp only [List.getD_eq_getElem?_getD, List.getElem?_append_left hk]
      unfold unorderedAccepted
      rw [List.length_append, List.length_singleton, List.range_succ, List.filter_append]
      have hlast : [log.length].filter (unorderedAt base (log ++ [m]) rw e) = [] := by
        simp [unorderedAt, hnew]
      rw [hlast, List.append_nil]
      have hf : (List.range log.length).filter (unorderedAt base (log ++ [m]) rw e) =
          (List.range log.length).filter (unorderedAt base log rw e) := by
        refine List.filter_congr fun k hk => ?_
        rw [unorderedAt, unorderedAt, hget k (List.mem_range.1 hk)]
      rw [hf]
      refine List.map_congr_left fun k hk => ?_
      rw [hget k (List.mem_range.1 (List.mem_filter.1 hk).1)]
    rw [heq]
    exact hd.unordered

/-- The ordered slots of a drained range are the ordered messages of the log there. -/
theorem InStep.orderedSlots_eq (hs : InStep base log sw rw h e) {e' : ℕ} (hle : e ≤ e')
    (hr : ∀ p, e ≤ p → p < e' → p < e + rw.capacity.toNat ∧ (rw.cell p).received = true) :
    (rw.orderedSlots e e').map RecvSlot.message =
      ((log.drop (e - base)).take (e' - e)).filter fun m => isOrdered m.mode := by
  have hb := hs.base_le
  have hh := hs.head_le
  induction e', hle using Nat.le_induction with
  | base => simp [RecvWindow.orderedSlots]
  | succ k hk ih =>
    obtain ⟨hin, hrec⟩ := hr k hk (Nat.lt_succ_self k)
    obtain ⟨m, hm, hmode, hmsg⟩ := hs.held k hk hin hrec
    rw [RecvWindow.orderedSlots_append rw hk (Nat.le_succ k), List.map_append,
      ih fun p hp hp' => hr p hp (by omega), show k + 1 - e = (k - e) + 1 by omega,
      List.take_add_one, List.filter_append, List.getElem?_drop,
      show e - base + (k - e) = k - base by omega, hm, RecvWindow.orderedSlots_one]
    congr 1
    by_cases ho : (rw.cell k).deliveryMode = DeliveryMode.reliableOrdered.code
    · rw [if_pos ho]
      have hmo : m.mode = DeliveryMode.reliableOrdered.code := hmode.trans ho
      rw [List.map_singleton, ← hmsg hmo]
      simp [isOrdered, hmo]
    · rw [if_neg ho]
      simp [isOrdered, hmode, ho]

theorem isOrdered_of_mem_orderedSlots {s : RecvSlot} (hmem : s ∈ rw.orderedSlots e e') :
    isOrdered s.deliveryMode = true := by
  simpa [isOrdered, RecvWindow.orderedSlots] using (List.mem_filter.1 hmem).2

/-- Draining delivers the ordered messages it passes. -/
theorem Delivered.drained (hs : InStep base log sw rw h e) (hd : Delivered base log rw e out)
    (hdr : RecvWindow.Drained rw e rw' e' out') : Delivered base log rw' e' (out ++ out') := by
  have hb := hs.base_le
  have hh := hs.head_le
  have hle := hdr.le
  have hall : ∀ s ∈ out', isOrdered s.deliveryMode = true := by
    rw [hdr.out_eq]; exact fun s hs' => isOrdered_of_mem_orderedSlots hs'
  refine ⟨?_, ?_⟩
  · rw [List.filter_append, List.map_append, hd.ordered, List.filter_eq_self.2 hall, hdr.out_eq,
      hs.orderedSlots_eq hle hdr.received, ← List.filter_append]
    congr 1
    rw [show e' - base = (e - base) + (e' - e) by omega, List.take_add]
  · have hnone : (out'.filter fun s => isUnordered s.deliveryMode) = [] := by
      rw [List.filter_eq_nil_iff]
      intro s hs'
      simp [isUnordered_of_isOrdered (hall s hs')]
    rw [List.filter_append, hnone, List.append_nil,
      unorderedAccepted_congr fun k _ => hdr.accepted_iff (base + k)]
    exact hd.unordered

/-- Adding one index to a filter of distinct indices adds it to the list, up to order. -/
theorem filter_or_eq_perm {l : List ℕ} (hl : l.Nodup) {k : ℕ} (hk : k ∈ l) {f g : ℕ → Bool}
    (hf : f k = false) (hg : ∀ j, g j = true ↔ j = k ∨ f j = true) :
    (l.filter g).Perm (k :: l.filter f) := by
  have hnot : k ∉ l.filter f := by
    intro hmem
    have := (List.mem_filter.1 hmem).2
    rw [hf] at this
    exact Bool.noConfusion this
  refine (List.perm_ext_iff_of_nodup (hl.filter g)
    (List.nodup_cons.2 ⟨hnot, hl.filter f⟩)).2 fun j => ?_
  simp only [List.mem_filter, List.mem_cons, hg]
  constructor
  · rintro ⟨h1, h2 | h2⟩
    · exact Or.inl h2
    · exact Or.inr ⟨h1, h2⟩
  · rintro (h1 | ⟨h1, h2⟩)
    · exact ⟨h1 ▸ hk, Or.inl h1⟩
    · exact ⟨h1, Or.inr h2⟩

/-- Storing a new packet delivers it at once if it is unordered. -/
theorem Delivered.arrive (hs : InStep base log sw rw h e) (hd : Delivered base log rw e out)
    (hsmall : log.length < 2 ^ 30) {pkt : Packet} (hpkt : FromLog base log pkt) {p : ℕ}
    (hp : e ≤ p) (hp' : p < e + rw.capacity.toNat) (hseq : pkt.hdr.seqNum = wrap p)
    (hnew : (rw.cell p).received = false) :
    Delivered base log (rw.arrive p pkt.hdr pkt.payload) e
      (out ++ RecvWindow.immediate pkt.hdr pkt.payload) := by
  obtain ⟨hbp, hlog⟩ := hpkt.position hs hsmall hp hp' hseq
  have hlt : p - base < log.length := (List.getElem?_eq_some_iff.1 hlog).1
  have hget : log.getD (p - base) default = pkt.message := by
    rw [List.getD_eq_getElem?_getD, hlog]; rfl
  have hacc := hs.recv.accepted_arrive_iff hp hp' pkt.hdr pkt.payload
  have hpnot : ¬ rw.Accepted e p := by
    rintro (h1 | ⟨-, h1⟩)
    · omega
    · rw [hnew] at h1; exact Bool.noConfusion h1
  by_cases hu : pkt.hdr.deliveryMode = DeliveryMode.reliableUnordered.code
  · have himm : RecvWindow.immediate pkt.hdr pkt.payload =
        [RecvWindow.readySlot pkt.hdr pkt.payload] := if_pos hu
    have hmu : isUnordered pkt.hdr.deliveryMode = true := decide_eq_true hu
    have hmo : isOrdered pkt.hdr.deliveryMode = false := by rw [hu]; rfl
    refine ⟨?_, ?_⟩
    · rw [himm, List.filter_append, List.map_append, hd.ordered]
      simp [RecvWindow.readySlot, hmo]
    · have hg : ∀ k, unorderedAt base log (rw.arrive p pkt.hdr pkt.payload) e k = true ↔
          k = p - base ∨ unorderedAt base log rw e k = true := by
        intro k
        simp only [unorderedAt, Bool.and_eq_true, decide_eq_true_eq, hacc]
        constructor
        · rintro ⟨h1 | h1, h2⟩
          · exact Or.inl (by omega)
          · exact Or.inr ⟨h1, h2⟩
        · rintro (h1 | ⟨h1, h2⟩)
          · refine ⟨Or.inl (by omega), ?_⟩
            rw [h1, hget]
            exact hmu
          · exact ⟨Or.inr h1, h2⟩
      have hf : unorderedAt base log rw e (p - base) = false := by
        rw [unorderedAt, show base + (p - base) = p by omega, decide_eq_false hpnot,
          Bool.false_and]
      have hperm := (filter_or_eq_perm List.nodup_range (List.mem_range.2 hlt) hf hg).map
        fun k => (wrap (base + k), log.getD k default)
      rw [List.map_cons, hget, show base + (p - base) = p by omega, ← hseq] at hperm
      rw [himm, List.filter_append, List.map_append]
      have hone : (([RecvWindow.readySlot pkt.hdr pkt.payload].filter
          fun s => isUnordered s.deliveryMode).map fun s => (s.seqNum, s.message)) =
          [(pkt.hdr.seqNum, pkt.message)] := by
        simp [RecvWindow.readySlot, hmu, RecvSlot.message, Packet.message]
      rw [hone]
      exact (List.perm_append_singleton _ _).trans ((hd.unordered.cons _).trans hperm.symm)
  · have himm : RecvWindow.immediate pkt.hdr pkt.payload = [] := if_neg hu
    refine ⟨by rw [himm, List.append_nil]; exact hd.ordered, ?_⟩
    have heq : unorderedAccepted base log (rw.arrive p pkt.hdr pkt.payload) e =
        unorderedAccepted base log rw e := by
      unfold unorderedAccepted
      congr 1
      refine List.filter_congr fun k hk => ?_
      rw [unorderedAt, unorderedAt]
      by_cases hkp : base + k = p
      · -- the stored packet is not unordered, so its index passes neither filter
        have hk' : k = p - base := by omega
        have : isUnordered (log.getD k default).mode = false := by
          rw [hk', hget]; exact decide_eq_false hu
        rw [this, Bool.and_false, Bool.and_false]
      · simp only [hacc, hkp, false_or]
    rw [himm, List.append_nil, heq]
    exact hd.unordered

/-- **A DATA packet of the log keeps the windows in step and the deliveries exact.** -/
theorem InStep.onData (hs : InStep base log sw rw h e) (hd : Delivered base log rw e out)
    (hsmall : log.length < 2 ^ 30) {pkt : Packet} (hpkt : FromLog base log pkt) {maxReady : ℕ}
    (hmax : 0 < maxReady) :
    ∃ e', e ≤ e' ∧ InStep base log sw (rw.onData pkt.hdr pkt.payload maxReady).2.1 h e' ∧
      Delivered base log (rw.onData pkt.hdr pkt.payload maxReady).2.1 e'
        (out ++ (rw.onData pkt.hdr pkt.payload maxReady).2.2) ∧
      (rw.onData pkt.hdr pkt.payload maxReady).2.1.capacity = rw.capacity ∧
      ∀ p, rw.Accepted e p → (rw.onData pkt.hdr pkt.payload maxReady).2.1.Accepted e' p := by
  have hrel : Reliable pkt.hdr.deliveryMode := by
    obtain ⟨k, hk, -⟩ := hpkt
    exact hs.reliable _ (List.mem_of_getElem? hk)
  rcases hs.recv.onData_cases hrel pkt.payload hmax with
    ⟨code, w', e', out', hrun, hdr, -⟩ | ⟨p, w', e', out', hp, hp', hseq, hnew, hdr, hrun⟩
  · rw [hrun]
    exact ⟨e', hdr.le, hs.drained hdr, hd.drained hs hdr, hdr.cap,
      fun q hq => (hdr.accepted_iff q).2 hq⟩
  · rw [hrun]
    have hs' := hs.arrive hsmall hpkt hp hp' hseq
    have hd' := hd.arrive hs hsmall hpkt hp hp' hseq hnew
    refine ⟨e', hdr.le, hs'.drained hdr, ?_, hdr.cap, fun q hq => ?_⟩
    · have := hd'.drained hs' hdr
      rwa [List.append_assoc] at this
    · exact (hdr.accepted_iff q).2 ((hs.recv.accepted_arrive_iff hp hp' _ _ q).2 (Or.inr hq))

end Lemmas

end Rel4u
