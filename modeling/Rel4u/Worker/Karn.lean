import Rel4u.Worker.SendRun

/-!
# Round-trip samples and retransmission

Karn's rule asks that no round-trip sample is taken of a packet that was sent more than once. The
code encodes it as `retransmit_count == 0`, and the counter has eight bits. So an acknowledgement
breaks the rule exactly when it covers an unacknowledged packet that has been retransmitted a
positive multiple of 256 times: the counter then reads zero. That a packet is sampled at most once
needs no condition, since a slot is sampled when it is first marked and never again.

The samples of the log are those of `onAckSamples`, and the estimator of a run is the result of
exactly these calls of `rel4u_rtt_update_sample`.
-/

namespace Rel4u

namespace SendRun

/-- Each message has been sampled at most once, and before it was ever sent again. -/
def Karn (r : SendRun) : Prop := ∀ e ∈ r.log, e.samples = [] ∨ e.samples = [0]

instance (r : SendRun) : Decidable r.Karn :=
  inferInstanceAs (Decidable (∀ e ∈ r.log, e.samples = [] ∨ e.samples = [0]))

/-- The rule holds in every state of a run. -/
def KarnRun (r : SendRun) : List SendOp → Prop
  | [] => r.Karn
  | op :: ops => r.Karn ∧ (r.exec op).KarnRun ops

/-- Each message has been sampled at most once. -/
def Once (r : SendRun) : Prop := ∀ e ∈ r.log, e.samples.length ≤ 1

/-- An acknowledgement covers the `i`-th number of the window: `ackNum` is at it or beyond, or the
mask has its bit. -/
def Covers (w : SendWindow) (ackNum sackMask : UInt32) (i : ℕ) : Prop :=
  seqDiff w.headSeq ackNum + i ≤ 0 ∨
    ∃ b < 32, sackMask &&& ((1 : UInt32) <<< UInt32.ofNat b) ≠ 0 ∧
      ackNum + 1 + UInt32.ofNat b = seqAt w i

/-- An acknowledgement covers no unacknowledged message that has been sent again a positive multiple
of 256 times, unless the clock is before the first sending. -/
def NoneWrapped (r : SendRun) : SendOp → Prop
  | .ack ackNum sackMask nowNs =>
    ∀ i < span r.win, (slotAt r.win i).acked = false → Covers r.win ackNum sackMask i →
      nowNs ≥ (slotAt r.win i).firstSentTimeNs →
      ∀ e, r.log[r.log.length - span r.win + i]? = some e → ¬ (0 < e.resent ∧ 256 ∣ e.resent)
  | _ => True

/-- No acknowledgement of a run meets a wrapped counter. -/
def NoneWrappedRun (r : SendRun) : List SendOp → Prop
  | [] => True
  | op :: ops => r.NoneWrapped op ∧ (r.exec op).NoneWrappedRun ops

theorem ofNat_eq_zero_iff (k : ℕ) : UInt8.ofNat k = 0 ↔ 256 ∣ k := by
  rw [← UInt8.toNat_inj, UInt8.toNat_ofNat', UInt8.toNat_zero]
  exact Nat.dvd_iff_mod_eq_zero.symm

section Steps

variable {r : SendRun} {h n : ℕ}

theorem samples_push (mode : UInt8) (data : List UInt8) (len : ℕ) (nowNs : UInt64) {e : Sent}
    (he : e ∈ (r.exec (.push mode data len nowNs)).log) :
    e.samples = [] ∨ ∃ e' ∈ r.log, e.samples = e'.samples := by
  rw [exec] at he
  cases hpush : r.win.push mode data len nowNs with
  | error err =>
    rw [hpush] at he
    exact Or.inr ⟨e, he, rfl⟩
  | ok res =>
    rw [hpush] at he
    dsimp only at he
    split at he
    · rcases List.mem_append.1 he with h1 | h1
      · exact Or.inr ⟨e, h1, rfl⟩
      · rw [List.mem_singleton.1 h1]
        exact Or.inl rfl
    · exact Or.inr ⟨e, he, rfl⟩

theorem samples_modify_again (log : List Sent) (j : ℕ) {e : Sent}
    (he : e ∈ log.modify j Sent.again) : ∃ e' ∈ log, e.samples = e'.samples := by
  obtain ⟨i, hi⟩ := List.mem_iff_getElem?.1 he
  rw [List.getElem?_modify] at hi
  obtain ⟨e', he', rfl⟩ := Option.map_eq_some_iff.1 hi
  refine ⟨e', List.mem_of_getElem? he', ?_⟩
  split
  · rfl
  · rfl

theorem samples_foldl_again (place : ℕ → ℕ) (l : List ℕ) : ∀ (log : List Sent) {e : Sent},
    e ∈ l.foldl (fun log i => log.modify (place i) Sent.again) log →
      ∃ e' ∈ log, e.samples = e'.samples := by
  induction l with
  | nil => exact fun log e he => ⟨e, he, rfl⟩
  | cons i l ih =>
    intro log e he
    obtain ⟨e₁, he₁, h₁⟩ := ih _ he
    obtain ⟨e₂, he₂, h₂⟩ := samples_modify_again log (place i) he₁
    exact ⟨e₂, he₂, h₁.trans h₂⟩

/-- Only an acknowledgement takes samples. -/
theorem samples_exec {op : SendOp} (hop : ∀ ackNum sackMask nowNs, op ≠ .ack ackNum sackMask nowNs)
    {e : Sent} (he : e ∈ (r.exec op).log) :
    e.samples = [] ∨ ∃ e' ∈ r.log, e.samples = e'.samples := by
  cases op with
  | init c s => exact absurd he List.not_mem_nil
  | reset s => exact absurd he List.not_mem_nil
  | push mode data len nowNs => exact samples_push mode data len nowNs he
  | ack ackNum sackMask nowNs => exact absurd rfl (hop ackNum sackMask nowNs)
  | retransmit nowNs => exact Or.inr (samples_foldl_again _ _ r.log he)

theorem Karn.exec (hk : r.Karn) {op : SendOp}
    (hop : ∀ ackNum sackMask nowNs, op ≠ .ack ackNum sackMask nowNs) : (r.exec op).Karn := by
  intro e he
  rcases samples_exec hop he with h0 | ⟨e', he', heq⟩
  · exact Or.inl h0
  · rw [heq]
    exact hk e' he'

/-- What an acknowledgement covers, by positions. -/
theorem covers_iff {w : SendWindow} (hw : w.Rep h n) (ackNum sackMask : UInt32) {i : ℕ}
    (hi : i < n - h) :
    Covers w ackNum sackMask i ↔
      h + i < SendWindow.cumTo ackNum h n ∨ SendWindow.Sacks ackNum sackMask (h + i) := by
  rw [Covers, seqAt_eq hw, hw.head]
  refine or_congr ?_ Iff.rfl
  unfold SendWindow.cumTo
  -- `cumTo` stops at `n`, which `i` is before; a head beyond `ackNum` covers nothing
  split_ifs with hd
  · omega
  · omega

/-- The condition on an acknowledgement, by positions. -/
theorem Inv.noneWrapped_iff (hr : r.Inv h n) (ackNum sackMask : UInt32) (nowNs : UInt64) :
    r.NoneWrapped (.ack ackNum sackMask nowNs) ↔
      ∀ p, h ≤ p → p < n → (r.win.cell p).acked = false →
        (p < SendWindow.cumTo ackNum h n ∨ SendWindow.Sacks ackNum sackMask p) →
        nowNs ≥ (r.win.cell p).firstSentTimeNs →
        ∀ e, r.log[r.log.length - (n - p)]? = some e → ¬ (0 < e.resent ∧ 256 ∣ e.resent) := by
  have hw := hr.rep
  have hl := hr.len
  simp only [NoneWrapped, span_eq hw, slotAt_eq hw]
  constructor
  · intro hall p hp hp' hun hack hnow e he
    have hph : h + (p - h) = p := by omega
    have hidx : r.log.length - (n - h) + (p - h) = r.log.length - (n - p) := by omega
    have hi := hall (p - h) (by omega)
    rw [covers_iff hw ackNum sackMask (by omega), hph, hidx] at hi
    exact hi hun hack hnow e he
  · intro hall i hi hun hack hnow e he
    have hidx : r.log.length - (n - h) + i = r.log.length - (n - (h + i)) := by omega
    rw [hidx] at he
    exact hall (h + i) (by omega) (by omega) hun
      ((covers_iff hw ackNum sackMask hi).1 hack) hnow e he

/-- **A message of the log after an acknowledgement is as it was, or has been sampled**: then it
was covered, had no sample, and its counter read zero. -/
theorem Inv.mem_log_ack (hr : r.Inv h n) (ackNum sackMask : UInt32) (nowNs : UInt64) {e : Sent}
    (he : e ∈ (r.exec (.ack ackNum sackMask nowNs)).log) :
    e ∈ r.log ∨ ∃ p e₀, (h ≤ p ∧ p < n) ∧ (r.win.cell p).acked = false ∧
      (p < SendWindow.cumTo ackNum h n ∨ SendWindow.Sacks ackNum sackMask p) ∧
      nowNs ≥ (r.win.cell p).firstSentTimeNs ∧ r.log[r.log.length - (n - p)]? = some e₀ ∧
      256 ∣ e₀.resent ∧ e.samples = [e₀.resent] := by
  obtain ⟨ps, hps, -, hlog⟩ := hr.log_ack ackNum sackMask nowNs
  obtain ⟨i, hi⟩ := List.mem_iff_getElem?.1 he
  rw [hlog] at hi
  split at hi
  · next hin =>
    obtain ⟨p, hp, rfl⟩ := hin
    obtain ⟨hrange, hack, hun, hcount, hnow⟩ := (hps p).1 hp
    obtain ⟨e₀, he₀, hkept⟩ := hr.kept p hrange.1 hrange.2
    rw [he₀, Option.map_some] at hi
    obtain rfl := Option.some.inj hi
    rw [hkept.count, ofNat_eq_zero_iff] at hcount
    refine Or.inr ⟨p, e₀, hrange, hun, hack, hnow, he₀, hcount, ?_⟩
    rw [Sent.sampled, hkept.unsampled hun]
    rfl
  · exact Or.inl (List.mem_of_getElem? hi)

theorem Inv.once_exec (hr : r.Inv h n) (ho : r.Once) (op : SendOp) : (r.exec op).Once := by
  intro e he
  by_cases hop : ∃ ackNum sackMask nowNs, op = .ack ackNum sackMask nowNs
  · obtain ⟨ackNum, sackMask, nowNs, rfl⟩ := hop
    rcases hr.mem_log_ack ackNum sackMask nowNs he with h1 | ⟨p, e₀, -, -, -, -, -, -, h1⟩
    · exact ho e h1
    · rw [h1]
      exact le_rfl
  · push Not at hop
    rcases samples_exec hop he with h0 | ⟨e', he', heq⟩
    · rw [h0]
      exact Nat.zero_le 1
    · rw [heq]
      exact ho e' he'

/-- **A message is sampled at most once**, in every run. -/
theorem once_run (ops : List SendOp) : ∀ {r : SendRun}, (∃ h n, r.Inv h n) → r.Once →
    (r.run ops).Once := by
  induction ops with
  | nil => exact fun _ ho => ho
  | cons op ops ih =>
    rintro r ⟨h, n, hr⟩ ho
    exact ih (hr.exec op) (hr.once_exec ho op)

/-- **An acknowledgement keeps the rule exactly when it meets no wrapped counter.** -/
theorem Inv.karn_ack_iff (hr : r.Inv h n) (hk : r.Karn) (ackNum sackMask : UInt32)
    (nowNs : UInt64) :
    (r.exec (.ack ackNum sackMask nowNs)).Karn ↔ r.NoneWrapped (.ack ackNum sackMask nowNs) := by
  rw [hr.noneWrapped_iff]
  constructor
  · intro hk' p hp hp' hun hack hnow e he ⟨hpos, hdvd⟩
    obtain ⟨ps, hps, -, hlog⟩ := hr.log_ack ackNum sackMask nowNs
    obtain ⟨e₀, he₀, hkept⟩ := hr.kept p hp hp'
    obtain rfl : e₀ = e := Option.some.inj (he₀.symm.trans he)
    have hcount : (r.win.cell p).retransmitCount = 0 := by
      rw [hkept.count]
      exact (ofNat_eq_zero_iff _).2 hdvd
    have hmem : p ∈ ps := (hps p).2 ⟨⟨hp, hp'⟩, hack, hun, hcount, hnow⟩
    -- the entry now has a sample taken after retransmissions
    have hentry := hlog (r.log.length - (n - p))
    rw [if_pos ⟨p, hmem, rfl⟩, he, Option.map_some] at hentry
    have hsamples : e₀.sampled.samples = [e₀.resent] := by
      rw [Sent.sampled, hkept.unsampled hun]
      rfl
    rcases hk' _ (List.mem_of_getElem? hentry) with h0 | h0
    · rw [hsamples] at h0
      exact absurd h0 (by simp)
    · rw [hsamples, List.singleton_inj] at h0
      omega
  · intro hnone e he
    rcases hr.mem_log_ack ackNum sackMask nowNs he with hold |
      ⟨p, e₀, hrange, hun, hack, hnow, he₀, hdvd, hsamples⟩
    · exact hk e hold
    · have hzero : e₀.resent = 0 := by
        by_contra hne
        exact hnone p hrange.1 hrange.2 hun hack hnow e₀ he₀ ⟨Nat.pos_of_ne_zero hne, hdvd⟩
      rw [hsamples, hzero]
      exact Or.inr rfl

theorem Inv.karn_exec_iff (hr : r.Inv h n) (hk : r.Karn) (op : SendOp) :
    (r.exec op).Karn ↔ r.NoneWrapped op := by
  cases op with
  | ack ackNum sackMask nowNs => exact hr.karn_ack_iff hk ackNum sackMask nowNs
  | init | reset | push | retransmit =>
    exact iff_of_true (hk.exec fun _ _ _ => SendOp.noConfusion) trivial

theorem karnRun_iff_of_inv (ops : List SendOp) : ∀ {r : SendRun}, (∃ h n, r.Inv h n) → r.Karn →
    (r.KarnRun ops ↔ r.NoneWrappedRun ops) := by
  induction ops with
  | nil => exact fun _ hk => iff_of_true hk trivial
  | cons op ops ih =>
    rintro r ⟨h, n, hr⟩ hk
    have hstep := hr.karn_exec_iff hk op
    constructor
    · rintro ⟨-, hrun⟩
      have hk' : (r.exec op).Karn := by
        cases ops with
        | nil => exact hrun
        | cons op' ops => exact hrun.1
      exact ⟨hstep.1 hk', (ih (hr.exec op) hk').1 hrun⟩
    · rintro ⟨hnone, hrun⟩
      have hk' := hstep.2 hnone
      exact ⟨hk, (ih (hr.exec op) hk').2 hrun⟩

end Steps

/-- **Karn's rule holds throughout a run exactly when no acknowledgement of the run covers a packet
whose counter has wrapped to zero.** In every run a packet is sampled at most once; and what an
acknowledgement makes of the estimator is the result of the samples recorded of it. -/
theorem karnRun_iff (c : WindowSize) (s : UInt32) (rtt : Rtt) (ops : List SendOp) :
    ((start c s rtt).KarnRun ops ↔ (start c s rtt).NoneWrappedRun ops) ∧
      (∀ e ∈ ((start c s rtt).run ops).log, e.samples.length ≤ 1) ∧
      ∀ (ackNum sackMask : UInt32) (nowNs : UInt64),
        (((start c s rtt).run ops).exec (.ack ackNum sackMask nowNs)).rtt =
          (((start c s rtt).run ops).win.onAckSamples ackNum sackMask nowNs
            ((start c s rtt).run ops).rtt).foldl (SendWindow.sample nowNs)
              ((start c s rtt).run ops).rtt := by
  have hstart : ∃ h n, (start c s rtt).Inv h n := ⟨_, _, inv_start c s rtt⟩
  refine ⟨karnRun_iff_of_inv ops hstart ?_, once_run ops hstart ?_, ?_⟩
  · exact fun _ he => absurd he List.not_mem_nil
  · exact fun _ he => absurd he List.not_mem_nil
  · intro ackNum sackMask nowNs
    exact SendWindow.onAck_rtt _ ackNum sackMask nowNs _

/-- The smallest window. -/
def smallest : WindowSize where
  val := 2
  ring := ⟨1, le_rfl, rfl⟩
  small := by decide

/-- One message, sent again 256 times at intervals of ten seconds and then acknowledged. -/
def wrappedOps : List SendOp :=
  .push 3 [] 0 0 :: (List.range 256).map (fun k => .retransmit (10000000000 * UInt64.ofNat (k + 1)))
    ++ [.ack 1 0 2580000000000]

/-- **The counter wraps**: the message is sampled although it was sent 257 times. -/
theorem sampled_after_retransmissions :
    ((start smallest 1 .default).run wrappedOps).log.map (fun e => (e.resent, e.samples)) =
      [(256, [256])] ∧
    ¬ ((start smallest 1 .default).run wrappedOps).Karn := by
  decide +kernel

end SendRun

end Rel4u
