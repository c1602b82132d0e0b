import Rel4u.Window.Samples
import Rel4u.Worker.SharedInv

/-!
# Runs of one send window

A run applies to one send window, in any order, everything that is done to send windows: creation,
reset, pushes of any mode and length, acknowledgements with arbitrary fields, and the workers'
retransmission pass. Beside the window and its estimator it keeps a log of the reliable messages
pushed since the last creation or reset, each with the number of times it was sent again and a
record of its round-trip samples. The log is written and never read by the steps.

The window holds the last messages of the log: `Inv r h n` says that the slot of position `p` is the
entry `n - p` places from the end. `Consistent` restates what this means in the terms of the code,
and `consistent_run` gives it for every run.
-/

namespace Rel4u

open Serial (wrap IsRingSize)

/-- A reliable message that was pushed: how often it was sent again, and that number at the time
of each round-trip sample taken of it. -/
structure Sent where
  message : Message
  resent : ℕ
  samples : List ℕ
  deriving DecidableEq, Repr, Inhabited

/-- The message is sent again. -/
def Sent.again (e : Sent) : Sent := { e with resent := e.resent + 1 }

/-- A sample is taken of the message. -/
def Sent.sampled (e : Sent) : Sent := { e with samples := e.samples ++ [e.resent] }

/-- A send window, its estimator and the log of its messages. -/
structure SendRun where
  win : SendWindow
  rtt : Rtt
  log : List Sent
  deriving DecidableEq, Repr

/-- What can be done to a send window. -/
inductive SendOp
  | init (capacity : WindowSize) (initialSeq : UInt32)
  | reset (initialSeq : UInt32)
  | push (mode : UInt8) (data : List UInt8) (len : ℕ) (nowNs : UInt64)
  | ack (ackNum sackMask : UInt32) (nowNs : UInt64)
  | retransmit (nowNs : UInt64)

namespace SendRun

/-- The place in the log of the message under a sequence number of the window. -/
def place (r : SendRun) (seq : UInt32) : ℕ := r.log.length - (r.win.nextSeq - seq).toNat

/-- One operation. -/
def exec (r : SendRun) : SendOp → SendRun
  | .init capacity initialSeq =>
    { r with win := (r.win.init capacity.val initialSeq true).2, log := [] }
  | .reset initialSeq => { r with win := (r.win.reset initialSeq).2, log := [] }
  | .push mode data len nowNs =>
    match r.win.push mode data len nowNs with
    | .error _ => r
    | .ok (win, _) =>
      { r with
        win := win
        log := if Reliable mode then r.log ++ [⟨.ofPush mode data len, 0, []⟩] else r.log }
  | .ack ackNum sackMask nowNs =>
    let (win, rtt) := r.win.onAck ackNum sackMask nowNs r.rtt
    let samples := r.win.onAckSamples ackNum sackMask nowNs r.rtt
    { win := win
      rtt := rtt
      log := samples.foldl (fun log slot => log.modify (r.place slot.seqNum) Sent.sampled) r.log }
  | .retransmit nowNs =>
    let (win, rtt, _) := Rel4u.retransmit r.win r.rtt nowNs 0 (0, 0)
    let expired := r.win.getExpired nowNs r.rtt.getRto 16
    { win := win
      rtt := rtt
      log := expired.foldl
        (fun log i => log.modify (r.place (r.win.slot i).seqNum) Sent.again) r.log }

/-- The window just created. -/
def start (capacity : WindowSize) (initialSeq : UInt32) (rtt : Rtt) : SendRun :=
  { win := ((default : SendWindow).init capacity.val initialSeq true).2, rtt := rtt, log := [] }

/-- A run of operations. -/
def run (r : SendRun) (ops : List SendOp) : SendRun := ops.foldl exec r

/-! ### The invariant -/

/-- A slot of the window and the entry of the log it holds. -/
structure Kept (slot : SendSlot) (e : Sent) : Prop where
  message : slot.message = e.message
  count : slot.retransmitCount = UInt8.ofNat e.resent
  unsampled : slot.acked = false → e.samples = []

/-- **The window holds the positions `h, …, n - 1`, which are the last messages of the log.** -/
structure Inv (r : SendRun) (h n : ℕ) : Prop where
  rep : r.win.Rep h n
  len : n - h ≤ r.log.length
  kept : ∀ p, h ≤ p → p < n → ∃ e, r.log[r.log.length - (n - p)]? = some e ∧ Kept (r.win.cell p) e

theorem getElem?_foldl_modify {α : Type*} (f : α → α) (js : List ℕ) :
    ∀ l : List α, js.Nodup → ∀ i, (js.foldl (fun l j => l.modify j f) l)[i]? =
      if i ∈ js then l[i]?.map f else l[i]? := by
  induction js with
  | nil => intro l _ i; simp
  | cons j js ih =>
    intro l hnd i
    obtain ⟨hj, hnd'⟩ := List.nodup_cons.1 hnd
    rw [List.foldl_cons, ih _ hnd' i, List.getElem?_modify]
    by_cases hi : i ∈ js
    · have hne : j ≠ i := fun h => hj (h ▸ hi)
      simp [hi, hne]
    · by_cases hji : j = i
      · simp [hi, hji]
      · simp [hi, hji, Ne.symm hji]

theorem length_foldl_modify {α β : Type*} (f : α → α) (g : β → ℕ) (l : List β) :
    ∀ log : List α, (l.foldl (fun log x => log.modify (g x) f) log).length = log.length := by
  induction l with
  | nil => exact fun _ => rfl
  | cons x l ih => exact fun log => (ih _).trans (List.length_modify _ _ _)

section Steps

variable {r : SendRun} {h n : ℕ}

theorem inv_fresh {c : UInt32} (hc : IsRingSize c) (hs : c.toNat ≤ 2 ^ 30) (s : UInt32)
    (rtt : Rtt) : Inv ⟨.fresh c s, rtt, []⟩ s.toNat s.toNat where
  rep := SendWindow.fresh_rep hc hs s
  len := by simp
  kept := by intro p h1 h2; omega

theorem place_eq (hr : r.Inv h n) {p : ℕ} (hp : h ≤ p) (hp' : p < n) :
    r.place (r.win.cell p).seqNum = r.log.length - (n - p) := by
  have hb := hr.rep.bound
  have hs := hr.rep.small
  rw [place, hr.rep.next, hr.rep.seqNum p hp hp',
    Serial.toNat_wrap_sub (by omega) (by omega)]

theorem Inv.push (hr : r.Inv h n) (mode : UInt8) (data : List UInt8) (len : ℕ) (nowNs : UInt64) :
    ∃ n', (r.exec (.push mode data len nowNs)).Inv h n' := by
  rw [exec]
  cases hpush : r.win.push mode data len nowNs with
  | error e => exact ⟨n, hr⟩
  | ok res =>
    obtain ⟨win, seq⟩ := res
    dsimp only
    by_cases hmode : Reliable mode
    · obtain ⟨hlen, hc, rfl⟩ := SendWindow.push_reliable hmode hpush
      have hn := hr.rep.canSend_iff.1 hc
      have hle := hr.rep.le
      have hl := hr.len
      rw [if_pos hmode]
      refine ⟨n + 1, hr.rep.push_rep hmode data hlen nowNs hc, ?_, ?_⟩
      · simp only [List.length_append, List.length_singleton]
        omega
      · intro p hp hp'
        simp only [List.length_append, List.length_singleton]
        rw [hr.rep.cell_pushed mode data len nowNs hp (by omega) hn]
        by_cases hpn : p = n
        · -- the new position is the last entry
          refine ⟨⟨.ofPush mode data len, 0, []⟩, ?_, ?_⟩
          · rw [List.getElem?_append_right (by omega)]
            simp [hpn]
          · rw [if_pos hpn]
            exact ⟨message_pushedSlot _ mode data hlen nowNs, rfl, fun _ => rfl⟩
        · obtain ⟨e, he, hk⟩ := hr.kept p hp (by omega)
          have hidx : r.log.length + 1 - (n + 1 - p) = r.log.length - (n - p) := by omega
          rw [if_neg hpn, hidx, List.getElem?_append_left (by omega)]
          exact ⟨e, he, hk⟩
    · rw [if_neg hmode, SendWindow.push_unreliable hmode hpush]
      exact ⟨n, ⟨hr.rep.1, hr.rep.2, hr.rep.3, hr.rep.4, hr.rep.5, hr.rep.6, hr.rep.7, hr.rep.8,
        hr.rep.9, hr.rep.10, hr.rep.11, hr.rep.12⟩, hr.len, hr.kept⟩

/-! ### Acknowledgements -/

/-- **What an acknowledgement does to the log**: the entries of the positions it samples. -/
theorem Inv.log_ack (hr : r.Inv h n) (ackNum sackMask : UInt32) (nowNs : UInt64) :
    ∃ ps : List ℕ,
      (∀ p, p ∈ ps ↔ (h ≤ p ∧ p < n) ∧
        (p < SendWindow.cumTo ackNum h n ∨ SendWindow.Sacks ackNum sackMask p) ∧
        r.win.Fresh nowNs p) ∧
      (r.exec (.ack ackNum sackMask nowNs)).log.length = r.log.length ∧
      ∀ i, (r.exec (.ack ackNum sackMask nowNs)).log[i]? =
        if ∃ p ∈ ps, i = r.log.length - (n - p) then r.log[i]?.map Sent.sampled
        else r.log[i]? := by
  obtain ⟨ps, hnd, hlist, hmem⟩ := hr.rep.onAckSamples_lists ackNum sackMask nowNs r.rtt
  have hl := hr.len
  have hlog : (r.exec (.ack ackNum sackMask nowNs)).log =
      (ps.map fun p => r.log.length - (n - p)).foldl
        (fun log j => log.modify j Sent.sampled) r.log := by
    show (r.win.onAckSamples ackNum sackMask nowNs r.rtt).foldl _ r.log = _
    rw [hlist, List.foldl_map, List.foldl_map]
    apply List.foldl_ext
    intro log p hp
    obtain ⟨⟨h1, h2⟩, -⟩ := (hmem p).1 hp
    rw [place_eq hr h1 h2]
  have hnodup : (ps.map fun p => r.log.length - (n - p)).Nodup := by
    apply hnd.map_on
    intro p hp q hq heq
    obtain ⟨⟨h1, h2⟩, -⟩ := (hmem p).1 hp
    obtain ⟨⟨h3, h4⟩, -⟩ := (hmem q).1 hq
    omega
  refine ⟨ps, hmem, ?_, ?_⟩
  · rw [hlog]
    exact length_foldl_modify Sent.sampled id _ r.log
  · intro i
    rw [hlog, getElem?_foldl_modify _ _ _ hnodup]
    simp only [List.mem_map, eq_comm (a := i)]

theorem Inv.ack (hr : r.Inv h n) (ackNum sackMask : UInt32) (nowNs : UInt64) :
    (r.exec (.ack ackNum sackMask nowNs)).Inv (SendWindow.cumTo ackNum h n) n := by
  obtain ⟨ps, hps, hlen, hlog⟩ := hr.log_ack ackNum sackMask nowNs
  obtain ⟨hrep, -, hcell⟩ := hr.rep.onAck_rep ackNum sackMask nowNs r.rtt
  have hge := SendWindow.cumTo_ge ackNum hr.rep.le
  have hl := hr.len
  refine ⟨hrep, by rw [hlen]; omega, fun p hp hp' => ?_⟩
  have hb := hr.rep.bound
  obtain ⟨e, he, hk⟩ := hr.kept p (by omega) hp'
  have hwin : (r.exec (.ack ackNum sackMask nowNs)).win.cell p =
      if SendWindow.Sacks ackNum sackMask p then (r.win.cell p).ack else r.win.cell p := by
    have h1 := hcell p (by omega) (by omega)
    rw [if_neg (by omega)] at h1
    simp only [hp', true_and] at h1
    exact h1
  rw [hwin, hlen, hlog]
  -- a sampled entry is that of a position now acknowledged
  by_cases hin : ∃ q ∈ ps, r.log.length - (n - p) = r.log.length - (n - q)
  · obtain ⟨q, hq, hidx⟩ := hin
    obtain ⟨⟨h1, h2⟩, hacked, -⟩ := (hps q).1 hq
    have hqp : q = p := by omega
    subst hqp
    have hsack : SendWindow.Sacks ackNum sackMask q := hacked.resolve_left (by omega)
    rw [if_pos ⟨q, hq, rfl⟩, he, if_pos hsack]
    exact ⟨e.sampled, rfl, hk.message, hk.count, fun hf => by simp [SendSlot.ack] at hf⟩
  · rw [if_neg hin]
    refine ⟨e, he, ?_⟩
    split
    · exact ⟨hk.message, hk.count, fun hf => by simp [SendSlot.ack] at hf⟩
    · exact hk

/-! ### Retransmission -/

/-- One slot sent again, with its entry. -/
theorem Inv.again (hr : r.Inv h n) {q : ℕ} (hq : h ≤ q) (hq' : q < n) (nowNs : UInt64) :
    Inv ⟨r.win.resend nowNs (q % r.win.slots.length), r.rtt,
      r.log.modify (r.log.length - (n - q)) Sent.again⟩ h n := by
  have hl := hr.len
  refine ⟨hr.rep.resend_rep nowNs _, by simpa using hl, fun p hp hp' => ?_⟩
  obtain ⟨e, he, hk⟩ := hr.kept p hp hp'
  have hcell := hr.rep.cell_resend_mod hp hp' hq hq' nowNs
  simp only [List.length_modify, List.getElem?_modify]
  by_cases hpq : p = q
  · subst hpq
    rw [he, hcell, if_pos rfl]
    refine ⟨e.again, by simp, hk.message, ?_, hk.unsampled⟩
    show (r.win.cell p).retransmitCount + 1 = UInt8.ofNat (e.resent + 1)
    rw [hk.count]
    exact (UInt8.ofNat_add e.resent 1).symm
  · have hidx : r.log.length - (n - q) ≠ r.log.length - (n - p) := by omega
    rw [he, hcell, if_neg hpq]
    exact ⟨e, by simp [hidx], hk⟩

/-- Any slots of the window sent again, with their entries. -/
theorem Inv.foldl_again (nowNs : UInt64) (place : ℕ → ℕ) (l : List ℕ) :
    ∀ {r : SendRun}, r.Inv h n →
      (∀ i ∈ l, ∃ q, (h ≤ q ∧ q < n) ∧ i = q % r.win.slots.length ∧
        place i = r.log.length - (n - q)) →
      Inv ⟨l.foldl (fun win i => win.resend nowNs i) r.win, r.rtt,
        l.foldl (fun log i => log.modify (place i) Sent.again) r.log⟩ h n := by
  induction l with
  | nil => exact fun hr _ => hr
  | cons i l ih =>
    intro r hr hl
    obtain ⟨q, ⟨hq, hq'⟩, hi, hplace⟩ := hl i List.mem_cons_self
    have hstep := hr.again hq hq' nowNs
    rw [← hi, ← hplace] at hstep
    apply ih hstep
    intro j hj
    obtain ⟨p, hp, hj1, hj2⟩ := hl j (List.mem_cons_of_mem i hj)
    exact ⟨p, hp, by simpa [SendWindow.resend] using hj1, by simpa using hj2⟩

theorem Inv.retransmit (hr : r.Inv h n) (nowNs : UInt64) :
    (r.exec (.retransmit nowNs)).Inv h n := by
  have hfold := Inv.foldl_again nowNs (fun i => r.place (r.win.slot i).seqNum)
    (r.win.getExpired nowNs r.rtt.getRto 16) hr (by
      intro i hi
      obtain ⟨q, hq, hq', hiq, -⟩ := hr.rep.mem_getExpired hi
      refine ⟨q, ⟨hq, hq'⟩, hiq, ?_⟩
      rw [hiq, SendWindow.slot_mod]
      exact place_eq hr hq hq')
  rw [exec, Rel4u.retransmit]
  dsimp only
  split
  · exact ⟨hfold.rep, hfold.len, hfold.kept⟩
  · next hnone =>
    have hempty : r.win.getExpired nowNs r.rtt.getRto 16 = [] :=
      List.length_eq_zero_iff.1 (by omega)
    rw [hempty]
    exact hr

/-- **Every operation keeps the invariant.** -/
theorem Inv.exec (hr : r.Inv h n) (op : SendOp) : ∃ h' n', (r.exec op).Inv h' n' := by
  cases op with
  | init c s =>
    refine ⟨s.toNat, s.toNat, ?_⟩
    rw [SendRun.exec, SendWindow.init_eq_fresh c.ring]
    exact inv_fresh c.ring c.small s r.rtt
  | reset s =>
    refine ⟨s.toNat, s.toNat, ?_⟩
    rw [SendRun.exec, hr.rep.reset_eq]
    exact inv_fresh hr.rep.ring hr.rep.small s r.rtt
  | push mode data len nowNs => exact ⟨h, hr.push mode data len nowNs⟩
  | ack ackNum sackMask nowNs => exact ⟨_, n, hr.ack ackNum sackMask nowNs⟩
  | retransmit nowNs => exact ⟨h, n, hr.retransmit nowNs⟩

end Steps

theorem inv_start (c : WindowSize) (s : UInt32) (rtt : Rtt) :
    (start c s rtt).Inv s.toNat s.toNat := by
  rw [start, SendWindow.init_eq_fresh c.ring]
  exact inv_fresh c.ring c.small s rtt

theorem inv_run (ops : List SendOp) :
    ∀ {r : SendRun}, (∃ h n, r.Inv h n) → ∃ h n, (r.run ops).Inv h n := by
  induction ops with
  | nil => exact id
  | cons op ops ih =>
    rintro r ⟨h, n, hr⟩
    exact ih (hr.exec op)

/-! ### The invariant in the terms of the code -/

/-- `next_seq - head_seq`. -/
def span (w : SendWindow) : ℕ := (w.nextSeq - w.headSeq).toNat

/-- The `i`-th sequence number of the window. -/
def seqAt (w : SendWindow) (i : ℕ) : UInt32 := w.headSeq + UInt32.ofNat i

/-- The slot of the `i`-th sequence number. -/
def slotAt (w : SendWindow) (i : ℕ) : SendSlot := w.slot (w.slotIdx (seqAt w i))

/-- **What holds of a send window at all times.** -/
structure Consistent (r : SendRun) : Prop where
  /-- The range of sequence numbers is no wider than the ring. -/
  narrow : span r.win ≤ r.win.capacity.toNat
  /-- Each number of the range is in use in its slot, and no two share a slot. -/
  own : ∀ i < span r.win,
    (slotAt r.win i).inUse = true ∧ (slotAt r.win i).seqNum = seqAt r.win i
  apart : ∀ i < span r.win, ∀ j < span r.win,
    r.win.slotIdx (seqAt r.win i) = r.win.slotIdx (seqAt r.win j) → i = j
  /-- `in_flight` counts the unacknowledged ones. -/
  flight : r.win.inFlight.toNat =
    ((Finset.range (span r.win)).filter fun i => (slotAt r.win i).acked = false).card
  /-- An acknowledgement decrements it once for every slot that it marks. -/
  decrements : ∀ (ackNum sackMask : UInt32) (nowNs : UInt64) (rtt : Rtt),
    let w' := (r.win.onAck ackNum sackMask nowNs rtt).1
    w'.inFlight.toNat + ((Finset.range (span r.win)).filter fun i =>
      (slotAt r.win i).acked = false ∧
        (w'.slot (r.win.slotIdx (seqAt r.win i))).acked = true).card = r.win.inFlight.toNat
  /-- `can_send` compares the range with the ring, and then a push succeeds. -/
  canSend : r.win.canSend = true ↔ span r.win < r.win.capacity.toNat
  accepts : r.win.canSend = true → ∀ (mode : UInt8) (data : List UInt8) (len : ℕ)
    (nowNs : UInt64), Reliable mode → len ≤ maxPayloadSize →
      ∃ w' seq, r.win.push mode data len nowNs = .ok (w', seq)
  /-- The slots hold the last messages pushed. -/
  contents : span r.win ≤ r.log.length ∧ ∀ i < span r.win,
    (r.log[r.log.length - span r.win + i]?).map Sent.message = some (slotAt r.win i).message

section Restate

variable {r : SendRun} {w : SendWindow} {h n : ℕ}

theorem span_eq (hw : w.Rep h n) : span w = n - h := hw.fuel_eq

theorem seqAt_eq (hw : w.Rep h n) (i : ℕ) : seqAt w i = wrap (h + i) := by
  rw [seqAt, hw.head, Serial.wrap_add]
  rfl

theorem slotIdx_seqAt (hw : w.Rep h n) (i : ℕ) :
    w.slotIdx (seqAt w i) = (h + i) % w.slots.length := by
  rw [seqAt_eq hw, hw.slotIdx]

theorem slotAt_eq (hw : w.Rep h n) (i : ℕ) : slotAt w i = w.cell (h + i) := by
  rw [slotAt, slotIdx_seqAt hw, SendWindow.slot_mod]

/-- Counting over the range of the window, from its head. -/
theorem card_filter_range (P : ℕ → Prop) [DecidablePred P] (h n : ℕ) :
    ((Finset.range (n - h)).filter fun i => P (h + i)).card =
      ((Finset.Ico h n).filter P).card := by
  apply Finset.card_nbij' (fun i => h + i) (fun p => p - h)
  · intro i hi
    simp only [Finset.coe_filter, Finset.mem_range, Finset.mem_Ico, Set.mem_ofPred_eq] at hi ⊢
    exact ⟨⟨by omega, by omega⟩, hi.2⟩
  · intro p hp
    simp only [Finset.coe_filter, Finset.mem_range, Finset.mem_Ico, Set.mem_ofPred_eq] at hp ⊢
    have hph : h + (p - h) = p := by omega
    exact ⟨by omega, by rw [hph]; exact hp.2⟩
  · intro i _
    exact Nat.add_sub_cancel_left h i
  · intro p hp
    simp only [Finset.coe_filter, Finset.mem_Ico, Set.mem_ofPred_eq] at hp
    exact Nat.add_sub_cancel' hp.1.1

/-- An acknowledgement takes off `inFlight` what it marks. -/
theorem inFlight_onAck (hw : w.Rep h n) (ackNum sackMask : UInt32) (nowNs : UInt64) (rtt : Rtt) :
    let w' := (w.onAck ackNum sackMask nowNs rtt).1
    w'.inFlight.toNat + ((Finset.Ico h n).filter fun p =>
      (w.cell p).acked = false ∧ (w'.cell p).acked = true).card = w.inFlight.toNat := by
  intro w'
  obtain ⟨hrep, -, hcell⟩ := hw.onAck_rep ackNum sackMask nowNs rtt
  have hb := hw.bound
  have hge := SendWindow.cumTo_ge ackNum hw.le
  have hrest : w'.unacked (SendWindow.cumTo ackNum h n) n =
      (w.unacked h n).filter fun p => ¬ (w'.cell p).acked = true := by
    ext p
    simp only [SendWindow.mem_unacked, Finset.mem_filter, Bool.not_eq_true]
    constructor
    · rintro ⟨⟨h1, h2⟩, h3⟩
      refine ⟨⟨⟨by omega, h2⟩, ?_⟩, h3⟩
      rw [hcell p (by omega) (by omega), if_neg (by omega)] at h3
      split at h3
      · exact absurd h3 (by simp [SendSlot.ack])
      · exact h3
    · rintro ⟨⟨⟨h1, h2⟩, -⟩, h3⟩
      refine ⟨⟨?_, h2⟩, h3⟩
      by_contra hlt
      rw [hcell p h1 (by omega), if_pos (by omega)] at h3
      exact absurd h3 (by simp [SendSlot.ack, SendSlot.unuse])
  have hnew : ((Finset.Ico h n).filter fun p =>
      (w.cell p).acked = false ∧ (w'.cell p).acked = true) =
      (w.unacked h n).filter fun p => (w'.cell p).acked = true := by
    rw [SendWindow.unacked, Finset.filter_filter]
  rw [hrep.flight, hw.flight, hrest, hnew, Nat.add_comm]
  exact Finset.card_filter_add_card_filter_not _

theorem Inv.consistent (hr : r.Inv h n) : r.Consistent := by
  have hw := hr.rep
  have hb := hw.bound
  have hle := hw.le
  have hl := hr.len
  have hspan := span_eq hw
  refine ⟨by omega, ?_, ?_, ?_, ?_, ?_, ?_, by omega, ?_⟩
  · intro i hi
    rw [slotAt_eq hw, seqAt_eq hw]
    exact ⟨hw.inUse _ (by omega) (by omega), hw.seqNum _ (by omega) (by omega)⟩
  · intro i hi j hj hij
    rw [slotIdx_seqAt hw, slotIdx_seqAt hw, hw.len] at hij
    have heq := Ring.eq_of_mod_eq (e := h) hij (by omega) (by omega) (by omega) (by omega)
    omega
  · simp only [hspan, slotAt_eq hw, hw.flight]
    exact (card_filter_range (fun p => (r.win.cell p).acked = false) h n).symm
  · intro ackNum sackMask nowNs rtt w'
    obtain ⟨hrep, hcap, -⟩ := hw.onAck_rep ackNum sackMask nowNs rtt
    have hlen : r.win.slots.length = w'.slots.length := by rw [hw.len, hrep.len, hcap]
    have hafter : ∀ i, w'.slot (r.win.slotIdx (seqAt r.win i)) = w'.cell (h + i) := by
      intro i
      rw [slotIdx_seqAt hw, hlen, SendWindow.slot_mod]
    simp only [hspan, slotAt_eq hw, hafter]
    rw [card_filter_range
      (fun p => (r.win.cell p).acked = false ∧ (w'.cell p).acked = true) h n]
    exact inFlight_onAck hw ackNum sackMask nowNs rtt
  · rw [hw.canSend_iff, hspan]
    omega
  · intro hc mode data len nowNs hmode hlen
    exact ⟨_, _, SendWindow.push_eq_pushed hlen hmode hc⟩
  · intro i hi
    obtain ⟨e, he, hk⟩ := hr.kept (h + i) (by omega) (by omega)
    have hidx : r.log.length - span r.win + i = r.log.length - (n - (h + i)) := by omega
    rw [hidx, he, slotAt_eq hw, Option.map_some, hk.message]

end Restate

/-- **The send window is consistent in every run**, whatever the acknowledgements say. -/
theorem consistent_run (c : WindowSize) (s : UInt32) (rtt : Rtt) (ops : List SendOp) :
    ((start c s rtt).run ops).Consistent := by
  obtain ⟨h, n, hr⟩ := inv_run ops ⟨_, _, inv_start c s rtt⟩
  exact hr.consistent

end SendRun

end Rel4u
