import Rel4u.Session.Table
import Rel4u.Window.Reclaim
import Rel4u.Window.RecvInv

/-!
# The session table's invariant

`Inv t w` says what every table of window size `w` keeps: `activeCount` counts the occupied slots,
slot `i` carries the id `i`, occupied slots have different addresses, and every slot has a usable
send window of the table's size. It is stated for tables of at most `2 ^ 31` slots, for which the
`int32_t` of `rel4u_session_allocate` is large enough.

The server changes a table in three ways: it updates one session (`Inv.setSlot`), frees one
(`Inv.free`) or allocates one. `Inv.allocate_cases` says what an allocation can do, and
`Inv.allocated` that it keeps the invariant for an address that has no session.
-/

namespace Rel4u

open Serial (IsRingSize)

theorem Session.active_of_connected {s : Session} (h : s.state = .connected) :
    s.active = true := by
  rw [Session.active, h]
  rfl

namespace SessionTable

section Slots

variable {t : SessionTable}

theorem slot_eq_getElem {i : ℕ} (hi : i < t.sessions.length) : t.slot i = t.sessions[i] :=
  List.getD_eq_getElem _ _ hi

theorem slot_of_le {i : ℕ} (hi : t.sessions.length ≤ i) : t.slot i = default :=
  List.getD_eq_default _ _ hi

theorem slot_setSlot (t : SessionTable) {i : ℕ} (hi : i < t.sessions.length) (s : Session)
    (j : ℕ) : (t.setSlot i s).slot j = if j = i then s else t.slot j := by
  unfold slot setSlot
  rw [List.getD_eq_getElem?_getD, List.getD_eq_getElem?_getD, List.getElem?_set]
  split_ifs with h1 h2
  · rfl
  · omega
  · omega
  · rfl

theorem slot_setSlot_cases (t : SessionTable) (i : ℕ) (s : Session) (j : ℕ) :
    (t.setSlot i s).slot j = t.slot j ∨ (j = i ∧ (t.setSlot i s).slot j = s) := by
  by_cases hi : i < t.sessions.length
  · rw [slot_setSlot t hi]
    split_ifs with hj
    · exact Or.inr ⟨hj, rfl⟩
    · exact Or.inl rfl
  · rw [setSlot, List.set_eq_of_length_le (not_lt.1 hi)]
    exact Or.inl rfl

/-- What is written to a slot is there, unless there is no such slot. -/
theorem slot_setSlot_self (t : SessionTable) (i : ℕ) (s : Session) :
    (t.setSlot i s).slot i = s ∨ (t.setSlot i s).slot i = default := by
  by_cases hi : i < t.sessions.length
  · rw [slot_setSlot t hi, if_pos rfl]
    exact Or.inl rfl
  · exact Or.inr (slot_of_le (by rw [setSlot, List.length_set]; exact not_lt.1 hi))

/-! ### Other slots -/

theorem slot_setSlot_of_ne (t : SessionTable) {i j : ℕ} (h : j ≠ i) (s : Session) :
    (t.setSlot i s).slot j = t.slot j := by
  unfold slot setSlot
  rw [List.getD_eq_getElem?_getD, List.getD_eq_getElem?_getD, List.getElem?_set_ne (Ne.symm h)]

theorem slot_free_of_ne (t : SessionTable) {i j : ℕ} (h : j ≠ i) :
    (t.free i).slot j = t.slot j := by
  have hset := t.slot_setSlot_of_ne h (t.slot i).freed
  unfold free
  dsimp only
  split_ifs
  · exact hset
  · exact hset
  · rfl

theorem slot_setSessionAt_of_ne (t : SessionTable) {slotIdx : ℤ} {j : ℕ} (h : slotIdx ≠ j)
    (s : Session) : (t.setSessionAt slotIdx s).slot j = t.slot j := by
  unfold setSessionAt
  split_ifs with h0
  · exact t.slot_setSlot_of_ne (by omega) s
  · rfl

theorem chooseSlot_sessions (t : SessionTable) : t.chooseSlot.2.sessions = t.sessions := by
  unfold chooseSlot
  split_ifs
  · split <;> rfl
  · split
    · rfl
    · dsimp only
      split_ifs <;> rfl

/-- An allocation writes the slot it chooses and no other. -/
theorem allocate_some {addr : NetAddr} {sessionId : UInt32} {callocSend callocRecv : Bool}
    {slotIdx : ℤ} {session : Session} {t' : SessionTable}
    (h : t.allocate addr sessionId callocSend callocRecv = (some (slotIdx, session), t')) :
    slotIdx = t.chooseSlot.1 ∧ ∀ j : ℕ, slotIdx ≠ j → t'.slot j = t.slot j := by
  unfold allocate at h
  dsimp only at h
  split_ifs at h with hneg
  · exact absurd (Prod.mk.inj h).1 (by simp)
  obtain ⟨h1, rfl⟩ := Prod.mk.inj h
  obtain ⟨rfl, rfl⟩ := Prod.mk.inj (Option.some.inj h1)
  refine ⟨rfl, fun j hj => ?_⟩
  show (t.chooseSlot.2.setSessionAt _ _).slot j = t.slot j
  rw [slot_setSessionAt_of_ne _ hj, slot, slot, chooseSlot_sessions]

theorem allocate_none {addr : NetAddr} {sessionId : UInt32} {callocSend callocRecv : Bool}
    {t' : SessionTable}
    (h : t.allocate addr sessionId callocSend callocRecv = (none, t')) (j : ℕ) :
    t'.slot j = t.slot j := by
  unfold allocate at h
  dsimp only at h
  split_ifs at h with hneg
  · obtain ⟨-, rfl⟩ := Prod.mk.inj h
    rw [slot, slot, chooseSlot_sessions]
  · exact absurd (Prod.mk.inj h).1 (by simp)

/-! ### Occupied slots -/

theorem lt_of_active {i : ℕ} (h : (t.slot i).active = true) : i < t.sessions.length := by
  by_contra hge
  rw [slot_of_le (not_lt.1 hge)] at h
  exact absurd h (by decide)

theorem countP_setSlot (t : SessionTable) {i : ℕ} (hi : i < t.sessions.length) (s : Session) :
    (t.setSlot i s).sessions.countP Session.active =
      t.sessions.countP Session.active - (if (t.slot i).active then 1 else 0) +
        if s.active then 1 else 0 := by
  rw [slot_eq_getElem hi]
  exact List.countP_set hi

theorem countP_pos {i : ℕ} (h : (t.slot i).active = true) :
    0 < t.sessions.countP Session.active := by
  have hi := lt_of_active h
  rw [slot_eq_getElem hi] at h
  exact List.countP_pos_iff.2 ⟨_, List.getElem_mem hi, h⟩

/-! ### The lookups -/

theorem findByAddr_some {addr : NetAddr} {i : ℕ} (h : t.findByAddr addr = some i) :
    (t.slot i).active = true ∧ (t.slot i).addr.equal addr = true := by
  obtain ⟨hi, hp, -⟩ := List.findIdx?_eq_some_iff_getElem.1 h
  rw [slot_eq_getElem hi]
  simpa using hp

theorem findByAddr_none {addr : NetAddr} (h : t.findByAddr addr = none) {i : ℕ}
    (ha : (t.slot i).active = true) : (t.slot i).addr.equal addr = false := by
  have hi := lt_of_active ha
  have hp := List.findIdx?_eq_none_iff.1 h _ (List.getElem_mem hi)
  rw [slot_eq_getElem hi] at ha ⊢
  rw [ha, Bool.true_and] at hp
  exact hp

theorem findById_some {clientId : UInt32} {i : ℕ} (h : t.findById clientId = some i) :
    i = clientId.toNat ∧ (t.slot i).active = true := by
  unfold findById at h
  split_ifs at h with h1 h2
  rw [Option.some.injEq] at h
  subst h
  exact ⟨rfl, h2⟩

end Slots

/-! ### The choice of a slot -/

theorem int32_of_lt {i : ℕ} (hi : i < 2 ^ 31) : int32 i = i := by
  have hn : (UInt32.ofNat i).toNat = i := UInt32.toNat_ofNat_of_lt' (by
    rw [show UInt32.size = 4294967296 from rfl]; omega)
  rw [int32, Serial.toInt_of_le (by rw [hn]; omega), hn]

/-- The loop over the sessions from index `i` on leaves its variable alone, or ends at the least
recently active of them. -/
theorem oldestFrom_spec (l : List Session) : ∀ (i : ℕ) (oldest : UInt64) (slotIdx : ℤ),
    (oldestFrom l i oldest slotIdx = slotIdx ∧
        ∀ s ∈ l, s.active = true → oldest ≤ s.lastActivityNs) ∨
      ∃ (k : ℕ) (hk : k < l.length), oldestFrom l i oldest slotIdx = int32 (i + k) ∧
        l[k].active = true ∧ l[k].lastActivityNs < oldest ∧
        ∀ s ∈ l, s.active = true → l[k].lastActivityNs ≤ s.lastActivityNs := by
  induction l with
  | nil => intro i oldest slotIdx; exact Or.inl ⟨rfl, fun s hs => absurd hs List.not_mem_nil⟩
  | cons s l ih =>
    intro i oldest slotIdx
    rw [oldestFrom]
    split_ifs with hs
    · -- `s` becomes the candidate; a later one only replaces it when it is older
      simp only [Bool.and_eq_true, decide_eq_true_eq] at hs
      right
      rcases ih (i + 1) s.lastActivityNs (int32 i) with ⟨hrun, hmin⟩ | ⟨k, hk, hrun, ha, hlt, hmin⟩
      · refine ⟨0, by simp, hrun, hs.1, hs.2, ?_⟩
        intro s' hs' ha'
        rcases List.mem_cons.1 hs' with rfl | hs'
        · exact UInt64.le_refl _
        · exact hmin s' hs' ha'
      · refine ⟨k + 1, by simpa using hk, ?_, ha, UInt64.lt_trans hlt hs.2, ?_⟩
        · rw [hrun]; congr 1; omega
        · intro s' hs' ha'
          rcases List.mem_cons.1 hs' with rfl | hs'
          · exact UInt64.le_of_lt hlt
          · exact hmin s' hs' ha'
    · have hskip : s.active = true → oldest ≤ s.lastActivityNs := by
        intro ha
        simpa [ha] using hs
      rcases ih (i + 1) oldest slotIdx with ⟨hrun, hmin⟩ | ⟨k, hk, hrun, ha, hlt, hmin⟩
      · left
        refine ⟨hrun, fun s' hs' ha' => ?_⟩
        rcases List.mem_cons.1 hs' with rfl | hs'
        · exact hskip ha'
        · exact hmin s' hs' ha'
      · right
        refine ⟨k + 1, by simpa using hk, ?_, ha, hlt, ?_⟩
        · rw [hrun]; congr 1; omega
        · intro s' hs' ha'
          rcases List.mem_cons.1 hs' with rfl | hs'
          · exact UInt64.le_trans (UInt64.le_of_lt hlt) (hskip ha')
          · exact hmin s' hs' ha'

/-! ### The invariant -/

/-- **What the server keeps of its table.** -/
structure Inv (t : SessionTable) (windowSize : UInt32) : Prop where
  len : t.sessions.length = t.maxClients.toNat
  small : t.maxClients.toNat ≤ 2 ^ 31
  count : t.activeCount.toNat = t.sessions.countP Session.active
  ids : ∀ i < t.sessions.length, (t.slot i).clientId = UInt32.ofNat i
  addrs : ∀ i j, (t.slot i).active = true → (t.slot j).active = true →
    (t.slot i).addr.equal (t.slot j).addr = true → i = j
  times : ∀ i, (t.slot i).active = true → (t.slot i).lastActivityNs < uint64Max
  ring : IsRingSize windowSize
  windows : ∀ i < t.sessions.length,
    (t.slot i).sendWin.Usable ∧ (t.slot i).sendWin.capacity = windowSize

/-- What an update of a session in its slot keeps. -/
structure SameSlot (s s' : Session) : Prop where
  clientId : s'.clientId = s.clientId
  addr : s'.addr = s.addr
  active : s'.active = s.active
  time : s'.lastActivityNs = s.lastActivityNs ∨ s'.lastActivityNs < uint64Max
  window : s.sendWin.Usable → s'.sendWin.Usable ∧ s'.sendWin.capacity = s.sendWin.capacity

section Inv

variable {t : SessionTable} {w : UInt32}

theorem Inv.count_le (ht : t.Inv w) : t.activeCount.toNat ≤ t.maxClients.toNat := by
  rw [ht.count, ← ht.len]
  exact List.countP_le_length

/-- Overwriting a slot and the counter, whatever is written. -/
theorem Inv.replace (ht : t.Inv w) {i : ℕ} (hi : i < t.sessions.length) {s : Session}
    {c : UInt32} (hc : c.toNat = (t.setSlot i s).sessions.countP Session.active)
    (hid : s.clientId = UInt32.ofNat i)
    (haddr : s.active = true → ∀ j, j ≠ i → (t.slot j).active = true →
      s.addr.equal (t.slot j).addr = false)
    (htime : s.active = true → s.lastActivityNs < uint64Max)
    (hwin : s.sendWin.Usable ∧ s.sendWin.capacity = w) :
    Inv { t.setSlot i s with activeCount := c } w := by
  have hlen : (t.setSlot i s).sessions.length = t.sessions.length := List.length_set
  have hslot : ∀ j, SessionTable.slot { t.setSlot i s with activeCount := c } j =
      if j = i then s else t.slot j := t.slot_setSlot hi s
  refine
    { len := hlen.trans ht.len
      small := ht.small
      count := hc
      ids := ?_
      addrs := ?_
      times := ?_
      ring := ht.ring
      windows := ?_ }
  · intro j hj
    rw [hslot]
    split_ifs with hji
    · rw [hji]; exact hid
    · exact ht.ids j (hlen ▸ hj)
  · intro j k hj hk heq
    rw [hslot] at hj hk
    rw [hslot, hslot] at heq
    split_ifs at hj hk heq with hji hki hki
    · rw [hji, hki]
    · rw [haddr hj k hki hk] at heq
      exact Bool.noConfusion heq
    · rw [NetAddr.equal_comm, haddr hk j hji hj] at heq
      exact Bool.noConfusion heq
    · exact ht.addrs j k hj hk heq
  · intro j hj
    rw [hslot] at hj ⊢
    split_ifs at hj ⊢
    · exact htime hj
    · exact ht.times j hj
  · intro j hj
    rw [hslot]
    split_ifs
    · exact hwin
    · exact ht.windows j (hlen ▸ hj)

/-- **Updating a session.** -/
theorem Inv.setSlot (ht : t.Inv w) {i : ℕ} {s : Session} (hs : SameSlot (t.slot i) s) :
    (t.setSlot i s).Inv w := by
  by_cases hi : i < t.sessions.length
  · refine ht.replace hi ?_ (hs.clientId.trans (ht.ids i hi)) ?_ ?_ ?_
    · rw [t.countP_setSlot hi, hs.active]
      show t.activeCount.toNat = _
      rw [ht.count]
      by_cases ha : (t.slot i).active = true
      · have := countP_pos ha
        simp only [ha, if_true]
        omega
      · simp [ha]
    · intro ha j hj haj
      rw [hs.active] at ha
      rw [hs.addr]
      by_contra heq
      exact hj (ht.addrs i j ha haj (by simpa using heq)).symm
    · intro ha
      rcases hs.time with h | h
      · rw [h]; exact ht.times i (hs.active ▸ ha)
      · exact h
    · obtain ⟨h1, h2⟩ := ht.windows i hi
      exact ⟨(hs.window h1).1, (hs.window h1).2.trans h2⟩
  · have : t.setSlot i s = t := by
      unfold SessionTable.setSlot
      rw [List.set_eq_of_length_le (not_lt.1 hi)]
    rw [this]
    exact ht

/-- Freeing an occupied slot empties it and counts one fewer. -/
theorem Inv.free_eq (ht : t.Inv w) {i : ℕ} (ha : (t.slot i).active = true) :
    t.free i = { t.setSlot i (t.slot i).freed with activeCount := t.activeCount - 1 } := by
  have hpos : (t.setSlot i (t.slot i).freed).activeCount > 0 := by
    show (0 : UInt32) < t.activeCount
    rw [UInt32.lt_iff_toNat_lt, ht.count]
    exact countP_pos ha
  unfold SessionTable.free
  rw [if_pos ha]
  exact if_pos hpos

theorem free_of_inactive {i : ℕ} (ha : (t.slot i).active = false) : t.free i = t := by
  unfold SessionTable.free
  rw [if_neg (by rw [ha]; decide)]

/-- **Freeing a session.** -/
theorem Inv.free (ht : t.Inv w) (i : ℕ) : (t.free i).Inv w := by
  cases ha : (t.slot i).active with
  | false => rw [free_of_inactive ha]; exact ht
  | true =>
    have hi := lt_of_active ha
    have hoff : (t.slot i).freed.active = false := rfl
    rw [ht.free_eq ha]
    refine ht.replace hi ?_ (ht.ids i hi) ?_ ?_ (ht.windows i hi)
    · have hpos := countP_pos ha
      rw [SendWindow.toNat_sub_one (by rw [ht.count]; exact hpos), ht.count, t.countP_setSlot hi,
        if_pos ha, hoff]
      simp
    · intro h; rw [hoff] at h; exact Bool.noConfusion h
    · intro h; rw [hoff] at h; exact Bool.noConfusion h

/-! ### Allocation -/

/-- What is written over a slot of the table is a session with new windows. -/
theorem newSession_eq (hw : IsRingSize w) {s : Session} (hs : s.sendWin.capacity = w)
    (addr : NetAddr) (sessionId : UInt32) :
    newSession s addr sessionId true true =
      { s with
        sessionId := sessionId
        addr := addr
        state := .connecting
        ackPending := false
        sendWin := SendWindow.fresh w 1
        recvWin := RecvWindow.fresh w 1
        rtt := Rtt.default } := by
  have hne : w ≠ 0 := by
    intro h0
    have := hw.pos
    rw [h0] at this
    exact absurd this (by decide)
  unfold newSession
  simp only [hs, if_pos hne, SendWindow.init_eq_fresh hw, RecvWindow.init_eq_fresh hw]

/-- The slot `i` is the one an allocation takes: a free one while there is one, and otherwise,
under `dropOld`, the least recently active one. -/
structure Takes (t : SessionTable) (i : ℕ) : Prop where
  lt : i < t.sessions.length
  free_or_oldest : (t.activeCount < t.maxClients ∧ (t.slot i).active = false) ∨
    (t.activeCount = t.maxClients ∧ t.fullPolicy = .dropOld ∧ (t.slot i).active = true ∧
      ∀ j, (t.slot j).active = true → (t.slot i).lastActivityNs ≤ (t.slot j).lastActivityNs)

theorem Inv.full (ht : t.Inv w) (h : ¬ t.activeCount < t.maxClients) :
    t.activeCount = t.maxClients ∧ ∀ i < t.sessions.length, (t.slot i).active = true := by
  have hle := ht.count_le
  rw [UInt32.lt_iff_toNat_lt] at h
  have heq : t.activeCount.toNat = t.maxClients.toNat := by omega
  refine ⟨UInt32.toNat_inj.1 heq, fun i hi => ?_⟩
  rw [slot_eq_getElem hi]
  refine List.countP_eq_length.1 ?_ _ (List.getElem_mem hi)
  rw [← ht.count, heq, ht.len]

theorem Inv.chooseSlot_cases (ht : t.Inv w) (hpos : 0 < t.maxClients.toNat) :
    (t.activeCount = t.maxClients ∧ t.fullPolicy = .reject ∧ t.chooseSlot = (-1, t)) ∨
      ∃ i : ℕ, t.Takes i ∧ t.chooseSlot = ((i : ℤ), if (t.slot i).active then
        { t with activeCount := t.activeCount - 1 } else t) := by
  have hsmall := ht.small
  have hlen := ht.len
  by_cases hlt : t.activeCount < t.maxClients
  · right
    -- fewer occupied slots than slots: the search finds a free one
    have hex : ∃ i, t.sessions.findIdx? (fun s => !s.active) = some i := by
      rw [← Option.isSome_iff_exists, Option.isSome_iff_ne_none]
      intro hnone
      have hall := List.findIdx?_eq_none_iff.1 hnone
      have : t.sessions.countP Session.active = t.sessions.length :=
        List.countP_eq_length.2 fun s hs => by simpa using hall s hs
      rw [UInt32.lt_iff_toNat_lt, ht.count] at hlt
      omega
    obtain ⟨i, hfind⟩ := hex
    obtain ⟨hi, hp, -⟩ := List.findIdx?_eq_some_iff_getElem.1 hfind
    have hoff : (t.slot i).active = false := by rw [slot_eq_getElem hi]; simpa using hp
    refine ⟨i, ⟨hi, Or.inl ⟨hlt, hoff⟩⟩, ?_⟩
    simp only [chooseSlot, if_pos hlt, hfind, hoff, int32_of_lt (show i < 2 ^ 31 by omega)]
    rfl
  · obtain ⟨hfull, hall⟩ := ht.full hlt
    cases hpol : t.fullPolicy with
    | reject =>
      left
      refine ⟨hfull, rfl, ?_⟩
      simp only [chooseSlot, if_neg hlt, hpol]
    | dropOld =>
      right
      rcases oldestFrom_spec t.sessions 0 uint64Max (-1) with
        ⟨-, hnone⟩ | ⟨k, hk, hrun, ha, -, hmin⟩
      · -- every session is active since before the end of time
        have h0 : 0 < t.sessions.length := by omega
        have hlast := hnone _ (List.getElem_mem h0) (by
          rw [← slot_eq_getElem h0]; exact hall 0 h0)
        have htime := ht.times 0 (hall 0 h0)
        rw [slot_eq_getElem h0] at htime
        exact absurd htime (UInt64.not_lt.2 hlast)
      · rw [Nat.zero_add, int32_of_lt (show k < 2 ^ 31 by omega)] at hrun
        have hon : (t.slot k).active = true := hall k hk
        refine ⟨k, ⟨hk, Or.inr ⟨hfull, hpol, hon, fun j hj => ?_⟩⟩, ?_⟩
        · have hj' := lt_of_active hj
          rw [slot_eq_getElem hk, slot_eq_getElem hj']
          exact hmin _ (List.getElem_mem hj') (by rw [← slot_eq_getElem hj']; exact hj)
        · have hne : (k : ℤ) ≠ -1 := by omega
          simp only [chooseSlot, if_neg hlt, hpol, hrun, if_pos hne, hon, if_true]

/-- **What an allocation does**: it fails when the table is full under `reject`, and it writes a
new session over the slot it takes. -/
theorem Inv.allocate_cases (ht : t.Inv w) (hpos : 0 < t.maxClients.toNat) (addr : NetAddr)
    (sessionId : UInt32) (callocSend callocRecv : Bool) :
    (t.activeCount = t.maxClients ∧ t.fullPolicy = .reject ∧
        t.allocate addr sessionId callocSend callocRecv = (none, t)) ∨
      ∃ (i : ℕ) (c : UInt32), t.Takes i ∧
        c.toNat = t.activeCount.toNat + (if (t.slot i).active then 0 else 1) ∧
        t.allocate addr sessionId callocSend callocRecv =
          (some ((i : ℤ), newSession (t.slot i) addr sessionId callocSend callocRecv),
            { t.setSlot i (newSession (t.slot i) addr sessionId callocSend callocRecv) with
              activeCount := c }) := by
  rcases ht.chooseSlot_cases hpos with ⟨h1, h2, h3⟩ | ⟨i, htakes, hchoose⟩
  · left
    refine ⟨h1, h2, ?_⟩
    simp only [allocate, h3, if_true]
  · right
    have hne : (i : ℤ) ≠ -1 := by omega
    have h0 : (0 : ℤ) ≤ i := by omega
    cases ha : (t.slot i).active with
    | true =>
      refine ⟨i, t.activeCount - 1 + 1, htakes, ?_, ?_⟩
      · rw [UInt32.sub_add_cancel, if_pos ha, Nat.add_zero]
      · rw [ha] at hchoose
        simp only [allocate, hchoose, if_neg hne, sessionAt, setSessionAt, if_pos h0, if_true]
        rfl
    | false =>
      refine ⟨i, t.activeCount + 1, htakes, ?_, ?_⟩
      · have hlt : t.activeCount < t.maxClients := by
          rcases htakes.free_or_oldest with h | h
          · exact h.1
          · rw [ha] at h; exact absurd h.2.2.1 (by decide)
        rw [UInt32.lt_iff_toNat_lt] at hlt
        have := t.maxClients.toNat_lt
        rw [UInt32.toNat_add, show (1 : UInt32).toNat = 1 from rfl, ha]
        simp only [Bool.false_eq_true, if_false]
        omega
      · rw [ha] at hchoose
        simp only [allocate, hchoose, if_neg hne, sessionAt, setSessionAt, if_pos h0]
        rfl

/-- A session written over the slot that was taken is counted. -/
theorem Inv.count_allocated (ht : t.Inv w) {i : ℕ} (htakes : t.Takes i) {c : UInt32}
    (hc : c.toNat = t.activeCount.toNat + if (t.slot i).active then 0 else 1) {s : Session}
    (hact : s.active = true) : c.toNat = (t.setSlot i s).sessions.countP Session.active := by
  rw [hc, ht.count, t.countP_setSlot htakes.lt, hact]
  cases ha : (t.slot i).active with
  | true =>
    have := countP_pos ha
    simp only [if_true]
    omega
  | false => simp

/-- **A new session for an address that has none** keeps the invariant, whatever `s` the server
makes of it before it is done. -/
theorem Inv.allocated (ht : t.Inv w) {i : ℕ} (htakes : t.Takes i) {addr : NetAddr}
    (hnone : t.findByAddr addr = none) {c : UInt32}
    (hc : c.toNat = t.activeCount.toNat + if (t.slot i).active then 0 else 1) {s : Session}
    (hs : s.clientId = (t.slot i).clientId ∧ s.addr = addr ∧ s.active = true ∧
      s.lastActivityNs < uint64Max ∧ s.sendWin = SendWindow.fresh w 1) :
    Inv { t.setSlot i s with activeCount := c } w := by
  obtain ⟨hid, haddr, hact, htime, hwin⟩ := hs
  have hi := htakes.lt
  refine ht.replace hi (ht.count_allocated htakes hc hact) (hid.trans (ht.ids i hi)) ?_
    (fun _ => htime) ?_
  · intro _ j _ haj
    rw [haddr, NetAddr.equal_comm]
    exact findByAddr_none hnone haj
  · rw [hwin]
    exact ⟨SendWindow.fresh_usable ht.ring 1, rfl⟩

end Inv

/-- A created table. -/
theorem init_inv {maxClients windowSize : UInt32} {policy : MaxClientsPolicy}
    {callocTable : Bool} {callocSend callocRecv : ℕ → Bool} {t : SessionTable}
    (h : init maxClients policy windowSize callocTable callocSend callocRecv = some t)
    (hsmall : maxClients.toNat ≤ 2 ^ 31) :
    t.Inv windowSize ∧ t.maxClients = maxClients ∧ 0 < maxClients.toNat := by
  unfold init at h
  split_ifs at h with h1 h2 h3
  rw [Option.some.injEq] at h
  subst h
  obtain ⟨hne, hbad⟩ := not_or.1 h1
  have hring : IsRingSize windowSize :=
    SendWindow.isRingSize_of_badCapacity (by simpa using hbad)
  have hlen : ((List.range maxClients.toNat).map (initSession windowSize)).length =
      maxClients.toNat := by simp
  have hslot : ∀ i < maxClients.toNat,
      ((List.range maxClients.toNat).map (initSession windowSize)).getD i default =
        initSession windowSize i := by
    intro i hi
    rw [List.getD_eq_getElem _ _ (by rw [hlen]; exact hi)]
    simp
  have hoff : ∀ i,
      (((List.range maxClients.toNat).map (initSession windowSize)).getD i default).active =
        false := by
    intro i
    by_cases hi : i < maxClients.toNat
    · rw [hslot i hi]; rfl
    · rw [List.getD_eq_default _ _ (by rw [hlen]; omega)]; rfl
  have hpos : 0 < maxClients.toNat := by
    rcases Nat.eq_zero_or_pos maxClients.toNat with h0 | h0
    · exact absurd (UInt32.toNat_inj.1 h0) hne
    · exact h0
  refine ⟨?_, rfl, hpos⟩
  refine
    { len := hlen
      small := hsmall
      count := ?_
      ids := fun i hi => ?_
      addrs := fun i j hi => absurd hi (by rw [slot, hoff]; decide)
      times := fun i hi => absurd hi (by rw [slot, hoff]; decide)
      ring := hring
      windows := fun i hi => ?_ }
  · refine (List.countP_eq_zero.2 fun s hs => ?_).symm
    obtain ⟨i, -, rfl⟩ := List.mem_map.1 hs
    exact Bool.false_ne_true
  · rw [slot, hslot i (hlen ▸ hi)]; rfl
  · rw [slot, hslot i (hlen ▸ hi)]
    simp only [initSession, SendWindow.init_eq_fresh hring]
    exact ⟨SendWindow.fresh_usable hring 1, rfl⟩

end SessionTable

end Rel4u
