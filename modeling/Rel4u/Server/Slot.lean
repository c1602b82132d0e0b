import Rel4u.Server.TableRun

/-!
# What an event does to one session

`Server.Moves` says what an event does to the server. Most properties of a session look at one slot
only: `SlotMoves s i e session out` lists what an event can make of the session in slot `i`,
whatever slot the event is about, and `Moves.slot` says that the list is complete.
-/

namespace Rel4u

namespace Server

/-! ### Freed slots and allocated ones -/

theorem slot_free_self {t : SessionTable} {i : ℕ} (hact : (t.slot i).active = true) :
    (t.free i).slot i = (t.slot i).freed := by
  have hslot := t.slot_setSlot (SessionTable.lt_of_active hact) (t.slot i).freed i
  rw [if_pos rfl] at hslot
  unfold SessionTable.free
  rw [if_pos hact]
  dsimp only
  split_ifs <;> exact hslot

/-- A slot after another, or the same, has been freed. -/
theorem slot_free_cases (t : SessionTable) (i j : ℕ) :
    (t.free i).slot j = t.slot j ∨ (t.free i).slot j = (t.slot j).freed := by
  by_cases hj : j = i
  · subst hj
    cases hact : (t.slot j).active with
    | true => exact Or.inr (slot_free_self hact)
    | false =>
      rw [SessionTable.free_of_inactive hact]
      exact Or.inl rfl
  · exact Or.inl (t.slot_free_of_ne hj)

theorem slot_foldl_free_cases (l : List ℕ) (j : ℕ) : ∀ t : SessionTable,
    (l.foldl SessionTable.free t).slot j = t.slot j ∨
      (l.foldl SessionTable.free t).slot j = (t.slot j).freed := by
  induction l with
  | nil => exact fun t => Or.inl rfl
  | cons i l ih =>
    intro t
    rw [List.foldl_cons]
    rcases slot_free_cases t i j with h | h
    · rw [← h]
      exact ih (t.free i)
    · rcases ih (t.free i) with h' | h'
      · exact Or.inr (h'.trans h)
      · -- a session that is freed twice
        right
        rw [h', h]
        rfl

theorem setSessionAt_length (t : SessionTable) (slotIdx : ℤ) (x : Session) :
    (t.setSessionAt slotIdx x).sessions.length = t.sessions.length := by
  unfold SessionTable.setSessionAt
  split_ifs
  · exact List.length_set
  · rfl

/-- What an allocation writes. -/
theorem allocate_session {t t' : SessionTable} {addr : NetAddr} {id : UInt32} {slotIdx : ℤ}
    {session : Session} {callocSend callocRecv : Bool}
    (h : t.allocate addr id callocSend callocRecv = (some (slotIdx, session), t')) :
    session = SessionTable.newSession (t.sessionAt slotIdx) addr id callocSend callocRecv ∧
      t'.sessions.length = t.sessions.length := by
  unfold SessionTable.allocate at h
  dsimp only at h
  split_ifs at h
  · exact absurd (Prod.mk.inj h).1 (by simp)
  obtain ⟨h1, rfl⟩ := Prod.mk.inj h
  obtain ⟨rfl, rfl⟩ := Prod.mk.inj (Option.some.inj h1)
  have hsessions := t.chooseSlot_sessions
  have hat : t.chooseSlot.2.sessionAt t.chooseSlot.1 = t.sessionAt t.chooseSlot.1 := by
    unfold SessionTable.sessionAt SessionTable.slot
    rw [hsessions]
  refine ⟨by rw [hat], ?_⟩
  show (t.chooseSlot.2.setSessionAt _ _).sessions.length = _
  rw [setSessionAt_length, hsessions]

/-- What is written to the slot of an allocation is written over the slot of the table before. -/
theorem slot_setSessionAt_allocate {t t' : SessionTable} {addr : NetAddr} {id : UInt32} {i : ℕ}
    {session : Session} {callocSend callocRecv : Bool}
    (h : t.allocate addr id callocSend callocRecv = (some ((i : ℤ), session), t')) (x : Session) :
    (t'.setSessionAt i x).slot i = (t.setSlot i x).slot i := by
  have hlen := (allocate_session h).2
  have h0 : (0 : ℤ) ≤ i := Int.natCast_nonneg i
  rw [SessionTable.setSessionAt, if_pos h0, Int.toNat_natCast]
  by_cases hi : i < t.sessions.length
  · rw [SessionTable.slot_setSlot _ (by rw [hlen]; exact hi), SessionTable.slot_setSlot _ hi,
      if_pos rfl, if_pos rfl]
  · rw [SessionTable.slot_of_le (by rw [SessionTable.setSlot, List.length_set]; omega),
      SessionTable.slot_of_le (by rw [SessionTable.setSlot, List.length_set]; omega)]

/-! ### The size of the table -/

/-- There are as many slots as the table says. -/
def Sized (t : SessionTable) : Prop := t.sessions.length = t.maxClients.toNat

theorem Sized.setSlot {t : SessionTable} (ht : Sized t) (i : ℕ) (x : Session) :
    Sized (t.setSlot i x) := List.length_set.trans ht

theorem Sized.free {t : SessionTable} (ht : Sized t) (i : ℕ) : Sized (t.free i) := by
  unfold SessionTable.free
  dsimp only
  split_ifs
  · exact ht.setSlot i _
  · exact ht.setSlot i _
  · exact ht

theorem Sized.foldl_free (l : List ℕ) {t : SessionTable} (ht : Sized t) :
    Sized (l.foldl SessionTable.free t) := by
  induction l generalizing t with
  | nil => exact ht
  | cons i l ih => exact ih (ht.free i)

theorem Sized.setSessionAt {t : SessionTable} (ht : Sized t) (slotIdx : ℤ) (x : Session) :
    Sized (t.setSessionAt slotIdx x) := by
  unfold SessionTable.setSessionAt
  split_ifs
  · exact ht.setSlot _ x
  · exact ht

theorem Sized.allocate {t : SessionTable} (ht : Sized t) (addr : NetAddr) (id : UInt32)
    (callocSend callocRecv : Bool) : Sized (t.allocate addr id callocSend callocRecv).2 := by
  have hchoose : Sized t.chooseSlot.2 := by
    unfold SessionTable.chooseSlot
    split_ifs
    · split <;> exact ht
    · split
      · exact ht
      · dsimp only
        split_ifs <;> exact ht
  unfold SessionTable.allocate
  dsimp only
  split_ifs
  · exact hchoose
  · exact hchoose.setSessionAt _ _

theorem Moves.sized {s s' : Server} {e : ServerEvent} {out : List (NetAddr × Packet)}
    (h : Moves s e s' out) (hs : Sized s.table) : Sized s'.table := by
  cases h with
  | idle | start | send | recv | noSession | drainDiscard => exact hs
  | stop =>
    unfold Server.stop
    split_ifs
    · exact hs
    · exact hs.foldl_free _
  | kick clientId i => exact hs.free i
  | accept | connectAck | process | drainPush | retransmit | ack | heartbeat =>
    exact hs.setSlot _ _
  | reject srcAddr pkt nowNs stackAddr callocSend callocRecv sent table htype hfind halloc =>
    have htable := hs.allocate srcAddr (newSessionId nowNs stackAddr) callocSend callocRecv
    rw [halloc] at htable
    exact htable
  | enroll srcAddr pkt nowNs stackAddr callocSend callocRecv sent slotIdx session table htype hfind
      halloc =>
    have htable := hs.allocate srcAddr (newSessionId nowNs stackAddr) callocSend callocRecv
    rw [halloc] at htable
    exact htable.setSessionAt _ _
  | disconnect => exact (hs.setSlot _ _).free _
  | drainNone | drainHold =>
    rw [takeItem_table]
    exact hs
  | expire i => exact hs.free i

theorem create_sized {config : ServerConfig} {a : CreateAllocs} {s : Server}
    (h : create config a = some s) : Sized s.table := by
  obtain ⟨_, _, t, -, -, ht, rfl⟩ := create_some h
  unfold SessionTable.init at ht
  split_ifs at ht
  rw [Option.some.injEq] at ht
  subst ht
  simp [Sized]

theorem sized_run {config : ServerConfig} {a : CreateAllocs} {s₀ : Server}
    (h : create config a = some s₀) (es : List ServerEvent) : Sized (s₀.run es).table :=
  run_induction (P := fun s => Sized s.table) (fun _ _ _ _ _ hs hm => hm.sized hs) (create_sized h)

/-! ### One slot -/

/-- **What an event makes of the session in slot `i`.** -/
inductive SlotMoves (s : Server) (i : ℕ) : ServerEvent → Session → List (NetAddr × Packet) → Prop
  | same (e : ServerEvent) (out : List (NetAddr × Packet)) : SlotMoves s i e (s.table.slot i) out
  | freed (e : ServerEvent) (out : List (NetAddr × Packet)) :
      SlotMoves s i e (s.table.slot i).freed out
  | accept (srcAddr : NetAddr) (pkt : Packet) (nowNs stackAddr : UInt64)
      (callocSend callocRecv sent : Bool)
      (htype : pkt.hdr.packetType = PktType.connectReq.code)
      (hfind : s.table.findByAddr srcAddr = some i) :
      SlotMoves s i (.packet srcAddr pkt nowNs stackAddr callocSend callocRecv sent)
        (answered (s.table.slot i) nowNs sent) [response (s.table.slot i) nowNs sent]
  | enroll (srcAddr : NetAddr) (pkt : Packet) (nowNs stackAddr : UInt64)
      (callocSend callocRecv sent : Bool)
      (htype : pkt.hdr.packetType = PktType.connectReq.code)
      (hfind : s.table.findByAddr srcAddr = none) (session : Session) (table : SessionTable)
      (halloc : s.table.allocate srcAddr (newSessionId nowNs stackAddr) callocSend callocRecv =
        (some ((i : ℤ), session), table)) :
      SlotMoves s i (.packet srcAddr pkt nowNs stackAddr callocSend callocRecv sent)
        (answered (SessionTable.newSession (s.table.slot i) srcAddr
          (newSessionId nowNs stackAddr) callocSend callocRecv) nowNs sent)
        [response (SessionTable.newSession (s.table.slot i) srcAddr
          (newSessionId nowNs stackAddr) callocSend callocRecv) nowNs sent]
  | connectAck (srcAddr : NetAddr) (pkt : Packet) (nowNs stackAddr : UInt64)
      (callocSend callocRecv sent : Bool)
      (hfind : s.table.findByAddr srcAddr = some i)
      (hid : (s.table.slot i).sessionId = pkt.hdr.sessionId) :
      SlotMoves s i (.packet srcAddr pkt nowNs stackAddr callocSend callocRecv sent)
        (touched (s.table.slot i) nowNs) []
  | disconnect (srcAddr : NetAddr) (pkt : Packet) (nowNs stackAddr : UInt64)
      (callocSend callocRecv sent : Bool) :
      SlotMoves s i (.packet srcAddr pkt nowNs stackAddr callocSend callocRecv sent)
        (touched (s.table.slot i) nowNs).freed []
  | process (srcAddr : NetAddr) (pkt : Packet) (nowNs stackAddr : UInt64)
      (callocSend callocRecv sent : Bool)
      (hfind : s.table.findByAddr srcAddr = some i)
      (hid : (s.table.slot i).sessionId = pkt.hdr.sessionId)
      (htype : pkt.hdr.packetType ≠ PktType.connectReq.code ∧
        pkt.hdr.packetType ≠ PktType.connectAck.code ∧
        pkt.hdr.packetType ≠ PktType.disconnect.code) :
      SlotMoves s i (.packet srcAddr pkt nowNs stackAddr callocSend callocRecv sent)
        (processPacket (touched (s.table.slot i) nowNs) pkt nowNs sent).1
        (processPacket (touched (s.table.slot i) nowNs) pkt nowNs sent).2.2
  | push (nowNs : UInt64) (sent : Bool) (item : MpmcItem) (sendWin : SendWindow) (seq : UInt32)
      (htake : s.takeItem.1 = some item) (hfind : s.table.findById item.clientId = some i)
      (hstate : (s.table.slot i).state = .connected)
      (hpush : (s.table.slot i).sendWin.push item.mode item.data item.len.toNat nowNs =
        .ok (sendWin, seq)) :
      SlotMoves s i (.drain nowNs sent) (afterPush (s.table.slot i) sendWin item seq sent).1
        [(afterPush (s.table.slot i) sendWin item seq sent).2]
  | retransmit (nowNs : UInt64) (sent : Bool) (hstate : (s.table.slot i).state = .connected) :
      SlotMoves s i (.retransmit i nowNs sent) (afterRetransmit (s.table.slot i) nowNs sent).1
        (afterRetransmit (s.table.slot i) nowNs sent).2
  | ack (sent : Bool) (hstate : (s.table.slot i).state = .connected) :
      SlotMoves s i (.ack i sent) (sendPacket (s.table.slot i) sent .ack 0 0 [] 0).1
        [(sendPacket (s.table.slot i) sent .ack 0 0 [] 0).2]
  | heartbeat (nowNs : UInt64) (sent : Bool) (hstate : (s.table.slot i).state = .connected) :
      SlotMoves s i (.heartbeat i nowNs sent) (afterHeartbeat (s.table.slot i) nowNs sent)
        [(sendPacket (s.table.slot i) sent .heartbeat 0 0 [] 0).2]

section Slot

variable {s s' : Server} {e : ServerEvent} {out : List (NetAddr × Packet)}

/-- A write to some slot is a write to slot `j`, or leaves it as it is. -/
theorem SlotMoves.of_setSlot {i j : ℕ} {session : Session}
    (h : i = j → SlotMoves s j e session out) :
    SlotMoves s j e ((s.table.setSlot i session).slot j) out := by
  rcases s.table.slot_setSlot_cases i session j with heq | ⟨hj, heq⟩
  · rw [heq]
    exact .same e out
  · rw [heq]
    exact h hj.symm

theorem SlotMoves.of_free {i j : ℕ} : SlotMoves s j e ((s.table.free i).slot j) out := by
  rcases slot_free_cases s.table i j with heq | heq
  · rw [heq]
    exact .same e out
  · rw [heq]
    exact .freed e out

/-- **The list is complete.** -/
theorem Moves.slot (h : Moves s e s' out) (j : ℕ) : SlotMoves s j e (s'.table.slot j) out := by
  cases h with
  | idle | start | send | recv | noSession => exact .same _ _
  | stop =>
    unfold Server.stop
    split_ifs
    · exact .same _ _
    · rcases slot_foldl_free_cases (List.range s.table.maxClients.toNat) j s.table with
        heq | heq
      · dsimp only
        rw [heq]
        exact .same _ _
      · dsimp only
        rw [heq]
        exact .freed _ _
  | kick clientId i hfind => exact .of_free
  | accept srcAddr pkt nowNs stackAddr callocSend callocRecv sent i htype hfind =>
    refine .of_setSlot fun hi => ?_
    subst hi
    exact .accept srcAddr pkt nowNs stackAddr callocSend callocRecv sent htype hfind
  | reject srcAddr pkt nowNs stackAddr callocSend callocRecv sent table htype hfind halloc =>
    dsimp only
    rw [SessionTable.allocate_none halloc j]
    exact .same _ _
  | enroll srcAddr pkt nowNs stackAddr callocSend callocRecv sent slotIdx session table htype hfind
      halloc =>
    dsimp only
    by_cases hj : slotIdx = j
    · subst hj
      have h0 : (0 : ℤ) ≤ j := Int.natCast_nonneg j
      obtain ⟨hsession, -⟩ := allocate_session halloc
      rw [SessionTable.sessionAt, if_pos h0, Int.toNat_natCast] at hsession
      rw [slot_setSessionAt_allocate halloc, hsession]
      exact .of_setSlot fun _ =>
        .enroll srcAddr pkt nowNs stackAddr callocSend callocRecv sent htype hfind session table
          halloc
    · rw [SessionTable.slot_setSessionAt_of_ne table hj,
        (SessionTable.allocate_some halloc).2 j hj]
      exact .same _ _
  | connectAck srcAddr pkt nowNs stackAddr callocSend callocRecv sent i hfind hid htype =>
    refine .of_setSlot fun hi => ?_
    subst hi
    exact .connectAck srcAddr pkt nowNs stackAddr callocSend callocRecv sent hfind hid
  | disconnect srcAddr pkt nowNs stackAddr callocSend callocRecv sent i hfind hid htype =>
    dsimp only
    by_cases hj : j = i
    · subst hj
      have ha := SessionTable.findByAddr_some hfind
      have hset : (s.table.setSlot j (touched (s.table.slot j) nowNs)).slot j =
          touched (s.table.slot j) nowNs := by
        rw [SessionTable.slot_setSlot s.table (SessionTable.lt_of_active ha.1), if_pos rfl]
      rw [slot_free_self (by rw [hset, active_touched]; exact ha.1), hset]
      exact .disconnect srcAddr pkt nowNs stackAddr callocSend callocRecv sent
    · rw [SessionTable.slot_free_of_ne _ hj, SessionTable.slot_setSlot_of_ne _ hj]
      exact .same _ _
  | process srcAddr pkt nowNs stackAddr callocSend callocRecv sent i hfind hid htype =>
    refine .of_setSlot fun hi => ?_
    subst hi
    exact .process srcAddr pkt nowNs stackAddr callocSend callocRecv sent hfind hid htype
  | drainNone nowNs sent htake =>
    rw [takeItem_table]
    exact .same _ _
  | drainDiscard => exact .same _ _
  | drainHold =>
    rw [takeItem_table]
    exact .same _ _
  | drainPush nowNs sent item i sendWin seq htake hfind hstate hcan hpush =>
    refine .of_setSlot fun hi => ?_
    subst hi
    exact .push nowNs sent item sendWin seq htake hfind hstate hpush
  | expire i nowNs => exact .of_free
  | retransmit i nowNs sent hstate =>
    refine .of_setSlot fun hi => ?_
    subst hi
    exact .retransmit nowNs sent hstate
  | ack i sent hstate =>
    refine .of_setSlot fun hi => ?_
    subst hi
    exact .ack sent hstate
  | heartbeat i nowNs sent hstate =>
    refine .of_setSlot fun hi => ?_
    subst hi
    exact .heartbeat nowNs sent hstate

end Slot

end Server

end Rel4u
