import Rel4u.Server.Run
import Rel4u.Session.TableInv
import Rel4u.Worker.SharedInv

/-!
# The session table over whole runs of the server

Every event updates one session in its slot, frees sessions, or allocates one for an address that
has none, so it keeps the table's invariant (`Inv.moves`), and so does every run.
`session_table_invariant` states what this means for the table and for the next allocation.

The slot number of an allocation is an `int32_t`. In a table of more than `2 ^ 31` slots it
overflows: once the first `2 ^ 31` slots are taken the next session is written outside the table,
and `active_count` counts a session that no slot holds (`session_table_overflows`).
-/

namespace Rel4u

open Serial (IsRingSize)
open SessionTable (Inv SameSlot uint64Max)

/-- Window allocations succeed and the clock has not reached its end. -/
def ServerEvent.Regular : ServerEvent → Prop
  | .packet _ _ nowNs _ callocSend callocRecv _ =>
    callocSend = true ∧ callocRecv = true ∧ nowNs < uint64Max
  | _ => True

namespace Server

section SameSlot

variable (session : Session)

theorem sameSlot_answered {nowNs : UInt64} (hnow : nowNs < uint64Max) (sent : Bool) :
    SameSlot session (answered session nowNs sent) :=
  ⟨rfl, rfl, rfl, Or.inr hnow, fun h => ⟨h, rfl⟩⟩

theorem touched_eq (nowNs : UInt64) :
    touched session nowNs =
      { session with
        lastActivityNs := nowNs
        state := if session.state = .connecting then .connected else session.state } := by
  unfold touched
  dsimp only
  split_ifs <;> rfl

theorem active_touched (nowNs : UInt64) : (touched session nowNs).active = session.active := by
  rw [touched_eq]
  unfold Session.active
  dsimp only
  split_ifs with h
  · rw [h]; rfl
  · rfl

theorem sameSlot_touched {nowNs : UInt64} (hnow : nowNs < uint64Max) :
    SameSlot session (touched session nowNs) where
  clientId := by rw [touched_eq]
  addr := by rw [touched_eq]
  active := active_touched session nowNs
  time := Or.inr (by rw [touched_eq]; exact hnow)
  window := fun h => by rw [touched_eq]; exact ⟨h, rfl⟩

/-- What a packet of the session does to it, field by field. -/
theorem processPacket_fields (pkt : Packet) (nowNs : UInt64) (sent : Bool) :
    (processPacket session pkt nowNs sent).1.clientId = session.clientId ∧
      (processPacket session pkt nowNs sent).1.sessionId = session.sessionId ∧
      (processPacket session pkt nowNs sent).1.addr = session.addr ∧
      (processPacket session pkt nowNs sent).1.state = session.state ∧
      (processPacket session pkt nowNs sent).1.lastActivityNs = session.lastActivityNs ∧
      (processPacket session pkt nowNs sent).1.sendWin =
        (session.sendWin.onAck pkt.hdr.ackNum pkt.hdr.sackMask nowNs session.rtt).1 := by
  unfold processPacket onDataPacket
  dsimp only
  split_ifs <;> exact ⟨rfl, rfl, rfl, rfl, rfl, rfl⟩

theorem sameSlot_processPacket {pkt : Packet} {nowNs : UInt64} {sent : Bool}
    (hnow : nowNs < uint64Max) :
    SameSlot session (processPacket (touched session nowNs) pkt nowNs sent).1 := by
  have ht := sameSlot_touched session hnow
  obtain ⟨h1, -, h3, h4, h5, h6⟩ := processPacket_fields (touched session nowNs) pkt nowNs sent
  refine ⟨h1.trans ht.clientId, h3.trans ht.addr, ?_, ?_, fun h => ?_⟩
  · rw [Session.active, h4]
    exact ht.active
  · rw [h5]
    exact ht.time
  · rw [h6]
    obtain ⟨g1, g2⟩ := ht.window h
    obtain ⟨k1, k2⟩ := g1.onAck_usable pkt.hdr.ackNum pkt.hdr.sackMask nowNs
      (touched session nowNs).rtt
    exact ⟨k1, k2.trans g2⟩

theorem sameSlot_afterPush {item : MpmcItem} {nowNs : UInt64} {sendWin : SendWindow} {seq : UInt32}
    (hpush : session.sendWin.push item.mode item.data item.len.toNat nowNs = .ok (sendWin, seq))
    (sent : Bool) : SameSlot session (afterPush session sendWin item seq sent).1 :=
  ⟨rfl, rfl, rfl, Or.inl rfl, fun h => h.push_usable hpush⟩

theorem sameSlot_afterRetransmit (nowNs : UInt64) (sent : Bool) :
    SameSlot session (afterRetransmit session nowNs sent).1 :=
  ⟨rfl, rfl, rfl, Or.inl rfl, fun h => retransmit_usable h _ _ _ _⟩

theorem sameSlot_sendPacket (sent : Bool) (type : PktType) :
    SameSlot session (sendPacket session sent type 0 0 [] 0).1 :=
  ⟨rfl, rfl, rfl, Or.inl rfl, fun h => ⟨h, rfl⟩⟩

theorem sameSlot_afterHeartbeat (nowNs : UInt64) (sent : Bool) :
    SameSlot session (afterHeartbeat session nowNs sent) :=
  ⟨rfl, rfl, rfl, Or.inl rfl, fun h => ⟨h, rfl⟩⟩

end SameSlot

/-- A table of the server's, of `n` slots and window size `w`. -/
def TableOk (n w : UInt32) (s : Server) : Prop :=
  s.table.Inv w ∧ s.table.maxClients = n ∧ 0 < n.toNat

section Runs

variable {s : Server} {n w : UInt32}

theorem inv_foldl_free {t : SessionTable} (l : List ℕ) (ht : t.Inv w) :
    (l.foldl SessionTable.free t).Inv w := by
  induction l generalizing t with
  | nil => exact ht
  | cons i l ih => exact ih (ht.free i)

theorem free_maxClients (t : SessionTable) (i : ℕ) : (t.free i).maxClients = t.maxClients := by
  unfold SessionTable.free
  dsimp only
  split_ifs <;> rfl

theorem foldl_free_maxClients (l : List ℕ) (t : SessionTable) :
    (l.foldl SessionTable.free t).maxClients = t.maxClients := by
  induction l generalizing t with
  | nil => rfl
  | cons i l ih => rw [List.foldl_cons, ih, free_maxClients]

theorem TableOk.stop (hs : TableOk n w s) : TableOk n w s.stop := by
  unfold Server.stop
  split_ifs
  · exact hs
  · exact ⟨inv_foldl_free _ hs.1, (foldl_free_maxClients _ _).trans hs.2.1, hs.2.2⟩

theorem TableOk.setSlot (hs : TableOk n w s) {i : ℕ} {session : Session}
    (h : SameSlot (s.table.slot i) session) :
    (s.table.setSlot i session).Inv w ∧ (s.table.setSlot i session).maxClients = n ∧ 0 < n.toNat :=
  ⟨hs.1.setSlot h, hs.2.1, hs.2.2⟩

theorem TableOk.free (hs : TableOk n w s) (i : ℕ) :
    (s.table.free i).Inv w ∧ (s.table.free i).maxClients = n ∧ 0 < n.toNat :=
  ⟨hs.1.free i, (free_maxClients _ _).trans hs.2.1, hs.2.2⟩

/-- A new session, once its CONNECT_RESP has been sent. -/
theorem TableOk.enroll (hs : TableOk n w s) {srcAddr : NetAddr} {id : UInt32} {nowNs : UInt64}
    {sent : Bool} {slotIdx : ℤ} {session : Session} {table : SessionTable}
    (hnow : nowNs < uint64Max) (hfind : s.table.findByAddr srcAddr = none)
    (halloc : s.table.allocate srcAddr id true true = (some (slotIdx, session), table)) :
    (table.setSessionAt slotIdx (answered session nowNs sent)).Inv w ∧
      (table.setSessionAt slotIdx (answered session nowNs sent)).maxClients = n ∧ 0 < n.toNat := by
  obtain ⟨ht, hn, hpos⟩ := hs
  rcases ht.allocate_cases (hn ▸ hpos) srcAddr id true true with
    ⟨-, -, h⟩ | ⟨i, c, htakes, hc, h⟩
  · rw [h] at halloc
    exact absurd (congrArg Prod.fst halloc) (by simp)
  · rw [h] at halloc
    obtain ⟨h1, rfl⟩ := Prod.mk.inj halloc
    obtain ⟨rfl, rfl⟩ := Prod.mk.inj (Option.some.inj h1)
    have h0 : (0 : ℤ) ≤ i := by omega
    have hnew := SessionTable.newSession_eq ht.ring (ht.windows i htakes.lt).2 srcAddr id
    have heq : SessionTable.setSessionAt
        { s.table.setSlot i (SessionTable.newSession (s.table.slot i) srcAddr id true true) with
          activeCount := c } i (answered
            (SessionTable.newSession (s.table.slot i) srcAddr id true true) nowNs sent) =
        { s.table.setSlot i (answered
            (SessionTable.newSession (s.table.slot i) srcAddr id true true) nowNs sent) with
          activeCount := c } := by
      simp [SessionTable.setSessionAt, SessionTable.setSlot]
    rw [heq, hnew]
    exact ⟨ht.allocated htakes hfind hc ⟨rfl, rfl, rfl, hnow, rfl⟩, hn, hpos⟩

/-- **Every event keeps the table's invariant.** -/
theorem TableOk.moves (hs : TableOk n w s) {e : ServerEvent} (he : e.Regular) {s' : Server}
    {out : List (NetAddr × Packet)} (hstep : s.Moves e s' out) : TableOk n w s' := by
  cases hstep with
  | idle | start | send | recv | noSession => exact hs
  | stop => exact hs.stop
  | kick clientId i => exact hs.free i
  | accept srcAddr pkt nowNs stackAddr callocSend callocRecv sent i =>
    exact hs.setSlot (sameSlot_answered _ he.2.2 sent)
  | reject srcAddr pkt nowNs stackAddr callocSend callocRecv sent table htype hfind halloc =>
    obtain ⟨rfl, rfl, -⟩ := he
    rcases hs.1.allocate_cases (hs.2.1 ▸ hs.2.2) srcAddr (newSessionId nowNs stackAddr) true true
      with
      ⟨-, -, h⟩ | ⟨i, c, -, -, h⟩
    · rw [h] at halloc
      obtain ⟨-, rfl⟩ := Prod.mk.inj halloc
      exact hs
    · rw [h] at halloc
      exact absurd (congrArg Prod.fst halloc) (by simp)
  | enroll srcAddr pkt nowNs stackAddr callocSend callocRecv sent slotIdx session table htype hfind
      halloc =>
    obtain ⟨rfl, rfl, hnow⟩ := he
    exact hs.enroll hnow hfind halloc
  | connectAck srcAddr pkt nowNs stackAddr callocSend callocRecv sent i =>
    exact hs.setSlot (sameSlot_touched _ he.2.2)
  | disconnect srcAddr pkt nowNs stackAddr callocSend callocRecv sent i =>
    obtain ⟨h1, h2, h3⟩ := hs.setSlot (sameSlot_touched (s.table.slot i) he.2.2)
    exact ⟨h1.free i, (free_maxClients _ _).trans h2, h3⟩
  | process srcAddr pkt nowNs stackAddr callocSend callocRecv sent i =>
    exact hs.setSlot (sameSlot_processPacket _ he.2.2)
  | drainNone | drainHold =>
    unfold TableOk
    rw [takeItem_table]
    exact hs
  | drainDiscard => exact hs
  | drainPush nowNs sent item i sendWin seq htake hfind hstate hcan hpush =>
    exact hs.setSlot (sameSlot_afterPush _ hpush sent)
  | expire i => exact hs.free i
  | retransmit i nowNs sent => exact hs.setSlot (sameSlot_afterRetransmit _ nowNs sent)
  | ack i sent => exact hs.setSlot (sameSlot_sendPacket _ sent .ack)
  | heartbeat i nowNs sent => exact hs.setSlot (sameSlot_afterHeartbeat _ nowNs sent)

theorem create_tableOk {config : ServerConfig} {a : CreateAllocs} (h : create config a = some s)
    (hsmall : s.table.maxClients.toNat ≤ 2 ^ 31) :
    TableOk s.table.maxClients s.config.windowSize s := by
  obtain ⟨_, _, t, -, -, ht, rfl⟩ := create_some h
  have hmax : t.maxClients = config.withDefaults.maxClients := by
    unfold SessionTable.init at ht
    split_ifs at ht
    rw [Option.some.injEq] at ht
    rw [← ht]
  have hsmall' : t.maxClients.toNat ≤ 2 ^ 31 := hsmall
  obtain ⟨h1, h2, h3⟩ := SessionTable.init_inv ht (hmax ▸ hsmall')
  exact ⟨h1, rfl, by show 0 < t.maxClients.toNat; rw [h2]; exact h3⟩

end Runs

/-- **The session table over whole runs**, for a table of at most `2 ^ 31` slots: the counter counts
the occupied slots, slot `i` has id `i`, no two occupied slots have equal addresses, an allocation
only fails when the table is full under `reject`, and a session is evicted only when it is full
under `dropOld`, from the least recently active slot and from no other. -/
theorem session_table_invariant {config : ServerConfig} {a : CreateAllocs} {s₀ : Server}
    (hcreate : create config a = some s₀) (hsmall : s₀.table.maxClients.toNat ≤ 2 ^ 31)
    {es : List ServerEvent} (hes : ∀ e ∈ es, e.Regular) {t : SessionTable}
    (ht : (s₀.run es).table = t) :
    (t.maxClients = s₀.table.maxClients ∧ t.sessions.length = t.maxClients.toNat ∧
        t.activeCount.toNat = t.sessions.countP Session.active ∧ t.activeCount ≤ t.maxClients) ∧
      (∀ i < t.maxClients.toNat, (t.slot i).clientId = UInt32.ofNat i) ∧
      (∀ i j, (t.slot i).active = true → (t.slot j).active = true →
        (t.slot i).addr.equal (t.slot j).addr = true → i = j) ∧
      (∀ addr id, (t.allocate addr id true true).1 = none →
        t.activeCount = t.maxClients ∧ t.fullPolicy = .reject ∧
          (t.allocate addr id true true).2 = t) ∧
      ∀ addr id slotIdx session t', t.allocate addr id true true = (some (slotIdx, session), t') →
        ∃ i : ℕ, slotIdx = i ∧ i < t.maxClients.toNat ∧ t'.slot i = session ∧
          session.sendWin = SendWindow.fresh s₀.config.windowSize 1 ∧
          session.recvWin = RecvWindow.fresh s₀.config.windowSize 1 ∧
          session.rtt = Rtt.default ∧ (∀ j, j ≠ i → t'.slot j = t.slot j) ∧
          ((t.slot i).active = true → t.activeCount = t.maxClients ∧ t.fullPolicy = .dropOld ∧
            ∀ j, (t.slot j).active = true →
              (t.slot i).lastActivityNs ≤ (t.slot j).lastActivityNs) := by
  have hok : TableOk s₀.table.maxClients s₀.config.windowSize (s₀.run es) :=
    run_induction (fun e he _ _ _ hs hstep => hs.moves (hes e he) hstep)
      (create_tableOk hcreate hsmall)
  rw [TableOk, ht] at hok
  obtain ⟨hinv, hmax, hpos⟩ := hok
  rw [← hmax] at hpos
  have hlen := hinv.len
  refine ⟨⟨hmax, hlen, hinv.count, ?_⟩, fun i hi => hinv.ids i (hlen ▸ hi), hinv.addrs, ?_, ?_⟩
  · rw [UInt32.le_iff_toNat_le]
    exact hinv.count_le
  · intro addr id hnone
    rcases hinv.allocate_cases hpos addr id true true with ⟨h1, h2, h3⟩ | ⟨i, c, -, -, h⟩
    · exact ⟨h1, h2, by rw [h3]⟩
    · rw [h] at hnone
      exact absurd hnone (by simp)
  · intro addr id slotIdx session t' halloc
    rcases hinv.allocate_cases hpos addr id true true with ⟨-, -, h⟩ | ⟨i, c, htakes, -, h⟩
    · rw [h] at halloc
      exact absurd (congrArg Prod.fst halloc) (by simp)
    · rw [h] at halloc
      obtain ⟨h1, rfl⟩ := Prod.mk.inj halloc
      obtain ⟨rfl, rfl⟩ := Prod.mk.inj (Option.some.inj h1)
      have hi := htakes.lt
      have hslot : ∀ j, SessionTable.slot { t.setSlot i
          (SessionTable.newSession (t.slot i) addr id true true) with activeCount := c } j =
          if j = i then SessionTable.newSession (t.slot i) addr id true true else t.slot j :=
        t.slot_setSlot hi _
      have hnew := SessionTable.newSession_eq hinv.ring (hinv.windows i hi).2 addr id
      refine ⟨i, rfl, hlen ▸ hi, by rw [hslot, if_pos rfl], by rw [hnew], by rw [hnew],
        by rw [hnew], fun j hj => by rw [hslot, if_neg hj], fun hact => ?_⟩
      rcases htakes.free_or_oldest with ⟨-, hoff⟩ | ⟨h1, h2, -, h4⟩
      · rw [hact] at hoff
        exact Bool.noConfusion hoff
      · exact ⟨h1, h2, h4⟩

/-- A server with `n` slots, which evicts. -/
def tableConfig (n : UInt32) : ServerConfig :=
  { maxClients := n
    fullPolicy := .dropOld
    mtu := 1400
    sendQueueCapacity := 8
    recvQueueCapacity := 8
    windowSize := 8
    heartbeatIntervalMs := 1000
    inactivityTimeoutMs := 5000
    memoryMode := .fixed
    queueFullPolicy := .dropNew
    maxSendMemoryBytes := 0
    maxRecvMemoryBytes := 0 }

/-- A CONNECT_REQ from the `k`-th address. -/
def connectFrom (k : ℕ) : ServerEvent :=
  .packet (.inet 0 (UInt32.ofNat k)) (barePacket .connectReq 0 0) 1 0 true true true

/-- Start, and a CONNECT_REQ from each of the first `k` addresses. -/
def connects (k : ℕ) : List ServerEvent := .start :: (List.range k).map connectFrom

theorem regular_connects (k : ℕ) : ∀ e ∈ connects k, e.Regular := by
  intro e he
  rcases List.mem_cons.1 he with rfl | he
  · trivial
  · obtain ⟨i, -, rfl⟩ := List.mem_map.1 he
    exact ⟨rfl, rfl, by decide⟩

/-- Two clients and one slot: the second evicts the first, and one session is counted. -/
theorem session_table_invariant_of_two :
    ∃ s₀, create (tableConfig 1) CreateAllocs.allOk = some s₀ ∧
      (s₀.run (connects 2)).table.activeCount.toNat =
        (s₀.run (connects 2)).table.sessions.countP Session.active ∧
      (s₀.run (connects 2)).table.activeCount = 1 := by
  have hsome : (create (tableConfig 1) CreateAllocs.allOk).isSome = true := by decide +kernel
  obtain ⟨s₀, hs₀⟩ := Option.isSome_iff_exists.1 hsome
  have hval : (create (tableConfig 1) CreateAllocs.allOk).map (fun s =>
      (s.table.maxClients, (s.run (connects 2)).table.activeCount)) = some (1, 1) := by
    decide +kernel
  rw [hs₀, Option.map_some, Option.some.injEq, Prod.mk.injEq] at hval
  have h := session_table_invariant hs₀ (by rw [hval.1]; decide) (regular_connects 2) rfl
  exact ⟨s₀, hs₀, h.1.2.2.1, hval.2⟩

/-! ### More than `2 ^ 31` slots -/

/-- The first `k` of `n` slots are occupied, by the first `k` addresses. -/
structure Filled (n : UInt32) (k : ℕ) (s : Server) : Prop where
  running : s.running = true
  len : s.table.sessions.length = n.toNat
  max : s.table.maxClients = n
  count : s.table.activeCount.toNat = k
  occupied : s.table.sessions.countP Session.active = k
  on : ∀ i < k, (s.table.slot i).active = true ∧ (s.table.slot i).addr = .inet 0 (UInt32.ofNat i)
  off : ∀ i, k ≤ i → (s.table.slot i).active = false

/-- The table as it is created. -/
def emptyTable (n : UInt32) : SessionTable :=
  { sessions := (List.range n.toNat).map (SessionTable.initSession 8)
    maxClients := n
    activeCount := 0
    fullPolicy := .dropOld }

section Filled

variable {n : UInt32} {k : ℕ} {s : Server}

theorem exists_create (hn : n ≠ 0) :
    ∃ s₀, create (tableConfig n) CreateAllocs.allOk = some s₀ ∧ s₀.table = emptyTable n := by
  have htable : SessionTable.init n .dropOld 8 true (fun _ => true) (fun _ => true) =
      some (emptyTable n) := by
    unfold SessionTable.init
    rw [if_neg (not_or.2 ⟨hn, by decide⟩), if_neg (by decide)]
    exact if_pos fun _ _ => rfl
  have hdefaults : (tableConfig n).withDefaults = tableConfig n := by
    unfold ServerConfig.withDefaults tableConfig
    simp only [if_neg hn]
    rfl
  unfold create
  rw [hdefaults]
  dsimp only [tableConfig, CreateAllocs.allOk]
  rw [htable]
  exact ⟨_, rfl, rfl⟩

theorem filled_start (hs : s.table = emptyTable n) : Filled n 0 s.start := by
  have hoff : ∀ x ∈ (List.range n.toNat).map (SessionTable.initSession 8), x.active = false := by
    intro x hx
    obtain ⟨i, -, rfl⟩ := List.mem_map.1 hx
    rfl
  have htable : s.start.table = s.table := rfl
  refine
    { running := rfl
      len := by rw [htable, hs]; simp [emptyTable]
      max := by rw [htable, hs]; rfl
      count := by rw [htable, hs]; rfl
      occupied := ?_
      on := fun i hi => absurd hi (Nat.not_lt_zero i)
      off := fun i _ => ?_ }
  · rw [htable, hs]
    exact List.countP_eq_zero.2 fun x hx => by rw [hoff x hx]; exact Bool.false_ne_true
  · rw [htable]
    by_contra hact
    have hact : (s.table.slot i).active = true := by simpa using hact
    have hi := SessionTable.lt_of_active hact
    rw [SessionTable.slot_eq_getElem hi] at hact
    have hmem := List.getElem_mem hi
    have hmem' : s.table.sessions[i] ∈ (emptyTable n).sessions := by
      rw [← hs]
      exact hmem
    rw [hoff _ hmem'] at hact
    exact Bool.noConfusion hact

/-- The next address has no session, and the first free slot is the next one. -/
theorem Filled.next (hs : Filled n k s) (hk : k < n.toNat) :
    s.table.findByAddr (.inet 0 (UInt32.ofNat k)) = none ∧
      s.table.chooseSlot = (SessionTable.int32 k, s.table) := by
  have hn := n.toNat_lt
  have hlen := hs.len
  constructor
  · refine List.findIdx?_eq_none_iff.2 fun x hx => ?_
    obtain ⟨i, hi, rfl⟩ := List.getElem_of_mem hx
    rw [← SessionTable.slot_eq_getElem hi]
    by_cases hik : i < k
    · obtain ⟨-, haddr⟩ := hs.on i hik
      have hne : UInt32.ofNat i ≠ UInt32.ofNat k := by
        intro heq
        have := congrArg UInt32.toNat heq
        rw [UInt32.toNat_ofNat_of_lt' (by rw [show UInt32.size = 2 ^ 32 from rfl]; omega),
          UInt32.toNat_ofNat_of_lt' (by rw [show UInt32.size = 2 ^ 32 from rfl]; omega)] at this
        omega
      rw [haddr]
      simp [NetAddr.equal, hne]
    · rw [hs.off i (not_lt.1 hik)]
      rfl
  · have hlt : s.table.activeCount < s.table.maxClients := by
      rw [UInt32.lt_iff_toNat_lt, hs.count, hs.max]
      exact hk
    have hfind : s.table.sessions.findIdx? (fun x => !x.active) = some k := by
      refine List.findIdx?_eq_some_iff_getElem.2 ⟨by omega, ?_, fun j hj => ?_⟩
      · rw [← SessionTable.slot_eq_getElem (by omega), hs.off k le_rfl]
        rfl
      · rw [← SessionTable.slot_eq_getElem (by omega), (hs.on j hj).1]
        decide
    simp only [SessionTable.chooseSlot, if_pos hlt, hfind]

/-- The session a CONNECT_REQ from the next address makes of a slot. -/
def connecting (k : ℕ) (session : Session) : Session :=
  SessionTable.newSession session (.inet 0 (UInt32.ofNat k)) (newSessionId 1 0) true true

/-- The table after it, for the slot number the allocation computes. -/
def connectedTable (k : ℕ) (slotIdx : ℤ) (t : SessionTable) : SessionTable :=
  SessionTable.setSessionAt
    { t.setSessionAt slotIdx (connecting k (t.sessionAt slotIdx)) with
      activeCount := t.activeCount + 1 }
    slotIdx (answered (connecting k (t.sessionAt slotIdx)) 1 true)

/-- What a CONNECT_REQ from the next address does. -/
theorem Filled.exec_eq (hs : Filled n k s) (hk : k < n.toNat) (hne : SessionTable.int32 k ≠ -1) :
    (s.exec (connectFrom k)).1 =
      { s with table := connectedTable k (SessionTable.int32 k) s.table } := by
  obtain ⟨hfind, hchoose⟩ := hs.next hk
  have hcount : ∀ x y, (s.table.setSessionAt x y).activeCount = s.table.activeCount := by
    intro x y
    unfold SessionTable.setSessionAt
    split_ifs <;> rfl
  have hreq : (barePacket .connectReq 0 0).hdr.packetType = PktType.connectReq.code := rfl
  simp only [connectFrom, exec, whileRunning, if_pos hs.running, handle, if_pos hreq, onConnectReq,
    hfind, SessionTable.allocate, hchoose, if_neg hne, hcount]
  rfl

/-- Below `2 ^ 31` the next slot is taken. -/
theorem Filled.succ (hs : Filled n k s) (hk : k < n.toNat) (hk' : k < 2 ^ 31) :
    Filled n (k + 1) (s.exec (connectFrom k)).1 := by
  have hi : k < s.table.sessions.length := by rw [hs.len]; exact hk
  have h32 : SessionTable.int32 k = k := SessionTable.int32_of_lt hk'
  have h0 : (0 : ℤ) ≤ k := by omega
  have hne : SessionTable.int32 k ≠ -1 := by rw [h32]; omega
  obtain ⟨x, hexec, haddr, hact⟩ : ∃ x, (s.exec (connectFrom k)).1 =
      { s with table := { s.table.setSlot k x with activeCount := s.table.activeCount + 1 } } ∧
      x.addr = .inet 0 (UInt32.ofNat k) ∧ x.active = true := by
    refine ⟨answered (connecting k (s.table.sessionAt k)) 1 true, ?_, rfl, rfl⟩
    rw [hs.exec_eq hk hne, h32]
    simp [connectedTable, SessionTable.setSessionAt, SessionTable.setSlot]
  have hx : (s.exec (connectFrom k)).1.table =
      { s.table.setSlot k x with activeCount := s.table.activeCount + 1 } := by rw [hexec]
  have hslot : ∀ j, (s.exec (connectFrom k)).1.table.slot j =
      if j = k then x else s.table.slot j := by
    intro j
    rw [hx]
    exact s.table.slot_setSlot hi x j
  have hoff := hs.off k le_rfl
  refine
    { running := by rw [hexec]; exact hs.running
      len := by rw [hx]; show (s.table.sessions.set k x).length = _; rw [List.length_set, hs.len]
      max := by rw [hx]; exact hs.max
      count := ?_
      occupied := ?_
      on := fun i hik => ?_
      off := fun i hik => ?_ }
  · rw [hx]
    show (s.table.activeCount + 1).toNat = k + 1
    rw [UInt32.toNat_add, hs.count, show (1 : UInt32).toNat = 1 from rfl]
    omega
  · rw [hx]
    show (s.table.setSlot k x).sessions.countP Session.active = k + 1
    rw [s.table.countP_setSlot hi, hs.occupied, hoff, hact]
    rfl
  · rw [hslot]
    split_ifs with hi'
    · rw [hi']; exact ⟨hact, haddr⟩
    · exact hs.on i (by omega)
  · rw [hslot, if_neg (by omega)]
    exact hs.off i (by omega)

theorem run_connects_succ (s : Server) (k : ℕ) :
    s.run (connects (k + 1)) = ((s.run (connects k)).exec (connectFrom k)).1 := by
  simp [run, connects, List.range_succ]

theorem filled_connects (hs : s.table = emptyTable n) (hk : k ≤ n.toNat) (hk' : k ≤ 2 ^ 31) :
    Filled n k (s.run (connects k)) := by
  induction k with
  | zero => exact filled_start hs
  | succ k ih =>
    rw [run_connects_succ]
    exact (ih (by omega) (by omega)).succ (by omega) (by omega)

/-- At `2 ^ 31` the slot number is negative and no slot is written, but the counter goes up. -/
theorem Filled.overflow (hs : Filled n (2 ^ 31) s) (hn : 2 ^ 31 < n.toNat) :
    (s.exec (connectFrom (2 ^ 31))).1.table.activeCount.toNat = 2 ^ 31 + 1 ∧
      (s.exec (connectFrom (2 ^ 31))).1.table.sessions.countP Session.active = 2 ^ 31 := by
  have h32 : SessionTable.int32 (2 ^ 31) = -2147483648 := by decide
  have htable : (s.exec (connectFrom (2 ^ 31))).1.table =
      { s.table with activeCount := s.table.activeCount + 1 } := by
    rw [hs.exec_eq hn (by rw [h32]; decide), h32]
    rfl
  rw [htable]
  refine ⟨?_, hs.occupied⟩
  show (s.table.activeCount + 1).toNat = _
  rw [UInt32.toNat_add, hs.count]
  rfl

end Filled

/-- `2 ^ 31 + 1` slots and as many clients: the last one is counted and is in no slot. -/
theorem session_table_overflows :
    ∃ s₀, create (tableConfig 2147483649) CreateAllocs.allOk = some s₀ ∧
      (∀ e ∈ connects (2 ^ 31 + 1), e.Regular) ∧
      (s₀.run (connects (2 ^ 31 + 1))).table.activeCount.toNat ≠
        (s₀.run (connects (2 ^ 31 + 1))).table.sessions.countP Session.active := by
  obtain ⟨s₀, hcreate, htable⟩ := exists_create (n := 2147483649) (by decide)
  have hfilled := filled_connects htable
    (show 2 ^ 31 ≤ (2147483649 : UInt32).toNat by decide) le_rfl
  obtain ⟨h1, h2⟩ := hfilled.overflow (by decide)
  refine ⟨s₀, hcreate, regular_connects _, ?_⟩
  rw [run_connects_succ, h1, h2]
  decide

end Server

end Rel4u
