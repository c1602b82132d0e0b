import Rel4u.Server.Slot
import Rel4u.System.ClientEffect

/-!
# The server's sessions as parties

An event of the server does one of three things to its sessions (`Server.Effect`). It changes the
windows of none of them, though it may free some, and sends headers at most; or one session does
what a party does, and the others are left alone; or a new session is written over a slot, or beside
the table if the slot number has overflown. The windows of a session whose allocation failed have no
slots; otherwise a new session has fresh windows of the size its slot has always had.
-/

namespace Rel4u

open Serial (IsRingSize)

/-- A session of the server as a party. -/
def Session.party (x : Session) (sent : List Message) (got : List RecvSlot) : Party :=
  { send := x.sendWin, recv := x.recvWin, sent, got }

/-- The packets of an event from an address in a session. -/
def ServerEvent.mail (addr : NetAddr) (id : UInt32) : ServerEvent → List Packet
  | .packet srcAddr pkt _ _ _ _ _ =>
    if srcAddr = addr ∧ pkt.hdr.sessionId = id then [pkt] else []
  | _ => []

/-- The send window has a size from which an allocation makes a window: none, or a ring's. -/
def Session.HasSize (x : Session) : Prop :=
  x.sendWin.capacity = 0 ∨ IsRingSize x.sendWin.capacity

namespace Server

/-! ### What a session does as a party -/

section Acts

variable {x : Session} {inbox : List Packet}

theorem acts_sendPacket (x : Session) (sent : Bool) {type : PktType} (htype : type ≠ .data)
    (msgs : List Message) (got : List RecvSlot) :
    Acts x.sessionId inbox (x.party msgs got) ((sendPacket x sent type 0 0 [] 0).1.party msgs got)
      [(sendPacket x sent type 0 0 [] 0).2.2] :=
  .emit (x.party msgs got) (sendPacket x sent type 0 0 [] 0).2.2 rfl (code_ne_data type htype)
    (Or.inl rfl)

theorem acts_processPacket {pkt : Packet} (hmem : pkt ∈ inbox) (nowNs : UInt64) (sent : Bool)
    (msgs : List Message) (got : List RecvSlot) :
    Acts x.sessionId inbox (x.party msgs got)
      ((processPacket x pkt nowNs sent).1.party msgs (got ++ (processPacket x pkt nowNs sent).2.1))
      ((processPacket x pkt nowNs sent).2.2.map Prod.snd) := by
  have hack : Acts x.sessionId inbox _ _ [] := .ack (x.party msgs got) pkt hmem nowNs x.rtt
  unfold processPacket
  dsimp only
  by_cases hbeat : pkt.hdr.packetType = PktType.heartbeat.code
  · have hdata : pkt.hdr.packetType ≠ PktType.data.code := by rw [hbeat]; decide
    simp only [if_pos hbeat, if_neg hdata, List.append_nil]
    exact Acts.trans hack (acts_sendPacket { x with
      sendWin := (x.sendWin.onAck pkt.hdr.ackNum pkt.hdr.sackMask nowNs x.rtt).1
      rtt := (x.sendWin.onAck pkt.hdr.ackNum pkt.hdr.sackMask nowNs x.rtt).2 } sent
      (by decide) msgs got)
  · simp only [if_neg hbeat]
    split_ifs with hdata
    · exact Acts.trans hack (Acts.data _ pkt hmem hdata)
    · rw [List.append_nil]
      exact hack

theorem processPacket_ready {pkt : Packet} (hdata : pkt.hdr.packetType ≠ PktType.data.code)
    (nowNs : UInt64) (sent : Bool) : (processPacket x pkt nowNs sent).2.1 = [] := by
  unfold processPacket
  dsimp only
  rw [if_neg hdata]

theorem acts_afterPush {item : MpmcItem} {nowNs : UInt64} {sendWin : SendWindow} {seq : UInt32}
    (hpush : x.sendWin.push item.mode item.data item.len.toNat nowNs = .ok (sendWin, seq))
    (hshort : sendWin.nextSeq.toNat ≤ 2 ^ 30) (sent : Bool) (msgs : List Message)
    (got : List RecvSlot) :
    ∃ msgs', Acts x.sessionId inbox (x.party msgs got)
      ((afterPush x sendWin item seq sent).1.party msgs' got)
      [(afterPush x sendWin item seq sent).2.2] := by
  by_cases hmode : Reliable item.mode
  · exact ⟨_, .push (x.party msgs got) item.mode item.data item.len.toNat nowNs sendWin seq hmode
      hpush hshort⟩
  · exact ⟨msgs, .pushUnreliable (x.party msgs got) item.mode item.data item.len.toNat nowNs sendWin
      seq hmode hpush⟩

theorem acts_afterRetransmit (x : Session) (nowNs : UInt64) (sent : Bool) (msgs : List Message)
    (got : List RecvSlot) :
    Acts x.sessionId inbox (x.party msgs got) ((afterRetransmit x nowNs sent).1.party msgs got)
      ((afterRetransmit x nowNs sent).2.map Prod.snd) := by
  rw [packets_afterRetransmit]
  exact .retransmit (x.party msgs got) x.rtt nowNs

end Acts

/-! ### New sessions -/

section NewSession

variable {x : Session}

/-- The size that an allocation gives its windows. -/
theorem winCap_ring (hx : x.HasSize) :
    IsRingSize (if x.sendWin.capacity ≠ 0 then x.sendWin.capacity else 64) := by
  split_ifs with h
  · exact hx.resolve_left h
  · exact ⟨6, by norm_num, by decide⟩

theorem newSession_hasSize (hx : x.HasSize) (addr : NetAddr) (id : UInt32)
    (callocSend callocRecv : Bool) :
    (SessionTable.newSession x addr id callocSend callocRecv).HasSize := by
  have hring := winCap_ring hx
  unfold Session.HasSize SessionTable.newSession
  dsimp only
  cases callocSend with
  | true =>
    rw [SendWindow.init_eq_fresh hring]
    exact Or.inr hring
  | false =>
    left
    simp [SendWindow.init, SendWindow.destroy]

/-- If both windows can be allocated they are fresh. -/
theorem newSession_fresh (hx : x.HasSize) (addr : NetAddr) (id : UInt32) :
    ∃ c, IsRingSize c ∧ (x.sendWin.capacity = 0 → c = 64) ∧
      (SessionTable.newSession x addr id true true).sendWin = SendWindow.fresh c 1 ∧
      (SessionTable.newSession x addr id true true).recvWin = RecvWindow.fresh c 1 := by
  have hring := winCap_ring hx
  refine ⟨_, hring, fun h => if_neg (not_not.2 h), ?_, ?_⟩
  · unfold SessionTable.newSession
    dsimp only
    rw [SendWindow.init_eq_fresh hring]
  · unfold SessionTable.newSession
    dsimp only
    rw [RecvWindow.init_eq_fresh hring]

end NewSession

/-! ### What an event does -/

/-- A packet that says nothing of any window: it is sent under no session, under the session of the
slot it goes to the address of, or as the answer to a packet of the same session id. -/
structure Bare (s : Server) (e : ServerEvent) (dst : NetAddr) (pkt : Packet) : Prop where
  type : pkt.hdr.packetType ≠ PktType.data.code
  ack : (pkt.hdr.ackNum, pkt.hdr.sackMask) = (0, 0)
  origin : pkt.hdr.sessionId = 0 ∨
    (∃ i, (s.table.slot i).active = true ∧ (s.table.slot i).addr = dst ∧
      (s.table.slot i).sessionId = pkt.hdr.sessionId) ∨
    e.mail dst pkt.hdr.sessionId ≠ []

/-- **What an event of the server is for its sessions.** -/
inductive Effect (s : Server) (e : ServerEvent) (s' : Server) (out : List (NetAddr × Packet)) :
    Prop
  | quiet (hslots : ∀ j, (s'.table.slot j).active = true → s'.table.slot j = s.table.slot j)
      (hcaps : ∀ j, (s'.table.slot j).sendWin.capacity = (s.table.slot j).sendWin.capacity)
      (hout : ∀ x ∈ out, s.Bare e x.1 x.2) (hissues : s.issues e = none) (hhands : s.hands e = [])
      (hqueue : s'.recvQueue = s.recvQueue ∨ s'.recvQueue = s.recvQueue.popWait.2 ∨
        s'.recvQueue = emptyQueue (s.recvQueue.count + 1) s.recvQueue)
  | act (i : ℕ) (x : Session) (ready : List RecvSlot) (hactive : (s.table.slot i).active = true)
      (hslot : s'.table.slot i = x) (hother : ∀ j, j ≠ i → s'.table.slot j = s.table.slot j)
      (hsame : x.active = true ∧ x.sessionId = (s.table.slot i).sessionId ∧
        x.addr = (s.table.slot i).addr)
      (hacts : x.sendWin.nextSeq.toNat ≤ 2 ^ 30 → ∀ msgs got, ∃ msgs',
        Acts x.sessionId (e.mail x.addr x.sessionId) ((s.table.slot i).party msgs got)
          (x.party msgs' (got ++ ready)) (out.map Prod.snd))
      (hcap : x.sendWin.capacity = (s.table.slot i).sendWin.capacity)
      (hout : ∀ y ∈ out, y.1 = x.addr) (hissues : s.issues e = none)
      (hhands : s.hands e =
        (taken x.clientId s.recvQueue ready).map fun slot => (x.sessionId, slot))
      (hqueue : s'.recvQueue = pushReady x.clientId s.recvQueue ready)
  | enroll (x : Session) (hissues : s.issues e = some (x.sessionId, x.addr))
      (hactive : x.active = true) (hne : x.sessionId ≠ 0)
      (hslots : (∃ i, s'.table.slot i = x ∧ ∀ j, j ≠ i → s'.table.slot j = s.table.slot j) ∨
        ((∀ j, s'.table.slot j = s.table.slot j) ∧
          (e.callocs = true → (x.sendWin, x.recvWin) = System.strayEnds)))
      (hsize : x.HasSize)
      (hfresh : e.callocs = true → ∃ c, IsRingSize c ∧ x.sendWin = SendWindow.fresh c 1 ∧
        x.recvWin = RecvWindow.fresh c 1)
      (hout : ∃ pkt, out = [(x.addr, pkt)] ∧ pkt.hdr.sessionId = x.sessionId ∧
        pkt.hdr.packetType ≠ PktType.data.code ∧ AckOf x.recvWin pkt)
      (hhands : s.hands e = []) (hqueue : s'.recvQueue = s.recvQueue)

section Effect

variable {s : Server}

/-! #### Freed slots -/

theorem slot_free (t : SessionTable) (i j : ℕ) :
    ((t.free i).slot j = t.slot j ∨ ((t.free i).slot j).active = false) ∧
      ((t.free i).slot j).sendWin.capacity = (t.slot j).sendWin.capacity := by
  by_cases hji : j = i
  · subst hji
    cases hact : (t.slot j).active with
    | true =>
      rw [slot_free_self hact]
      exact ⟨Or.inr rfl, rfl⟩
    | false =>
      rw [SessionTable.free_of_inactive hact]
      exact ⟨Or.inl rfl, rfl⟩
  · rw [t.slot_free_of_ne hji]
    exact ⟨Or.inl rfl, rfl⟩

theorem slot_foldl_free (l : List ℕ) (j : ℕ) : ∀ t : SessionTable,
    ((l.foldl SessionTable.free t).slot j = t.slot j ∨
        ((l.foldl SessionTable.free t).slot j).active = false) ∧
      ((l.foldl SessionTable.free t).slot j).sendWin.capacity = (t.slot j).sendWin.capacity := by
  induction l with
  | nil => exact fun t => ⟨Or.inl rfl, rfl⟩
  | cons i l ih =>
    intro t
    obtain ⟨h1, h2⟩ := slot_free t i j
    obtain ⟨h3, h4⟩ := ih (t.free i)
    refine ⟨?_, h4.trans h2⟩
    rcases h3 with h3 | h3
    · rcases h1 with h1 | h1
      · exact Or.inl (h3.trans h1)
      · right
        rw [List.foldl_cons, h3]
        exact h1
    · exact Or.inr h3

/-- An event that at most frees slots, and sends bare packets. -/
theorem Effect.of_freed {e : ServerEvent} {s' : Server} {out : List (NetAddr × Packet)}
    (hslots : ∀ j, (s'.table.slot j = s.table.slot j ∨ (s'.table.slot j).active = false) ∧
      (s'.table.slot j).sendWin.capacity = (s.table.slot j).sendWin.capacity)
    (hout : ∀ x ∈ out, s.Bare e x.1 x.2) (hissues : s.issues e = none) (hhands : s.hands e = [])
    (hqueue : s'.recvQueue = s.recvQueue ∨ s'.recvQueue = s.recvQueue.popWait.2 ∨
      s'.recvQueue = emptyQueue (s.recvQueue.count + 1) s.recvQueue) : Effect s e s' out := by
  refine .quiet (fun j hj => ?_) (fun j => (hslots j).2) hout hissues hhands hqueue
  rcases (hslots j).1 with h | h
  · exact h
  · rw [h] at hj
    exact Bool.noConfusion hj

/-- An event of one session. -/
theorem Effect.of_setSlot {e : ServerEvent} {s' : Server} {out : List (NetAddr × Packet)} {i : ℕ}
    (x : Session) (ready : List RecvSlot) (hactive : (s.table.slot i).active = true)
    (htable : s'.table = s.table.setSlot i x)
    (hsame : x.active = true ∧ x.sessionId = (s.table.slot i).sessionId ∧
      x.addr = (s.table.slot i).addr)
    (hacts : x.sendWin.nextSeq.toNat ≤ 2 ^ 30 → ∀ msgs got, ∃ msgs',
      Acts x.sessionId (e.mail x.addr x.sessionId) ((s.table.slot i).party msgs got)
        (x.party msgs' (got ++ ready)) (out.map Prod.snd))
    (hcap : x.sendWin.capacity = (s.table.slot i).sendWin.capacity)
    (hout : ∀ y ∈ out, y.1 = x.addr) (hissues : s.issues e = none)
    (hhands : s.hands e =
      (taken x.clientId s.recvQueue ready).map fun slot => (x.sessionId, slot))
    (hqueue : s'.recvQueue = pushReady x.clientId s.recvQueue ready) : Effect s e s' out := by
  have hlt := SessionTable.lt_of_active hactive
  refine .act i x ready hactive ?_ (fun j hj => ?_) hsame hacts hcap hout hissues hhands hqueue
  · rw [htable, SessionTable.slot_setSlot _ hlt, if_pos rfl]
  · rw [htable, SessionTable.slot_setSlot _ hlt, if_neg hj]

/-! #### Datagrams -/

section Packet

variable {srcAddr : NetAddr} {pkt : Packet} {nowNs stackAddr : UInt64}
  {callocSend callocRecv sent : Bool}

theorem issues_of_type (htype : pkt.hdr.packetType ≠ PktType.connectReq.code) :
    s.issues (.packet srcAddr pkt nowNs stackAddr callocSend callocRecv sent) = none :=
  if_neg fun h => htype h.2.1

theorem hands_of_type (htype : pkt.hdr.packetType ≠ PktType.data.code) :
    s.hands (.packet srcAddr pkt nowNs stackAddr callocSend callocRecv sent) = [] := by
  simp only [hands]
  split
  · rfl
  · split_ifs
    · rw [processPacket_ready htype]
      rfl
    · rfl

theorem active_of_findByAddr {i : ℕ} (h : s.table.findByAddr srcAddr = some i) :
    (s.table.slot i).active = true ∧ (s.table.slot i).addr = srcAddr :=
  ⟨(SessionTable.findByAddr_some h).1, NetAddr.eq_of_equal (SessionTable.findByAddr_some h).2⟩

theorem processPacket_out (x : Session) (pkt : Packet) (nowNs : UInt64) (sent : Bool) :
    ∀ y ∈ (processPacket x pkt nowNs sent).2.2, y.1 = x.addr := by
  unfold processPacket
  dsimp only
  split_ifs
  · simp [sendPacket]
  · simp

theorem effect_accept {i : ℕ} (htype : pkt.hdr.packetType = PktType.connectReq.code)
    (hfind : s.table.findByAddr srcAddr = some i) :
    Effect s (.packet srcAddr pkt nowNs stackAddr callocSend callocRecv sent)
      { s with table := s.table.setSlot i (answered (s.table.slot i) nowNs sent) }
      [response (s.table.slot i) nowNs sent] := by
  obtain ⟨hactive, haddr⟩ := active_of_findByAddr hfind
  have hdata : pkt.hdr.packetType ≠ PktType.data.code := by rw [htype]; decide
  refine .of_setSlot (answered (s.table.slot i) nowNs sent) [] hactive rfl
    ⟨hactive, rfl, rfl⟩ (fun _ msgs got => ⟨msgs, ?_⟩) rfl ?_ ?_ (hands_of_type hdata) rfl
  · rw [List.append_nil]
    exact acts_sendPacket
      { s.table.slot i with lastActivityNs := nowNs, lastHeartbeatSentNs := nowNs } sent (by decide)
      msgs got
  · intro y hy
    rw [List.mem_singleton.1 hy]
    rfl
  · refine if_neg fun h => ?_
    rw [hfind] at h
    exact absurd h.2.2.1 (by simp)

theorem effect_connectAck {i : ℕ} (hfind : s.table.findByAddr srcAddr = some i)
    (htype : pkt.hdr.packetType = PktType.connectAck.code) :
    Effect s (.packet srcAddr pkt nowNs stackAddr callocSend callocRecv sent)
      { s with table := s.table.setSlot i (touched (s.table.slot i) nowNs) } [] := by
  obtain ⟨hactive, -⟩ := active_of_findByAddr hfind
  have hdata : pkt.hdr.packetType ≠ PktType.data.code := by rw [htype]; decide
  have hreq : pkt.hdr.packetType ≠ PktType.connectReq.code := by rw [htype]; decide
  have htouched := touched_eq (s.table.slot i) nowNs
  have hactive' := (active_touched (s.table.slot i) nowNs).trans hactive
  refine .of_setSlot _ [] hactive rfl ⟨hactive', ?_, ?_⟩ (fun _ msgs got => ⟨msgs, ?_⟩) ?_ (by simp)
    (issues_of_type hreq) (hands_of_type hdata) rfl
  · rw [htouched]
  · rw [htouched]
  · rw [List.append_nil, htouched]
    exact .refl _
  · rw [htouched]

theorem effect_disconnect {i : ℕ} (hfind : s.table.findByAddr srcAddr = some i)
    (htype : pkt.hdr.packetType = PktType.disconnect.code) :
    Effect s (.packet srcAddr pkt nowNs stackAddr callocSend callocRecv sent)
      { s with table := (s.table.setSlot i (touched (s.table.slot i) nowNs)).free i } [] := by
  obtain ⟨hactive, -⟩ := active_of_findByAddr hfind
  have hdata : pkt.hdr.packetType ≠ PktType.data.code := by rw [htype]; decide
  have hreq : pkt.hdr.packetType ≠ PktType.connectReq.code := by rw [htype]; decide
  refine .of_freed (fun j => ?_) (by simp) (issues_of_type hreq) (hands_of_type hdata) (Or.inl rfl)
  have hset := s.table.slot_setSlot (SessionTable.lt_of_active hactive)
    (touched (s.table.slot i) nowNs)
  by_cases hji : j = i
  · subst hji
    have hself := hset j
    rw [if_pos rfl] at hself
    have hact : ((s.table.setSlot j (touched (s.table.slot j) nowNs)).slot j).active = true := by
      rw [hself, active_touched]
      exact hactive
    rw [slot_free_self hact, hself, touched_eq]
    exact ⟨Or.inr rfl, rfl⟩
  · rw [SessionTable.slot_free_of_ne _ hji, hset, if_neg hji]
    exact ⟨Or.inl rfl, rfl⟩

theorem effect_process (hrun : s.running = true) {i : ℕ}
    (hfind : s.table.findByAddr srcAddr = some i)
    (hid : (s.table.slot i).sessionId = pkt.hdr.sessionId)
    (htype : pkt.hdr.packetType ≠ PktType.connectReq.code) :
    Effect s (.packet srcAddr pkt nowNs stackAddr callocSend callocRecv sent)
      { s with
        table := s.table.setSlot i
          (processPacket (touched (s.table.slot i) nowNs) pkt nowNs sent).1
        recvQueue := pushReady
          (processPacket (touched (s.table.slot i) nowNs) pkt nowNs sent).1.clientId s.recvQueue
          (processPacket (touched (s.table.slot i) nowNs) pkt nowNs sent).2.1 }
      (processPacket (touched (s.table.slot i) nowNs) pkt nowNs sent).2.2 := by
  obtain ⟨hactive, haddr⟩ := active_of_findByAddr hfind
  have htouched := touched_eq (s.table.slot i) nowNs
  have hactive' := (active_touched (s.table.slot i) nowNs).trans hactive
  obtain ⟨-, h2, h3, h4, -, h6⟩ := processPacket_fields (touched (s.table.slot i) nowNs) pkt nowNs
    sent
  have htid : (touched (s.table.slot i) nowNs).sessionId = (s.table.slot i).sessionId := by
    rw [htouched]
  have htaddr : (touched (s.table.slot i) nowNs).addr = (s.table.slot i).addr := by rw [htouched]
  refine .of_setSlot _ _ hactive rfl ⟨?_, h2.trans htid, h3.trans htaddr⟩
    (fun _ msgs got => ⟨msgs, ?_⟩) ?_ ?_ (issues_of_type htype) ?_ rfl
  · rw [Session.active, h4]
    exact hactive'
  · have hmem : pkt ∈ ServerEvent.mail
        (processPacket (touched (s.table.slot i) nowNs) pkt nowNs sent).1.addr
        (processPacket (touched (s.table.slot i) nowNs) pkt nowNs sent).1.sessionId
        (.packet srcAddr pkt nowNs stackAddr callocSend callocRecv sent) := by
      rw [h2, h3, htid, htaddr, ServerEvent.mail, if_pos ⟨haddr.symm, hid.symm⟩]
      exact List.mem_singleton_self pkt
    have hacts := acts_processPacket (x := touched (s.table.slot i) nowNs) hmem nowNs sent msgs got
    rw [← h2] at hacts
    have hparty : (touched (s.table.slot i) nowNs).party msgs got =
        (s.table.slot i).party msgs got := by
      rw [htouched]
      rfl
    rwa [hparty] at hacts
  · rw [h6, SendWindow.static_capacity.onAck, htouched]
  · rw [h3]
    exact processPacket_out _ pkt nowNs sent
  · simp only [hands, hfind, hrun, hid, if_true, and_self]
    rw [h2, htid, hid]

theorem newSessionId_ne_zero (nowNs stackAddr : UInt64) : newSessionId nowNs stackAddr ≠ 0 := by
  unfold newSessionId
  dsimp only
  split_ifs with h
  · decide
  · exact h

theorem effect_enroll (hrun : s.running = true) (hsize : ∀ i, (s.table.slot i).HasSize)
    {slotIdx : ℤ} {session : Session} {table : SessionTable}
    (htype : pkt.hdr.packetType = PktType.connectReq.code)
    (hfind : s.table.findByAddr srcAddr = none)
    (halloc : s.table.allocate srcAddr (newSessionId nowNs stackAddr) callocSend callocRecv =
      (some (slotIdx, session), table)) :
    Effect s (.packet srcAddr pkt nowNs stackAddr callocSend callocRecv sent)
      { s with table := table.setSessionAt slotIdx (answered session nowNs sent) }
      [response session nowNs sent] := by
  obtain ⟨hsession, hlen⟩ := allocate_session halloc
  obtain ⟨-, hother⟩ := SessionTable.allocate_some halloc
  have hdata : pkt.hdr.packetType ≠ PktType.data.code := by rw [htype]; decide
  have hold : (s.table.sessionAt slotIdx).HasSize := by
    unfold SessionTable.sessionAt
    split_ifs
    · exact hsize _
    · exact Or.inl rfl
  have hfresh : (callocSend && callocRecv) = true →
      ∃ c, IsRingSize c ∧ ((s.table.sessionAt slotIdx).sendWin.capacity = 0 → c = 64) ∧
        session.sendWin = SendWindow.fresh c 1 ∧ session.recvWin = RecvWindow.fresh c 1 := by
    intro hcallocs
    obtain ⟨rfl, rfl⟩ := Bool.and_eq_true_iff.1 hcallocs
    rw [hsession]
    exact newSession_fresh hold _ _
  refine .enroll (answered session nowNs sent) ?_ ?_ ?_ ?_ ?_ (fun hcallocs => ?_) ?_
    (hands_of_type hdata) rfl
  · refine (if_pos ⟨hrun, htype, hfind, by rw [halloc]; rfl⟩).trans ?_
    rw [hsession]
    rfl
  · rw [hsession]
    rfl
  · rw [hsession]
    exact newSessionId_ne_zero nowNs stackAddr
  · by_cases hin : 0 ≤ slotIdx ∧ slotIdx.toNat < s.table.sessions.length
    · left
      refine ⟨slotIdx.toNat, ?_, fun j hj => ?_⟩
      · rw [SessionTable.setSessionAt, if_pos hin.1,
          SessionTable.slot_setSlot _ (by rw [hlen]; exact hin.2), if_pos rfl]
      · have hne : slotIdx ≠ j := by omega
        rw [SessionTable.slot_setSessionAt_of_ne _ hne]
        exact hother j hne
    · right
      have hdefault : s.table.sessionAt slotIdx = default := by
        unfold SessionTable.sessionAt
        split_ifs with h0
        · exact SessionTable.slot_of_le (not_lt.1 fun h => hin ⟨h0, h⟩)
        · rfl
      refine ⟨fun j => ?_, fun hcallocs => ?_⟩
      · by_cases hne : slotIdx = j
        · -- there is no such slot
          have hj : s.table.sessions.length ≤ j := not_lt.1 fun h => hin (by omega)
          rw [SessionTable.slot_of_le hj, SessionTable.slot_of_le]
          rw [setSessionAt_length, hlen]
          exact hj
        · rw [SessionTable.slot_setSessionAt_of_ne _ hne]
          exact hother j hne
      · obtain ⟨c, -, hc, h1, h2⟩ := hfresh hcallocs
        rw [hdefault] at hc
        rw [System.strayEnds, ← hc rfl, ← h1, ← h2]
        rfl
  · have hsize' := newSession_hasSize hold srcAddr (newSessionId nowNs stackAddr) callocSend
      callocRecv
    rw [← hsession] at hsize'
    exact hsize'
  · obtain ⟨c, hc, -, h1, h2⟩ := hfresh hcallocs
    exact ⟨c, hc, h1, h2⟩
  · refine ⟨_, rfl, rfl, code_ne_data .connectResp (by decide), Or.inl rfl⟩

theorem effect_reject {table : SessionTable}
    (htype : pkt.hdr.packetType = PktType.connectReq.code)
    (halloc : s.table.allocate srcAddr (newSessionId nowNs stackAddr) callocSend callocRecv =
      (none, table)) :
    Effect s (.packet srcAddr pkt nowNs stackAddr callocSend callocRecv sent)
      { s with table } [(srcAddr, barePacket .reject 0 0)] := by
  have hdata : pkt.hdr.packetType ≠ PktType.data.code := by rw [htype]; decide
  refine .of_freed (fun j => ?_) (fun x hx => ?_) ?_ (hands_of_type hdata) (Or.inl rfl)
  · have hslot : table.slot j = s.table.slot j := SessionTable.allocate_none halloc j
    exact ⟨Or.inl hslot, congrArg (fun x => x.sendWin.capacity) hslot⟩
  · rw [List.mem_singleton.1 hx]
    exact ⟨code_ne_data .reject (by decide), rfl, Or.inl rfl⟩
  · refine if_neg fun h => ?_
    rw [halloc] at h
    exact absurd h.2.2.2 (by simp)

theorem effect_noSession (htype : pkt.hdr.packetType ≠ PktType.connectReq.code)
    (hnone : ∀ i, s.table.findByAddr srcAddr = some i →
      (s.table.slot i).sessionId ≠ pkt.hdr.sessionId) :
    Effect s (.packet srcAddr pkt nowNs stackAddr callocSend callocRecv sent) s
      (resetReply srcAddr pkt.hdr) := by
  refine .of_freed (fun j => ⟨Or.inl rfl, rfl⟩) (fun x hx => ?_) (issues_of_type htype) ?_
    (Or.inl rfl)
  · unfold resetReply at hx
    split_ifs at hx
    · rw [List.mem_singleton.1 hx]
      refine ⟨code_ne_data .reset (by decide), rfl, Or.inr (Or.inr ?_)⟩
      have hmail : ServerEvent.mail srcAddr pkt.hdr.sessionId
          (.packet srcAddr pkt nowNs stackAddr callocSend callocRecv sent) = [pkt] :=
        if_pos ⟨rfl, rfl⟩
      exact hmail.symm ▸ List.cons_ne_nil pkt []
    · exact absurd hx List.not_mem_nil
  · simp only [hands]
    split
    · rfl
    · next i hfind => rw [if_neg fun h => hnone i hfind h.2]

end Packet

/-! #### Every event -/

section Quiet

variable {e : ServerEvent}

theorem issues_of_not_packet (h : isPacket e = false) : s.issues e = none := by
  cases e with
  | packet => exact Bool.noConfusion h
  | _ => rfl

theorem hands_of_not_packet (h : isPacket e = false) : s.hands e = [] := by
  cases e with
  | packet => exact Bool.noConfusion h
  | _ => rfl

/-- An event that is not a datagram and changes no slot. -/
theorem Effect.of_same {s' : Server} (h : isPacket e = false)
    (htable : s'.table = s.table) (hqueue : s'.recvQueue = s.recvQueue) : Effect s e s' [] :=
  .of_freed (fun j => by rw [htable]; exact ⟨Or.inl rfl, rfl⟩) (by simp) (issues_of_not_packet h)
    (hands_of_not_packet h) (Or.inl hqueue)

end Quiet

theorem takeItem_recvQueue (s : Server) : s.takeItem.2.recvQueue = s.recvQueue := by
  unfold takeItem
  split <;> rfl

theorem effect_of_moves {e : ServerEvent} {s' : Server} {out : List (NetAddr × Packet)}
    (hsize : ∀ i, (s.table.slot i).HasSize) (hrun : isPacket e = true → s.running = true)
    (h : s.Moves e s' out) : Effect s e s' out := by
  cases h with
  | idle _ hidle =>
    cases hpkt : isPacket e with
    | true =>
      have := hrun hpkt
      rw [hidle hpkt] at this
      exact Bool.noConfusion this
    | false => exact .of_same hpkt rfl rfl
  | start | send => exact .of_same rfl rfl rfl
  | stop =>
    unfold Server.stop
    split_ifs
    · exact .of_same rfl rfl rfl
    · exact .of_freed (fun j => slot_foldl_free _ j _) (by simp) rfl rfl (Or.inr (Or.inr rfl))
  | recv =>
    exact .of_freed (fun j => ⟨Or.inl rfl, rfl⟩) (by simp) rfl rfl (Or.inr (Or.inl rfl))
  | kick clientId i hfind =>
    refine .of_freed (fun j => slot_free s.table i j) (fun x hx => ?_) rfl rfl (Or.inl rfl)
    rw [List.mem_singleton.1 hx]
    exact ⟨code_ne_data .disconnect (by decide), rfl,
      Or.inr (Or.inl ⟨i, (SessionTable.findById_some hfind).2, rfl, rfl⟩)⟩
  | accept srcAddr pkt nowNs stackAddr callocSend callocRecv sent i htype hfind =>
    exact effect_accept htype hfind
  | reject srcAddr pkt nowNs stackAddr callocSend callocRecv sent table htype hfind halloc =>
    exact effect_reject htype halloc
  | enroll srcAddr pkt nowNs stackAddr callocSend callocRecv sent slotIdx session table htype hfind
      halloc => exact effect_enroll (hrun rfl) hsize htype hfind halloc
  | noSession srcAddr pkt nowNs stackAddr callocSend callocRecv sent htype hnone =>
    exact effect_noSession htype hnone
  | connectAck srcAddr pkt nowNs stackAddr callocSend callocRecv sent i hfind hid htype =>
    exact effect_connectAck hfind htype
  | disconnect srcAddr pkt nowNs stackAddr callocSend callocRecv sent i hfind hid htype =>
    exact effect_disconnect hfind htype
  | process srcAddr pkt nowNs stackAddr callocSend callocRecv sent i hfind hid htype =>
    exact effect_process (hrun rfl) hfind hid htype.1
  | drainNone | drainHold => exact .of_same rfl s.takeItem_table s.takeItem_recvQueue
  | drainDiscard => exact .of_same rfl rfl s.takeItem_recvQueue
  | drainPush nowNs sent item i sendWin seq htake hfind hstate hcan hpush =>
    have hactive := Session.active_of_connected hstate
    refine .of_setSlot (afterPush (s.table.slot i) sendWin item seq sent).1 []
      hactive rfl ⟨hactive, rfl, rfl⟩ (fun hshort msgs got => ?_) (push_capacity hpush)
      (by simp [afterPush, sendPacket]) rfl rfl s.takeItem_recvQueue
    rw [List.append_nil]
    exact acts_afterPush hpush hshort sent msgs got
  | expire i =>
    exact .of_freed (fun j => slot_free s.table i j) (by simp) rfl rfl (Or.inl rfl)
  | retransmit i nowNs sent hstate =>
    have hactive := Session.active_of_connected hstate
    refine .of_setSlot (afterRetransmit (s.table.slot i) nowNs sent).1 []
      hactive rfl ⟨hactive, rfl, rfl⟩ (fun _ msgs got => ⟨msgs, ?_⟩)
      (SendWindow.static_capacity.retransmit _ _ _ _ _) (fun y hy => ?_) rfl rfl rfl
    · rw [List.append_nil]
      exact acts_afterRetransmit (s.table.slot i) nowNs sent msgs got
    · obtain ⟨pkt, -, rfl⟩ := List.mem_map.1 hy
      rfl
  | ack i sent hstate =>
    have hactive := Session.active_of_connected hstate
    refine .of_setSlot (sendPacket (s.table.slot i) sent .ack 0 0 [] 0).1 []
      hactive rfl ⟨hactive, rfl, rfl⟩ (fun _ msgs got => ⟨msgs, ?_⟩) rfl (by simp [sendPacket]) rfl
      rfl rfl
    rw [List.append_nil]
    exact acts_sendPacket (s.table.slot i) sent (by decide) msgs got
  | heartbeat i nowNs sent hstate =>
    have hactive := Session.active_of_connected hstate
    refine .of_setSlot (afterHeartbeat (s.table.slot i) nowNs sent) []
      hactive rfl ⟨hactive, rfl, rfl⟩ (fun _ msgs got => ⟨msgs, ?_⟩) rfl
      (by simp [sendPacket, afterHeartbeat]) rfl rfl rfl
    rw [List.append_nil]
    exact acts_sendPacket (s.table.slot i) sent (by decide) msgs got

/-- **Every event of the server leaves the windows of the sessions alone, or is an act of one of
them, or makes a new one.** -/
theorem effect_exec (hsize : ∀ i, (s.table.slot i).HasSize) (e : ServerEvent) :
    Effect s e (s.exec e).1 (s.exec e).2 := by
  by_cases hrun : isPacket e = true → s.running = true
  · exact effect_of_moves hsize hrun (s.moves_exec e)
  · -- nobody reads the socket
    push Not at hrun
    obtain ⟨hpkt, hstopped⟩ := hrun
    cases e with
    | packet srcAddr pkt nowNs stackAddr callocSend callocRecv sent =>
      simp only [exec, whileRunning, if_neg hstopped]
      refine .of_freed (fun j => ⟨Or.inl rfl, rfl⟩) (by simp) (if_neg fun h => hstopped h.1) ?_
        (Or.inl rfl)
      simp only [hands]
      split
      · rfl
      · rw [if_neg fun h => hstopped h.1]
    | _ => exact Bool.noConfusion hpkt

/-- An active session has been there before, or it is the one that the event issues. -/
theorem Effect.slot_cases {e : ServerEvent} {s' : Server} {out : List (NetAddr × Packet)}
    (h : Effect s e s' out) {j : ℕ} (hj : (s'.table.slot j).active = true) :
    ((s.table.slot j).active = true ∧ (s.table.slot j).sessionId = (s'.table.slot j).sessionId ∧
        (s.table.slot j).addr = (s'.table.slot j).addr) ∨
      s.issues e = some ((s'.table.slot j).sessionId, (s'.table.slot j).addr) := by
  have hsame : s'.table.slot j = s.table.slot j → (s.table.slot j).active = true ∧
      (s.table.slot j).sessionId = (s'.table.slot j).sessionId ∧
      (s.table.slot j).addr = (s'.table.slot j).addr := fun heq => heq ▸ ⟨hj, rfl, rfl⟩
  cases h with
  | quiet hslots => exact Or.inl (hsame (hslots j hj))
  | act i x ready hactive hslot hother hx =>
    left
    by_cases hji : j = i
    · subst hji
      rw [hslot]
      exact ⟨hactive, hx.2.1.symm, hx.2.2.symm⟩
    · exact hsame (hother j hji)
  | enroll x hissues hactive hne hslots =>
    rcases hslots with ⟨i, hi, hother⟩ | ⟨hall, -⟩
    · by_cases hji : j = i
      · right
        rw [hji, hi]
        exact hissues
      · exact Or.inl (hsame (hother j hji))
    · exact Or.inl (hsame (hall j))

end Effect

end Server

end Rel4u
