import Rel4u.Client.Reconnect
import Rel4u.System.Sync

/-!
# The handshake and the windows

The client resets both its windows whenever it begins a handshake, and the server gives a
CONNECT_REQ from an address it knows the session it has. So a client that comes back to a session
it has used, because it has heard nothing for a while, say, finds windows there that have moved on:
`rejoined_out_of_step` is such a run.

`inOrder_of_resyncs` says that this is all that can go wrong. If the client never accepts a
CONNECT_RESP that names a session which it has used before and which the server still has, and the
windows of its sessions can be allocated, then in every state of the run the four counters are in
order.
-/

namespace Rel4u

namespace System

/-! ### Runs under a condition -/

/-- Every event of the run meets the condition, in the state it happens in. -/
def Meets (P : System → SystemEvent → Prop) (σ : System) : List SystemEvent → Prop
  | [] => True
  | e :: es => P σ e ∧ ∀ σ' ∈ σ.exec e, Meets P σ' es

instance {P : System → SystemEvent → Prop} [∀ σ e, Decidable (P σ e)] :
    (es : List SystemEvent) → (σ : System) → Decidable (σ.Meets P es)
  | [], _ => instDecidableTrue
  | e :: es, σ =>
    have : ∀ σ', Decidable (Meets P σ' es) := fun σ' => instDecidableMeets es σ'
    inferInstanceAs (Decidable (P σ e ∧ ∀ σ' ∈ σ.exec e, Meets P σ' es))

/-- What every event under the condition keeps, every run under it keeps. -/
theorem Meets.induction {P : System → SystemEvent → Prop} {Q : System → Prop}
    (hstep : ∀ {σ e σ'}, Q σ → P σ e → σ.exec e = some σ' → Q σ') :
    ∀ {es : List SystemEvent} {σ σ' : System}, σ.Meets P es → Q σ → σ.run es = some σ' → Q σ' := by
  intro es
  induction es with
  | nil =>
    intro σ σ' _ hσ hrun
    rw [run, Option.some.injEq] at hrun
    exact hrun ▸ hσ
  | cons e es ih =>
    rintro σ σ' ⟨he, hes⟩ hσ hrun
    obtain ⟨τ, hτ, hrun⟩ := Option.bind_eq_some_iff.1 hrun
    exact ih (hes τ hτ) (hstep hσ he hτ) hrun

/-- The client comes back to no session that it has used and that the server still has; the windows
of a session that is made for it are allocated. -/
def Resyncs (σ : System) : SystemEvent → Prop
  | .client e => ∀ id ∈ σ.client.joins e, id ∈ σ.used → σ.server.sessionOf σ.addr id = none
  | .server e => ∀ x ∈ σ.server.issues e, x.2 = σ.addr → e.callocs = true

instance (σ : System) : (e : SystemEvent) → Decidable (σ.Resyncs e)
  -- Named: where `UInt32` is a `Fintype`, the search prefers to go through all its values.
  | .client e => Option.decidableForallMem (σ.client.joins e)
  | .server e => Option.decidableForallMem (σ.server.issues e)

/-! ### Spoiled sessions are over -/

/-- The server has no session under a spoiled id. -/
structure Unspoiled (σ : System) : Prop where
  issued : ∀ id ∈ σ.spoiled, id ∈ σ.issued.map Prod.fst
  ended : ∀ id ∈ σ.spoiled, ∀ i, (σ.server.table.slot i).active = true →
    (σ.server.table.slot i).addr = σ.addr → (σ.server.table.slot i).sessionId ≠ id

section Unspoiled

variable {c : UInt32} {σ σ' : System}

theorem Unspoiled.client_step (h : Unspoiled σ) (hσ : Sync c σ) {e : ClientEvent} {p : ClientProc}
    {out : List Packet} (hresyncs : σ.Resyncs (.client e))
    (heffect : σ.client.Effect σ.toClient e p out) : Unspoiled (σ.afterClient e p out) := by
  -- the only new id is one that the client comes back to
  have hnew : ∀ id ∈ (σ.afterClient e p out).spoiled, id ∈ σ.spoiled ∨
      (id ∈ σ.used ∧ σ.server.sessionOf σ.addr id = none) := by
    intro id hid
    change id ∈ if _ then _ else _ at hid
    split_ifs at hid with hguard
    · rcases List.mem_cons.1 hid with rfl | hid
      · right
        simp only [Bool.and_eq_true, decide_eq_true_eq] at hguard
        cases heffect with
        | stay hsame => exact absurd hsame hguard.1
        | join pkt hmem hne hzero hjoined hjoins =>
          exact ⟨hguard.2, hresyncs _ (by rw [hjoins, hjoined]; rfl) hguard.2⟩
        | leave hleft =>
          have hissued := hσ.client.used _ hguard.2
          exact absurd hleft (hσ.server.nonzero _ hissued)
      · exact Or.inl hid
    · exact Or.inl hid
  constructor
  · intro id hid
    rcases hnew id hid with hold | ⟨hused, -⟩
    · exact h.issued id hold
    · exact List.mem_map.2 ⟨_, hσ.client.used id hused, rfl⟩
  · intro id hid i hactive haddr
    rcases hnew id hid with hold | ⟨-, hnone⟩
    · exact h.ended id hold i hactive haddr
    · exact Server.sessionOf_none hnone hactive haddr

theorem Unspoiled.server_step (h : Unspoiled σ) (hσ : Sync c σ) {e : ServerEvent} {s : Server}
    {out : List (NetAddr × Packet)} (hresyncs : σ.Resyncs (.server e))
    (hfresh : σ.FreshId (.server e)) (heffect : σ.server.Effect e s out) :
    Unspoiled (σ.afterServer e s out) := by
  have hnew : ∀ id ∈ (σ.afterServer e s out).spoiled, id ∈ σ.spoiled ∨
      ∃ a, σ.server.issues e = some (id, a) ∧ a ≠ σ.addr := by
    intro id hid
    change id ∈ if _ then _ else _ at hid
    split_ifs at hid with hcallocs
    · exact Or.inl hid
    · rcases List.mem_append.1 hid with hid | hid
      · right
        obtain ⟨⟨id, a⟩, hissues, rfl⟩ := List.mem_map.1 hid
        have hissues := Option.mem_toList.1 hissues
        exact ⟨a, hissues, fun ha => hcallocs (hresyncs _ hissues ha)⟩
      · exact Or.inl hid
  constructor
  · intro id hid
    rcases hnew id hid with hold | ⟨a, hissues, -⟩
    · obtain ⟨x, hx, rfl⟩ := List.mem_map.1 (h.issued id hold)
      exact List.mem_map.2 ⟨x, issued_subset_afterServer hx, rfl⟩
    · refine List.mem_map.2 ⟨(id, a), List.mem_append_right _ ?_, rfl⟩
      exact Option.mem_toList.2 hissues
  · intro id hid i hactive haddr heq
    rcases heffect.slot_cases hactive with ⟨hwas, hsid, hsaddr⟩ | hmade
    · rcases hnew id hid with hold | ⟨a, hissues, -⟩
      · exact h.ended id hold i hwas (hsaddr.trans haddr) (hsid.trans heq)
      · refine hfresh _ hissues (List.mem_map.2 ⟨_, hσ.server.issued i hwas, ?_⟩)
        exact hsid.trans heq
    · rcases hnew id hid with hold | ⟨a, hissues, ha⟩
      · refine hfresh _ hmade ?_
        rw [show (s.table.slot i).sessionId = id from heq]
        exact h.issued id hold
      · rw [hmade] at hissues
        exact ha ((Prod.mk.inj (Option.some.inj hissues)).2.symm.trans haddr)

/-- What every run under the condition keeps. -/
theorem unspoiled_step {e : SystemEvent} (h : Sync c σ ∧ Unspoiled σ) (hresyncs : σ.Resyncs e)
    (hexec : σ.exec e = some σ') : Sync c σ' ∧ Unspoiled σ' := by
  obtain ⟨hσ, h⟩ := h
  refine ⟨hσ.step hexec, ?_⟩
  obtain ⟨hdeliver, hfresh, hshort, ⟨ce, p, out, rfl, hce, rfl⟩ | ⟨se, rfl, rfl⟩⟩ :=
    exec_cases hexec
  · exact h.client_step hσ hresyncs (hσ.client_effect hdeliver hce hshort)
  · exact h.server_step hσ hresyncs hfresh (Server.effect_exec hσ.server.size se)

end Unspoiled

/-! ### The counters -/

/-- **The handshake resynchronises the windows, under the condition.** In every state of a run from
a created client and a created server, if the server has an active session for the client's address
under the session id of the client, connected or not, the four counters are in order. -/
theorem inOrder_of_resyncs {clientConfig : ClientConfig} {clientAllocs : CreateAllocs}
    {client : Client} (hclient : Client.create clientConfig clientAllocs = some client)
    {serverConfig : ServerConfig} {serverAllocs : CreateAllocs} {server : Server}
    (hserver : Server.create serverConfig serverAllocs = some server) (addr : NetAddr)
    {es : List SystemEvent} (hmeets : (start addr client server).Meets Resyncs es) {σ : System}
    (hrun : (start addr client server).run es = some σ) {x : Session}
    (hx : x ∈ σ.server.table.sessions) (hactive : x.active = true) (haddr : x.addr = σ.addr)
    (hid : x.sessionId = σ.client.client.sessionId) : InOrder σ.client.client x := by
  obtain ⟨c, hstart⟩ := sync_start hclient hserver addr
  obtain ⟨hσ, hunspoiled⟩ : Sync c σ ∧ Unspoiled σ :=
    hmeets.induction unspoiled_step
      ⟨hstart, fun id h => absurd h List.not_mem_nil, fun id h => absurd h List.not_mem_nil⟩ hrun
  obtain ⟨i, hi, rfl⟩ := List.getElem_of_mem hx
  rw [← List.getD_eq_getElem _ default hi] at hactive haddr hid ⊢
  change (σ.server.table.slot i).active = true at hactive
  change (σ.server.table.slot i).addr = σ.addr at haddr
  change (σ.server.table.slot i).sessionId = _ at hid
  have hissued := hσ.server.issued i hactive
  rw [haddr] at hissued
  obtain ⟨A, B, h⟩ := hσ.linked _ hissued
    (fun hspoiled => hunspoiled.ended _ hspoiled i hactive haddr rfl) (Or.inl hid)
  obtain ⟨got, rfl⟩ := h.seat.1 hid
  have hends := h.ends
  rw [hσ.server.ends i hactive haddr] at hends
  obtain ⟨hsend, hrecv⟩ := Prod.mk.inj hends
  have horder := h.link.inOrder
  rw [hsend, hrecv] at horder
  exact horder

/-! ### Two runs -/

/-- A server for one client, with the smallest queues and windows, that waits for a minute. -/
def patientConfig : ServerConfig :=
  { maxClients := 1
    fullPolicy := .reject
    mtu := 1400
    sendQueueCapacity := 8
    recvQueueCapacity := 8
    windowSize := 8
    heartbeatIntervalMs := 1000
    inactivityTimeoutMs := 60000
    memoryMode := .fixed
    queueFullPolicy := .dropNew
    maxSendMemoryBytes := 0
    maxRecvMemoryBytes := 0 }

/-- The client's address. -/
def here : NetAddr := .inet 5000 2

/-- The server's address. -/
def there : NetAddr := .inet 9000 1

/-- Connect under session id 7. -/
def connects : List SystemEvent :=
  [.server .start, .client (.connect 0 true), .client (.turn 200000000 true),
    .server (.packet here (mkPacket .connectReq 0 0 0 (0, 0) [] 0) 7 0 true true true),
    .client (.packet there (mkPacket .connectResp 0 7 0 (0, 0) [] 0) 200000001 true)]

/-- Connect, and send a message that arrives. -/
def delivers : List SystemEvent :=
  connects ++
    [.client (.send 3 [5] 1), .client .endPoll, .client (.drain 200000002 true),
      .server (.packet here (mkPacket .data 3 7 1 (0, 0) [5] 1) 8 0 true true true)]

/-- Then the client hears nothing for longer than its five seconds, and connects again. -/
def rejoins : List SystemEvent :=
  delivers ++
    [.client .endDrain, .client (.timers 9000000000 true), .client (.turn 9200000000 true),
      .server (.packet here (mkPacket .connectReq 0 0 0 (0, 0) [] 0) 9 0 true true true),
      .client (.packet there (mkPacket .connectResp 0 7 0 (1, 0) [] 0) 9200000001 true)]

/-- A client and a server before a run. -/
def twoEnds : Option System :=
  (Client.create Client.smallConfig .allOk).bind fun client =>
    (Server.create patientConfig .allOk).map fun server => start here client server

theorem twoEnds_some {σ : System} (h : twoEnds = some σ) :
    ∃ client server, Client.create Client.smallConfig .allOk = some client ∧
      Server.create patientConfig .allOk = some server ∧ start here client server = σ := by
  obtain ⟨client, hclient, hrest⟩ := Option.bind_eq_some_iff.1 h
  obtain ⟨server, hserver, rfl⟩ := Option.map_eq_some_iff.1 hrest
  exact ⟨client, server, hclient, hserver, rfl⟩

/-- The sessions of the server that the client is in. -/
def joinedSessions (σ : System) : List Session :=
  σ.server.table.sessions.filter fun x =>
    x.active && decide (x.addr = σ.addr) && decide (x.sessionId = σ.client.client.sessionId)

theorem mem_joinedSessions {σ : System} {x : Session} :
    x ∈ σ.joinedSessions ↔ x ∈ σ.server.table.sessions ∧ x.active = true ∧ x.addr = σ.addr ∧
      x.sessionId = σ.client.client.sessionId := by
  rw [joinedSessions, List.mem_filter]
  simp only [Bool.and_eq_true, decide_eq_true_eq, and_assoc]

/-- A message has arrived, and the counters are in order: the client sends number 2 next, and that
is what the server expects. -/
theorem inOrder_of_delivers :
    ∃ σ x, (twoEnds.bind fun τ => τ.run delivers) = some σ ∧
      σ.client.client.state = .connected ∧ x ∈ σ.joinedSessions ∧
      σ.client.client.sendWin.nextSeq = 2 ∧ x.recvWin.expectedSeq = 2 ∧
      InOrder σ.client.client x := by
  have hval : (twoEnds.bind fun τ => (τ.run delivers).map fun σ =>
      (decide (τ.Meets Resyncs delivers), σ.client.client.state, σ.client.client.sendWin.nextSeq,
        σ.joinedSessions.map fun x => x.recvWin.expectedSeq)) =
      some (true, .connected, 2, [2]) := by
    decide +kernel
  obtain ⟨τ, hτ, hval⟩ := Option.bind_eq_some_iff.1 hval
  obtain ⟨σ, hrun, hval⟩ := Option.map_eq_some_iff.1 hval
  obtain ⟨client, server, hclient, hserver, rfl⟩ := twoEnds_some hτ
  simp only [Prod.mk.injEq, decide_eq_true_eq] at hval
  obtain ⟨hmeets, hstate, hnext, hexpected⟩ := hval
  obtain ⟨x, rest, hx, hexp, -⟩ := List.map_eq_cons_iff.1 hexpected
  have hmem : x ∈ σ.joinedSessions := by rw [hx]; exact List.mem_cons_self
  obtain ⟨h1, h2, h3, h4⟩ := mem_joinedSessions.1 hmem
  refine ⟨σ, x, by rw [hτ, Option.bind_some, hrun], hstate, hmem, hnext, hexp, ?_⟩
  exact inOrder_of_resyncs hclient hserver here hmeets hrun h1 h2 h3 h4

/-- **The client comes back to its session and they are out of step**: the server expects number 2,
the client sends number 1 next. -/
theorem rejoined_out_of_step :
    ∃ σ x, (twoEnds.bind fun τ => τ.run rejoins) = some σ ∧
      σ.client.client.state = .connected ∧ x ∈ σ.joinedSessions ∧ ¬ InOrder σ.client.client x := by
  have hval : (twoEnds.bind fun τ => τ.run rejoins).map (fun σ => (σ.client.client.state,
      decide (∃ x ∈ σ.joinedSessions, ¬ InOrder σ.client.client x))) =
        some (.connected, true) := by
    decide +kernel
  obtain ⟨σ, hrun, hval⟩ := Option.map_eq_some_iff.1 hval
  simp only [Prod.mk.injEq, decide_eq_true_eq] at hval
  obtain ⟨hstate, x, hx, hnot⟩ := hval
  exact ⟨σ, x, hrun, hstate, hx, hnot⟩

end System

end Rel4u
