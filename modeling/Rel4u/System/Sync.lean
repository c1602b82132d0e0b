import Rel4u.System.ServerEffect

/-!
# The client and the server in step

`Sync` is what every run of a system keeps. The client has joined no session, with fresh windows, or
one that has been issued to its address; the active sessions of the table have been issued, each
under an id of its own; no packet on its way carries another id. And every session issued to the
client that is not spoiled, and that the client is in or has not used yet, is linked (`Linked`):
the client's windows, or fresh ones if it is not in the session, agree with the server's, as those
were last.

The steps are those of `ClientProc.Effect` and `Server.Effect`: an act of a party keeps its link,
and joining and leaving change which party the client is.
-/

namespace Rel4u

open Serial (IsRingSize)

section OfSession

variable {id : UInt32} {l : List Packet}

theorem ofSession_append (id : UInt32) (l m : List Packet) :
    ofSession id (l ++ m) = ofSession id l ++ ofSession id m := List.filter_append l m

theorem ofSession_eq_self (h : ∀ pkt ∈ l, pkt.hdr.sessionId = id) : ofSession id l = l :=
  List.filter_eq_self.2 fun pkt hpkt => decide_eq_true (h pkt hpkt)

theorem ofSession_eq_nil (h : ∀ pkt ∈ l, pkt.hdr.sessionId ≠ id) : ofSession id l = [] :=
  List.filter_eq_nil_iff.2 fun pkt hpkt => by simpa using h pkt hpkt

end OfSession

/-! ### The server's table and queue -/

namespace Server

/-- No two active sessions have one id. -/
def Distinct (s : Server) : Prop :=
  ∀ i j, (s.table.slot i).active = true → (s.table.slot j).active = true →
    (s.table.slot i).sessionId = (s.table.slot j).sessionId → i = j

section SessionOf

variable {s : Server} {addr : NetAddr} {id : UInt32}

theorem sessionOf_some {x : Session} (h : s.sessionOf addr id = some x) :
    ∃ i, s.table.slot i = x ∧ x.active = true ∧ x.addr = addr ∧ x.sessionId = id := by
  have hprop := List.find?_some h
  simp only [Bool.and_eq_true, decide_eq_true_eq] at hprop
  obtain ⟨i, hi, rfl⟩ := List.getElem_of_mem (List.mem_of_find?_eq_some h)
  exact ⟨i, List.getD_eq_getElem _ _ hi, hprop.1.1, hprop.1.2, hprop.2⟩

theorem slot_mem_of_active {i : ℕ} (h : (s.table.slot i).active = true) :
    s.table.slot i ∈ s.table.sessions := by
  have hlt := SessionTable.lt_of_active h
  rw [SessionTable.slot, List.getD_eq_getElem _ _ hlt]
  exact List.getElem_mem hlt

theorem sessionOf_none (h : s.sessionOf addr id = none) {i : ℕ}
    (hactive : (s.table.slot i).active = true) (haddr : (s.table.slot i).addr = addr) :
    (s.table.slot i).sessionId ≠ id := by
  intro hid
  have := List.find?_eq_none.1 h _ (slot_mem_of_active hactive)
  simp [hactive, haddr, hid] at this

/-- The id finds its session. -/
theorem sessionOf_slot (hs : s.Distinct) {i : ℕ} (hactive : (s.table.slot i).active = true) :
    s.sessionOf (s.table.slot i).addr (s.table.slot i).sessionId = some (s.table.slot i) := by
  cases h : s.sessionOf (s.table.slot i).addr (s.table.slot i).sessionId with
  | none => exact absurd rfl (sessionOf_none h hactive rfl)
  | some x =>
    obtain ⟨j, rfl, hj, -, hid⟩ := sessionOf_some h
    rw [hs j i hj hactive hid]

end SessionOf

/-- The queue is well formed and has forgotten no loss. -/
structure Follows (q q' : MpmcQueue) : Prop where
  rep : ∃ l, q'.Rep l
  counts : q.droppedCount ≤ q'.droppedCount

section Queue

variable {q : MpmcQueue}

theorem follows_pop (hq : ∃ l, q.Rep l) : Follows q q.popWait.2 := by
  obtain ⟨l, hl⟩ := hq
  obtain ⟨-, h2, -, h4⟩ := hl.pop
  rw [MpmcQueue.popWait_eq]
  exact ⟨⟨_, h2⟩, h4.ge⟩

theorem follows_emptyQueue (fuel : ℕ) : ∀ {q : MpmcQueue}, (∃ l, q.Rep l) →
    Follows q (emptyQueue fuel q) := by
  induction fuel with
  | zero => exact fun hq => ⟨hq, le_rfl⟩
  | succ fuel ih =>
    rintro q ⟨l, hl⟩
    obtain ⟨-, h2, -, h4⟩ := hl.pop
    unfold emptyQueue
    split
    · next heq =>
      rw [MpmcQueue.tryPop] at heq
      rw [heq] at h2 h4
      obtain ⟨h5, h6⟩ := ih ⟨_, h2⟩
      exact ⟨h5, h4.ge.trans h6⟩
    · next heq =>
      rw [MpmcQueue.tryPop] at heq
      rw [heq] at h2 h4
      exact ⟨⟨_, h2⟩, h4.ge⟩

theorem taken_cons (clientId : UInt32) (q : MpmcQueue) (slot : RecvSlot) (rest : List RecvSlot) :
    taken clientId q (slot :: rest) =
      (if (q.pushNotify (itemOfReady clientId slot)).1 then [slot] else []) ++
        taken clientId (q.pushNotify (itemOfReady clientId slot)).2 rest := by
  rw [taken]
  split
  · next heq => rw [heq]; rfl
  · next heq => rw [heq]; rfl

/-- A queue that counts no loss has taken every slot that fits. -/
theorem follows_pushReady (clientId : UInt32) (ready : List RecvSlot) :
    ∀ {q : MpmcQueue}, (∃ l, q.Rep l) → Follows q (pushReady clientId q ready) ∧
      ((pushReady clientId q ready).droppedCount ≤ q.droppedCount →
        ∀ slot ∈ ready, slot.payloadLen.toNat ≤ maxPayloadSize →
          slot ∈ taken clientId q ready) := by
  induction ready with
  | nil => exact fun hq => ⟨⟨hq, le_rfl⟩, fun _ slot hslot => absurd hslot List.not_mem_nil⟩
  | cons slot ready ih =>
    rintro q ⟨l, hl⟩
    obtain ⟨g1, g2, g3⟩ := hl.pushBack_counts (itemOfReady clientId slot)
    obtain ⟨⟨h1, h2⟩, h3⟩ := ih g1
    refine ⟨⟨h1, g2.trans h2⟩, fun hdropped x hx hlen => ?_⟩
    rw [taken_cons]
    rcases List.mem_cons.1 hx with rfl | hx
    · have hok : (q.pushNotify (itemOfReady clientId x)).1 = true := g3 hlen (h2.trans hdropped)
      rw [if_pos hok]
      exact List.mem_append_left _ (List.mem_singleton_self x)
    · exact List.mem_append_right _ (h3 (hdropped.trans g2) x hx hlen)

end Queue

end Server

namespace System

/-! ### The invariant -/

/-- The client's part; `c` is the size of its windows. -/
structure Seated (c : UInt32) (σ : System) : Prop where
  ready : σ.client.Ready
  sized : (σ.client.client.party [] []).Sized c
  idle : σ.client.client.sessionId = 0 → σ.client.client.sendWin = SendWindow.fresh c 1 ∧
    σ.client.client.recvWin = RecvWindow.fresh c 1 ∧ σ.sent = []
  joined : σ.client.client.sessionId ≠ 0 → (σ.client.client.sessionId, σ.addr) ∈ σ.issued
  touched : σ.client.client.sessionId ≠ 0 →
    Untouched σ.client.client.sendWin σ.client.client.recvWin ∨
      σ.client.client.sessionId ∈ σ.used
  used : ∀ id ∈ σ.used, (id, σ.addr) ∈ σ.issued
  fits : ∀ m ∈ σ.sent, m.len.toNat ≤ maxPayloadSize

/-- The server's part. -/
structure Tabled (σ : System) : Prop where
  size : ∀ i, (σ.server.table.slot i).HasSize
  nonzero : ∀ x ∈ σ.issued, x.1 ≠ 0
  issued : ∀ i, (σ.server.table.slot i).active = true →
    ((σ.server.table.slot i).sessionId, (σ.server.table.slot i).addr) ∈ σ.issued
  distinct : σ.server.Distinct
  ends : ∀ i, (σ.server.table.slot i).active = true → (σ.server.table.slot i).addr = σ.addr →
    σ.ends (σ.server.table.slot i).sessionId =
      ((σ.server.table.slot i).sendWin, (σ.server.table.slot i).recvWin)
  stray : ∀ id, (id, σ.addr) ∉ σ.issued → σ.ends id = strayEnds
  queue : ∃ l, σ.server.recvQueue.Rep l

/-- The network's part. -/
structure Addressed (σ : System) : Prop where
  toServer : ∀ pkt ∈ σ.toServer,
    pkt.hdr.sessionId = 0 ∨ (pkt.hdr.sessionId, σ.addr) ∈ σ.issued
  toClient : ∀ pkt ∈ σ.toClient,
    pkt.hdr.sessionId = 0 ∨ (pkt.hdr.sessionId, σ.addr) ∈ σ.issued

/-- The client as a party of a session: a new one, if it is not in that session. -/
def Seat (c : UInt32) (σ : System) (id : UInt32) (A : Party) : Prop :=
  (id = σ.client.client.sessionId → ∃ got, A = σ.client.client.party σ.sent got) ∧
    (id ≠ σ.client.client.sessionId → A = Party.fresh c)

/-- The two parties of a session. What the server's has been given is in its receive queue, or has
been, as long as the queue has dropped nothing. -/
structure LinkedBy (c : UInt32) (σ : System) (id : UInt32) (A B : Party) : Prop where
  seat : Seat c σ id A
  ends : (B.send, B.recv) = σ.ends id
  link : Link A B (ofSession id σ.toServer) (ofSession id σ.toClient)
  handed : σ.server.recvQueue.droppedCount = 0 → ∀ slot ∈ B.got,
    slot.payloadLen.toNat ≤ maxPayloadSize → (id, slot) ∈ σ.handed

/-- The client's windows and the server's agree. -/
def Linked (c : UInt32) (σ : System) (id : UInt32) : Prop := ∃ A B, LinkedBy c σ id A B

/-- **What every run keeps.** -/
structure Sync (c : UInt32) (σ : System) : Prop where
  ring : IsRingSize c
  client : Seated c σ
  server : Tabled σ
  mail : Addressed σ
  linked : ∀ id, (id, σ.addr) ∈ σ.issued → id ∉ σ.spoiled →
    (id = σ.client.client.sessionId ∨ id ∉ σ.used) → Linked c σ id

/-! ### Events of the client -/

section ClientStep

variable {c : UInt32} {σ : System} {e : ClientEvent} {p : ClientProc} {out : List Packet}

theorem pushes_fits (p : ClientProc) (e : ClientEvent) :
    ∀ m ∈ p.pushes e, m.len.toNat ≤ maxPayloadSize := by
  intro m hm
  unfold ClientProc.pushes at hm
  split at hm
  · split at hm
    · unfold Client.pushes at hm
      split_ifs at hm
      · split at hm
        · exact absurd hm List.not_mem_nil
        · next item hitem =>
          split at hm
          · next r hpush =>
            split_ifs at hm with hmode
            · rw [List.mem_singleton.1 hm]
              have hlen := (SendWindow.push_reliable hmode hpush).1
              rw [Message.ofPush, UInt16.ofNat_toNat]
              exact hlen
            · exact absurd hm List.not_mem_nil
          · exact absurd hm List.not_mem_nil
      · exact absurd hm List.not_mem_nil
    · exact absurd hm List.not_mem_nil
  · exact absurd hm List.not_mem_nil

theorem sent_afterClient_same (h : p.client.sessionId = σ.client.client.sessionId) :
    (σ.afterClient e p out).sent = σ.sent ++ σ.client.pushes e := by
  simp [afterClient, h]

theorem sent_afterClient_changed (h : p.client.sessionId ≠ σ.client.client.sessionId) :
    (σ.afterClient e p out).sent = [] := by
  simp [afterClient, h]

theorem sent_afterClient_subset :
    (σ.afterClient e p out).sent ⊆ σ.sent ++ σ.client.pushes e := by
  by_cases h : p.client.sessionId = σ.client.client.sessionId
  · rw [sent_afterClient_same h]
    exact List.Subset.refl _
  · rw [sent_afterClient_changed h]
    exact List.nil_subset _

theorem used_subset_afterClient : σ.used ⊆ (σ.afterClient e p out).used := by
  intro id hid
  show id ∈ if _ then _ else _
  split_ifs
  · exact List.mem_cons_of_mem _ hid
  · exact hid

theorem spoiled_subset_afterClient : σ.spoiled ⊆ (σ.afterClient e p out).spoiled := by
  intro id hid
  show id ∈ if _ then _ else _
  split_ifs
  · exact List.mem_cons_of_mem _ hid
  · exact hid

theorem Seated.zero_or_issued (hσ : Seated c σ) : σ.client.client.sessionId = 0 ∨
    (σ.client.client.sessionId, σ.addr) ∈ σ.issued := by
  by_cases h0 : σ.client.client.sessionId = 0
  · exact Or.inl h0
  · exact Or.inr (hσ.joined h0)

/-- The client's part follows from its windows and its session. -/
theorem Seated.afterClient (hσ : Seated c σ) (hready : p.Ready)
    (hsized : (p.client.party [] []).Sized c)
    (hidle : p.client.sessionId = 0 → p.client.sendWin = SendWindow.fresh c 1 ∧
      p.client.recvWin = RecvWindow.fresh c 1 ∧ (σ.afterClient e p out).sent = [])
    (hjoined : p.client.sessionId ≠ 0 → (p.client.sessionId, σ.addr) ∈ σ.issued) :
    Seated c (σ.afterClient e p out) where
  ready := hready
  sized := hsized
  idle := hidle
  joined := hjoined
  touched := fun hid => by
    by_cases hu : Untouched p.client.sendWin p.client.recvWin
    · exact Or.inl hu
    · right
      show p.client.sessionId ∈ if _ then _ else _
      rw [if_pos ⟨hid, hu⟩]
      exact List.mem_cons_self
  used := fun id hid => by
    change id ∈ if _ then _ else _ at hid
    split_ifs at hid with hu
    · rcases List.mem_cons.1 hid with rfl | hid
      · exact hjoined hu.1
      · exact hσ.used id hid
    · exact hσ.used id hid
  fits := fun m hm => by
    rcases List.mem_append.1 (sent_afterClient_subset hm) with hm | hm
    · exact hσ.fits m hm
    · exact pushes_fits _ _ m hm

/-- The server's part is left alone. -/
theorem Tabled.afterClient (hσ : Tabled σ) : Tabled (σ.afterClient e p out) :=
  ⟨hσ.size, hσ.nonzero, hσ.issued, hσ.distinct, hσ.ends, hσ.stray, hσ.queue⟩

theorem Addressed.afterClient (hσ : Addressed σ)
    (hout : ∀ pkt ∈ out, pkt.hdr.sessionId = 0 ∨ (pkt.hdr.sessionId, σ.addr) ∈ σ.issued) :
    Addressed (σ.afterClient e p out) where
  toServer := fun pkt hpkt => by
    rcases List.mem_append.1 hpkt with hpkt | hpkt
    · exact hσ.toServer pkt hpkt
    · exact hout pkt hpkt
  toClient := hσ.toClient

/-- A session stays linked when the client's party changes. -/
theorem LinkedBy.afterClient {id : UInt32} {A A' B : Party} (h : LinkedBy c σ id A B)
    (hlink : Link A' B (ofSession id σ.toServer ++ ofSession id out) (ofSession id σ.toClient))
    (hseat : Seat c (σ.afterClient e p out) id A') :
    LinkedBy c (σ.afterClient e p out) id A' B where
  seat := hseat
  ends := h.ends
  link := by
    show Link A' B (ofSession id (σ.toServer ++ out)) (ofSession id σ.toClient)
    rw [ofSession_append]
    exact hlink
  handed := h.handed

/-- A session that the client is in neither before nor after the event. -/
theorem LinkedBy.afterClient_other {id : UInt32} {A B : Party} (h : LinkedBy c σ id A B)
    (hold : id ≠ σ.client.client.sessionId) (hnew : id ≠ p.client.sessionId)
    (hout : ∀ pkt ∈ out, pkt.hdr.sessionId ≠ id) : LinkedBy c (σ.afterClient e p out) id A B := by
  refine h.afterClient ?_ ⟨fun heq => absurd heq hnew, fun _ => h.seat.2 hold⟩
  rw [ofSession_eq_nil hout, List.append_nil]
  exact h.link

/-- The client stays where it is. -/
theorem Sync.stay (hσ : Sync c σ) (hready : p.Ready)
    (hid : p.client.sessionId = σ.client.client.sessionId)
    (hacts : ∀ msgs got, ∃ got',
      Acts σ.client.client.sessionId (ofSession σ.client.client.sessionId σ.toClient)
        (σ.client.client.party msgs got) (p.client.party (msgs ++ σ.client.pushes e) got') out)
    (hzero : σ.client.client.sessionId = 0 → σ.client.pushes e = [] ∧
      p.client.sendWin = σ.client.client.sendWin ∧ p.client.recvWin = σ.client.client.recvWin) :
    Sync c (σ.afterClient e p out) := by
  obtain ⟨got, hfirst⟩ := hacts [] []
  have hout := hfirst.sessionId_eq
  refine ⟨hσ.ring, hσ.client.afterClient hready ?_ ?_ ?_, hσ.server.afterClient,
    hσ.mail.afterClient fun pkt hpkt => ?_, fun id hissued hspoiled hcase => ?_⟩
  · have hsized := hfirst.sized hσ.client.sized
    exact ⟨hsized.send, hsized.sendCap, hsized.recv, hsized.recvCap⟩
  · intro h0
    obtain ⟨h1, h2, h3⟩ := hσ.client.idle (hid ▸ h0)
    obtain ⟨g1, g2, g3⟩ := hzero (hid ▸ h0)
    rw [sent_afterClient_same hid, g1, g2, g3, h3]
    exact ⟨h1, h2, rfl⟩
  · rw [hid]
    exact hσ.client.joined
  · rw [hout pkt hpkt]
    exact hσ.client.zero_or_issued
  · have hspoiled' : id ∉ σ.spoiled := fun h => hspoiled (spoiled_subset_afterClient h)
    by_cases hmine : id = σ.client.client.sessionId
    · obtain ⟨A, B, h⟩ := hσ.linked id hissued hspoiled' (Or.inl hmine)
      obtain ⟨got, rfl⟩ := h.seat.1 hmine
      obtain ⟨got', hact⟩ := hacts σ.sent got
      refine ⟨p.client.party (σ.sent ++ σ.client.pushes e) got', B,
        h.afterClient ?_ ⟨fun _ => ⟨got', ?_⟩, fun hne => absurd (hmine.trans hid.symm) hne⟩⟩
      · have hlink := h.link
        rw [hmine] at hlink ⊢
        rw [ofSession_eq_self hout]
        exact hlink.acts hact
      · rw [sent_afterClient_same hid]
        rfl
    · have hused : id ∉ σ.used := fun h =>
        (hcase.resolve_left fun heq => hmine (heq.trans hid)) (used_subset_afterClient h)
      obtain ⟨A, B, h⟩ := hσ.linked id hissued hspoiled' (Or.inr hused)
      refine ⟨A, B, h.afterClient_other hmine (hid ▸ hmine) fun pkt hpkt heq => hmine ?_⟩
      rw [← heq, hout pkt hpkt]

/-- The client joins a session. -/
theorem Sync.join (hσ : Sync c σ) (hready : p.Ready) {pkt : Packet} (hmem : pkt ∈ σ.toClient)
    (hne : pkt.hdr.sessionId ≠ 0) (hzero : σ.client.client.sessionId = 0)
    (hid : p.client.sessionId = pkt.hdr.sessionId)
    (hsend : p.client.sendWin = σ.client.client.sendWin)
    (hrecv : p.client.recvWin = σ.client.client.recvWin)
    (hout : ∀ q ∈ out, q.hdr.sessionId = pkt.hdr.sessionId ∧
      q.hdr.packetType ≠ PktType.data.code ∧ AckOf σ.client.client.recvWin q) :
    Sync c (σ.afterClient e p out) := by
  have hissued := (hσ.mail.toClient pkt hmem).resolve_left hne
  have hchanged : p.client.sessionId ≠ σ.client.client.sessionId := by
    rw [hid, hzero]
    exact hne
  obtain ⟨hwin, hwin', -⟩ := hσ.client.idle hzero
  refine ⟨hσ.ring, hσ.client.afterClient hready ?_ (fun h0 => absurd (hid ▸ h0) hne)
    (fun _ => hid ▸ hissued), hσ.server.afterClient,
    hσ.mail.afterClient fun q hq => Or.inr ((hout q hq).1 ▸ hissued),
    fun id hissued' hspoiled hcase => ?_⟩
  · rw [Client.party_congr hsend hrecv]
    exact hσ.client.sized
  · have hspoiled' : id ∉ σ.spoiled := fun h => hspoiled (spoiled_subset_afterClient h)
    have hold : id ≠ σ.client.client.sessionId := hzero ▸ hσ.server.nonzero _ hissued'
    have hused : id ∉ σ.used := by
      intro hused
      rcases hcase with heq | hcase
      · -- then the client comes back to a session it has used
        refine hspoiled ?_
        show id ∈ if _ then _ else _
        have heq' : id = p.client.sessionId := heq
        rw [if_pos (by simp [← heq', hold, hused])]
        exact heq ▸ List.mem_cons_self
      · exact hcase (used_subset_afterClient hused)
    obtain ⟨A, B, h⟩ := hσ.linked id hissued' hspoiled' (Or.inr hused)
    by_cases hmine : id = p.client.sessionId
    · have hA := h.seat.2 hold
      subst hA
      refine ⟨Party.fresh c, B, h.afterClient ?_ ⟨fun _ => ⟨[], ?_⟩, fun hno => absurd hmine hno⟩⟩
      · have hemits : Acts id (ofSession id σ.toClient) (Party.fresh c) (Party.fresh c) out := by
          refine Acts.emits _ fun q hq => ?_
          obtain ⟨h1, h2, h3⟩ := hout q hq
          rw [hwin'] at h3
          exact ⟨h1.trans (hmine.trans hid).symm, h2, h3⟩
        rw [ofSession_eq_self hemits.sessionId_eq]
        exact h.link.acts hemits
      · rw [sent_afterClient_changed hchanged]
        show Party.fresh c = Client.party p.client [] []
        rw [Client.party, hsend, hrecv, hwin, hwin']
        rfl
    · refine ⟨A, B, h.afterClient_other hold hmine fun q hq heq => hmine ?_⟩
      rw [← heq, (hout q hq).1, hid]

/-- The client leaves its session, if it has one. -/
theorem Sync.leave (hσ : Sync c σ) (hready : p.Ready) (hid : p.client.sessionId = 0)
    (hpushes : σ.client.pushes e = []) {sendWin : SendWindow}
    (hnext : sendWin.nextSeq = σ.client.client.sendWin.nextSeq)
    (hacts : ∀ msgs got,
      Acts σ.client.client.sessionId (ofSession σ.client.client.sessionId σ.toClient)
        (σ.client.client.party msgs got) { σ.client.client.party msgs got with send := sendWin }
        out)
    (hsend : p.client.sendWin = (sendWin.reset 1).2)
    (hrecv : p.client.recvWin = (σ.client.client.recvWin.reset 1).2) :
    Sync c (σ.afterClient e p out) := by
  have hout := (hacts [] []).sessionId_eq
  have hsized := (hacts [] []).sized hσ.client.sized
  obtain ⟨hwin, hwin'⟩ := hsized.reset
  have hfresh : p.client.party [] [] = Party.fresh c := by
    rw [Client.party, hsend, hrecv]
    exact congrArg₂ (fun a b => Party.mk a b [] []) hwin hwin'
  refine ⟨hσ.ring, hσ.client.afterClient hready (hfresh ▸ sized_fresh hσ.ring) ?_
    (fun h => absurd hid h), hσ.server.afterClient, hσ.mail.afterClient fun pkt hpkt => ?_,
    fun id hissued hspoiled hcase => ?_⟩
  · intro _
    refine ⟨congrArg Party.send hfresh, congrArg Party.recv hfresh, ?_⟩
    by_cases h0 : p.client.sessionId = σ.client.client.sessionId
    · rw [sent_afterClient_same h0, hpushes, (hσ.client.idle (h0 ▸ hid)).2.2]
      rfl
    · exact sent_afterClient_changed h0
  · rw [hout pkt hpkt]
    exact hσ.client.zero_or_issued
  · have hspoiled' : id ∉ σ.spoiled := fun h => hspoiled (spoiled_subset_afterClient h)
    have hne : id ≠ p.client.sessionId := hid ▸ hσ.server.nonzero _ hissued
    have hused : id ∉ σ.used := fun h =>
      (hcase.resolve_left hne) (used_subset_afterClient h)
    obtain ⟨A, B, h⟩ := hσ.linked id hissued hspoiled' (Or.inr hused)
    by_cases hmine : id = σ.client.client.sessionId
    · -- nothing has been sent or accepted, so the client may come back as a new party
      obtain ⟨got, rfl⟩ := h.seat.1 hmine
      have huntouched : Untouched σ.client.client.sendWin σ.client.client.recvWin :=
        (hσ.client.touched (hmine ▸ hσ.server.nonzero _ hissued)).resolve_right (hmine ▸ hused)
      have hlink := h.link
      rw [hmine] at hlink
      have hlink' := (hlink.acts (hacts σ.sent got)).rejoin
        ⟨hnext.trans huntouched.1, huntouched.2⟩ hσ.ring
      refine ⟨Party.fresh c, B, h.afterClient ?_ ⟨fun heq => absurd heq hne, fun _ => rfl⟩⟩
      rw [hmine, ofSession_eq_self hout]
      exact hlink'
    · refine ⟨A, B, h.afterClient_other hmine hne fun pkt hpkt heq => hmine ?_⟩
      rw [← heq, hout pkt hpkt]

theorem Sync.client_effect (hσ : Sync c σ) (hdeliver : σ.Delivers (.client e))
    (hexec : σ.client.exec e = some (p, out)) (hshort : (σ.afterClient e p out).Short) :
    σ.client.Effect σ.toClient e p out := by
  refine ClientProc.effect_of_moves hσ.client.ready (ClientProc.moves_of_exec hexec) ?_ hshort.1
  intro srcAddr pkt nowNs sent heq haddr
  rw [heq] at hdeliver
  exact hdeliver haddr

/-- **Every event of the client keeps the invariant.** -/
theorem Sync.client_step (hσ : Sync c σ) (hdeliver : σ.Delivers (.client e))
    (hexec : σ.client.exec e = some (p, out)) (hshort : (σ.afterClient e p out).Short) :
    Sync c (σ.afterClient e p out) := by
  have hready := hσ.client.ready.moves (ClientProc.moves_of_exec hexec)
  cases hσ.client_effect hdeliver hexec hshort with
  | stay hid hacts hzero => exact hσ.stay hready hid hacts hzero
  | join pkt hmem hne hzero hid _ _ hsend hrecv hout =>
    exact hσ.join hready hmem hne hzero hid hsend hrecv hout
  | leave hid hpushes sendWin hnext hacts hsend hrecv =>
    exact hσ.leave hready hid hpushes hnext hacts hsend hrecv

end ClientStep

/-! ### Events of the server -/

/-- What the server sends to the client. -/
def replies (σ : System) (out : List (NetAddr × Packet)) : List Packet :=
  (out.filter fun x => x.1 = σ.addr).map Prod.snd

theorem mem_replies {σ : System} {out : List (NetAddr × Packet)} {pkt : Packet} :
    pkt ∈ σ.replies out ↔ (σ.addr, pkt) ∈ out := by
  unfold replies
  constructor
  · intro h
    obtain ⟨⟨dst, pkt'⟩, hmem, rfl⟩ := List.mem_map.1 h
    obtain ⟨hmem, hdst⟩ := List.mem_filter.1 hmem
    rw [← of_decide_eq_true hdst]
    exact hmem
  · intro h
    exact List.mem_map.2 ⟨_, List.mem_filter.2 ⟨h, decide_eq_true rfl⟩, rfl⟩

theorem replies_eq_map {σ : System} {out : List (NetAddr × Packet)} (h : ∀ x ∈ out, x.1 = σ.addr) :
    σ.replies out = out.map Prod.snd := by
  rw [replies, List.filter_eq_self.2 fun x hx => decide_eq_true (h x hx)]

section ServerStep

variable {c : UInt32} {σ : System} {e : ServerEvent} {s : Server} {out : List (NetAddr × Packet)}

theorem issued_afterServer_none (h : σ.server.issues e = none) :
    (σ.afterServer e s out).issued = σ.issued := by
  simp [afterServer, h]

theorem issued_subset_afterServer : σ.issued ⊆ (σ.afterServer e s out).issued :=
  List.subset_append_left _ _

theorem spoiled_subset_afterServer : σ.spoiled ⊆ (σ.afterServer e s out).spoiled := by
  intro id hid
  show id ∈ if _ then _ else _
  split_ifs
  · exact hid
  · exact List.mem_append_right _ hid

/-- The windows of a session that the event has not changed. -/
theorem ends_afterServer_same {id : UInt32}
    (h : ∀ j, (s.table.slot j).active = true → (s.table.slot j).addr = σ.addr →
      (s.table.slot j).sessionId = id →
      σ.ends id = ((s.table.slot j).sendWin, (s.table.slot j).recvWin)) :
    (σ.afterServer e s out).ends id = σ.ends id := by
  simp only [afterServer]
  cases hx : s.sessionOf σ.addr id with
  | none => rfl
  | some x =>
    obtain ⟨j, rfl, hactive, haddr, hid⟩ := Server.sessionOf_some hx
    exact (h j hactive haddr hid).symm

/-- The windows of an active session. -/
theorem ends_afterServer_slot (hs : s.Distinct) {i : ℕ} (hactive : (s.table.slot i).active = true)
    (haddr : (s.table.slot i).addr = σ.addr) :
    (σ.afterServer e s out).ends (s.table.slot i).sessionId =
      ((s.table.slot i).sendWin, (s.table.slot i).recvWin) := by
  simp only [afterServer]
  rw [← haddr, Server.sessionOf_slot hs hactive]

/-- The server's part follows from the ids of the table. -/
theorem Tabled.afterServer (hσ : Tabled σ) (hsize : ∀ i, (s.table.slot i).HasSize)
    (hnonzero : ∀ x ∈ σ.server.issues e, x.1 ≠ 0)
    (hissued : ∀ i, (s.table.slot i).active = true →
      ((s.table.slot i).sessionId, (s.table.slot i).addr) ∈ (σ.afterServer e s out).issued)
    (hdistinct : s.Distinct) (hqueue : Server.Follows σ.server.recvQueue s.recvQueue) :
    Tabled (σ.afterServer e s out) where
  size := hsize
  nonzero := fun x hx => by
    rcases List.mem_append.1 hx with hx | hx
    · exact hσ.nonzero x hx
    · exact hnonzero x (Option.mem_toList.1 hx)
  issued := hissued
  distinct := hdistinct
  ends := fun i hactive haddr => ends_afterServer_slot hdistinct hactive haddr
  stray := fun id hid => by
    rw [ends_afterServer_same, hσ.stray id fun h => hid (issued_subset_afterServer h)]
    intro j hactive haddr hj
    have := hissued j hactive
    rw [hj, haddr] at this
    exact absurd this hid
  queue := hqueue.rep

/-- If every active slot is an old one, the ids are the old ones. -/
theorem Tabled.afterServer_old (hσ : Tabled σ) (hnone : σ.server.issues e = none)
    (hold : ∀ i, (s.table.slot i).active = true → (σ.server.table.slot i).active = true ∧
      (s.table.slot i).sessionId = (σ.server.table.slot i).sessionId ∧
      (s.table.slot i).addr = (σ.server.table.slot i).addr)
    (hcaps : ∀ i, (s.table.slot i).sendWin.capacity = (σ.server.table.slot i).sendWin.capacity)
    (hqueue : Server.Follows σ.server.recvQueue s.recvQueue) :
    Tabled (σ.afterServer e s out) := by
  refine hσ.afterServer (fun i => ?_) (fun x hx => ?_) (fun i hi => ?_) (fun i j hi hj hid => ?_)
    hqueue
  · unfold Session.HasSize
    rw [hcaps i]
    exact hσ.size i
  · rw [hnone] at hx
    exact absurd hx (by simp)
  · obtain ⟨h1, h2, h3⟩ := hold i hi
    rw [issued_afterServer_none hnone, h2, h3]
    exact hσ.issued i h1
  · obtain ⟨h1, h2, -⟩ := hold i hi
    obtain ⟨g1, g2, -⟩ := hold j hj
    exact hσ.distinct i j h1 g1 (h2.symm.trans (hid.trans g2))

theorem Seated.afterServer (hσ : Seated c σ) : Seated c (σ.afterServer e s out) where
  ready := hσ.ready
  sized := hσ.sized
  idle := hσ.idle
  joined := fun h => issued_subset_afterServer (hσ.joined h)
  touched := hσ.touched
  used := fun id hid => issued_subset_afterServer (hσ.used id hid)
  fits := hσ.fits

theorem Addressed.afterServer (hσ : Addressed σ)
    (hout : ∀ pkt ∈ σ.replies out, pkt.hdr.sessionId = 0 ∨
      (pkt.hdr.sessionId, σ.addr) ∈ (σ.afterServer e s out).issued) :
    Addressed (σ.afterServer e s out) where
  toServer := fun pkt hpkt =>
    (hσ.toServer pkt hpkt).imp_right fun h => issued_subset_afterServer h
  toClient := fun pkt hpkt => by
    rcases List.mem_append.1 hpkt with hpkt | hpkt
    · exact (hσ.toClient pkt hpkt).imp_right fun h => issued_subset_afterServer h
    · exact hout pkt hpkt

/-- A session stays linked when the server's party does something. -/
theorem LinkedBy.afterServer {id : UInt32} {A B B' : Party} (h : LinkedBy c σ id A B)
    (hacts : Acts id (ofSession id σ.toServer) B B' (ofSession id (σ.replies out)))
    (hends : (B'.send, B'.recv) = (σ.afterServer e s out).ends id)
    (hhanded : s.recvQueue.droppedCount = 0 → ∀ slot ∈ B'.got,
      slot.payloadLen.toNat ≤ maxPayloadSize → (id, slot) ∈ σ.handed ++ σ.server.hands e) :
    LinkedBy c (σ.afterServer e s out) id A B' where
  seat := h.seat
  ends := hends
  link := by
    show Link A B' (ofSession id σ.toServer) (ofSession id (σ.toClient ++ σ.replies out))
    rw [ofSession_append]
    exact (h.link.symm.acts hacts).symm
  handed := hhanded

/-- A session whose windows the event leaves alone, and in which it sends headers at most. -/
theorem LinkedBy.afterServer_same {id : UInt32} {A B : Party} (h : LinkedBy c σ id A B)
    (hqueue : Server.Follows σ.server.recvQueue s.recvQueue)
    (hends : (σ.afterServer e s out).ends id = σ.ends id)
    (hout : ∀ pkt ∈ σ.replies out, pkt.hdr.sessionId = id →
      pkt.hdr.packetType ≠ PktType.data.code ∧ (pkt.hdr.ackNum, pkt.hdr.sackMask) = (0, 0)) :
    LinkedBy c (σ.afterServer e s out) id A B := by
  refine h.afterServer (Acts.emits B fun pkt hpkt => ?_) (h.ends.trans hends.symm)
    fun hdropped slot hslot hlen => ?_
  · obtain ⟨hmem, hid⟩ := mem_ofSession.1 hpkt
    obtain ⟨htype, hack⟩ := hout pkt hmem hid
    exact ⟨hid, htype, Or.inr hack⟩
  · have h0 : σ.server.recvQueue.droppedCount = 0 :=
      Nat.le_zero.1 (hqueue.counts.trans hdropped.le)
    exact List.mem_append_left _ (h.handed h0 slot hslot hlen)

/-- What arrives in a session from the client has been sent. -/
theorem mail_subset (hdeliver : σ.Delivers (.server e)) (id : UInt32) :
    e.mail σ.addr id ⊆ ofSession id σ.toServer := by
  intro pkt hpkt
  cases e with
  | packet srcAddr pkt' nowNs stackAddr callocSend callocRecv sent =>
    change pkt ∈ if _ then _ else _ at hpkt
    split_ifs at hpkt with h
    · rw [List.mem_singleton.1 hpkt]
      exact mem_ofSession.2 ⟨hdeliver h.1, h.2⟩
    · exact absurd hpkt List.not_mem_nil
  | _ => exact absurd hpkt List.not_mem_nil

/-- No session does anything. -/
theorem Sync.quiet (hσ : Sync c σ) (hdeliver : σ.Delivers (.server e))
    (hslots : ∀ j, (s.table.slot j).active = true → s.table.slot j = σ.server.table.slot j)
    (hcaps : ∀ j, (s.table.slot j).sendWin.capacity = (σ.server.table.slot j).sendWin.capacity)
    (hout : ∀ x ∈ out, σ.server.Bare e x.1 x.2) (hissues : σ.server.issues e = none)
    (hqueue : Server.Follows σ.server.recvQueue s.recvQueue) :
    Sync c (σ.afterServer e s out) := by
  refine ⟨hσ.ring, hσ.client.afterServer,
    hσ.server.afterServer_old hissues (fun i hi => ?_) hcaps hqueue,
    hσ.mail.afterServer fun pkt hpkt => ?_, fun id hissued hspoiled hcase => ?_⟩
  · have heq := hslots i hi
    exact ⟨heq ▸ hi, congrArg Session.sessionId heq, congrArg Session.addr heq⟩
  · have hbare := hout _ (mem_replies.1 hpkt)
    rcases hbare.origin with h0 | ⟨i, hactive, haddr, hid⟩ | hmail
    · exact Or.inl h0
    · right
      have := hσ.server.issued i hactive
      rw [haddr, hid] at this
      exact issued_subset_afterServer this
    · -- it answers a packet of the client's
      obtain ⟨q, hq⟩ := List.exists_mem_of_ne_nil _ hmail
      obtain ⟨hq1, hq2⟩ := mem_ofSession.1 (mail_subset hdeliver _ hq)
      have := hσ.mail.toServer q hq1
      rw [hq2] at this
      exact this.imp_right fun h => issued_subset_afterServer h
  · rw [issued_afterServer_none hissues] at hissued
    obtain ⟨A, B, h⟩ := hσ.linked id hissued
      (fun h => hspoiled (spoiled_subset_afterServer h)) hcase
    refine ⟨A, B, h.afterServer_same hqueue (ends_afterServer_same fun j hactive haddr hid => ?_)
      fun pkt hpkt _ => ?_⟩
    · rw [← hid]
      have heq := hslots j hactive
      rw [heq] at hactive haddr ⊢
      exact hσ.server.ends j hactive haddr
    · have hbare := hout _ (mem_replies.1 hpkt)
      exact ⟨hbare.type, hbare.ack⟩

/-- A session that does something stays linked. -/
theorem LinkedBy.act {A B : Party} {i : ℕ} {ready : List RecvSlot}
    (h : LinkedBy c σ (s.table.slot i).sessionId A B) (hσ : Tabled σ)
    (hdeliver : σ.Delivers (.server e)) (hactive : (σ.server.table.slot i).active = true)
    (hid : (s.table.slot i).sessionId = (σ.server.table.slot i).sessionId)
    (haddr : (σ.server.table.slot i).addr = σ.addr)
    (hacts : ∀ msgs got, ∃ msgs',
      Acts (s.table.slot i).sessionId (e.mail σ.addr (s.table.slot i).sessionId)
        ((σ.server.table.slot i).party msgs got)
        ((s.table.slot i).party msgs' (got ++ ready)) (σ.replies out))
    (hends : (σ.afterServer e s out).ends (s.table.slot i).sessionId =
      ((s.table.slot i).sendWin, (s.table.slot i).recvWin))
    (hhanded : s.recvQueue.droppedCount = 0 → σ.server.recvQueue.droppedCount = 0 ∧
      ∀ slot ∈ ready, slot.payloadLen.toNat ≤ maxPayloadSize →
        ((s.table.slot i).sessionId, slot) ∈ σ.server.hands e) :
    Linked c (σ.afterServer e s out) (s.table.slot i).sessionId := by
  have hB : B = (σ.server.table.slot i).party B.sent B.got := by
    have hends := h.ends
    rw [hid, hσ.ends i hactive haddr] at hends
    obtain ⟨h1, h2⟩ := Prod.mk.inj hends
    rw [Session.party, ← h1, ← h2]
  obtain ⟨msgs, hact⟩ := hacts B.sent B.got
  rw [← hB] at hact
  refine ⟨A, (s.table.slot i).party msgs (B.got ++ ready), h.afterServer ?_ hends.symm ?_⟩
  · rw [ofSession_eq_self hact.sessionId_eq]
    exact hact.mono (mail_subset hdeliver _)
  · intro hdropped slot hslot hlen
    obtain ⟨h0, hready⟩ := hhanded hdropped
    rcases List.mem_append.1 hslot with hslot | hslot
    · exact List.mem_append_left _ (h.handed h0 slot hslot hlen)
    · exact List.mem_append_right _ (hready slot hslot hlen)

/-- One session does something. -/
theorem Sync.act (hσ : Sync c σ) (hdeliver : σ.Delivers (.server e)) {i : ℕ}
    {ready : List RecvSlot} (hactive : (σ.server.table.slot i).active = true)
    (hother : ∀ j, j ≠ i → s.table.slot j = σ.server.table.slot j)
    (hsame : (s.table.slot i).active = true ∧
      (s.table.slot i).sessionId = (σ.server.table.slot i).sessionId ∧
      (s.table.slot i).addr = (σ.server.table.slot i).addr)
    (hacts : ∀ msgs got, ∃ msgs',
      Acts (s.table.slot i).sessionId (e.mail (s.table.slot i).addr (s.table.slot i).sessionId)
        ((σ.server.table.slot i).party msgs got)
        ((s.table.slot i).party msgs' (got ++ ready)) (out.map Prod.snd))
    (hcap : (s.table.slot i).sendWin.capacity = (σ.server.table.slot i).sendWin.capacity)
    (hout : ∀ y ∈ out, y.1 = (s.table.slot i).addr) (hissues : σ.server.issues e = none)
    (hhands : σ.server.hands e =
      (Server.taken (s.table.slot i).clientId σ.server.recvQueue ready).map
        fun slot => ((s.table.slot i).sessionId, slot))
    (hqueue : s.recvQueue = pushReady (s.table.slot i).clientId σ.server.recvQueue ready) :
    Sync c (σ.afterServer e s out) := by
  obtain ⟨hfollows, htaken⟩ :=
    Server.follows_pushReady (s.table.slot i).clientId ready hσ.server.queue
  rw [← hqueue] at hfollows htaken
  have hold : ∀ j, (s.table.slot j).active = true → (σ.server.table.slot j).active = true ∧
      (s.table.slot j).sessionId = (σ.server.table.slot j).sessionId ∧
      (s.table.slot j).addr = (σ.server.table.slot j).addr := by
    intro j hj
    by_cases hji : j = i
    · subst hji
      exact ⟨hactive, hsame.2⟩
    · rw [hother j hji] at hj ⊢
      exact ⟨hj, rfl, rfl⟩
  have hcaps : ∀ j, (s.table.slot j).sendWin.capacity =
      (σ.server.table.slot j).sendWin.capacity := by
    intro j
    by_cases hji : j = i
    · subst hji
      exact hcap
    · rw [hother j hji]
  have htabled : Tabled (σ.afterServer e s out) :=
    hσ.server.afterServer_old hissues hold hcaps hfollows
  obtain ⟨hx, hid, haddr⟩ := hsame
  -- the session only sends to its address, under its id
  obtain ⟨msgs, hfirst⟩ := hacts [] []
  have hids : ∀ pkt ∈ σ.replies out, pkt.hdr.sessionId = (s.table.slot i).sessionId ∧
      (s.table.slot i).addr = σ.addr := by
    intro pkt hpkt
    have hmem := mem_replies.1 hpkt
    exact ⟨hfirst.sessionId_eq pkt (List.mem_map.2 ⟨_, hmem, rfl⟩), (hout _ hmem).symm⟩
  refine ⟨hσ.ring, hσ.client.afterServer, htabled, hσ.mail.afterServer fun pkt hpkt => ?_,
    fun id hissued hspoiled hcase => ?_⟩
  · obtain ⟨h1, h2⟩ := hids pkt hpkt
    rw [h1, ← h2]
    exact Or.inr (htabled.issued i hx)
  · rw [issued_afterServer_none hissues] at hissued
    obtain ⟨A, B, h⟩ := hσ.linked id hissued
      (fun h => hspoiled (spoiled_subset_afterServer h)) hcase
    by_cases hmine : (s.table.slot i).sessionId = id ∧ (s.table.slot i).addr = σ.addr
    · obtain ⟨rfl, haddr'⟩ := hmine
      rw [haddr'] at hacts hout
      rw [← replies_eq_map hout] at hacts
      refine h.act hσ.server hdeliver hactive hid (haddr.symm.trans haddr') hacts
        (htabled.ends i hx haddr') fun hdropped => ?_
      have h0 : σ.server.recvQueue.droppedCount = 0 :=
        Nat.le_zero.1 (hfollows.counts.trans hdropped.le)
      refine ⟨h0, fun slot hslot hlen => ?_⟩
      rw [hhands]
      exact List.mem_map.2 ⟨slot, htaken (by omega) slot hslot hlen, rfl⟩
    · refine ⟨A, B, h.afterServer_same hfollows (ends_afterServer_same fun j hj hjaddr hjid => ?_)
        fun pkt hpkt hpid => absurd ⟨(hids pkt hpkt).1.symm.trans hpid, (hids pkt hpkt).2⟩ hmine⟩
      have hji : j ≠ i := by
        rintro rfl
        exact hmine ⟨hjid, hjaddr⟩
      rw [hother j hji] at hj hjaddr hjid ⊢
      rw [← hjid]
      exact hσ.server.ends j hj hjaddr

/-- An id that has not been issued is in no packet. -/
theorem Addressed.ofSession_eq_nil (hσ : Addressed σ) {id : UInt32} (hne : id ≠ 0)
    (hid : id ∉ σ.issued.map Prod.fst) :
    ofSession id σ.toServer = [] ∧ ofSession id σ.toClient = [] := by
  have hnot : (id, σ.addr) ∉ σ.issued := fun h => hid (List.mem_map.2 ⟨_, h, rfl⟩)
  constructor
  · refine Rel4u.ofSession_eq_nil fun pkt hpkt heq => ?_
    rcases hσ.toServer pkt hpkt with h | h
    · exact hne (heq.symm.trans h)
    · exact hnot (heq ▸ h)
  · refine Rel4u.ofSession_eq_nil fun pkt hpkt heq => ?_
    rcases hσ.toClient pkt hpkt with h | h
    · exact hne (heq.symm.trans h)
    · exact hnot (heq ▸ h)

/-- A new session and a client that has not joined it are linked. -/
theorem linkedBy_new (hσ : Sync c σ) {x : Session} (hne : x.sessionId ≠ 0)
    (hid : x.sessionId ∉ σ.issued.map Prod.fst) (haddr : x.addr = σ.addr) {d : UInt32}
    (hd : IsRingSize d) (hsend : x.sendWin = SendWindow.fresh d 1)
    (hrecv : x.recvWin = RecvWindow.fresh d 1)
    (hout : ∃ pkt, out = [(x.addr, pkt)] ∧ pkt.hdr.sessionId = x.sessionId ∧
      pkt.hdr.packetType ≠ PktType.data.code ∧ AckOf x.recvWin pkt)
    (hends : (σ.afterServer e s out).ends x.sessionId = (x.sendWin, x.recvWin)) :
    LinkedBy c (σ.afterServer e s out) x.sessionId (Party.fresh c) (Party.fresh d) where
  seat := by
    refine ⟨fun heq => ?_, fun _ => rfl⟩
    have hmine := hσ.client.joined fun h0 => hne (heq.trans h0)
    exact absurd (List.mem_map.2 ⟨_, hmine, heq.symm⟩) hid
  ends := by rw [hends, hsend, hrecv]; rfl
  link := by
    obtain ⟨pkt, rfl, hpid, htype, hack⟩ := hout
    obtain ⟨h1, h2⟩ := hσ.mail.ofSession_eq_nil hne hid
    have hreplies : σ.replies [(x.addr, pkt)] = [pkt] := by simp [replies, haddr]
    rw [hrecv] at hack
    have hemit : Acts x.sessionId [] (Party.fresh d) (Party.fresh d) [pkt] :=
      .emit _ pkt hpid htype hack
    show Link _ _ (ofSession x.sessionId σ.toServer)
      (ofSession x.sessionId (σ.toClient ++ σ.replies [(x.addr, pkt)]))
    rw [ofSession_append, h1, h2, hreplies, ofSession_eq_self hemit.sessionId_eq]
    exact ((link_fresh hσ.ring hd).symm.acts hemit).symm
  handed := fun _ slot hslot => absurd hslot List.not_mem_nil

/-- A session is made. -/
theorem Sync.enroll (hσ : Sync c σ) {x : Session}
    (hissues : σ.server.issues e = some (x.sessionId, x.addr))
    (hid : x.sessionId ∉ σ.issued.map Prod.fst) (hactive : x.active = true)
    (hne : x.sessionId ≠ 0)
    (hslots : (∃ i, s.table.slot i = x ∧ ∀ j, j ≠ i → s.table.slot j = σ.server.table.slot j) ∨
      ((∀ j, s.table.slot j = σ.server.table.slot j) ∧
        (e.callocs = true → (x.sendWin, x.recvWin) = strayEnds)))
    (hsize : x.HasSize)
    (hfresh : e.callocs = true → ∃ d, IsRingSize d ∧ x.sendWin = SendWindow.fresh d 1 ∧
      x.recvWin = RecvWindow.fresh d 1)
    (hout : ∃ pkt, out = [(x.addr, pkt)] ∧ pkt.hdr.sessionId = x.sessionId ∧
      pkt.hdr.packetType ≠ PktType.data.code ∧ AckOf x.recvWin pkt)
    (hqueue : s.recvQueue = σ.server.recvQueue) : Sync c (σ.afterServer e s out) := by
  have hfollows : Server.Follows σ.server.recvQueue s.recvQueue :=
    ⟨hqueue ▸ hσ.server.queue, hqueue ▸ le_rfl⟩
  have hissued : (σ.afterServer e s out).issued = σ.issued ++ [(x.sessionId, x.addr)] := by
    simp [afterServer, hissues]
  -- the slots are the old ones but for the one that holds the new id
  have hunissued : ∀ j, (σ.server.table.slot j).active = true →
      (σ.server.table.slot j).sessionId ≠ x.sessionId := fun j hj heq =>
    hid (List.mem_map.2 ⟨_, hσ.server.issued j hj, heq⟩)
  have hold : ∀ j, (s.table.slot j).sessionId ≠ x.sessionId →
      s.table.slot j = σ.server.table.slot j := by
    intro j hj
    rcases hslots with ⟨i, hi, hother⟩ | ⟨hall, -⟩
    · exact hother j fun hji => hj (by rw [hji, hi])
    · exact hall j
  have hnew : ∀ j, (s.table.slot j).active = true → (s.table.slot j).sessionId = x.sessionId →
      s.table.slot j = x ∧ ∀ k, (s.table.slot k).active = true →
        (s.table.slot k).sessionId = x.sessionId → j = k := by
    intro j hj hjid
    rcases hslots with ⟨i, hi, hother⟩ | ⟨hall, -⟩
    · have honly : ∀ k, (s.table.slot k).active = true →
          (s.table.slot k).sessionId = x.sessionId → k = i := fun k hk hkid => by
        by_contra hki
        rw [hother k hki] at hk hkid
        exact hunissued k hk hkid
      exact ⟨honly j hj hjid ▸ hi, fun k hk hkid => (honly j hj hjid).trans (honly k hk hkid).symm⟩
    · rw [hall j] at hj hjid
      exact absurd hjid (hunissued j hj)
  have hdistinct : s.Distinct := by
    intro j k hj hk hjk
    by_cases hjid : (s.table.slot j).sessionId = x.sessionId
    · exact (hnew j hj hjid).2 k hk (hjk.symm.trans hjid)
    · have hkid : (s.table.slot k).sessionId ≠ x.sessionId := hjk ▸ hjid
      rw [hold j hjid] at hj hjk
      rw [hold k hkid] at hk hjk
      exact hσ.server.distinct j k hj hk hjk
  refine ⟨hσ.ring, hσ.client.afterServer,
    hσ.server.afterServer (fun j => ?_) (fun y hy => ?_) (fun j hj => ?_) hdistinct hfollows,
    hσ.mail.afterServer fun pkt hpkt => ?_, fun id hmem hspoiled hcase => ?_⟩
  · rcases hslots with ⟨i, hi, hother⟩ | ⟨hall, -⟩
    · by_cases hji : j = i
      · rw [hji, hi]
        exact hsize
      · rw [hother j hji]
        exact hσ.server.size j
    · rw [hall j]
      exact hσ.server.size j
  · rw [hissues, Option.mem_some_iff] at hy
    rw [← hy]
    exact hne
  · rw [hissued]
    by_cases hjid : (s.table.slot j).sessionId = x.sessionId
    · rw [(hnew j hj hjid).1]
      exact List.mem_append_right _ (List.mem_singleton_self _)
    · rw [hold j hjid] at hj ⊢
      exact List.mem_append_left _ (hσ.server.issued j hj)
  · obtain ⟨q, hq, hqid, -⟩ := hout
    have hmem := mem_replies.1 hpkt
    rw [hq, List.mem_singleton] at hmem
    obtain ⟨haddr, rfl⟩ := Prod.mk.inj hmem
    rw [hissued, hqid, haddr]
    exact Or.inr (List.mem_append_right _ (List.mem_singleton_self _))
  · change (id, σ.addr) ∈ _ at hmem
    rw [hissued] at hmem
    rcases List.mem_append.1 hmem with hmem | hmem
    · -- an old session, with another id
      have hother : id ≠ x.sessionId := fun heq => hid (List.mem_map.2 ⟨_, hmem, heq⟩)
      obtain ⟨A, B, h⟩ := hσ.linked id hmem
        (fun h => hspoiled (spoiled_subset_afterServer h)) hcase
      refine ⟨A, B, h.afterServer_same hfollows (ends_afterServer_same fun j hj haddr hjid => ?_)
        fun pkt hpkt hpid => ?_⟩
      · have hslot := hold j (hjid ▸ hother)
        rw [hslot] at hj haddr hjid ⊢
        rw [← hjid]
        exact hσ.server.ends j hj haddr
      · obtain ⟨q, hq, hqid, -⟩ := hout
        have hpkt := mem_replies.1 hpkt
        rw [hq, List.mem_singleton] at hpkt
        rw [(Prod.mk.inj hpkt).2, hqid] at hpid
        exact absurd hpid.symm hother
    · obtain ⟨rfl, haddr⟩ := Prod.mk.inj (List.mem_singleton.1 hmem)
      have hcallocs : e.callocs = true := by
        by_contra hno
        refine hspoiled ?_
        show x.sessionId ∈ if _ then _ else _
        rw [if_neg hno, hissues]
        exact List.mem_append_left _ (List.mem_singleton_self _)
      obtain ⟨d, hd, hsend, hrecv⟩ := hfresh hcallocs
      refine ⟨_, _, linkedBy_new hσ hne hid haddr.symm hd hsend hrecv hout ?_⟩
      rcases hslots with ⟨i, rfl, -⟩ | ⟨hall, hstray⟩
      · exact ends_afterServer_slot hdistinct hactive haddr.symm
      · rw [hstray hcallocs, ends_afterServer_same, hσ.server.stray]
        · exact fun h => hid (List.mem_map.2 ⟨_, h, rfl⟩)
        · intro j hj _ hjid
          rw [hall j] at hj hjid
          exact absurd hjid (hunissued j hj)

/-- **Every event of the server keeps the invariant.** -/
theorem Sync.server_step (hσ : Sync c σ) (hdeliver : σ.Delivers (.server e))
    (hfresh : σ.FreshId (.server e))
    (hshort : (σ.afterServer e (σ.server.exec e).1 (σ.server.exec e).2).Short) :
    Sync c (σ.afterServer e (σ.server.exec e).1 (σ.server.exec e).2) := by
  have heffect := Server.effect_exec hσ.server.size e
  generalize (σ.server.exec e).1 = s at heffect hshort ⊢
  generalize (σ.server.exec e).2 = out at heffect hshort ⊢
  cases heffect with
  | quiet hslots hcaps hout hissues hhands hqueue =>
    refine hσ.quiet hdeliver hslots hcaps hout hissues ?_
    rcases hqueue with hqueue | hqueue | hqueue <;> rw [hqueue]
    · exact ⟨hσ.server.queue, le_rfl⟩
    · exact Server.follows_pop hσ.server.queue
    · exact Server.follows_emptyQueue _ hσ.server.queue
  | act i x ready hactive hslot hother hsame hacts hcap hout hissues hhands hqueue =>
    subst hslot
    exact hσ.act hdeliver hactive hother hsame
      (hacts (hshort.2 _ (Server.slot_mem_of_active hsame.1))) hcap hout hissues hhands hqueue
  | enroll x hissues hactive hne hslots hsize hfresh' hout hhands hqueue =>
    have hid : x.sessionId ∉ σ.issued.map Prod.fst :=
      hfresh (x.sessionId, x.addr) (by rw [hissues]; rfl)
    exact hσ.enroll hissues hid hactive hne hslots hsize hfresh' hout hqueue

end ServerStep

/-! ### Every run -/

/-- The windows of a new client. -/
theorem create_party {config : ClientConfig} {a : CreateAllocs} {client : Client}
    (h : Client.create config a = some client) :
    ∃ c, IsRingSize c ∧ client.party [] [] = Party.fresh c ∧ client.sessionId = 0 ∧
      client.state = .disconnected := by
  obtain ⟨-, -, -, hsend, hrecv, rfl⟩ := Client.create_some h
  obtain ⟨hring, h1⟩ := SendWindow.init_ok hsend
  refine ⟨config.withDefaults.windowSize, hring, ?_, rfl, rfl⟩
  have h2 := RecvWindow.init_ok hrecv
  rw [Client.party, Party.fresh, h1, h2]

/-- The slots of a new table. -/
theorem create_slots {config : ServerConfig} {a : CreateAllocs} {s : Server}
    (h : Server.create config a = some s) :
    (∀ i, (s.table.slot i).HasSize ∧ (s.table.slot i).active = false) ∧
      ∃ l, s.recvQueue.Rep l := by
  obtain ⟨sendQueue, recvQueue, table, -, hrecv, htable, rfl⟩ := Server.create_some h
  refine ⟨fun i => ?_, [], (MpmcQueue.init_rep hrecv).1⟩
  unfold SessionTable.init at htable
  split_ifs at htable with hbad
  obtain rfl := Option.some.inj htable
  rw [not_or] at hbad
  have hring := SendWindow.isRingSize_of_badCapacity (Bool.eq_false_iff.2 hbad.2)
  simp only [SessionTable.slot, List.getD_eq_getElem?_getD, List.getElem?_map]
  cases (List.range config.withDefaults.maxClients.toNat)[i]? with
  | none => exact ⟨Or.inl rfl, rfl⟩
  | some j =>
    refine ⟨Or.inr ?_, rfl⟩
    show IsRingSize ((default : SendWindow).init config.withDefaults.windowSize 1 true).2.capacity
    rw [SendWindow.init_eq_fresh hring]
    exact hring

/-- Before anything happens. -/
theorem sync_start {cconfig : ClientConfig} {ca : CreateAllocs} {client : Client}
    (hclient : Client.create cconfig ca = some client) {sconfig : ServerConfig} {sa : CreateAllocs}
    {server : Server} (hserver : Server.create sconfig sa = some server) (addr : NetAddr) :
    ∃ c, Sync c (start addr client server) := by
  obtain ⟨c, hring, hparty, hid, hstate⟩ := create_party hclient
  obtain ⟨hslots, hqueue⟩ := create_slots hserver
  have hinactive : ∀ i, (server.table.slot i).active ≠ true := fun i =>
    Bool.eq_false_iff.1 (hslots i).2
  refine ⟨c, hring, ?_, ?_, ⟨by simp [start], by simp [start]⟩,
    fun id hissued => absurd hissued List.not_mem_nil⟩
  · exact
      { ready := ⟨hstate ▸ agrees_disconnected _, fun st hst => absurd hst (by simp [start,
          ClientProc.start, WorkerPc.workerState])⟩
        sized := hparty ▸ sized_fresh hring
        idle := fun _ => ⟨congrArg Party.send hparty, congrArg Party.recv hparty, rfl⟩
        joined := fun h => absurd hid h
        touched := fun h => absurd hid h
        used := fun id hmem => absurd hmem List.not_mem_nil
        fits := fun m hm => absurd hm List.not_mem_nil }
  · exact
      { size := fun i => (hslots i).1
        nonzero := fun x hx => absurd hx List.not_mem_nil
        issued := fun i hi => absurd hi (hinactive i)
        distinct := fun i j hi => absurd hi (hinactive i)
        ends := fun i hi => absurd hi (hinactive i)
        stray := fun id _ => rfl
        queue := hqueue }

/-- **Every event keeps the invariant.** -/
theorem Sync.step {c : UInt32} {σ σ' : System} {e : SystemEvent} (hσ : Sync c σ)
    (h : σ.exec e = some σ') : Sync c σ' := by
  obtain ⟨hdeliver, hfresh, hshort, ⟨ce, p, out, rfl, hexec, rfl⟩ | ⟨se, rfl, rfl⟩⟩ := exec_cases h
  · exact hσ.client_step hdeliver hexec hshort
  · exact hσ.server_step hdeliver hfresh hshort

/-- **Every run keeps the invariant.** -/
theorem Sync.run {c : UInt32} {σ σ' : System} {es : List SystemEvent} (hσ : Sync c σ)
    (h : σ.run es = some σ') : Sync c σ' :=
  run_induction (P := Sync c) Sync.step hσ h

end System

end Rel4u
