import Rel4u.Channel.Exact
import Rel4u.System.Handshake

/-!
# From the client's window to the server's queue

What the server's receive queue takes by a session is what the client has put into its send window
in that session: `handed_exact`. Ordered messages arrive in the order they were sent, unordered ones
in any order, none twice, and none that was not sent, whatever the network does with the packets and
however often the client reconnects and the server frees, evicts or restarts. Only a client that has
come back to a session which it had used before is excepted: its windows and the server's have not
started together. As long as the queue drops nothing, no message is missing that the client takes
for acknowledged.
-/

namespace Rel4u

open Serial (wrap IsRingSize)

/-! ### A direction of a session -/

section Direction

variable {log : List Message} {sw : SendWindow} {rw : RecvWindow} {h e : ℕ}
  {out given : List RecvSlot}

/-- The number that a window sends next says how many messages have entered it. -/
theorem Dir.log_eq_nil (hd : Dir log sw rw given h e) (hsmall : log.length < 2 ^ 30)
    (hnext : sw.nextSeq = 1) : log = [] := by
  have h1 := hd.nextSeq_eq
  rw [hnext] at h1
  have h2 := Serial.wrap_inj (show wrap 1 = wrap (1 + log.length) from h1) (by omega) (by omega)
  exact List.length_eq_zero_iff.1 (by omega)

/-- What the sender takes for acknowledged has been given. -/
theorem Dir.given_of_acked (hd : Dir log sw rw given h e) (hsmall : log.length < 2 ^ 30) {k : ℕ}
    {m : Message} (hk : log[k]? = some m) (hacked : 1 + k < sw.headSeq.toNat) :
    ∃ s ∈ given, s.seqNum = wrap (1 + k) ∧ s.message = m := by
  obtain ⟨sv, rv, hs, hhanded, rfl | ⟨-, -, rfl⟩, -⟩ := hd
  · refine hhanded k m hk (Or.inl ?_)
    have hle := hs.head_le
    have hle' := hs.le_next
    rw [hs.send.head, Serial.wrap_toNat, Nat.mod_eq_of_lt (by omega)] at hacked
    omega
  · exact absurd hk (by simp)

/-- The ordered messages, as they were sent. -/
theorem Got.ordered_sublist (hg : Got log rw out) :
    ((out.filter fun s => isOrdered s.deliveryMode).map RecvSlot.message).Sublist
      (log.filter fun m => isOrdered m.mode) := by
  rcases hg with ⟨e, -, -, -, hdel⟩ | ⟨-, hout⟩
  · rw [hdel.ordered]
    exact (List.take_sublist _ _).filter _
  · have hnone : (out.filter fun s => isOrdered s.deliveryMode) = [] :=
      List.filter_eq_nil_iff.2 fun s hs hmode => hout s hs (Or.inl (of_decide_eq_true hmode))
    rw [hnone]
    exact List.nil_sublist _

/-- Every unordered message is one of the log, under its number. -/
theorem Got.unordered_mem (hg : Got log rw out) {s : RecvSlot} (hs : s ∈ out)
    (hmode : isUnordered s.deliveryMode = true) :
    ∃ k, s.seqNum = wrap (1 + k) ∧ log[k]? = some s.message := by
  rcases hg with ⟨e, -, -, -, hdel⟩ | ⟨-, hout⟩
  · have hmem := hdel.unordered.mem_iff.1
      (List.mem_map.2 ⟨s, List.mem_filter.2 ⟨hs, hmode⟩, rfl⟩)
    obtain ⟨k, hk, heq⟩ := List.mem_map.1 hmem
    obtain ⟨hseq, hmessage⟩ := Prod.mk.inj heq
    have hlt := List.mem_range.1 (List.mem_filter.1 hk).1
    refine ⟨k, hseq.symm, ?_⟩
    rw [← hmessage, List.getD_eq_getElem _ _ hlt, List.getElem?_eq_getElem hlt]
  · exact absurd (Or.inr (of_decide_eq_true hmode)) (hout s hs)

/-- No unordered message is given twice. -/
theorem Got.unordered_nodup (hg : Got log rw out) (hsmall : log.length < 2 ^ 30) :
    ((out.filter fun s => isUnordered s.deliveryMode).map RecvSlot.seqNum).Nodup := by
  rcases hg with ⟨e, -, -, -, hdel⟩ | ⟨-, hout⟩
  · have hperm := hdel.unordered.map Prod.fst
    rw [List.map_map] at hperm
    refine hperm.nodup_iff.2 ?_
    rw [unorderedAccepted, List.map_map]
    refine (List.nodup_range.filter _).map_on fun j hj k hk heq => ?_
    have h1 := List.mem_range.1 (List.mem_filter.1 hj).1
    have h2 := List.mem_range.1 (List.mem_filter.1 hk).1
    have h3 := Serial.wrap_inj heq (by omega) (by omega)
    omega
  · have hnone : (out.filter fun s => isUnordered s.deliveryMode) = [] :=
      List.filter_eq_nil_iff.2 fun s hs hmode => hout s hs (Or.inr (of_decide_eq_true hmode))
    rw [hnone]
    exact List.nodup_nil

end Direction

/-- The queue takes the slots in their order. -/
theorem Server.taken_sublist (clientId : UInt32) (ready : List RecvSlot) :
    ∀ q : MpmcQueue, (Server.taken clientId q ready).Sublist ready := by
  induction ready with
  | nil => exact fun q => List.Sublist.slnil
  | cons slot rest ih =>
    intro q
    rw [Server.taken]
    split
    · exact (ih _).cons_cons slot
    · exact (ih _).cons slot

namespace System

/-- The reliable messages of a session that have entered the client's window. -/
def logOf (σ : System) (id : UInt32) : List Message :=
  if id = σ.client.client.sessionId then σ.sent else []

/-- The slots that the server's queue has taken by a session. -/
def handedOf (σ : System) (id : UInt32) : List RecvSlot :=
  (σ.handed.filter fun x => decide (x.1 = id)).map Prod.snd

/-- **What every run keeps**, beside `Sync`: no id is issued twice, and the queue has been given
nothing by a session but what its window has accepted of the log. -/
structure Exact (σ : System) : Prop where
  nodup : (σ.issued.map Prod.fst).Nodup
  known : ∀ x ∈ σ.handed, x.1 ∈ σ.issued.map Prod.fst
  got : ∀ id, (id, σ.addr) ∈ σ.issued → id ∉ σ.spoiled →
    (id = σ.client.client.sessionId ∨ id ∉ σ.used) →
    ∃ out, Got (σ.logOf id) (σ.ends id).2 out ∧ (σ.handedOf id).Sublist out

section Lemmas

variable {c : UInt32} {σ : System} {id : UInt32}

theorem logOf_self : σ.logOf σ.client.client.sessionId = σ.sent := if_pos rfl

theorem logOf_other (h : id ≠ σ.client.client.sessionId) : σ.logOf id = [] := if_neg h

/-- The client's party has sent the log. -/
theorem Seat.sent_eq {A : Party} (h : Seat c σ id A) : A.sent = σ.logOf id := by
  by_cases hid : id = σ.client.client.sessionId
  · obtain ⟨got, rfl⟩ := h.1 hid
    rw [hid, logOf_self]
    rfl
  · rw [h.2 hid, logOf_other hid]
    rfl

theorem mem_handedOf {slot : RecvSlot} : slot ∈ σ.handedOf id ↔ (id, slot) ∈ σ.handed := by
  unfold handedOf
  constructor
  · intro h
    obtain ⟨⟨id', slot'⟩, hmem, rfl⟩ := List.mem_map.1 h
    obtain ⟨hmem, hid⟩ := List.mem_filter.1 hmem
    rw [← of_decide_eq_true hid]
    exact hmem
  · intro h
    exact List.mem_map.2 ⟨_, List.mem_filter.2 ⟨h, decide_eq_true rfl⟩, rfl⟩

end Lemmas

/-! ### Events of the client -/

section ClientStep

variable {c : UInt32} {σ : System} {e : ClientEvent} {p : ClientProc} {out : List Packet}

/-- A turn of the drain loop pushes one message at most. -/
theorem pushes_cases (p : ClientProc) (e : ClientEvent) :
    p.pushes e = [] ∨ ∃ m, p.pushes e = [m] := by
  unfold ClientProc.pushes Client.pushes
  split
  · split
    · split_ifs
      · split
        · exact Or.inl rfl
        · split
          · split_ifs
            · exact Or.inr ⟨_, rfl⟩
            · exact Or.inl rfl
          · exact Or.inl rfl
      · exact Or.inl rfl
    · exact Or.inl rfl
  · exact Or.inl rfl

/-- A client that leaves a session which it has not used has sent nothing in it. -/
theorem Sync.sent_eq_nil (hσ : Sync c σ)
    (hissued : (σ.client.client.sessionId, σ.addr) ∈ σ.issued)
    (hspoiled : σ.client.client.sessionId ∉ σ.spoiled)
    (hused : σ.client.client.sessionId ∉ σ.used) : σ.sent = [] := by
  obtain ⟨A, B, hl⟩ := hσ.linked _ hissued hspoiled (Or.inl rfl)
  obtain ⟨got, rfl⟩ := hl.seat.1 rfl
  obtain ⟨hA, eA, hB, eB, hlink⟩ := hl.link
  have huntouched := (hσ.client.touched (hσ.server.nonzero _ hissued)).resolve_right hused
  exact hlink.there.log_eq_nil hlink.short huntouched.1

theorem Exact.client_step (h : Exact σ) (hσ : Sync c σ) : Exact (σ.afterClient e p out) := by
  refine ⟨h.nodup, h.known, fun id hissued hspoiled hcase => ?_⟩
  have hspoiled' : id ∉ σ.spoiled := fun hid => hspoiled (spoiled_subset_afterClient hid)
  change id = p.client.sessionId ∨ id ∉ (σ.afterClient e p out).used at hcase
  have hcase' : id = σ.client.client.sessionId ∨ id ∉ σ.used := by
    rcases hcase with rfl | hid
    · refine or_iff_not_imp_left.2 fun hne hused => hspoiled ?_
      show p.client.sessionId ∈ if _ then _ else _
      rw [if_pos (by simp [hne, hused])]
      exact List.mem_cons_self
    · exact Or.inr fun hused => hid (used_subset_afterClient hused)
  obtain ⟨slots, hgot, hsub⟩ := h.got id hissued hspoiled' hcase'
  refine ⟨slots, ?_, hsub⟩
  show Got ((σ.afterClient e p out).logOf id) (σ.ends id).2 slots
  by_cases hid : id = σ.client.client.sessionId
  · subst hid
    rw [logOf_self] at hgot
    by_cases hsame : p.client.sessionId = σ.client.client.sessionId
    · -- the message that has been pushed, if there is one
      have hlog : (σ.afterClient e p out).logOf σ.client.client.sessionId =
          σ.sent ++ σ.client.pushes e := by
        rw [← sent_afterClient_same hsame]
        exact if_pos hsame.symm
      obtain ⟨A, B, hl⟩ := hσ.linked _ hissued hspoiled' (Or.inl rfl)
      obtain ⟨got, rfl⟩ := hl.seat.1 rfl
      obtain ⟨hA, eA, hB, eB, hlink⟩ := hl.link
      have hthere := hlink.there
      rw [show B.recv = (σ.ends σ.client.client.sessionId).2 from congrArg Prod.snd hl.ends]
        at hthere
      rw [hlog]
      rcases pushes_cases σ.client e with hnone | ⟨m, hone⟩
      · rw [hnone, List.append_nil]
        exact hgot
      · rw [hone]
        exact hgot.push hthere hlink.short m
    · -- the client has left, and has sent nothing
      have hused : σ.client.client.sessionId ∉ σ.used := fun hused =>
        hcase.elim (fun h => hsame h.symm) fun h => h (used_subset_afterClient hused)
      rw [hσ.sent_eq_nil hissued hspoiled' hused] at hgot
      rw [logOf_other (show _ ≠ p.client.sessionId from Ne.symm hsame)]
      exact hgot
  · rw [logOf_other hid] at hgot
    have hlog : (σ.afterClient e p out).logOf id = [] := by
      by_cases hnew : id = p.client.sessionId
      · rw [hnew] at hid
        rw [hnew, ← sent_afterClient_changed hid]
        exact if_pos rfl
      · exact logOf_other hnew
    rw [hlog]
    exact hgot

end ClientStep

/-! ### Events of the server -/

section ServerStep

variable {c : UInt32} {σ : System} {e : ServerEvent} {s : Server} {out : List (NetAddr × Packet)}

/-- The session has been given nothing by an event that hands nothing over under its id. -/
theorem handedOf_afterServer_same {id : UInt32} (h : ∀ x ∈ σ.server.hands e, x.1 ≠ id) :
    (σ.afterServer e s out).handedOf id = σ.handedOf id := by
  unfold handedOf
  show ((σ.handed ++ σ.server.hands e).filter _).map _ = _
  have hnone : ((σ.server.hands e).filter fun x => decide (x.1 = id)) = [] :=
    List.filter_eq_nil_iff.2 fun x hx heq => h x hx (of_decide_eq_true heq)
  rw [List.filter_append, hnone, List.append_nil]

theorem handedOf_afterServer_act {id : UInt32} {slots : List RecvSlot}
    (h : σ.server.hands e = slots.map fun slot => (id, slot)) :
    (σ.afterServer e s out).handedOf id = σ.handedOf id ++ slots := by
  unfold handedOf
  show ((σ.handed ++ σ.server.hands e).filter _).map _ = _
  rw [List.filter_append, List.map_append, h]
  congr 1
  rw [List.filter_eq_self.2 (by simp), List.map_map]
  exact List.map_id _

/-- A session that the event leaves alone. -/
theorem Exact.got_same (h : Exact σ) {id : UInt32} (hissued : (id, σ.addr) ∈ σ.issued)
    (hspoiled : id ∉ (σ.afterServer e s out).spoiled)
    (hcase : id = σ.client.client.sessionId ∨ id ∉ σ.used)
    (hends : (σ.afterServer e s out).ends id = σ.ends id)
    (hhands : ∀ x ∈ σ.server.hands e, x.1 ≠ id) :
    ∃ slots, Got (σ.logOf id) ((σ.afterServer e s out).ends id).2 slots ∧
      ((σ.afterServer e s out).handedOf id).Sublist slots := by
  rw [hends, handedOf_afterServer_same hhands]
  exact h.got id hissued (fun hid => hspoiled (spoiled_subset_afterServer hid)) hcase

/-- The session that does something. -/
theorem Exact.got_act (h : Exact σ) (hσ : Sync c σ) (hdeliver : σ.Delivers (.server e)) {i : ℕ}
    {ready : List RecvSlot} (hactive : (σ.server.table.slot i).active = true)
    (hid : (s.table.slot i).sessionId = (σ.server.table.slot i).sessionId)
    (haddr : (σ.server.table.slot i).addr = σ.addr)
    (hissued : ((s.table.slot i).sessionId, σ.addr) ∈ σ.issued)
    (hspoiled : (s.table.slot i).sessionId ∉ (σ.afterServer e s out).spoiled)
    (hcase : (s.table.slot i).sessionId = σ.client.client.sessionId ∨
      (s.table.slot i).sessionId ∉ σ.used)
    (hacts : ∀ msgs got, ∃ msgs',
      Acts (s.table.slot i).sessionId (e.mail σ.addr (s.table.slot i).sessionId)
        ((σ.server.table.slot i).party msgs got)
        ((s.table.slot i).party msgs' (got ++ ready)) (out.map Prod.snd))
    (hends : (σ.afterServer e s out).ends (s.table.slot i).sessionId =
      ((s.table.slot i).sendWin, (s.table.slot i).recvWin))
    (hhands : σ.server.hands e =
      (Server.taken (s.table.slot i).clientId σ.server.recvQueue ready).map
        fun slot => ((s.table.slot i).sessionId, slot)) :
    ∃ slots, Got (σ.logOf (s.table.slot i).sessionId)
        ((σ.afterServer e s out).ends (s.table.slot i).sessionId).2 slots ∧
      ((σ.afterServer e s out).handedOf (s.table.slot i).sessionId).Sublist slots := by
  have hspoiled' : (s.table.slot i).sessionId ∉ σ.spoiled := fun h =>
    hspoiled (spoiled_subset_afterServer h)
  obtain ⟨A, B, hl⟩ := hσ.linked _ hissued hspoiled' hcase
  obtain ⟨slots, hgot, hsub⟩ := h.got _ hissued hspoiled' hcase
  have hbefore : σ.ends (s.table.slot i).sessionId =
      ((σ.server.table.slot i).sendWin, (σ.server.table.slot i).recvWin) := by
    rw [hid]
    exact hσ.server.ends i hactive haddr
  have hB : { (σ.server.table.slot i).party B.sent slots with got := B.got } = B := by
    have hends := hl.ends
    rw [hbefore] at hends
    obtain ⟨h1, h2⟩ := Prod.mk.inj hends
    rw [Session.party, ← h1, ← h2]
  obtain ⟨msgs, hact⟩ := hacts B.sent slots
  refine ⟨slots ++ ready, ?_, ?_⟩
  · rw [hbefore, ← hl.seat.sent_eq] at hgot
    rw [hends, ← hl.seat.sent_eq]
    have hlink := hl.link.symm
    rw [← hB] at hlink
    exact (hact.mono (mail_subset hdeliver _)).got hlink hgot
  · rw [handedOf_afterServer_act hhands]
    exact hsub.append (Server.taken_sublist _ ready _)

/-- No id is new, and what is handed over is under an old one. -/
theorem Exact.of_no_issue (h : Exact σ) (hissues : σ.server.issues e = none)
    (hhands : ∀ x ∈ σ.server.hands e, x.1 ∈ σ.issued.map Prod.fst)
    (hgot : ∀ id, (id, σ.addr) ∈ σ.issued → id ∉ (σ.afterServer e s out).spoiled →
      (id = σ.client.client.sessionId ∨ id ∉ σ.used) →
      ∃ slots, Got (σ.logOf id) ((σ.afterServer e s out).ends id).2 slots ∧
        ((σ.afterServer e s out).handedOf id).Sublist slots) :
    Exact (σ.afterServer e s out) := by
  have hissued : (σ.afterServer e s out).issued = σ.issued := issued_afterServer_none hissues
  refine ⟨hissued ▸ h.nodup, fun x hx => ?_, fun id hmem => hgot id (hissued ▸ hmem)⟩
  rw [hissued]
  exact (List.mem_append.1 hx).elim (h.known x) (hhands x)

/-- No session does anything. -/
theorem Exact.quiet (h : Exact σ) (hσ : Sync c σ)
    (hslots : ∀ j, (s.table.slot j).active = true → s.table.slot j = σ.server.table.slot j)
    (hissues : σ.server.issues e = none) (hhands : σ.server.hands e = []) :
    Exact (σ.afterServer e s out) := by
  have hnone : ∀ {P : UInt32 × RecvSlot → Prop}, ∀ x ∈ σ.server.hands e, P x := fun x hx =>
    absurd (hhands ▸ hx) List.not_mem_nil
  refine h.of_no_issue hissues hnone fun id hmem hspoiled hcase => ?_
  refine h.got_same hmem hspoiled hcase (ends_afterServer_same fun j hj haddr hid => ?_) hnone
  rw [← hid]
  have heq := hslots j hj
  rw [heq] at hj haddr ⊢
  exact hσ.server.ends j hj haddr

/-- One session does something. -/
theorem Exact.act (h : Exact σ) (hσ : Sync c σ) (hσ' : Sync c (σ.afterServer e s out))
    (hdeliver : σ.Delivers (.server e)) {i : ℕ} {ready : List RecvSlot}
    (hactive : (σ.server.table.slot i).active = true)
    (hother : ∀ j, j ≠ i → s.table.slot j = σ.server.table.slot j)
    (hsame : (s.table.slot i).active = true ∧
      (s.table.slot i).sessionId = (σ.server.table.slot i).sessionId ∧
      (s.table.slot i).addr = (σ.server.table.slot i).addr)
    (hacts : ∀ msgs got, ∃ msgs',
      Acts (s.table.slot i).sessionId (e.mail (s.table.slot i).addr (s.table.slot i).sessionId)
        ((σ.server.table.slot i).party msgs got)
        ((s.table.slot i).party msgs' (got ++ ready)) (out.map Prod.snd))
    (hissues : σ.server.issues e = none)
    (hhands : σ.server.hands e =
      (Server.taken (s.table.slot i).clientId σ.server.recvQueue ready).map
        fun slot => ((s.table.slot i).sessionId, slot)) :
    Exact (σ.afterServer e s out) := by
  obtain ⟨hx, hid, haddr⟩ := hsame
  have hmine := hσ.server.issued i hactive
  rw [← hid, ← haddr] at hmine
  have hunder : ∀ x ∈ σ.server.hands e, x.1 = (s.table.slot i).sessionId := by
    intro x hx
    rw [hhands] at hx
    obtain ⟨slot, -, rfl⟩ := List.mem_map.1 hx
    rfl
  refine h.of_no_issue hissues (fun x hx => ?_) fun id hmem hspoiled hcase => ?_
  · rw [hunder x hx]
    exact List.mem_map.2 ⟨_, hmine, rfl⟩
  · by_cases heq : id = (s.table.slot i).sessionId
    · -- no other address has this id
      subst heq
      have haddr' : (s.table.slot i).addr = σ.addr :=
        (Prod.mk.inj (List.inj_on_of_nodup_map h.nodup hmine hmem rfl)).2
      rw [haddr'] at hacts
      exact h.got_act hσ hdeliver hactive hid (haddr.symm.trans haddr') hmem hspoiled hcase hacts
        (hσ'.server.ends i hx haddr') hhands
    · refine h.got_same hmem hspoiled hcase (ends_afterServer_same fun j hj hjaddr hjid => ?_)
        fun x hx hxid => heq (hxid.symm.trans (hunder x hx))
      have hji : j ≠ i := by
        rintro rfl
        exact heq hjid.symm
      rw [hother j hji] at hj hjaddr hjid ⊢
      rw [← hjid]
      exact hσ.server.ends j hj hjaddr

/-- A session is made. -/
theorem Exact.enroll (h : Exact σ) (hσ : Sync c σ) (hσ' : Sync c (σ.afterServer e s out))
    {x : Session} (hissues : σ.server.issues e = some (x.sessionId, x.addr))
    (hid : x.sessionId ∉ σ.issued.map Prod.fst) (hactive : x.active = true)
    (hne : x.sessionId ≠ 0)
    (hslots : (∃ i, s.table.slot i = x ∧ ∀ j, j ≠ i → s.table.slot j = σ.server.table.slot j) ∨
      ((∀ j, s.table.slot j = σ.server.table.slot j) ∧
        (e.callocs = true → (x.sendWin, x.recvWin) = strayEnds)))
    (hfresh : e.callocs = true → ∃ d, IsRingSize d ∧ x.sendWin = SendWindow.fresh d 1 ∧
      x.recvWin = RecvWindow.fresh d 1)
    (hhands : σ.server.hands e = []) : Exact (σ.afterServer e s out) := by
  have hissued : (σ.afterServer e s out).issued = σ.issued ++ [(x.sessionId, x.addr)] := by
    simp [afterServer, hissues]
  have hhanded : (σ.afterServer e s out).handed = σ.handed := by
    simp [afterServer, hhands]
  have hunissued : ∀ j, (σ.server.table.slot j).active = true →
      (σ.server.table.slot j).sessionId ≠ x.sessionId := fun j hj heq =>
    hid (List.mem_map.2 ⟨_, hσ.server.issued j hj, heq⟩)
  refine ⟨?_, fun y hy => ?_, fun id hmem hspoiled hcase => ?_⟩
  · rw [hissued, List.map_append]
    exact h.nodup.append (List.nodup_singleton _) (by simpa using hid)
  · rw [hissued, List.map_append]
    exact List.mem_append_left _ (h.known y (hhanded ▸ hy))
  · change (id, σ.addr) ∈ _ at hmem
    rw [hissued] at hmem
    rcases List.mem_append.1 hmem with hmem | hmem
    · -- an old session, with another id
      have hother : id ≠ x.sessionId := fun heq => hid (List.mem_map.2 ⟨_, hmem, heq⟩)
      refine h.got_same hmem hspoiled hcase (ends_afterServer_same fun j hj haddr hjid => ?_)
        fun y hy => absurd (hhands ▸ hy) List.not_mem_nil
      have hslot : s.table.slot j = σ.server.table.slot j := by
        rcases hslots with ⟨i, hi, hothers⟩ | ⟨hall, -⟩
        · refine hothers j fun hji => hother ?_
          rw [← hjid, hji, hi]
        · exact hall j
      rw [hslot] at hj haddr hjid ⊢
      rw [← hjid]
      exact hσ.server.ends j hj haddr
    · obtain ⟨rfl, haddr⟩ := Prod.mk.inj (List.mem_singleton.1 hmem)
      have hcallocs : e.callocs = true := by
        by_contra hno
        refine hspoiled ?_
        show x.sessionId ∈ if _ then _ else _
        rw [if_neg hno, hissues]
        exact List.mem_append_left _ (List.mem_singleton_self _)
      have hends : (σ.afterServer e s out).ends x.sessionId = (x.sendWin, x.recvWin) := by
        rcases hslots with ⟨i, rfl, -⟩ | ⟨hall, hstray⟩
        · exact ends_afterServer_slot hσ'.server.distinct hactive haddr.symm
        · rw [hstray hcallocs, ends_afterServer_same, hσ.server.stray]
          · exact fun h => hid (List.mem_map.2 ⟨_, h, rfl⟩)
          · intro j hj _ hjid
            rw [hall j] at hj hjid
            exact absurd hjid (hunissued j hj)
      obtain ⟨d, hd, -, hrecv⟩ := hfresh hcallocs
      have hother : x.sessionId ≠ σ.client.client.sessionId := fun heq =>
        hid (List.mem_map.2 ⟨_, hσ.client.joined fun h0 => hne (heq.trans h0), heq.symm⟩)
      refine ⟨[], ?_, ?_⟩
      · rw [hends, hrecv]
        show Got (σ.logOf x.sessionId) _ []
        rw [logOf_other hother]
        exact got_fresh hd
      · have hnil : (σ.afterServer e s out).handedOf x.sessionId = [] := by
          refine List.eq_nil_iff_forall_not_mem.2 fun slot hslot => hid ?_
          rw [mem_handedOf, hhanded] at hslot
          exact h.known _ hslot
        rw [hnil]

/-- **Every event of the server keeps it.** -/
theorem Exact.server_step (h : Exact σ) (hσ : Sync c σ) (hdeliver : σ.Delivers (.server e))
    (hfresh : σ.FreshId (.server e))
    (hshort : (σ.afterServer e (σ.server.exec e).1 (σ.server.exec e).2).Short) :
    Exact (σ.afterServer e (σ.server.exec e).1 (σ.server.exec e).2) := by
  have hσ' := hσ.server_step hdeliver hfresh hshort
  have heffect := Server.effect_exec hσ.server.size e
  generalize (σ.server.exec e).1 = s at heffect hshort hσ' ⊢
  generalize (σ.server.exec e).2 = out at heffect hshort hσ' ⊢
  cases heffect with
  | quiet hslots hcaps hout hissues hhands hqueue => exact h.quiet hσ hslots hissues hhands
  | act i x ready hactive hslot hother hsame hacts hcap hout hissues hhands hqueue =>
    subst hslot
    exact h.act hσ hσ' hdeliver hactive hother hsame
      (hacts (hshort.2 _ (Server.slot_mem_of_active hsame.1))) hissues hhands
  | enroll x hissues hactive hne hslots hsize hfresh' hout hhands hqueue =>
    have hid : x.sessionId ∉ σ.issued.map Prod.fst :=
      hfresh (x.sessionId, x.addr) (by rw [hissues]; rfl)
    exact h.enroll hσ hσ' hissues hid hactive hne hslots hfresh' hhands

end ServerStep

/-! ### Every run -/

/-- **Every run keeps both invariants.** -/
theorem exact_run {cconfig : ClientConfig} {ca : CreateAllocs} {client : Client}
    (hclient : Client.create cconfig ca = some client) {sconfig : ServerConfig} {sa : CreateAllocs}
    {server : Server} (hserver : Server.create sconfig sa = some server) (addr : NetAddr)
    {es : List SystemEvent} {σ : System} (hrun : (start addr client server).run es = some σ) :
    ∃ c, Sync c σ ∧ Exact σ := by
  obtain ⟨c, hstart⟩ := sync_start hclient hserver addr
  refine ⟨c, run_induction (P := fun σ => Sync c σ ∧ Exact σ) ?_ ⟨hstart, ?_⟩ hrun⟩
  · rintro σ e σ' ⟨hσ, hexact⟩ hexec
    refine ⟨hσ.step hexec, ?_⟩
    obtain ⟨hdeliver, hfresh, hshort, ⟨ce, p, out, rfl, -, rfl⟩ | ⟨se, rfl, rfl⟩⟩ :=
      exec_cases hexec
    · exact hexact.client_step hσ
    · exact hexact.server_step hσ hdeliver hfresh hshort
  · exact ⟨List.nodup_nil, List.forall_mem_nil _, fun id hmem => absurd hmem List.not_mem_nil⟩

/-- **End to end.** Take any run of a client and a server that have been created, over a network
that loses, repeats, delays and reorders what they send, and let the client be in a session that it
has not come back to. The ordered messages that the server's queue has taken by that session are
ones that the client has sent, in the order it sent them. Each unordered one is one that it has
sent, and none is there twice. As long as the queue has dropped nothing, every message is there that
the client's window has let go of as acknowledged. -/
theorem handed_exact {clientConfig : ClientConfig} {clientAllocs : CreateAllocs} {client : Client}
    (hclient : Client.create clientConfig clientAllocs = some client)
    {serverConfig : ServerConfig} {serverAllocs : CreateAllocs} {server : Server}
    (hserver : Server.create serverConfig serverAllocs = some server) (addr : NetAddr)
    {es : List SystemEvent} {σ : System} (hrun : (start addr client server).run es = some σ)
    (hjoined : σ.client.client.sessionId ≠ 0)
    (hunspoiled : σ.client.client.sessionId ∉ σ.spoiled) :
    (((σ.handedOf σ.client.client.sessionId).filter fun s => isOrdered s.deliveryMode).map
        RecvSlot.message).Sublist (σ.sent.filter fun m => isOrdered m.mode) ∧
      (∀ s ∈ σ.handedOf σ.client.client.sessionId, isUnordered s.deliveryMode = true →
        ∃ k, s.seqNum = wrap (1 + k) ∧ σ.sent[k]? = some s.message) ∧
      (((σ.handedOf σ.client.client.sessionId).filter fun s => isUnordered s.deliveryMode).map
        RecvSlot.seqNum).Nodup ∧
      (σ.server.recvQueue.droppedCount = 0 → ∀ k m, σ.sent[k]? = some m →
        1 + k < σ.client.client.sendWin.headSeq.toNat →
        ∃ s ∈ σ.handedOf σ.client.client.sessionId, s.seqNum = wrap (1 + k) ∧ s.message = m) := by
  obtain ⟨c, hσ, hexact⟩ := exact_run hclient hserver addr hrun
  have hissued := hσ.client.joined hjoined
  obtain ⟨slots, hgot, hsub⟩ := hexact.got _ hissued hunspoiled (Or.inl rfl)
  obtain ⟨A, B, hl⟩ := hσ.linked _ hissued hunspoiled (Or.inl rfl)
  obtain ⟨got, rfl⟩ := hl.seat.1 rfl
  obtain ⟨hA, eA, hB, eB, hlink⟩ := hl.link
  rw [logOf_self] at hgot
  refine ⟨?_, fun s hs hmode => hgot.unordered_mem (hsub.subset hs) hmode, ?_, ?_⟩
  · exact ((hsub.filter _).map _).trans hgot.ordered_sublist
  · exact (hgot.unordered_nodup hlink.short).sublist ((hsub.filter _).map _)
  · intro hdropped k m hk hacked
    obtain ⟨s, hs, hseq, hmessage⟩ := hlink.there.given_of_acked hlink.short hk hacked
    have hfits := hσ.client.fits m (List.mem_of_getElem? hk)
    rw [← hmessage] at hfits
    exact ⟨s, mem_handedOf.2 (hl.handed hdropped s hs hfits), hseq, hmessage⟩

/-- Connect, and send two messages. The second one, which is unordered, arrives first and again
after the other; then the server acknowledges both. -/
def crosses : List SystemEvent :=
  connects ++
    [.client (.send 3 [5] 1), .client (.send 2 [6] 1), .client .endPoll,
      .client (.drain 200000002 true), .client (.drain 200000003 true),
      .server (.packet here (mkPacket .data 2 7 2 (0, 0) [6] 1) 8 0 true true true),
      .server (.packet here (mkPacket .data 3 7 1 (0, 0) [5] 1) 9 0 true true true),
      .server (.packet here (mkPacket .data 2 7 2 (0, 0) [6] 1) 10 0 true true true),
      .server (.ack 0 true), .client .endDrain, .client (.timers 200000004 true),
      .client (.turn 200000005 true),
      .client (.packet there (mkPacket .ack 0 7 0 (2, 0) [] 0) 200000006 true)]

theorem handed_exact_crosses :
    ∃ σ, (twoEnds.bind fun τ => τ.run crosses) = some σ ∧ σ.client.client.sessionId = 7 ∧
      (σ.handedOf 7).map RecvSlot.seqNum = [2, 1] ∧ σ.client.client.sendWin.headSeq = 3 ∧
      (((σ.handedOf 7).filter fun s => isUnordered s.deliveryMode).map RecvSlot.seqNum).Nodup ∧
      ∀ k m, σ.sent[k]? = some m → 1 + k < 3 →
        ∃ s ∈ σ.handedOf 7, s.seqNum = wrap (1 + k) ∧ s.message = m := by
  have hval : (twoEnds.bind fun τ => (τ.run crosses).map fun σ =>
      ((σ.client.client.sessionId, σ.spoiled, (σ.handedOf 7).map RecvSlot.seqNum),
        σ.client.client.sendWin.headSeq, σ.server.recvQueue.droppedCount)) =
      some ((7, [], [2, 1]), 3, 0) := by
    decide +kernel
  obtain ⟨τ, hτ, hmap⟩ := Option.bind_eq_some_iff.1 hval
  obtain ⟨σ, hrun, hfields⟩ := Option.map_eq_some_iff.1 hmap
  obtain ⟨client, server, hclient, hserver, rfl⟩ := twoEnds_some hτ
  simp only [Prod.mk.injEq] at hfields
  obtain ⟨⟨hid, hspoiled, hseqs⟩, hhead, hdropped⟩ := hfields
  have h := handed_exact hclient hserver here hrun (by rw [hid]; decide)
    (by rw [hspoiled]; exact List.not_mem_nil)
  rw [hid, hhead] at h
  exact ⟨σ, by rw [hτ, Option.bind_some, hrun], hid, hseqs, hhead, h.2.2.1, h.2.2.2 hdropped⟩

end System

end Rel4u
