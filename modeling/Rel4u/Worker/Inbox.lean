import Rel4u.Channel.Delivery
import Rel4u.Client.Run
import Rel4u.Queue.Refine
import Rel4u.Server.Run

/-!
# From the receive window to the application

The receiving side of an endpoint, a client or a session of the server: the receive window, the
receive queue, and the application that pops it. `Inbox` runs the code of the worker (`onData`, then
one `pushNotify` for each slot handed out) with the application's calls between any two pushes, and
at the server with the pushes of other sessions to the same queue. The worker acknowledges only when
nothing is left to push.

Beside the code's state an `Inbox` records what the acknowledgements are about: the position the
window expects, as an unbounded number; the message accepted under each position; and the position
of each message that is on its way, in the queue, or returned to the application.

The window has forgotten a message when the queue refuses it. As long as every push finds room, what
is acknowledged is held, queued or returned (`acknowledged_available`); when a push finds none, the
message is acknowledged and gone (`acknowledged_and_lost`).
-/

namespace Rel4u

open Serial (wrap IsRingSize)
open Deque (keepLast map_keepLast)

/-- A message on its way to the application, with its position if it is a reliable one. -/
structure Delivery where
  item : MpmcItem
  position : Option ℕ
  deriving DecidableEq

/-- The receiving side of an endpoint. -/
structure Inbox where
  clientId : UInt32
  win : RecvWindow
  queue : MpmcQueue
  unpushed : List Delivery
  expected : ℕ
  accepted : ℕ → Option Message
  queued : List Delivery
  returned : List Delivery

/-- What can happen: a DATA packet, the worker's next push, a push for another session, a receive
call. -/
inductive InboxEvent
  | data (pkt : Packet)
  | push
  | other (clientId : UInt32) (slot : RecvSlot)
  | recv

namespace Inbox

/-- A new window beside a queue. -/
def start (clientId : UInt32) (win : RecvWindow) (queue : MpmcQueue) : Inbox :=
  { clientId, win, queue, unpushed := [], expected := 1, accepted := fun _ => none
    queued := queue.contents.map fun item => ⟨item, none⟩
    returned := [] }

/-- The first position from `e` on with this sequence number. -/
def positionFrom (e : ℕ) (seq : UInt32) : ℕ := e + (seq - wrap e).toNat

/-- A slot handed out by the window when it expected `e`. -/
def deliveryOf (clientId : UInt32) (e : ℕ) (slot : RecvSlot) : Delivery :=
  { item := itemOfReady clientId slot
    position := if Reliable slot.deliveryMode then some (positionFrom e slot.seqNum) else none }

/-- One push; its result is not looked at. -/
def pushed (b : Inbox) (x : Delivery) : Inbox :=
  let (ok, queue) := b.queue.pushNotify x.item
  { b with
    queue
    queued := keepLast queue.contents.length (if ok then b.queued ++ [x] else b.queued) }

/-- The DATA branch up to its pushes. -/
def onData (b : Inbox) (pkt : Packet) : Inbox :=
  let (res, win, ready) := b.win.onData pkt.hdr pkt.payload readySlots
  { b with
    win
    unpushed := ready.map (deliveryOf b.clientId b.expected)
    expected := positionFrom b.expected win.expectedSeq
    accepted :=
      if res = 0 ∧ Reliable pkt.hdr.deliveryMode then
        Function.update b.accepted (positionFrom b.expected pkt.hdr.seqNum) (some pkt.message)
      else b.accepted }

/-- A receive call: what it returns is recorded with the position of the first message queued. -/
def recv (b : Inbox) : Inbox :=
  let (item, queue) := b.queue.popWait
  { b with
    queue
    queued := b.queued.tail
    returned := b.returned ++
      (item.map fun x => ⟨x, b.queued.head?.bind Delivery.position⟩).toList }

/-- One event, or `none` if it cannot happen: the worker finishes its pushes before it looks at
another packet, and a decoded packet is not longer than the buffer it was read into. -/
def exec (b : Inbox) : InboxEvent → Option Inbox
  | .data pkt =>
    if b.unpushed = [] ∧ pkt.hdr.payloadLen.toNat ≤ maxPayloadSize then some (b.onData pkt)
    else none
  | .push =>
    match b.unpushed with
    | [] => none
    | x :: rest => some { b.pushed x with unpushed := rest }
  | .other clientId slot =>
    if b.unpushed = [] then some (b.pushed ⟨itemOfReady clientId slot, none⟩) else none
  | .recv => some b.recv

/-- A sequence of events. -/
def run (b : Inbox) : List InboxEvent → Option Inbox
  | [] => some b
  | e :: es => (b.exec e).bind fun b => b.run es

/-- The queue takes the message without losing another. -/
def HasRoom (b : Inbox) (item : MpmcItem) : Prop :=
  Deque.total b.queue.weight b.queue.contents + b.queue.weight item ≤ b.queue.limit ∧
    b.queue.allocOk = true

/-- The queue loses no other message, whether it takes this one or not. -/
def LosesNone (b : Inbox) (item : MpmcItem) : Prop :=
  b.queue.evicts = false ∨
    Deque.total b.queue.weight b.queue.contents + b.queue.weight item ≤ b.queue.limit

/-- Every push of a reliable message finds room, and no other push drops one from the queue. -/
def Room (b : Inbox) : InboxEvent → Prop
  | .push => ∀ x ∈ b.unpushed.head?, b.LosesNone x.item ∧ (x.position ≠ none → b.HasRoom x.item)
  | .other clientId slot => b.LosesNone (itemOfReady clientId slot)
  | _ => True

/-- A run in which there is always room. -/
def RoomRun (b : Inbox) : List InboxEvent → Prop
  | [] => True
  | e :: es => b.Room e ∧ ∀ b' ∈ b.exec e, b'.RoomRun es

instance (b : Inbox) (item : MpmcItem) : Decidable (b.HasRoom item) :=
  inferInstanceAs (Decidable (_ ∧ _))

instance (b : Inbox) (item : MpmcItem) : Decidable (b.LosesNone item) :=
  inferInstanceAs (Decidable (_ ∨ _))

instance (b : Inbox) : (e : InboxEvent) → Decidable (b.Room e)
  | .push => inferInstanceAs (Decidable
      (∀ x ∈ b.unpushed.head?, b.LosesNone x.item ∧ (x.position ≠ none → b.HasRoom x.item)))
  | .other clientId slot => inferInstanceAs (Decidable (b.LosesNone (itemOfReady clientId slot)))
  | .data _ => inferInstanceAs (Decidable True)
  | .recv => inferInstanceAs (Decidable True)

instance decidableRoomRun : (es : List InboxEvent) → (b : Inbox) → Decidable (b.RoomRun es)
  | [], _ => inferInstanceAs (Decidable True)
  | e :: es, b =>
    have : ∀ b' : Inbox, Decidable (b'.RoomRun es) := fun b' => decidableRoomRun es b'
    inferInstanceAs (Decidable (b.Room e ∧ ∀ b' ∈ b.exec e, b'.RoomRun es))

/-- Position `p` is covered by the acknowledgement info: it is not after `ack_num`, or its bit of
`sack_mask` is set. -/
def Acknowledges (b : Inbox) (p : ℕ) : Prop :=
  (1 ≤ p ∧ p < b.expected) ∨
    ∃ i < 32, b.win.getAckInfo.2 &&& ((1 : UInt32) <<< UInt32.ofNat i) ≠ 0 ∧ p = b.expected + i

/-- The message of position `p` is held in the window, to be delivered in its turn. -/
def Holds (w : RecvWindow) (e p : ℕ) (m : Message) : Prop :=
  e ≤ p ∧ p < e + w.capacity.toNat ∧ (w.cell p).received = true ∧
    (w.cell p).deliveryMode = DeliveryMode.reliableOrdered.code ∧ (w.cell p).message = m

/-- Message `m` of position `p` is in this list. -/
def Among (l : List Delivery) (p : ℕ) (m : Message) : Prop :=
  ∃ x ∈ l, x.position = some p ∧ x.item.message = m

/-- What holds as long as there is room. -/
structure Inv (b : Inbox) : Prop where
  queue : b.queue.Rep (b.queued.map Delivery.item)
  win : b.win.Rep b.expected ∨ (b.win.Idle ∧ b.win.expectedSeq = 1 ∧ b.expected = 1)
  base : 1 ≤ b.expected
  short : ∀ p, b.expected ≤ p → p < b.expected + b.win.capacity.toNat →
    (b.win.cell p).received = true → (b.win.cell p).payloadLen.toNat ≤ maxPayloadSize
  ready : ∀ x ∈ b.unpushed, x.item.trim = x.item ∧ x.item.len.toNat ≤ maxPayloadSize
  kept : ∀ p, 1 ≤ p → b.win.Accepted b.expected p → ∃ m, b.accepted p = some m ∧
    (Holds b.win b.expected p m ∨ Among (b.unpushed ++ b.queued ++ b.returned) p m)

/-! ### The queue -/

section Queue

variable {b : Inbox} {x : Delivery}

theorem trim_itemOfReady (clientId : UInt32) (slot : RecvSlot) :
    (itemOfReady clientId slot).trim = itemOfReady clientId slot := by
  simp [itemOfReady, MpmcItem.trim]

theorem message_itemOfReady (clientId : UInt32) (slot : RecvSlot) :
    (itemOfReady clientId slot).message = slot.message := by
  simp [itemOfReady, MpmcItem.message, RecvSlot.message]

/-- The record of a push that kept what was there. -/
theorem pushed_queued {l : List Delivery} (hrep : (b.pushed x).queue.Rep (l.map Delivery.item))
    (hl : (if (b.queue.pushNotify x.item).1 then b.queued ++ [x] else b.queued) = l) :
    (b.pushed x).queued = l := by
  have hlen := congrArg List.length hrep.contents_eq
  rw [List.length_map] at hlen
  show keepLast (b.pushed x).queue.contents.length
    (if (b.queue.pushNotify x.item).1 then b.queued ++ [x] else b.queued) = l
  rw [hl, hlen, Deque.keepLast_length]

/-- A push that loses nothing appends its message or leaves the queue as it is. -/
theorem pushed_keeps (hq : b.queue.Rep (b.queued.map Delivery.item)) (hx : x.item.trim = x.item)
    (hkeep : b.LosesNone x.item) :
    (b.pushed x).queue.Rep ((b.pushed x).queued.map Delivery.item) ∧
      ((b.pushed x).queued = b.queued ++ [x] ∨ (b.pushed x).queued = b.queued) := by
  rw [LosesNone, hq.contents_eq] at hkeep
  rcases hq.pushBack_keeps hx hkeep with ⟨hok, hrep⟩ | ⟨hok, hrep⟩
  · have hrep' : (b.pushed x).queue.Rep ((b.queued ++ [x]).map Delivery.item) := by
      rw [List.map_append]
      exact hrep
    have heq := pushed_queued hrep' (by rw [MpmcQueue.pushNotify, hok]; rfl)
    exact ⟨heq ▸ hrep', Or.inl heq⟩
  · have heq := pushed_queued (x := x) hrep (by rw [MpmcQueue.pushNotify, hok]; rfl)
    exact ⟨by rw [heq]; exact hrep, Or.inr heq⟩

/-- A push that finds room appends its message. -/
theorem pushed_room (hq : b.queue.Rep (b.queued.map Delivery.item)) (hx : x.item.trim = x.item)
    (hlen : x.item.len.toNat ≤ maxPayloadSize) (hroom : b.HasRoom x.item) :
    (b.pushed x).queued = b.queued ++ [x] := by
  rw [HasRoom, hq.contents_eq] at hroom
  obtain ⟨hok, hrep⟩ := hq.pushBack_room hx hlen hroom.1 hroom.2
  refine pushed_queued ?_ (by rw [MpmcQueue.pushNotify, hok]; rfl)
  rw [List.map_append]
  exact hrep

end Queue

theorem Among.mono {l l' : List Delivery} {p : ℕ} {m : Message} (h : Among l p m)
    (hl : ∀ x ∈ l, x.position = some p → x ∈ l') : Among l' p m := by
  obtain ⟨x, hx, hp, hm⟩ := h
  exact ⟨x, hl x hx hp, hp, hm⟩

/-! ### Events other than DATA -/

section Events

variable {b : Inbox}

theorem Inv.push_step (hb : b.Inv) {x : Delivery} {rest : List Delivery}
    (hu : b.unpushed = x :: rest) (hroom : b.Room .push) :
    Inv { b.pushed x with unpushed := rest } := by
  obtain ⟨hkeep, hpos⟩ := hroom x (by rw [hu]; rfl)
  have hready := hb.ready
  rw [hu] at hready
  obtain ⟨htrim, hlen⟩ := hready x List.mem_cons_self
  obtain ⟨hrep, hcases⟩ := pushed_keeps hb.queue htrim hkeep
  refine
    { queue := hrep
      win := hb.win
      base := hb.base
      short := hb.short
      ready := fun y hy => hready y (List.mem_cons_of_mem x hy)
      kept := fun p hp hacc => ?_ }
  obtain ⟨m, hm, hwhere⟩ := hb.kept p hp hacc
  refine ⟨m, hm, hwhere.imp_right fun h => h.mono fun y hy hyp => ?_⟩
  rw [hu] at hy
  simp only [List.mem_append, List.mem_cons] at hy ⊢
  have hqueued : ∀ z ∈ b.queued, z ∈ (b.pushed x).queued := by
    intro z hz
    rcases hcases with h | h <;> rw [h]
    · exact List.mem_append_left _ hz
    · exact hz
  rcases hy with ((rfl | hy) | hy) | hy
  · have heq := pushed_room hb.queue htrim hlen (hpos (by rw [hyp]; simp))
    exact Or.inl (Or.inr (by rw [heq]; simp))
  · exact Or.inl (Or.inl hy)
  · exact Or.inl (Or.inr (hqueued y hy))
  · exact Or.inr hy

theorem Inv.other_step (hb : b.Inv) {clientId : UInt32} {slot : RecvSlot}
    (hroom : b.Room (.other clientId slot)) :
    (b.pushed ⟨itemOfReady clientId slot, none⟩).Inv := by
  obtain ⟨hrep, hcases⟩ := pushed_keeps (x := ⟨itemOfReady clientId slot, none⟩) hb.queue
    (trim_itemOfReady clientId slot) hroom
  refine
    { queue := hrep
      win := hb.win
      base := hb.base
      short := hb.short
      ready := hb.ready
      kept := fun p hp hacc => ?_ }
  obtain ⟨m, hm, hwhere⟩ := hb.kept p hp hacc
  refine ⟨m, hm, hwhere.imp_right fun h => h.mono fun y hy _ => ?_⟩
  simp only [List.mem_append] at hy ⊢
  rcases hy with (hy | hy) | hy
  · exact Or.inl (Or.inl hy)
  · refine Or.inl (Or.inr ?_)
    rcases hcases with h | h <;> rw [h]
    · exact List.mem_append_left _ hy
    · exact hy
  · exact Or.inr hy

/-- A receive call returns the first message queued. -/
theorem Inv.returned_recv (hb : b.Inv) :
    b.recv.returned = b.returned ++ b.queued.head?.toList := by
  obtain ⟨hitem, -⟩ := hb.queue.pop
  show b.returned ++ (b.queue.popWait.1.map _).toList = _
  rw [MpmcQueue.popWait_eq, hitem]
  -- the item popped and the position recorded belong to the same delivery
  cases b.queued with
  | nil => rfl
  | cons x l => rfl

theorem Inv.recv_step (hb : b.Inv) : b.recv.Inv := by
  obtain ⟨-, hrep, -⟩ := hb.queue.pop
  refine
    { queue := by
        show b.queue.popWait.2.Rep (b.queued.tail.map Delivery.item)
        rw [MpmcQueue.popWait_eq, List.map_tail]
        exact hrep
      win := hb.win
      base := hb.base
      short := hb.short
      ready := hb.ready
      kept := fun p hp hacc => ?_ }
  obtain ⟨m, hm, hwhere⟩ := hb.kept p hp hacc
  refine ⟨m, hm, hwhere.imp_right fun h => h.mono fun y hy _ => ?_⟩
  rw [hb.returned_recv]
  show y ∈ b.unpushed ++ b.queued.tail ++ _
  simp only [List.mem_append] at hy ⊢
  rcases hy with (hy | hy) | hy
  · exact Or.inl (Or.inl hy)
  · cases hqueued : b.queued with
    | nil =>
      rw [hqueued] at hy
      exact absurd hy List.not_mem_nil
    | cons z l =>
      rw [hqueued] at hy
      rcases List.mem_cons.1 hy with rfl | hy
      · exact Or.inr (Or.inr (by simp))
      · exact Or.inl (Or.inr hy)
  · exact Or.inr (Or.inl hy)

end Events

/-! ### DATA -/

section Data

variable {w w' : RecvWindow} {e e' : ℕ} {out : List RecvSlot}

theorem positionFrom_wrap {p : ℕ} (h : e ≤ p) (hlt : p < e + 2 ^ 32) :
    positionFrom e (wrap p) = p := by
  rw [positionFrom, Serial.toNat_wrap_sub h hlt]
  omega

/-- A slot handed out at its position. -/
theorem among_deliveryOf {clientId : UInt32} {l : List RecvSlot} {s : RecvSlot} {p : ℕ}
    (hs : s ∈ l) (hrel : Reliable s.deliveryMode) (hseq : s.seqNum = wrap p) (hp : e ≤ p)
    (hlt : p < e + 2 ^ 32) : Among (l.map (deliveryOf clientId e)) p s.message := by
  refine ⟨_, List.mem_map_of_mem hs, ?_, message_itemOfReady clientId s⟩
  rw [deliveryOf, if_pos hrel, hseq, positionFrom_wrap hp hlt]

/-- A message held before the window is drained is held or handed out after it. -/
theorem holds_or_out (hw : w.Rep e) (hd : RecvWindow.Drained w e w' e' out) {p : ℕ} {m : Message}
    (h : Holds w e p m) (clientId : UInt32) :
    Holds w' e' p m ∨ Among (out.map (deliveryOf clientId e)) p m := by
  obtain ⟨hp, hp', hrec, hmode, hmsg⟩ := h
  have hsmall := hw.small
  by_cases hlt : p < e'
  · right
    rw [← hmsg]
    refine among_deliveryOf ?_ (Or.inl hmode) (hw.seqNum p hp hp' hrec) hp (by omega)
    rw [hd.out_eq, RecvWindow.orderedSlots, List.mem_filter]
    refine ⟨List.mem_map.2 ⟨p, List.mem_range'_1.2 ⟨hp, by omega⟩, rfl⟩, ?_⟩
    simpa using hmode
  · left
    have hcell := hd.kept p (by omega) hp'
    have hle := hd.le
    exact ⟨by omega, by rw [hd.cap]; omega, by rw [hcell]; exact hrec,
      by rw [hcell]; exact hmode, by rw [hcell]; exact hmsg⟩

/-- What draining hands out, and what it leaves, is no longer than what was there. -/
theorem short_drained (hd : RecvWindow.Drained w e w' e' out)
    (hshort : ∀ p, e ≤ p → p < e + w.capacity.toNat → (w.cell p).received = true →
      (w.cell p).payloadLen.toNat ≤ maxPayloadSize) :
    (∀ p, e' ≤ p → p < e' + w'.capacity.toNat → (w'.cell p).received = true →
      (w'.cell p).payloadLen.toNat ≤ maxPayloadSize) ∧
    ∀ s ∈ out, s.payloadLen.toNat ≤ maxPayloadSize := by
  have hle := hd.le
  refine ⟨fun p hp hp' hrec => ?_, fun s hs => ?_⟩
  · rw [hd.cap] at hp'
    have hin : p < e + w.capacity.toNat := by
      by_contra hge
      rw [hd.cleared p (by omega) hp'] at hrec
      exact Bool.noConfusion hrec
    rw [hd.kept p hp hin] at hrec ⊢
    exact hshort p (by omega) hin hrec
  · rw [hd.out_eq, RecvWindow.orderedSlots] at hs
    obtain ⟨p, hp, rfl⟩ := List.mem_map.1 (List.mem_filter.1 hs).1
    rw [List.mem_range'_1] at hp
    obtain ⟨h1, h2⟩ := hd.received p hp.1 (by omega)
    exact hshort p hp.1 h1 h2

/-- What is handed out is ready to be pushed. -/
theorem ready_map {clientId : UInt32} {l : List RecvSlot}
    (h : ∀ s ∈ l, s.payloadLen.toNat ≤ maxPayloadSize) :
    ∀ x ∈ l.map (deliveryOf clientId e),
      x.item.trim = x.item ∧ x.item.len.toNat ≤ maxPayloadSize := by
  intro x hx
  obtain ⟨s, hs, rfl⟩ := List.mem_map.1 hx
  exact ⟨trim_itemOfReady clientId s, h s hs⟩

/-- After a drain the window expects the position that the sequence number says. -/
theorem positionFrom_drained (hd : RecvWindow.Drained w e w' e' out) (hw : w.Rep e) :
    positionFrom e w'.expectedSeq = e' := by
  have hle := hd.le
  have hcap := hd.le_capacity
  have hsmall := hw.small
  rw [hd.rep.expected, positionFrom_wrap hle (by omega)]

end Data

section DataStep

variable {b : Inbox} {pkt : Packet}

/-- The parts of the state after a packet, given what the window did. -/
theorem Inv.onData_of_drained (hb : b.Inv) {w₁ w' : RecvWindow} {e' : ℕ}
    {imm out : List RecvSlot} {code : ℤ} {accepted : ℕ → Option Message}
    (hrun : b.win.onData pkt.hdr pkt.payload readySlots = (code, w', imm ++ out))
    (hw₁ : w₁.Rep b.expected) (hd : RecvWindow.Drained w₁ b.expected w' e' out)
    (haccepted : (b.onData pkt).accepted = accepted)
    (hshort : ∀ p, b.expected ≤ p → p < b.expected + w₁.capacity.toNat →
      (w₁.cell p).received = true → (w₁.cell p).payloadLen.toNat ≤ maxPayloadSize)
    (himm : ∀ s ∈ imm, s.payloadLen.toNat ≤ maxPayloadSize)
    (hkept : ∀ p, 1 ≤ p → w₁.Accepted b.expected p → ∃ m, accepted p = some m ∧
      (Holds w₁ b.expected p m ∨
        Among (imm.map (deliveryOf b.clientId b.expected) ++ (b.queued ++ b.returned)) p m)) :
    (b.onData pkt).Inv := by
  have hwin : (b.onData pkt).win = w' := by simp only [Inbox.onData, hrun]
  have hunpushed : (b.onData pkt).unpushed =
      (imm ++ out).map (deliveryOf b.clientId b.expected) := by simp only [Inbox.onData, hrun]
  have hexpected : (b.onData pkt).expected = e' := by
    simp only [Inbox.onData, hrun]
    exact positionFrom_drained hd hw₁
  have hbase := hb.base
  have hle := hd.le
  obtain ⟨hshort', hout⟩ := short_drained hd hshort
  refine
    { queue := hb.queue
      win := Or.inl (by rw [hwin, hexpected]; exact hd.rep)
      base := by rw [hexpected]; omega
      short := by rw [hwin, hexpected]; exact hshort'
      ready := ?_
      kept := ?_ }
  · rw [hunpushed]
    refine ready_map fun s hs => ?_
    rcases List.mem_append.1 hs with hs | hs
    · exact himm s hs
    · exact hout s hs
  · intro p hp hacc
    rw [hwin, hexpected] at hacc
    obtain ⟨m, hm, hwhere⟩ := hkept p hp ((hd.accepted_iff p).1 hacc)
    refine ⟨m, by rw [haccepted]; exact hm, ?_⟩
    rw [hwin, hexpected, hunpushed]
    show Holds w' e' p m ∨ Among (_ ++ b.queued ++ b.returned) p m
    rw [List.map_append]
    rcases hwhere with h | h
    · rcases holds_or_out hw₁ hd h b.clientId with h | h
      · exact Or.inl h
      · exact Or.inr (h.mono fun x hx _ => by simp [hx])
    · refine Or.inr (h.mono fun x hx _ => ?_)
      simp only [List.mem_append] at hx ⊢
      tauto

theorem Inv.data_step (hb : b.Inv) (hu : b.unpushed = [])
    (hlen : pkt.hdr.payloadLen.toNat ≤ maxPayloadSize) : (b.onData pkt).Inv := by
  have hkept := hb.kept
  rw [hu, List.nil_append] at hkept
  rcases hb.win with hw | ⟨hidle, hseq, hexp⟩
  · obtain ⟨e', htakes⟩ := hw.takes_onData pkt.hdr pkt.payload (show 0 < readySlots by decide)
    generalize hrun : b.win.onData pkt.hdr pkt.payload readySlots = r at htakes
    obtain ⟨code, w', ready⟩ := r
    dsimp only at htakes
    cases htakes with
    | pass _ highest has imm out _ _ hcode himm hd =>
      have haccepted : (b.onData pkt).accepted = b.accepted := by
        simp only [Inbox.onData, hrun]
        exact if_neg fun h => hcode h.2 h.1
      refine hb.onData_of_drained hrun (hw.mark_rep highest has) hd haccepted hb.short
        (fun s hs => by rw [(himm s hs).2]; exact hlen) fun p hp hacc => ?_
      obtain ⟨m, hm, hwhere⟩ := hkept p hp hacc
      exact ⟨m, hm, hwhere.imp_right fun h => h.mono fun x hx _ => List.mem_append_right _ hx⟩
    | store q out _ _ hrel hq hq' hseq hnew hd =>
      have hsmall := hw.small
      have hpos : positionFrom b.expected pkt.hdr.seqNum = q := by
        rw [hseq, positionFrom_wrap hq (by omega)]
      have haccepted : (b.onData pkt).accepted =
          Function.update b.accepted q (some pkt.message) := by
        simp only [Inbox.onData, hrun, hpos]
        exact if_pos ⟨trivial, hrel⟩
      have hcell := fun p hp hp' => hw.cell_arrive (q := p) hq hq' hp hp' pkt.hdr pkt.payload
      refine hb.onData_of_drained hrun (hw.arrive_rep hq hq' hseq hrel pkt.payload) hd haccepted
        (fun p hp hp' hrec => ?_) (fun s hs => ?_) fun p hp hacc => ?_
      · rw [hcell p hp hp'] at hrec ⊢
        split_ifs at hrec ⊢ with hpq
        · exact hlen
        · exact hb.short p hp hp' hrec
      · unfold RecvWindow.immediate at hs
        split_ifs at hs
        · rw [List.mem_singleton.1 hs]
          exact hlen
        · exact absurd hs List.not_mem_nil
      · by_cases hpq : p = q
        · -- the packet itself: held if it is ordered, handed out at once if it is not
          refine ⟨pkt.message, by rw [hpq, Function.update_self], ?_⟩
          rcases hrel with hord | hunord
          · left
            have hc := hcell q hq hq'
            rw [if_pos rfl] at hc
            rw [hpq]
            exact ⟨hq, hq', by rw [hc]; rfl, by rw [hc]; exact hord,
              by rw [hc]; exact message_arrivedSlot hord _⟩
          · right
            have himm : RecvWindow.immediate pkt.hdr pkt.payload =
                [RecvWindow.readySlot pkt.hdr pkt.payload] := if_pos hunord
            have hmsg : (RecvWindow.readySlot pkt.hdr pkt.payload).message = pkt.message := by
              simp [RecvWindow.readySlot, RecvSlot.message, Packet.message]
            rw [hpq, himm, ← hmsg]
            refine (among_deliveryOf (List.mem_singleton_self _) (Or.inr hunord) hseq hq
              (by omega)).mono fun x hx _ => List.mem_append_left _ hx
        · rw [hw.accepted_arrive_iff hq hq'] at hacc
          obtain ⟨m, hm, hwhere⟩ := hkept p hp (hacc.resolve_left hpq)
          refine ⟨m, by rw [Function.update_of_ne hpq]; exact hm, ?_⟩
          rcases hwhere with ⟨h1, h2, h3, h4, h5⟩ | h
          · left
            have hc := hcell p h1 h2
            rw [if_neg hpq] at hc
            exact ⟨h1, h2, by rw [hc]; exact h3, by rw [hc]; exact h4, by rw [hc]; exact h5⟩
          · exact Or.inr (h.mono fun x hx _ => List.mem_append_right _ hx)
  · -- the widest ring refuses every reliable packet
    obtain ⟨code, highest, has, imm, hrun, hcode, himm⟩ :=
      hidle.onData_eq pkt.hdr pkt.payload (show 0 < readySlots by decide)
    have hwin : (b.onData pkt).win = b.win.mark highest has := by simp only [Inbox.onData, hrun]
    have hexpected : (b.onData pkt).expected = 1 := by
      simp only [Inbox.onData, hrun]
      show positionFrom b.expected b.win.expectedSeq = 1
      rw [hseq, hexp]
      rfl
    have hempty : ∀ p, ((b.win.mark highest has).cell p).received = false := fun p =>
      hidle.empty _
    refine
      { queue := hb.queue
        win := Or.inr (by rw [hwin, hexpected]; exact ⟨hidle.mark_idle highest has, hseq, rfl⟩)
        base := by rw [hexpected]
        short := fun p _ _ hrec => ?_
        ready := ?_
        kept := fun p hp hacc => ?_ }
    · rw [hwin, hempty p] at hrec
      exact Bool.noConfusion hrec
    · simp only [Inbox.onData, hrun]
      exact ready_map fun s hs => by rw [(himm s hs).2]; exact hlen
    · rw [hwin, hexpected] at hacc
      rcases hacc with h | ⟨-, h⟩
      · omega
      · rw [hempty p] at h
        exact Bool.noConfusion h

end DataStep

/-- **Every event that finds room keeps the acknowledged messages.** -/
theorem Inv.step {b b' : Inbox} (hb : b.Inv) {e : InboxEvent} (hroom : b.Room e)
    (h : b.exec e = some b') : b'.Inv := by
  cases e with
  | data pkt =>
    rw [exec] at h
    split_ifs at h with hguard
    rw [← Option.some.inj h]
    exact hb.data_step hguard.1 hguard.2
  | push =>
    rw [exec] at h
    split at h
    · exact absurd h (by simp)
    · next x rest hu =>
      rw [← Option.some.inj h]
      exact hb.push_step hu hroom
  | other clientId slot =>
    rw [exec] at h
    split_ifs at h
    rw [← Option.some.inj h]
    exact hb.other_step hroom
  | recv =>
    rw [← Option.some.inj h]
    exact hb.recv_step

theorem Inv.run {es : List InboxEvent} : ∀ {b b' : Inbox}, b.Inv → b.RoomRun es →
    b.run es = some b' → b'.Inv := by
  induction es with
  | nil =>
    intro b b' hb _ hrun
    rw [Inbox.run, Option.some.injEq] at hrun
    exact hrun ▸ hb
  | cons e es ih =>
    intro b b' hb hroom hrun
    rw [Inbox.run] at hrun
    obtain ⟨b₁, hexec, hrest⟩ := Option.bind_eq_some_iff.1 hrun
    exact ih (hb.step hroom.1 hexec) (hroom.2 b₁ hexec) hrest

theorem start_inv {c : UInt32} (hc : IsRingSize c) {queue : MpmcQueue} {l : List MpmcItem}
    (hq : queue.Rep l) (clientId : UInt32) :
    (start clientId (RecvWindow.fresh c 1) queue).Inv := by
  have hempty : ∀ p, ((RecvWindow.fresh c 1).cell p).received = false := fun p => by
    rw [RecvWindow.cell_fresh]
    rfl
  refine
    { queue := ?_
      win := ?_
      base := le_refl 1
      short := fun p _ _ hrec => ?_
      ready := fun x hx => absurd hx List.not_mem_nil
      kept := fun p hp hacc => ?_ }
  · show queue.Rep ((queue.contents.map fun item => (⟨item, none⟩ : Delivery)).map Delivery.item)
    rw [List.map_map, hq.contents_eq]
    exact (List.map_id l).symm ▸ hq
  · rcases hc.small_or_half with hsmall | rfl
    · exact Or.inl (RecvWindow.fresh_rep hc hsmall 1)
    · exact Or.inr ⟨RecvWindow.fresh_idle 1, rfl, rfl⟩
  · exact absurd hrec (by rw [show (start clientId (RecvWindow.fresh c 1) queue).win =
      RecvWindow.fresh c 1 from rfl, hempty p]; decide)
  · rcases hacc with h | ⟨-, h⟩
    · exact absurd h (not_lt.2 hp)
    · exact absurd h (by rw [show (start clientId (RecvWindow.fresh c 1) queue).win =
        RecvWindow.fresh c 1 from rfl, hempty p]; decide)

/-- What is acknowledged has been accepted. -/
theorem Inv.accepted_of_acknowledges {b : Inbox} (hb : b.Inv) {p : ℕ} (h : b.Acknowledges p) :
    1 ≤ p ∧ b.win.Accepted b.expected p := by
  have hbase := hb.base
  rcases h with h | ⟨i, hi, hbit, rfl⟩
  · exact ⟨h.1, Or.inl h.2⟩
  · refine ⟨by omega, ?_⟩
    rcases hb.win with hw | ⟨hidle, -, -⟩
    · obtain ⟨h1, h2⟩ := (hw.sackMask_bit hi).1 hbit
      exact Or.inr ⟨by omega, h2⟩
    · rw [RecvWindow.getAckInfo, hidle.sackMask_eq] at hbit
      exact absurd (UInt32.zero_and) hbit

end Inbox

/-- **Acknowledged means available**, in every run in which each push of a reliable message finds
room and no other push makes the queue drop one. The acknowledgement info is about the positions
before `expected` and those of the mask, and `queued` is what the queue holds; whenever the worker
has nothing left to push, the message accepted under such a position is held in the window, in the
queue, or has been returned. -/
theorem acknowledged_available {c : UInt32} (hc : IsRingSize c) {queue : MpmcQueue}
    {l : List MpmcItem} (hq : queue.Rep l) {clientId : UInt32} {es : List InboxEvent} {b : Inbox}
    (hroom : (Inbox.start clientId (RecvWindow.fresh c 1) queue).RoomRun es)
    (hrun : (Inbox.start clientId (RecvWindow.fresh c 1) queue).run es = some b)
    (hidle : b.unpushed = []) :
    b.win.getAckInfo.1 = wrap b.expected - 1 ∧
      b.queue.contents = b.queued.map Delivery.item ∧
      ∀ p, b.Acknowledges p → ∃ m, b.accepted p = some m ∧
        (Inbox.Holds b.win b.expected p m ∨ Inbox.Among b.queued p m ∨
          Inbox.Among b.returned p m) := by
  have hb := (Inbox.start_inv hc hq clientId).run hroom hrun
  refine ⟨?_, hb.queue.contents_eq, fun p hp => ?_⟩
  · rcases hb.win with hw | ⟨-, hseq, hexp⟩
    · rw [RecvWindow.getAckInfo, hw.expected]
    · rw [RecvWindow.getAckInfo, hseq, hexp]
      rfl
  · obtain ⟨h1, hacc⟩ := hb.accepted_of_acknowledges hp
    obtain ⟨m, hm, hwhere⟩ := hb.kept p h1 hacc
    refine ⟨m, hm, hwhere.imp_right ?_⟩
    rintro ⟨x, hx, hxp, hxm⟩
    rw [hidle, List.nil_append] at hx
    rcases List.mem_append.1 hx with hx | hx
    · exact Or.inl ⟨x, hx, hxp, hxm⟩
    · exact Or.inr ⟨x, hx, hxp, hxm⟩

namespace Inbox

/-! ### The endpoints -/

/-- The pushes that a packet leaves to do, one after the other. -/
theorem run_push (l : List Delivery) : ∀ b : Inbox, b.unpushed = l →
    ∃ b', b.run (List.replicate l.length .push) = some b' ∧ b'.unpushed = [] ∧ b'.win = b.win ∧
      b'.queue = l.foldl (fun q x => (q.pushNotify x.item).2) b.queue := by
  induction l with
  | nil => intro b hu; exact ⟨b, rfl, hu, rfl, rfl⟩
  | cons x l ih =>
    intro b hu
    obtain ⟨b', hrun, h1, h2, h3⟩ := ih { b.pushed x with unpushed := l } rfl
    refine ⟨b', ?_, h1, h2, h3⟩
    rw [List.length_cons, List.replicate_succ, run, exec, hu]
    exact hrun

/-- A DATA packet and its pushes, undisturbed: what the workers do. -/
theorem run_data (b : Inbox) (hu : b.unpushed = []) {pkt : Packet}
    (hlen : pkt.hdr.payloadLen.toNat ≤ maxPayloadSize) :
    ∃ es b', b.run (.data pkt :: es) = some b' ∧ b'.unpushed = [] ∧
      b'.win = (b.win.onData pkt.hdr pkt.payload readySlots).2.1 ∧
      b'.queue = pushReady b.clientId b.queue
        (b.win.onData pkt.hdr pkt.payload readySlots).2.2 := by
  obtain ⟨b', hrun, h1, h2, h3⟩ := run_push _ (b.onData pkt) rfl
  refine ⟨List.replicate (b.onData pkt).unpushed.length .push, b', ?_, h1, h2, ?_⟩
  · rw [run, exec, if_pos ⟨hu, hlen⟩]
    exact hrun
  · rw [h3, pushReady]
    exact List.foldl_map

/-- The client's DATA branch is a run of its inbox. -/
theorem run_client {b : Inbox} {c : Client} (hid : b.clientId = 0) (hwin : b.win = c.recvWin)
    (hqueue : b.queue = c.recvQueue) (hu : b.unpushed = []) {pkt : Packet}
    (hlen : pkt.hdr.payloadLen.toNat ≤ maxPayloadSize) :
    ∃ es b', b.run (.data pkt :: es) = some b' ∧ b'.unpushed = [] ∧
      b'.win = (c.onDataPacket pkt).recvWin ∧ b'.queue = (c.onDataPacket pkt).recvQueue := by
  obtain ⟨es, b', hrun, h1, h2, h3⟩ := b.run_data hu hlen
  rw [hid, hwin, hqueue] at h3
  rw [hwin] at h2
  exact ⟨es, b', hrun, h1, h2, h3⟩

/-- The server's DATA branch is a run of the session's inbox. -/
theorem run_session {b : Inbox} {session : Session} {recvQueue : MpmcQueue}
    (hid : b.clientId = session.clientId) (hwin : b.win = session.recvWin)
    (hqueue : b.queue = recvQueue) (hu : b.unpushed = []) {pkt : Packet}
    (hlen : pkt.hdr.payloadLen.toNat ≤ maxPayloadSize) :
    ∃ es b', b.run (.data pkt :: es) = some b' ∧ b'.unpushed = [] ∧
      b'.win = (Server.onDataPacket session pkt).1.recvWin ∧
      b'.queue = pushReady session.clientId recvQueue (Server.onDataPacket session pkt).2 := by
  obtain ⟨es, b', hrun, h1, h2, h3⟩ := b.run_data hu hlen
  rw [hid, hwin, hqueue] at h3
  rw [hwin] at h2
  exact ⟨es, b', hrun, h1, h2, h3⟩

/-! ### A full queue -/

/-- The ordered packet of a position. -/
def orderedPacket (k : ℕ) : Packet := mkPacket .data 3 5 (wrap k) (0, 0) [UInt8.ofNat k] 1

/-- The packets of positions `1, …, k`, each pushed before the next arrives. -/
def arrivals (k : ℕ) : List InboxEvent :=
  (List.range k).flatMap fun i => [.data (orderedPacket (i + 1)), .push]

/-- An endpoint with a window of eight slots and a queue of eight cells that refuses when it is
full. -/
def smallStart : Option Inbox :=
  (MpmcQueue.init .fixed .dropNew 8 0 true (fun _ => true)).map fun queue =>
    start 0 (RecvWindow.fresh 8 1) queue

end Inbox

/-- Eight packets fit: the last one is acknowledged and in the queue. -/
theorem acknowledged_available_of_eight :
    ∃ queue b, MpmcQueue.init .fixed .dropNew 8 0 true (fun _ => true) = some queue ∧
      (Inbox.start 0 (RecvWindow.fresh 8 1) queue).run (Inbox.arrivals 8) = some b ∧
      b.Acknowledges 8 ∧ b.queue.contents = b.queued.map Delivery.item ∧
      ∃ m, b.accepted 8 = some m ∧
        (Inbox.Holds b.win b.expected 8 m ∨ Inbox.Among b.queued 8 m ∨
          Inbox.Among b.returned 8 m) := by
  have hinit : (MpmcQueue.init .fixed .dropNew 8 0 true (fun _ => true)).isSome = true := by
    decide +kernel
  obtain ⟨queue, hqueue⟩ := Option.isSome_iff_exists.1 hinit
  have hval : Inbox.smallStart.map (fun b => (decide (b.RoomRun (Inbox.arrivals 8)),
      (b.run (Inbox.arrivals 8)).map fun b => (b.unpushed.length, b.expected))) =
      some (true, some (0, 9)) := by decide +kernel
  rw [Inbox.smallStart, hqueue, Option.map_some, Option.map_some, Option.some.injEq,
    Prod.mk.injEq, decide_eq_true_eq] at hval
  obtain ⟨hroom, hrun⟩ := hval
  obtain ⟨b, hb, hstate⟩ := Option.map_eq_some_iff.1 hrun
  obtain ⟨hu, he⟩ := Prod.mk.inj hstate
  have hack : b.Acknowledges 8 := Or.inl ⟨by decide, by rw [he]; decide⟩
  obtain ⟨-, hcontents, havailable⟩ := acknowledged_available
    (SendWindow.isRingSize_of_badCapacity (by decide))
    (MpmcQueue.init_rep hqueue).1 hroom hb (List.length_eq_zero_iff.1 hu)
  exact ⟨queue, b, hqueue, hb, hack, hcontents, havailable 8 hack⟩

/-- **The ninth packet is acknowledged and lost.** Nobody has called receive; the window has passed
position 9, so `ack_num` is 9, and the full queue has refused its message. -/
theorem acknowledged_and_lost :
    ∃ queue b, MpmcQueue.init .fixed .dropNew 8 0 true (fun _ => true) = some queue ∧
      (Inbox.start 0 (RecvWindow.fresh 8 1) queue).run (Inbox.arrivals 9) = some b ∧
      b.unpushed = [] ∧ b.win.getAckInfo.1 = 9 ∧ b.Acknowledges 9 ∧
      b.accepted 9 = some ⟨3, 1, [9]⟩ ∧ (∀ x ∈ b.queue.contents, x.message ≠ ⟨3, 1, [9]⟩) ∧
      ∀ m, ¬ (Inbox.Holds b.win b.expected 9 m ∨ Inbox.Among b.queued 9 m ∨
        Inbox.Among b.returned 9 m) := by
  have hinit : (MpmcQueue.init .fixed .dropNew 8 0 true (fun _ => true)).isSome = true := by
    decide +kernel
  obtain ⟨queue, hqueue⟩ := Option.isSome_iff_exists.1 hinit
  have hval : (Inbox.smallStart.bind fun b => b.run (Inbox.arrivals 9)).map (fun b =>
      decide (b.unpushed = [] ∧ b.expected = 10 ∧ b.win.getAckInfo.1 = 9 ∧
        b.accepted 9 = some ⟨3, 1, [9]⟩ ∧
        (∀ x ∈ b.queue.contents, x.message ≠ ⟨3, 1, [9]⟩) ∧
        (∀ x ∈ b.queued, x.position ≠ some 9) ∧ b.returned = [])) = some true := by decide +kernel
  rw [Inbox.smallStart, hqueue, Option.map_some, Option.bind_some] at hval
  obtain ⟨b, hb, hstate⟩ := Option.map_eq_some_iff.1 hval
  obtain ⟨hu, he, hack, hm, hqueued, hnone, hret⟩ := of_decide_eq_true hstate
  refine ⟨queue, b, hqueue, hb, hu, hack, Or.inl ⟨by decide, by rw [he]; decide⟩, hm,
    hqueued, fun m hwhere => ?_⟩
  rcases hwhere with ⟨h, -⟩ | ⟨x, hx, hpos, -⟩ | ⟨x, hx, -⟩
  · rw [he] at h
    exact absurd h (by decide)
  · exact hnone x hx hpos
  · rw [hret] at hx
    exact absurd hx List.not_mem_nil

end Rel4u
