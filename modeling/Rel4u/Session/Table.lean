import Rel4u.Platform.Net
import Rel4u.Worker.Shared

/-!
# The session table (`rel4u_session.h`, `rel4u_session.c`)

The server keeps a fixed array of `maxClients` session slots. A slot is free when its state is
`disconnected`. `activeCount` is maintained beside the array.

`rel4u_session_allocate` keeps the slot it chooses in an `int32_t`, so a slot number from `2 ^ 31`
up turns negative and the session it writes lies outside the array. The model keeps the signed
index: a write at a negative index leaves the array as it is, and what is read there is whatever
`default` stands for.

Statistics and `last_ack_sent_ns`, which nothing reads, are left out.
-/

namespace Rel4u

/-- `rel4u_max_clients_policy_t`. -/
inductive MaxClientsPolicy
  | reject
  | dropOld
  deriving DecidableEq, Repr

/-- `rel4u_client_session_t`. -/
structure Session where
  clientId : UInt32
  sessionId : UInt32
  addr : NetAddr
  state : ConnState
  sendWin : SendWindow
  recvWin : RecvWindow
  rtt : Rtt
  lastActivityNs : UInt64
  lastHeartbeatSentNs : UInt64
  ackPending : Bool
  deriving DecidableEq, Repr, Inhabited

/-- The slot is occupied. -/
def Session.active (s : Session) : Bool := decide (s.state ≠ .disconnected)

/-- `session->state = REL4U_STATE_DISCONNECTED; session->session_id = 0;` -/
def Session.freed (s : Session) : Session := { s with state := .disconnected, sessionId := 0 }

/-- `rel4u_session_table_t`. -/
structure SessionTable where
  sessions : List Session
  maxClients : UInt32
  activeCount : UInt32
  fullPolicy : MaxClientsPolicy
  deriving DecidableEq, Repr

namespace SessionTable

/-- The slot as `rel4u_session_table_init` leaves it. -/
def initSession (windowSize : UInt32) (i : ℕ) : Session :=
  { clientId := UInt32.ofNat i
    sessionId := 0
    addr := default
    state := .disconnected
    sendWin := ((default : SendWindow).init windowSize 1 true).2
    recvWin := ((default : RecvWindow).init windowSize 1 true).2
    rtt := Rtt.default
    lastActivityNs := 0
    lastHeartbeatSentNs := 0
    ackPending := false }

/-- `rel4u_session_table_init`; the last three arguments are the outcomes of its allocations.
`none` is the return code `-1`. -/
def init (maxClients : UInt32) (policy : MaxClientsPolicy) (windowSize : UInt32)
    (callocTable : Bool) (callocSend callocRecv : ℕ → Bool) : Option SessionTable :=
  if maxClients = 0 ∨ SendWindow.badCapacity windowSize = true then none
  else if !callocTable then none
  else if ∀ i < maxClients.toNat, (callocSend i && callocRecv i) = true then
    some
      { sessions := (List.range maxClients.toNat).map (initSession windowSize)
        maxClients := maxClients
        activeCount := 0
        fullPolicy := policy }
  else none

/-- `&table->sessions[i]`, read. -/
def slot (t : SessionTable) (i : ℕ) : Session := t.sessions.getD i default

/-- `table->sessions[i] = s`. -/
def setSlot (t : SessionTable) (i : ℕ) (s : Session) : SessionTable :=
  { t with sessions := t.sessions.set i s }

/-- `rel4u_session_find_by_addr`. -/
def findByAddr (t : SessionTable) (addr : NetAddr) : Option ℕ :=
  t.sessions.findIdx? fun s => s.active && s.addr.equal addr

/-- `rel4u_session_find_by_id`. -/
def findById (t : SessionTable) (clientId : UInt32) : Option ℕ :=
  if clientId ≥ t.maxClients then none
  else if (t.slot clientId.toNat).active then some clientId.toNat else none

/-- `(int32_t)i`. -/
def int32 (i : ℕ) : ℤ := (UInt32.ofNat i).toInt32.toInt

/-- The loop that looks for the least recently active session: `i` is the index of the first
session of the list, `oldest` and `slotIdx` are the loop's variables. -/
def oldestFrom : List Session → ℕ → UInt64 → ℤ → ℤ
  | [], _, _, slotIdx => slotIdx
  | s :: rest, i, oldest, slotIdx =>
    if s.active && decide (s.lastActivityNs < oldest) then
      oldestFrom rest (i + 1) s.lastActivityNs (int32 i)
    else oldestFrom rest (i + 1) oldest slotIdx

/-- `UINT64_MAX`. -/
def uint64Max : UInt64 := 0xFFFFFFFFFFFFFFFF

/-- The choice of a slot, `-1` if there is none, with `activeCount` lowered if it is an
eviction. -/
def chooseSlot (t : SessionTable) : ℤ × SessionTable :=
  if t.activeCount < t.maxClients then
    match t.sessions.findIdx? fun s => !s.active with
    | some i => (int32 i, t)
    | none => (-1, t)
  else
    match t.fullPolicy with
    | .reject => (-1, t)
    | .dropOld =>
      let slotIdx := oldestFrom t.sessions 0 uint64Max (-1)
      (slotIdx, if slotIdx ≠ -1 then { t with activeCount := t.activeCount - 1 } else t)

/-- Read at a signed index. -/
def sessionAt (t : SessionTable) (slotIdx : ℤ) : Session :=
  if 0 ≤ slotIdx then t.slot slotIdx.toNat else default

/-- Write at a signed index. -/
def setSessionAt (t : SessionTable) (slotIdx : ℤ) (s : Session) : SessionTable :=
  if 0 ≤ slotIdx then t.setSlot slotIdx.toNat s else t

/-- The session that `rel4u_session_allocate` writes over the slot `s`. -/
def newSession (s : Session) (addr : NetAddr) (sessionId : UInt32)
    (callocSend callocRecv : Bool) : Session :=
  let winCap := if s.sendWin.capacity ≠ 0 then s.sendWin.capacity else 64
  { s with
    sessionId := sessionId
    addr := addr
    state := .connecting
    ackPending := false
    sendWin := (s.sendWin.destroy.init winCap 1 callocSend).2
    recvWin := (s.recvWin.destroy.init winCap 1 callocRecv).2
    rtt := Rtt.default }

/-- `rel4u_session_allocate`: the index and the session, or `NULL`; the last two arguments are the
outcomes of the window allocations. -/
def allocate (t : SessionTable) (addr : NetAddr) (sessionId : UInt32)
    (callocSend callocRecv : Bool) : Option (ℤ × Session) × SessionTable :=
  let (slotIdx, t) := t.chooseSlot
  if slotIdx = -1 then (none, t)
  else
    let s := newSession (t.sessionAt slotIdx) addr sessionId callocSend callocRecv
    let t := t.setSessionAt slotIdx s
    (some (slotIdx, s), { t with activeCount := t.activeCount + 1 })

/-- `rel4u_session_free`. -/
def free (t : SessionTable) (i : ℕ) : SessionTable :=
  if (t.slot i).active then
    let t := t.setSlot i (t.slot i).freed
    if t.activeCount > 0 then { t with activeCount := t.activeCount - 1 } else t
  else t

end SessionTable

end Rel4u
