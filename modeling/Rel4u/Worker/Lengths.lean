import Rel4u.Wire.Codec
import Rel4u.Worker.Provenance

/-!
# The length limits of the send path

A message meets six limits on its way out: `send` compares its length with `REL4U_MAX_PAYLOAD(mtu)`
and copies it into the array of a queue item, the queue and the send window compare it with
`maxPayloadSize`, the packet is built in a buffer of `inBufSize` bytes, and the peer reads it into
one of the same size and compares the announced length with what it read. The first limit is set by
the configuration, and nothing compares it with the others: for an `mtu` of more than `inBufSize`
bytes it admits messages that the array of an item cannot take, and the copy is made before any
other check. Up to there the limits agree, and whatever `send` lets through reaches the peer whole.
-/

namespace Rel4u

/-- The packet fits the send buffer and the receive buffer, which are of one size, and every peer
reads the first `len` bytes of `data` from it. -/
def Packet.Conveys (pkt : Packet) (mode : UInt8) (data : List UInt8) (len : ℕ) : Prop :=
  ∀ host peer : Endian, (pkt.datagram host).length ≤ inBufSize ∧
    ∃ hdr, decodeHeader peer ((pkt.datagram host).take inBufSize) = .ok hdr ∧
      hdr.deliveryMode = mode ∧ hdr.payloadLen.toNat = len ∧
      ((pkt.datagram host).take inBufSize).drop headerLen = data.take len

/-- **The limits on the way of a message all take it**: the array of the item, the queue if it has
room, the send window, and the buffers of both sides. -/
structure Passes (clientId : UInt32) (mode : UInt8) (data : List UInt8) (len : ℕ) : Prop where
  array : len ≤ maxPayloadSize
  announced : (MpmcItem.ofSend clientId mode data len).len.toNat = len
  queue : ∀ (q : MpmcQueue) (l : List MpmcItem), q.Rep l → q.allocOk = true →
    Deque.total q.weight l + q.weight (MpmcItem.ofSend clientId mode data len) ≤ q.limit →
    (q.tryPush (MpmcItem.ofSend clientId mode data len)).1 = true
  window : ∀ (w : SendWindow) (nowNs : UInt64),
    w.push mode (MpmcItem.ofSend clientId mode data len).data
      (MpmcItem.ofSend clientId mode data len).len.toNat nowNs ≠ .error (-1)
  packet : ∀ (id seq : UInt32) (ack : UInt32 × UInt32),
    (mkPacket .data mode id seq ack (MpmcItem.ofSend clientId mode data len).data
      (MpmcItem.ofSend clientId mode data len).len.toNat).Conveys mode data len

/-- Where the limit of the configuration exceeds the others. -/
theorem maxPayload_le_iff (mtu : UInt16) :
    (∀ len, len ≤ maxPayload mtu → len ≤ maxPayloadSize) ↔ mtu.toNat ≤ inBufSize := by
  rw [inBufSize]
  constructor
  · intro h
    have := h (maxPayload mtu) le_rfl
    rw [maxPayload] at this
    omega
  · intro h len hlen
    rw [maxPayload] at hlen
    omega

section Message

variable {mode : UInt8} {data : List UInt8} {len : ℕ}

/-- A DATA packet that is built from a whole message conveys it. -/
theorem Packet.Built.conveys {pkt : Packet} (hpkt : pkt.Built)
    (hmsg : pkt.message = Message.ofPush mode data len) (hlen : len ≤ maxPayloadSize)
    (hdata : len ≤ data.length) : pkt.Conveys mode data len := by
  obtain ⟨mode', id, seq, ack, payload, n, rfl⟩ := hpkt
  simp only [mkPacket, Packet.message, Message.ofPush, Message.mk.injEq, UInt16.ofNat_toNat,
    List.take_take, min_self] at hmsg
  obtain ⟨rfl, hn, hpayload⟩ := hmsg
  have hnat : n.toNat = len := by
    rw [hn]
    exact UInt16.toNat_ofNat_of_lt' (hlen.trans_lt (by decide))
  intro host peer
  set hdr := (mkPacket .data mode' id seq ack payload n.toNat).hdr with hhdr
  have hbytes : (mkPacket .data mode' id seq ack payload n.toNat).datagram host =
      encodeHeader peer hdr ++ data.take len := by
    rw [Packet.datagram, encodeHeader_eq host, encodeHeader_eq peer, ← hpayload]
    rfl
  have hheader := length_encodeHeader peer hdr
  have hlength : (encodeHeader peer hdr ++ data.take len).length = headerLen + len := by
    rw [List.length_append, hheader, List.length_take, Nat.min_eq_left hdata]
  have hfits : (encodeHeader peer hdr ++ data.take len).length ≤ inBufSize := by
    rw [hlength, inBufSize]
    omega
  have hannounced : hdr.payloadLen.toNat = len := by
    rw [← hnat]
    simp [hhdr, mkPacket]
  rw [hbytes, List.take_of_length_le hfits]
  refine ⟨hfits, hdr, ?_, rfl, hannounced, ?_⟩
  · refine decodeHeader_encodeHeader_append peer rfl rfl ?_
    rw [hannounced, List.length_take, Nat.min_eq_left hdata]
  · exact List.drop_left' hheader

/-- **A message that fits an item meets all the limits.** -/
theorem passes_of_le (clientId : UInt32) (mode : UInt8) (hlen : len ≤ maxPayloadSize)
    (hdata : len ≤ data.length) : Passes clientId mode data len := by
  have h16 : len < 2 ^ 16 := hlen.trans_lt (by decide)
  have hnat : (MpmcItem.ofSend clientId mode data len).len.toNat = len :=
    UInt16.toNat_ofNat_of_lt' h16
  have htrim : (MpmcItem.ofSend clientId mode data len).trim =
      MpmcItem.ofSend clientId mode data len := by
    simp only [MpmcItem.trim, hnat]
    simp [MpmcItem.ofSend]
  refine ⟨hlen, hnat, ?_, ?_, ?_⟩
  · intro q l hq halloc hroom
    exact (hq.pushBack_room htrim (hnat.trans_le hlen) hroom halloc).1
  · intro w nowNs
    rw [hnat, SendWindow.push, if_neg (not_lt.2 hlen)]
    split_ifs <;> simp
  · intro id seq ack
    refine Packet.Built.conveys ⟨mode, id, seq, ack, _, _, rfl⟩ ?_ hlen hdata
    rw [← message_ofSend clientId mode data h16]
    exact message_mkPacket (MpmcItem.ofSend clientId mode data len) id seq ack

end Message

/-! ### Calls of `send` -/

/-- The caller hands `send` as many bytes as it says. -/
def ClientEvent.Sized : ClientEvent → Prop
  | .send _ data len => len ≤ data.length
  | _ => True

@[inherit_doc ClientEvent.Sized]
def ServerEvent.Sized : ServerEvent → Prop
  | .send _ _ data len => len ≤ data.length
  | _ => True

/-- The code for a message that is too large is returned for these only. -/
theorem Client.send_eq_tooLarge_iff {c : Client} {mode : UInt8} {data : List UInt8} {len : ℕ} :
    (c.send mode data len).1 = -8 ↔ maxPayload c.config.mtu < len := by
  rw [Client.send]
  split_ifs with hlong
  · exact iff_of_true rfl hlong
  · exact iff_of_false (by simp) hlong
  · exact iff_of_false (by simp) hlong
  · split <;> exact iff_of_false (by simp) hlong

@[inherit_doc Client.send_eq_tooLarge_iff]
theorem Server.send_eq_tooLarge_iff {s : Server} {clientId : UInt32} {mode : UInt8}
    {data : List UInt8} {len : ℕ} :
    (s.send clientId mode data len).1 = -8 ↔ maxPayload s.config.mtu < len := by
  rw [Server.send]
  split_ifs with hlong
  · exact iff_of_true rfl hlong
  · exact iff_of_false (by simp) hlong
  · split <;> exact iff_of_false (by simp) hlong

/-- The default for an `mtu` of zero is below the limit. -/
theorem effective_mtu_le_iff (mtu : UInt16) :
    (if mtu = 0 then 1400 else mtu).toNat ≤ inBufSize ↔ mtu.toNat ≤ inBufSize := by
  split_ifs with h0
  · rw [h0]
    decide
  · exact Iff.rfl

/-! ### Whole runs -/

/-- **The limits agree at the client**: in every run in which `send` is handed as many bytes as it
is told, whatever passes the check of `send` meets all the others, and every DATA packet transmitted
is one of the messages given to `send`, which the peer decodes with its length and its bytes. -/
def Client.LimitsAgree (c : Client) : Prop :=
  ∀ (es : List ClientEvent) (p : ClientProc), (∀ e ∈ es, e.Sized) →
    (ClientProc.start c).run es = some p →
    (∀ mode data len, len ≤ data.length → (p.client.send mode data len).1 ≠ -8 →
      Passes 0 mode data len) ∧
    ∀ e p' out, p.exec e = some (p', out) → ∀ pkt ∈ out,
      pkt.hdr.packetType = PktType.data.code →
      ∃ mode data len, .send mode data len ∈ es ∧ pkt.Conveys mode data len

/-- **The limits agree at the server.** -/
def Server.LimitsAgree (s₀ : Server) : Prop :=
  ∀ es : List ServerEvent, (∀ e ∈ es, e.Sized) →
    (∀ clientId mode data len, len ≤ data.length →
      ((s₀.run es).send clientId mode data len).1 ≠ -8 → Passes clientId mode data len) ∧
    ∀ e addr pkt, (addr, pkt) ∈ ((s₀.run es).exec e).2 →
      pkt.hdr.packetType = PktType.data.code →
      ∃ clientId mode data len, .send clientId mode data len ∈ es ∧ pkt.Conveys mode data len

theorem Client.limitsAgree_of_le {config : ClientConfig} {a : CreateAllocs} {c : Client}
    (hcreate : Client.create config a = some c) (hmtu : config.mtu.toNat ≤ inBufSize) :
    c.LimitsAgree := by
  intro es p hes hrun
  have hlimit := (maxPayload_le_iff _).2 ((effective_mtu_le_iff _).2 hmtu)
  -- all that the client carries was given to `send`
  have hcarries : p.client.Carries config.withDefaults.mtu fun m =>
      ∃ mode data len, .send mode data len ∈ es ∧ len ≤ maxPayload config.withDefaults.mtu ∧
        m = Message.ofPush mode data len :=
    (Client.create_carries hcreate).run
      (fun mode data len hmem hlen => ⟨mode, data, len, hmem, hlen, rfl⟩) hrun
  constructor
  · intro mode data len hdata hcode
    have hlen := not_lt.1 (mt Client.send_eq_tooLarge_iff.2 hcode)
    rw [hcarries.mtu_eq] at hlen
    exact passes_of_le 0 mode (hlimit len hlen) hdata
  · intro e p' out hexec pkt hpkt htype
    obtain ⟨hbuilt, mode, data, len, hmem, hlen, hmsg⟩ :=
      hcarries.emits (ClientProc.moves_of_exec hexec) pkt hpkt htype
    exact ⟨mode, data, len, hmem, hbuilt.conveys hmsg (hlimit len hlen) (hes _ hmem)⟩

theorem Server.limitsAgree_of_le {config : ServerConfig} {a : CreateAllocs} {s₀ : Server}
    (hcreate : Server.create config a = some s₀) (hmtu : config.mtu.toNat ≤ inBufSize) :
    s₀.LimitsAgree := by
  intro es hes
  have hlimit := (maxPayload_le_iff _).2 ((effective_mtu_le_iff _).2 hmtu)
  have hcarries : (s₀.run es).Carries config.withDefaults.mtu fun m =>
      ∃ clientId mode data len, .send clientId mode data len ∈ es ∧
        len ≤ maxPayload config.withDefaults.mtu ∧ m = Message.ofPush mode data len :=
    (Server.create_carries hcreate).run
      fun clientId mode data len hmem hlen => ⟨clientId, mode, data, len, hmem, hlen, rfl⟩
  constructor
  · intro clientId mode data len hdata hcode
    have hlen := not_lt.1 (mt Server.send_eq_tooLarge_iff.2 hcode)
    rw [hcarries.mtu_eq] at hlen
    exact passes_of_le clientId mode (hlimit len hlen) hdata
  · intro e addr pkt hpkt htype
    obtain ⟨hbuilt, clientId, mode, data, len, hmem, hlen, hmsg⟩ :=
      hcarries.emits ((s₀.run es).moves_exec e) pkt (List.mem_map.2 ⟨_, hpkt, rfl⟩) htype
    exact ⟨clientId, mode, data, len, hmem, hbuilt.conveys hmsg (hlimit len hlen) (hes _ hmem)⟩

/-- If the limits agree for the first call, nothing that its check lets through is too long. -/
theorem Client.LimitsAgree.le_maxPayloadSize {c : Client} (h : c.LimitsAgree) {len : ℕ}
    (hlen : len ≤ maxPayload c.config.mtu) : len ≤ maxPayloadSize := by
  obtain ⟨hpasses, -⟩ := h [] (ClientProc.start c) (List.forall_mem_nil _) rfl
  refine (hpasses 0 (List.replicate len 0) len List.length_replicate.ge ?_).array
  exact mt Client.send_eq_tooLarge_iff.1 (not_lt.2 hlen)

@[inherit_doc Client.LimitsAgree.le_maxPayloadSize]
theorem Server.LimitsAgree.le_maxPayloadSize {s : Server} (h : s.LimitsAgree) {len : ℕ}
    (hlen : len ≤ maxPayload s.config.mtu) : len ≤ maxPayloadSize := by
  obtain ⟨hpasses, -⟩ := h [] (List.forall_mem_nil _)
  refine (hpasses 0 0 (List.replicate len 0) len List.length_replicate.ge ?_).array
  exact mt Server.send_eq_tooLarge_iff.1 (not_lt.2 hlen)

/-- **The limits of the send path agree exactly when `mtu` is at most `inBufSize`**, at a client and
at a server with any configuration that is accepted: then whatever passes the check of `send` fits
the array of the item, is taken by the queue if there is room, by the send window and by the buffers
of both sides, and the peer decodes it with its length and its bytes. -/
theorem send_path_limits_agree_iff {clientConfig : ClientConfig} {serverConfig : ServerConfig}
    {a a' : CreateAllocs} {c : Client} {s : Server}
    (hclient : Client.create clientConfig a = some c)
    (hserver : Server.create serverConfig a' = some s) :
    (c.LimitsAgree ↔ clientConfig.mtu.toNat ≤ inBufSize) ∧
      (s.LimitsAgree ↔ serverConfig.mtu.toNat ≤ inBufSize) := by
  refine ⟨⟨?_, Client.limitsAgree_of_le hclient⟩, ⟨?_, Server.limitsAgree_of_le hserver⟩⟩
  · intro h
    have hmtu := (Client.create_carries (P := fun _ => True) hclient).mtu_eq
    have hle := (maxPayload_le_iff c.config.mtu).1 fun len => h.le_maxPayloadSize
    rw [hmtu] at hle
    exact (effective_mtu_le_iff _).1 hle
  · intro h
    have hmtu := (Server.create_carries (P := fun _ => True) hserver).mtu_eq
    have hle := (maxPayload_le_iff s.config.mtu).1 fun len => h.le_maxPayloadSize
    rw [hmtu] at hle
    exact (effective_mtu_le_iff _).1 hle

/-! ### At and above the limit -/

/-- A client with an `mtu` of its own. -/
def Client.jumboConfig (mtu : UInt16) : ClientConfig := { Client.smallConfig with mtu }

/-- A server with an `mtu` of its own. -/
def Server.jumboConfig (mtu : UInt16) : ServerConfig := { Server.tableConfig 1 with mtu }

/-- The client connects. -/
def Client.connects : List ClientEvent :=
  [.connect 0 true, .turn 200000000 true,
    .packet (.inet 9000 1) (mkPacket .connectResp 0 5 0 (0, 0) [] 0) 200000001 true]

/-- With an `mtu` of 9240 the limits agree, and the longest message passes. -/
theorem send_path_limits_agree_jumbo :
    ∃ c s, Client.create (Client.jumboConfig 9240) CreateAllocs.allOk = some c ∧
      Server.create (Server.jumboConfig 9240) CreateAllocs.allOk = some s ∧
      c.LimitsAgree ∧ s.LimitsAgree ∧
      ((ClientProc.start c).run Client.connects).map (fun p =>
        (p.client.send 3 (List.replicate 9216 7) 9216).1) = some 0 := by
  have hval : ((Client.create (Client.jumboConfig 9240) CreateAllocs.allOk).map fun c =>
      ((ClientProc.start c).run Client.connects).map fun p =>
        (p.client.send 3 (List.replicate 9216 7) 9216).1) = some (some 0) := by
    decide +kernel
  obtain ⟨c, hc, hval⟩ := Option.map_eq_some_iff.1 hval
  obtain ⟨s, hs⟩ : ∃ s, Server.create (Server.jumboConfig 9240) CreateAllocs.allOk = some s :=
    Option.isSome_iff_exists.1 (by decide +kernel)
  obtain ⟨hclient, hserver⟩ := send_path_limits_agree_iff hc hs
  exact ⟨c, s, hc, hs, hclient.2 (by decide), hserver.2 (by decide), hval⟩

/-- **One byte above the limit the item is overrun.** A client and a server with an `mtu` of 9241
let a message of 9217 bytes through: it is copied into the array of the item, which has 9216, and
only then refused by the queue for its length, as if the empty queue were full. -/
theorem send_overruns_item :
    (∃ c p, Client.create (Client.jumboConfig 9241) CreateAllocs.allOk = some c ∧
      (ClientProc.start c).run Client.connects = some p ∧ p.client.sendQueue.contents = [] ∧
      (p.client.send 3 (List.replicate 9217 7) 9217).1 = -4) ∧
    (∃ s₀, Server.create (Server.jumboConfig 9241) CreateAllocs.allOk = some s₀ ∧
      (s₀.run [.start]).sendQueue.contents = [] ∧
      ((s₀.run [.start]).send 0 3 (List.replicate 9217 7) 9217).1 = -4) ∧
    maxPayloadSize < (MpmcItem.ofSend 0 3 (List.replicate 9217 7) 9217).data.length := by
  have hclient : ((Client.create (Client.jumboConfig 9241) CreateAllocs.allOk).bind fun c =>
      ((ClientProc.start c).run Client.connects).map fun p =>
        (p.client.sendQueue.contents, (p.client.send 3 (List.replicate 9217 7) 9217).1)) =
      some ([], -4) := by
    decide +kernel
  have hserver : ((Server.create (Server.jumboConfig 9241) CreateAllocs.allOk).map fun s₀ =>
      ((s₀.run [.start]).sendQueue.contents,
        ((s₀.run [.start]).send 0 3 (List.replicate 9217 7) 9217).1)) = some ([], -4) := by
    decide +kernel
  obtain ⟨c, hc, hclient⟩ := Option.bind_eq_some_iff.1 hclient
  obtain ⟨p, hp, hsend⟩ := Option.map_eq_some_iff.1 hclient
  obtain ⟨s₀, hs₀, hsend'⟩ := Option.map_eq_some_iff.1 hserver
  obtain ⟨hempty, hcode⟩ := Prod.mk.inj hsend
  obtain ⟨hempty', hcode'⟩ := Prod.mk.inj hsend'
  refine ⟨⟨c, p, hc, hp, hempty, hcode⟩, ⟨s₀, hs₀, hempty', hcode'⟩, ?_⟩
  rw [MpmcItem.ofSend, List.length_take, List.length_replicate]
  decide

end Rel4u
