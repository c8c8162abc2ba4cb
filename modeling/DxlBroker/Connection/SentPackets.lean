import DxlBroker.Connection.PacketWrite
import DxlBroker.Lib.Items

/-!
# The packets that are sent

Each packet is allocated for its length and then filled: with bytes, numbers of sixteen bits and
strings, whose length is sent with sixteen bits.  The handlers of a broker read these parts back.
-/

namespace DxlBroker

open Bytes

/-! ### Filling a packet -/

/-- The bytes of `_mosquitto_write_uint16`. -/
def uint16Bytes (word : UInt16) : Bytes := [(word >>> 8).toUInt8, word.toUInt8]

/-- The bytes of `_mosquitto_write_string`, with the length that is sent. -/
def stringBytes (str : Bytes) : Bytes :=
  uint16Bytes (UInt16.ofNat str.length) ++ str.take (UInt16.ofNat str.length).toNat

namespace OutPacket

variable {p : OutPacket} {memory : ℕ → UInt8} {command : UInt8} {n : ℕ} {a b bytes : Bytes}

/-- Two writes in a row are one. -/
theorem writeBytes_bind : (p.writeBytes a >>= fun p => p.writeBytes b) = p.writeBytes (a ++ b) := by
  by_cases ha : a.length ≤ p.unset.length
  · simp only [writeBytes, ha, dif_pos, bind, Except.bind, List.length_drop, List.length_append]
    by_cases hb : b.length ≤ p.unset.length - a.length
    · rw [dif_pos hb, dif_pos (by omega)]
      simp only [List.append_assoc, List.drop_drop]
    · rw [dif_neg hb, dif_neg (by omega)]
  · have hab : ¬(a ++ b).length ≤ p.unset.length := by
      rw [List.length_append]
      omega
    unfold writeBytes
    rw [dif_neg ha, dif_neg hab]
    rfl

theorem writeBytes_nil : p.writeBytes [] = .ok p := by
  simp only [writeBytes, List.append_nil, List.length_nil, List.drop_zero, Nat.zero_le, dif_pos]

theorem writeUint16_eq (word : UInt16) : p.writeUint16 word = p.writeBytes (uint16Bytes word) :=
  writeBytes_bind

theorem writeString_eq (str : Bytes) :
    p.writeString str (UInt16.ofNat str.length) = p.writeBytes (stringBytes str) := by
  unfold writeString
  simp only [writeUint16_eq]
  exact writeBytes_bind

/-- A packet that is allocated and filled: the memory that was allocated stays behind the bytes. -/
structure Filled (memory : ℕ → UInt8) (command : UInt8) (n : ℕ) (bytes : Bytes) (p : OutPacket) :
    Prop where
  command : p.command = command
  lt : n < 2 ^ 28
  le : bytes.length ≤ n
  contents : p.body ++ p.unset = bytes ++ ((List.range n).map memory).drop bytes.length

theorem filled_of_ok (h : (alloc memory command n >>= fun p => p.writeBytes bytes) = .ok p) :
    Filled memory command n bytes p := by
  unfold alloc at h
  split at h
  · cases h
  · rename_i hlength
    simp only [bind, Except.bind, writeBytes, List.length_map, List.length_range] at h
    split at h
    · rename_i hle
      cases h
      exact ⟨rfl, length_remainingBytes_five.mp hlength, hle, rfl⟩
    · cases h

theorem exists_filled (hn : n < 2 ^ 28) (hle : bytes.length ≤ n) :
    ∃ p, (alloc memory command n >>= fun p => p.writeBytes bytes) = .ok p := by
  unfold alloc
  rw [dif_neg (length_remainingBytes_five.mpr hn)]
  simp only [bind, Except.bind, writeBytes, List.length_map, List.length_range]
  exact ⟨_, dif_pos hle⟩

end OutPacket

/-! ### Reading it back -/

theorem readUint16_uint16Bytes (word : UInt16) (rest : Bytes) :
    readUint16 (uint16Bytes word ++ rest) = some (word.toNat, rest) := by
  have hlt := word.toNat_lt
  have hshift : 2 ^ ((8 : UInt16).toNat % 16) = 2 ^ 8 := rfl
  simp only [uint16Bytes, List.cons_append, List.nil_append, readUint16, UInt16.toNat_toUInt8,
    UInt16.toNat_shiftRight, Nat.shiftRight_eq_div_pow, hshift, Option.some.injEq, Prod.mk.injEq,
    and_true]
  omega

/-- A string comes back up to the length that was sent. -/
theorem readString_stringBytes (str rest : Bytes) :
    readString (stringBytes str ++ rest) =
      some (cstr (str.take (str.length % 2 ^ 16)), rest) := by
  have hlength : (UInt16.ofNat str.length).toNat = str.length % 2 ^ 16 := UInt16.toNat_ofNat'
  have htake : (str.take (str.length % 2 ^ 16)).length = str.length % 2 ^ 16 := by
    rw [List.length_take]
    exact min_eq_left (Nat.mod_le _ _)
  unfold readString stringBytes readBytes
  rw [List.append_assoc, readUint16_uint16Bytes, hlength]
  simp only [Option.bind_eq_bind, Option.bind_some]
  rw [if_pos (by rw [List.length_append, htake]; exact Nat.le_add_right _ _)]
  simp only [Option.bind_some]
  rw [List.take_append_of_le_length htake.ge, List.take_of_length_le htake.le,
    List.drop_append_of_le_length htake.ge, List.drop_of_length_le htake.le, List.nil_append]

/-! ### PUBLISH -/

def publishCommandByte : UInt8 := 0x30

/-- A flag at a place of the command byte. -/
def flagBit (flag : Bool) (place : UInt8) : UInt8 := if flag then 1 <<< place else 0

/-- `_mosquitto_send_real_publish`, the packet that is queued.  The length of the packet is an `int`,
of which the packet keeps 32 bits. -/
def sendRealPublish (memory : ℕ → UInt8) (mid : UInt16) (topic payload : Bytes) (qos : UInt8)
    (retain dup : Bool) : Except SendFault OutPacket := do
  let topic := cstr topic
  let packetlen := 2 + topic.length + payload.length + if 0 < qos then 2 else 0
  let command := publishCommandByte ||| flagBit dup 3 ||| qos <<< 1 ||| flagBit retain 0
  let p ← OutPacket.alloc memory command (packetlen % 2 ^ 32)
  let p ← p.writeString topic (UInt16.ofNat topic.length)
  let p ← if 0 < qos then p.writeUint16 mid else pure p
  if payload = [] then pure p else p.writeBytes payload

/-- What `mqtt3_handle_publish` makes of a packet, before the message is authorized: a code to return
with, or the message. -/
inductive PublishResult
  | done (rc : ℕ)
  | message (topic payload : Bytes)
  deriving DecidableEq

/-- The part of `mqtt3_handle_publish` that reads the packet.  A quality of service above zero is not
supported, and the packet is ignored; so is a payload above the limit. -/
def handlePublishRead (messageSizeLimit : ℕ) (command : UInt8) (packet : Bytes) : PublishResult :=
  let qos := (command &&& 0x06) >>> 1
  if qos = 3 then .done 1
  else if 0 < qos then .done 0
  else
    match readString packet with
    | none => .done 1
    | some (topic, payload) =>
        if topic = [] then .done 1
        else if !topicWildcardLenCheck topic then .done 1
        else if payload ≠ [] ∧ messageSizeLimit ≠ 0 ∧ messageSizeLimit < payload.length then .done 0
        else .message topic payload

/-- The packet of a message is allocated and filled with the topic, the identifier and the payload. -/
theorem sendRealPublish_eq_writeBytes (memory : ℕ → UInt8) (mid : UInt16) (topic payload : Bytes)
    (qos : UInt8) (retain dup : Bool) :
    sendRealPublish memory mid topic payload qos retain dup =
      (OutPacket.alloc memory
        (publishCommandByte ||| flagBit dup 3 ||| qos <<< 1 ||| flagBit retain 0)
        ((2 + (cstr topic).length + payload.length + if 0 < qos then 2 else 0) % 2 ^ 32) >>=
          fun p => p.writeBytes (stringBytes (cstr topic) ++
            ((if 0 < qos then uint16Bytes mid else []) ++ payload))) := by
  have hpayload : ∀ p : OutPacket,
      (if payload = [] then pure p else p.writeBytes payload) = p.writeBytes payload := by
    intro p
    split
    · rename_i hnil
      rw [hnil, OutPacket.writeBytes_nil]
      rfl
    · rfl
  unfold sendRealPublish
  by_cases hqos : 0 < qos
  · simp only [hpayload, hqos, if_true, OutPacket.writeString_eq, OutPacket.writeUint16_eq,
      OutPacket.writeBytes_bind]
  · simp only [hpayload, hqos, if_false, OutPacket.writeString_eq, pure_bind,
      OutPacket.writeBytes_bind, List.nil_append]

/-- Without a quality of service, it has no identifier. -/
theorem sendRealPublish_eq (memory : ℕ → UInt8) (mid : UInt16) (topic payload : Bytes) :
    sendRealPublish memory mid topic payload 0 false false =
      (OutPacket.alloc memory publishCommandByte
        ((2 + (cstr topic).length + payload.length) % 2 ^ 32) >>=
          fun p => p.writeBytes (stringBytes (cstr topic) ++ payload)) :=
  sendRealPublish_eq_writeBytes memory mid topic payload 0 false false

/-- The bytes that a message fills its packet with. -/
theorem length_publishBytes (topic payload : Bytes) :
    (stringBytes topic ++ payload).length = 2 + topic.length % 2 ^ 16 + payload.length := by
  have hlength : (UInt16.ofNat topic.length).toNat = topic.length % 2 ^ 16 := UInt16.toNat_ofNat'
  have hle := Nat.mod_le topic.length (2 ^ 16)
  simp only [stringBytes, uint16Bytes, List.length_append, List.length_cons, List.length_nil,
    List.length_take, hlength]
  omega

/-- The message that is read from such a packet. -/
theorem handlePublishRead_stringBytes (limit : ℕ) (topic payload : Bytes) :
    handlePublishRead limit publishCommandByte (stringBytes topic ++ payload) =
      let topic := cstr (topic.take (topic.length % 2 ^ 16))
      if topic = [] then .done 1
      else if !topicWildcardLenCheck topic then .done 1
      else if payload ≠ [] ∧ limit ≠ 0 ∧ limit < payload.length then .done 0
      else .message topic payload := by
  have hqos : (publishCommandByte &&& 0x06) >>> 1 = 0 := by decide
  unfold handlePublishRead
  rw [hqos, readString_stringBytes]
  rfl

/-- A legal topic has a length that can be sent. -/
theorem length_of_topicWildcardLenCheck {topic : Bytes} (h : topicWildcardLenCheck topic = true) :
    topic.length < 2 ^ 16 := by
  unfold topicWildcardLenCheck at h
  simp only [Bool.and_eq_true, decide_eq_true_eq] at h
  omega

/-- A message that a packet can carry, and that a reader with such a limit takes. -/
structure Sendable (limit : ℕ) (topic payload : Bytes) : Prop where
  nulFree : NulFree topic
  ne_nil : topic ≠ []
  legal : topicWildcardLenCheck topic = true
  fits : 2 + topic.length + payload.length < 2 ^ 28
  within : limit = 0 ∨ payload.length ≤ limit

section

variable {memory : ℕ → UInt8} {mid : UInt16} {limit : ℕ} {topic payload : Bytes}

theorem Sendable.length_publishBytes (h : Sendable limit topic payload) :
    (stringBytes topic ++ payload).length = (2 + topic.length + payload.length) % 2 ^ 32 := by
  have hfits := h.fits
  rw [DxlBroker.length_publishBytes,
    Nat.mod_eq_of_lt (length_of_topicWildcardLenCheck h.legal), Nat.mod_eq_of_lt (by omega)]

/-- Such a message has a packet. -/
theorem Sendable.exists_packet (h : Sendable limit topic payload) :
    ∃ p, sendRealPublish memory mid topic payload 0 false false = .ok p := by
  rw [sendRealPublish_eq, cstr_of_nulFree h.nulFree]
  refine OutPacket.exists_filled ?_ h.length_publishBytes.le
  have hfits := h.fits
  omega

/-- Such a message is read from its packet. -/
theorem Sendable.read {p : OutPacket} (h : Sendable limit topic payload)
    (hp : sendRealPublish memory mid topic payload 0 false false = .ok p) :
    p.command = publishCommandByte ∧
      handlePublishRead limit p.command (p.body ++ p.unset) = .message topic payload := by
  rw [sendRealPublish_eq, cstr_of_nulFree h.nulFree] at hp
  obtain ⟨hcommand, -, -, hcontents⟩ := OutPacket.filled_of_ok hp
  refine ⟨hcommand, ?_⟩
  rw [hcommand, hcontents, h.length_publishBytes, List.drop_of_length_le (by simp),
    List.append_nil, handlePublishRead_stringBytes,
    Nat.mod_eq_of_lt (length_of_topicWildcardLenCheck h.legal), List.take_of_length_le le_rfl,
    cstr_of_nulFree h.nulFree]
  simp only [h.ne_nil, h.legal, if_false, Bool.not_true, Bool.false_eq_true]
  rw [if_neg]
  rintro ⟨-, hpos, hlt⟩
  have hwithin := h.within
  omega

end

/-- **A message comes back from its packet** exactly if its topic is a legal one, the whole fits into
a packet, and its payload is within the limit of the reader. -/
theorem handlePublishRead_sendRealPublish (memory : ℕ → UInt8) (mid : UInt16) (limit : ℕ)
    (topic payload : Bytes) :
    (∃ p, sendRealPublish memory mid topic payload 0 false false = .ok p ∧
        handlePublishRead limit p.command (p.body ++ p.unset) = .message topic payload) ↔
      Sendable limit topic payload := by
  constructor
  · rintro ⟨p, hp, hread⟩
    rw [sendRealPublish_eq] at hp
    obtain ⟨hcommand, hn, hle, hcontents⟩ := OutPacket.filled_of_ok hp
    rw [hcommand, hcontents, List.append_assoc, handlePublishRead_stringBytes] at hread
    rw [length_publishBytes] at hle
    simp only at hread
    split_ifs at hread with hnil hcheck hlimit
    obtain ⟨htopic, hpayload⟩ := PublishResult.message.inj hread
    have hfree : NulFree topic := htopic ▸ cstr_nulFree _
    rw [cstr_of_nulFree hfree] at *
    rw [htopic] at hnil hcheck
    rw [hpayload] at hlimit
    simp only [Bool.not_eq_true', Bool.not_eq_false] at hcheck
    have hlength := length_of_topicWildcardLenCheck hcheck
    rw [Nat.mod_eq_of_lt hlength] at hle
    refine ⟨hfree, hnil, hcheck, by omega, ?_⟩
    by_contra hno
    rw [not_or, not_le] at hno
    exact hlimit ⟨List.ne_nil_of_length_pos (by omega), hno.1, hno.2⟩
  · intro h
    obtain ⟨p, hp⟩ := h.exists_packet
    exact ⟨p, hp, (h.read hp).2⟩

/-! ### CONNECT -/

/-- `_mosquitto_send_connect`, the packet that is queued for a bridge; a bridge has no will.  The
highest bit of the version says that a broker connects. -/
def sendConnect (memory : ℕ → UInt8) (keepalive : UInt16) (cleanSession tryPrivate : Bool)
    (id : Bytes) : Except SendFault OutPacket := do
  let id := cstr id
  let p ← OutPacket.alloc memory connectCommand ((12 + (2 + id.length)) % 2 ^ 32)
  let p ← p.writeString (lit "MQIsdp") (UInt16.ofNat (lit "MQIsdp").length)
  let p ← p.writeByte (if tryPrivate then 3 ||| 0x80 else 3)
  let p ← p.writeByte (flagBit cleanSession 1)
  let p ← p.writeUint16 keepalive
  p.writeString id (UInt16.ofNat id.length)

/-- The packet as a whole. -/
theorem sendConnect_eq (memory : ℕ → UInt8) (keepalive : UInt16) (cleanSession tryPrivate : Bool)
    (id : Bytes) :
    sendConnect memory keepalive cleanSession tryPrivate id =
      (OutPacket.alloc memory connectCommand ((12 + (2 + (cstr id).length)) % 2 ^ 32) >>=
        fun p => p.writeBytes (stringBytes (lit "MQIsdp") ++
          ((if tryPrivate then 3 ||| 0x80 else 3) :: flagBit cleanSession 1 ::
            (uint16Bytes keepalive ++ stringBytes (cstr id))))) := by
  unfold sendConnect
  simp only [OutPacket.writeString_eq, OutPacket.writeUint16_eq, OutPacket.writeByte,
    OutPacket.writeBytes_bind]
  rfl

/-- The context of a connection over which a broker connected. -/
def Context.asBridge (settings : BrokerSettings) (c : Context) : Context :=
  { c with isBridge := true, protocol311 := false }.withOpsFlag settings

section

variable {settings : BrokerSettings} {cenv : ConnectEnv} {c : Context} {count : ℕ}
  {guid id rest : Bytes} {keepalive : UInt16}

/-- The protocol is that of a broker, and a certificate of a broker is needed. -/
theorem connectHeader_bridge :
    connectHeader cenv c connectCommand (stringBytes (lit "MQIsdp") ++ (3 ||| 0x80) :: rest) =
      if c.certHashes.any cenv.isBrokerCert then
        .ok { protocol311 := false, isBridge := true, rest := rest }
      else .error errProtocol := by
  have hname : cstr ((lit "MQIsdp").take ((lit "MQIsdp").length % 2 ^ 16)) = lit "MQIsdp" := by
    decide
  have hversion : (3 ||| 0x80 : UInt8) &&& 0x7f = 3 := by decide
  have hbroker : ((3 ||| 0x80 : UInt8) &&& 0x80 == 0x80) = true := by decide
  unfold connectHeader
  rw [readString_stringBytes, hname]
  simp only [orRefuse, readByte, bind, Except.bind, if_true, hversion, ne_eq, not_true_eq_false,
    if_false, hbroker, Bool.true_and, pure, Except.pure]
  cases c.certHashes.any cenv.isBrokerCert <;> rfl

/-- The fields of a bridge: no will, and a clean session. -/
theorem connectFields_bridge {header : ConnectHeader} (hbridge : header.isBridge = true)
    (hcontext : c.isBridge = true) (hprotocol : c.protocol311 = false)
    (hrest : header.rest =
      flagBit true 1 :: (uint16Bytes keepalive ++ (stringBytes id ++ rest))) :
    connectFields settings cenv c count header guid =
      if cstr (id.take (id.length % 2 ^ 16)) = [] then .error errProtocol
      else if settings.multiTenantModeEnabled && c.tenantGuid.isNone then .error 0
      else .ok (cstr (id.take (id.length % 2 ^ 16))) := by
  have hqos : (flagBit true 1 &&& 0x18) >>> 3 ≠ 3 := by decide
  have hclean : flagBit true 1 &&& 0x02 ≠ 0 := by decide
  have hwill : flagBit true 1 &&& 0x04 = 0 := by decide
  unfold connectFields connectId
  rw [hrest]
  simp only [orRefuse, readByte, bind, Except.bind, hcontext, Bool.not_true, Bool.false_and,
    Bool.false_eq_true, if_false, hqos, hclean, hwill, readUint16_uint16Bytes,
    readString_stringBytes, hbridge, if_true, hprotocol, ne_eq, not_true_eq_false, pure,
    Except.pure]
  split_ifs <;> rfl

/-- What a broker makes of the packet of a bridge. -/
theorem connectPacket_bridge :
    connectPacket settings cenv c count connectCommand (stringBytes (lit "MQIsdp") ++
        (3 ||| 0x80) :: flagBit true 1 :: (uint16Bytes keepalive ++ (stringBytes id ++ rest)))
        guid =
      if c.certHashes.any cenv.isBrokerCert then
        if cstr (id.take (id.length % 2 ^ 16)) = [] then
          .error (errProtocol, { c with isBridge := true, protocol311 := false })
        else if settings.multiTenantModeEnabled && c.tenantGuid.isNone then
          .error (0, { c with isBridge := true, protocol311 := false })
        else .ok (c.asBridge settings, cstr (id.take (id.length % 2 ^ 16)))
      else .error (errProtocol, c) := by
  unfold connectPacket
  rw [connectHeader_bridge]
  cases c.certHashes.any cenv.isBrokerCert with
  | false => rfl
  | true =>
    simp only [if_true, Bool.or_true]
    rw [connectFields_bridge rfl rfl rfl rfl]
    split_ifs <;> rfl

/-- The code for success is left when a packet is refused for its tenant only. -/
theorem connectPacket_bridge_ok {c' : Context} (h : id.length < 2 ^ 16) (hfree : NulFree id)
    (hne : id ≠ []) :
    connectPacket settings cenv c count connectCommand (stringBytes (lit "MQIsdp") ++
        (3 ||| 0x80) :: flagBit true 1 :: (uint16Bytes keepalive ++ (stringBytes id ++ rest)))
        guid = .ok (c', id) ↔
      c.certHashes.any cenv.isBrokerCert = true ∧
        (settings.multiTenantModeEnabled = true → c.tenantGuid.isSome = true) ∧
        c' = c.asBridge settings := by
  rw [connectPacket_bridge, Nat.mod_eq_of_lt h, List.take_of_length_le le_rfl,
    cstr_of_nulFree hfree, if_neg hne]
  cases c.certHashes.any cenv.isBrokerCert <;> cases settings.multiTenantModeEnabled <;>
    cases c.tenantGuid <;> simp [eq_comm]

/-- **The handshake of a bridge.**  A broker takes over the identifier of a bridge exactly if it is a
C string whose length can be sent, the bridge has shown the certificate of a broker, and it has a
tenant where there are several; the context is then one of a bridge. -/
theorem connectPacket_sendConnect (memory : ℕ → UInt8) (keepalive : UInt16) (id : Bytes)
    (settings : BrokerSettings) (cenv : ConnectEnv) (c c' : Context) (count : ℕ) (guid : Bytes) :
    (∃ p, sendConnect memory keepalive true true id = .ok p ∧
        connectPacket settings cenv c count p.command (p.body ++ p.unset) guid = .ok (c', id)) ↔
      (NulFree id ∧ id ≠ [] ∧ id.length < 2 ^ 16) ∧ c.certHashes.any cenv.isBrokerCert = true ∧
        (settings.multiTenantModeEnabled = true → c.tenantGuid.isSome = true) ∧
        c' = c.asBridge settings := by
  have hstring : (stringBytes (cstr id)).length = 2 + (cstr id).length % 2 ^ 16 := by
    have := length_publishBytes (cstr id) []
    rwa [List.append_nil] at this
  have hname : (stringBytes (lit "MQIsdp")).length = 8 := by decide
  rw [sendConnect_eq]
  constructor
  · rintro ⟨p, hp, hread⟩
    obtain ⟨hcommand, -, -, hcontents⟩ := OutPacket.filled_of_ok hp
    simp only [hcommand, hcontents, if_true, List.append_assoc, List.cons_append] at hread
    have hid : NulFree id ∧ id ≠ [] ∧ id.length < 2 ^ 16 := by
      rw [connectPacket_bridge] at hread
      split_ifs at hread with hcert hnil htenant
      have htake := (Prod.mk.inj (Except.ok.inj hread)).2
      have hle := (cstr_isPrefix ((cstr id).take ((cstr id).length % 2 ^ 16))).length_le
      have := Nat.mod_lt (cstr id).length (show 0 < 2 ^ 16 by norm_num)
      rw [htake, List.length_take] at hle
      exact ⟨htake ▸ cstr_nulFree _, htake ▸ hnil, by omega⟩
    rw [cstr_of_nulFree hid.1] at hread
    exact ⟨hid, (connectPacket_bridge_ok hid.2.2 hid.1 hid.2.1).mp hread⟩
  · rintro ⟨⟨hfree, hne, hlt⟩, hok⟩
    rw [cstr_of_nulFree hfree] at hstring ⊢
    rw [Nat.mod_eq_of_lt hlt] at hstring
    obtain ⟨p, hp⟩ := @OutPacket.exists_filled memory connectCommand
      ((12 + (2 + id.length)) % 2 ^ 32) (stringBytes (lit "MQIsdp") ++
        (if true then 3 ||| 0x80 else 3) :: flagBit true 1 ::
          (uint16Bytes keepalive ++ stringBytes id)) (by omega) (by
      simp only [List.length_append, List.length_cons, hname, hstring, uint16Bytes, List.length_nil]
      omega)
    obtain ⟨hcommand, -, -, hcontents⟩ := OutPacket.filled_of_ok hp
    refine ⟨p, hp, ?_⟩
    simp only [hcommand, hcontents, if_true, List.append_assoc, List.cons_append]
    exact (connectPacket_bridge_ok hlt hfree hne).mpr hok

end

/-! ### SUBSCRIBE and UNSUBSCRIBE -/

end DxlBroker
