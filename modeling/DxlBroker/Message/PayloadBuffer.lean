import DxlBroker.Message.MessageService

/-!
# The payload buffer

A message holds its payload by a pointer and a size.  `setDxlMessagePayload` gives the old block
back before it looks at the size of the new one, and an empty payload neither clears the pointer nor
the size: the message is left with the address of a block that is gone.  `getPayload` and the packer
read both fields on their own.

`BufferedMessage` is a `DxlMessage` together with the two fields; `PayloadBuffer.toPayload` is what
the packer makes of them.
-/

namespace DxlBroker

open Bytes Msgpack Unordered

/-- The payload pointer: null, the address of a block, or of a block that was given back. -/
inductive PayloadPointer
  | null
  | block (bytes : Bytes)
  | freed
  deriving DecidableEq

namespace PayloadPointer

/-- The size that belongs to a pointer. -/
def Sized : PayloadPointer → ℕ → Prop
  | .null, size => size = 0
  | .block bytes, size => size = bytes.length
  | .freed, _ => True

/-- `free`, when the pointer is not null.  To give a block back twice is undefined. -/
def free : PayloadPointer → Option PayloadPointer
  | .null => some .null
  | .block _ => some .freed
  | .freed => none

theorem Sized.free {p p' : PayloadPointer} {size : ℕ} (h : p.Sized size) (hfree : p.free = some p') :
    p'.Sized size := by
  cases p with
  | null =>
    cases hfree
    exact h
  | block bytes =>
    cases hfree
    trivial
  | freed => cases hfree

/-- `size` bytes from the address on; no result for memory that is not the block's. -/
def read : PayloadPointer → ℕ → Option Bytes
  | .block bytes, size => if size ≤ bytes.length then some (bytes.take size) else none
  | _, 0 => some []
  | _, _ + 1 => none

/-- A block read to its end. -/
@[simp] theorem read_length (bytes : Bytes) :
    (PayloadPointer.block bytes).read bytes.length = some bytes := by
  simp [read]

end PayloadPointer

/-- The fields `payload` and `payloadSize` of a message. -/
structure PayloadBuffer where
  payload : PayloadPointer
  payloadSize : ℕ
  sized : payload.Sized payloadSize

namespace PayloadBuffer

/-- The fields of a message that was created, or copied from one without a payload. -/
def empty : PayloadBuffer := ⟨.null, 0, rfl⟩

/-- A block of its own, as after unpacking: of an empty payload it has no byte, but an address. -/
def ofBytes (bytes : Bytes) : PayloadBuffer := ⟨.block bytes, bytes.length, rfl⟩

/-- `setDxlMessagePayload` -/
def setDxlMessagePayload (b : PayloadBuffer) (buffer : Bytes) : Option PayloadBuffer :=
  match h : b.payload.free with
  | none => none
  -- Without a new block the pointer keeps the old address and the size the old length.
  | some p => some (if buffer.length ≠ 0 then ofBytes buffer else ⟨p, b.payloadSize, b.sized.free h⟩)

/-- `getPayloadStr`: a null pointer is the empty string whatever the size. -/
def getPayloadStr (b : PayloadBuffer) : Option Bytes :=
  match b.payload with
  | .null => some []
  | p => p.read b.payloadSize

/-- What the packer appends: `payloadSize` bytes, and the pointer is not used when there are none. -/
def packPayload (b : PayloadBuffer) : Option Bytes :=
  if b.payloadSize = 0 then some [] else b.payload.read b.payloadSize

/-- The payload of the message as the packer sees it. -/
def toPayload (b : PayloadBuffer) : Payload :=
  match b.payload with
  | .null => .buf []
  | .block bytes => .buf bytes
  | .freed => if b.payloadSize = 0 then .buf [] else .freed b.payloadSize

theorem packPayload_eq (b : PayloadBuffer) :
    b.packPayload = match b.toPayload with
      | .buf bytes => some bytes
      | .freed _ => none := by
  obtain ⟨p, size, hsized⟩ := b
  cases p with
  | null =>
    cases hsized
    rfl
  | block bytes =>
    cases hsized
    rw [packPayload]
    split_ifs with hnil
    · simp [toPayload, List.length_eq_zero_iff.mp hnil]
    · exact PayloadPointer.read_length bytes
  | freed =>
    cases size with
    | zero => rfl
    | succ size => rfl

/-- The getter reads what the packer packs. -/
theorem getPayloadStr_eq_packPayload (b : PayloadBuffer) : b.getPayloadStr = b.packPayload := by
  obtain ⟨p, size, hsized⟩ := b
  cases p with
  | null =>
    cases hsized
    rfl
  | block bytes =>
    cases hsized
    rw [packPayload]
    split_ifs with hnil
    · simp [getPayloadStr, PayloadPointer.read, List.length_eq_zero_iff.mp hnil]
    · rfl
  | freed =>
    cases size with
    | zero => rfl
    | succ size => rfl

theorem getPayloadStr_iff {b : PayloadBuffer} {bytes : Bytes} :
    b.getPayloadStr = some bytes ↔ b.toPayload = .buf bytes := by
  rw [getPayloadStr_eq_packPayload, packPayload_eq]
  cases b.toPayload <;> simp

/-! ### One call -/

theorem set_of_null {b : PayloadBuffer} (h : b.payload = .null) (bytes : Bytes) :
    b.setDxlMessagePayload bytes = some (if bytes = [] then empty else ofBytes bytes) := by
  obtain ⟨p, size, hsized⟩ := b
  cases h
  cases hsized
  cases bytes <;> rfl

theorem set_of_block {b : PayloadBuffer} {old : Bytes} (h : b.payload = .block old)
    (bytes : Bytes) :
    b.setDxlMessagePayload bytes =
      some (if bytes = [] then ⟨.freed, old.length, trivial⟩ else ofBytes bytes) := by
  obtain ⟨p, size, hsized⟩ := b
  cases h
  cases hsized
  cases bytes <;> rfl

theorem set_of_freed {b : PayloadBuffer} (h : b.payload = .freed) (bytes : Bytes) :
    b.setDxlMessagePayload bytes = none := by
  obtain ⟨p, size, hsized⟩ := b
  cases h
  rfl

/-! ### A sequence of calls -/

/-- The calls one after another; there is no result once a block is given back twice. -/
def setPayloads (b : PayloadBuffer) (calls : List Bytes) : Option PayloadBuffer :=
  calls.foldlM setDxlMessagePayload b

end PayloadBuffer

/-- No call hands in the empty string while the message holds a block.  Only for a block without
bytes, as an unpacked empty payload has, may one such call be made, and no other after it. -/
def PayloadPointer.Harmless : PayloadPointer → List Bytes → Prop
  | .null, calls => [] ∉ calls.dropWhile List.isEmpty
  | .block bytes, calls => [] ∉ calls ∨ (bytes = [] ∧ calls = [[]])
  | .freed, _ => False

instance PayloadPointer.decidableHarmless :
    ∀ (p : PayloadPointer) (calls : List Bytes), Decidable (p.Harmless calls)
  | .null, calls => inferInstanceAs (Decidable ([] ∉ calls.dropWhile List.isEmpty))
  | .block bytes, calls => inferInstanceAs (Decidable ([] ∉ calls ∨ (bytes = [] ∧ calls = [[]])))
  | .freed, _ => inferInstanceAs (Decidable False)

namespace PayloadBuffer

/-- After the calls the getter gives the string of the last one. -/
def GetsLast (b : PayloadBuffer) (calls : List Bytes) (last : Bytes) : Prop :=
  ∃ b', b.setPayloads (calls ++ [last]) = some b' ∧ b'.getPayloadStr = some last

theorem getPayloadStr_ofBytes (bytes : Bytes) : (ofBytes bytes).getPayloadStr = some bytes :=
  getPayloadStr_iff.mpr rfl

/-- A single call. -/
theorem getsLast_nil (b : PayloadBuffer) (last : Bytes) :
    b.GetsLast [] last ↔ b.payload.Harmless [last] := by
  have hrun : b.setPayloads ([] ++ [last]) = b.setDxlMessagePayload last := by
    simp [setPayloads]
  rw [GetsLast, hrun]
  cases hp : b.payload with
  | null =>
    rw [set_of_null hp]
    by_cases hlast : last = []
    · subst hlast
      simp [PayloadPointer.Harmless, empty, getPayloadStr]
    · simp [PayloadPointer.Harmless, hlast, getPayloadStr_ofBytes, Ne.symm hlast]
  | block old =>
    rw [set_of_block hp]
    by_cases hlast : last = []
    · subst hlast
      cases old <;> simp [PayloadPointer.Harmless, getPayloadStr, PayloadPointer.read]
    · simp [PayloadPointer.Harmless, hlast, getPayloadStr_ofBytes, Ne.symm hlast]
  | freed => simp [PayloadPointer.Harmless, set_of_freed hp]

/-- A call that others follow. -/
theorem harmless_cons (b : PayloadBuffer) (bytes : Bytes) {calls : List Bytes} (hne : calls ≠ []) :
    b.payload.Harmless (bytes :: calls) ↔
      ∃ b', b.setDxlMessagePayload bytes = some b' ∧ b'.payload.Harmless calls := by
  cases hp : b.payload with
  | null =>
    rw [set_of_null hp]
    by_cases hbytes : bytes = []
    · simp [hbytes, PayloadPointer.Harmless, empty]
    · simp [hbytes, PayloadPointer.Harmless, ofBytes, Ne.symm hbytes]
  | block old =>
    rw [set_of_block hp]
    by_cases hbytes : bytes = []
    -- The block was given back, and a call follows.
    · simp [hbytes, PayloadPointer.Harmless, hne]
    · simp [hbytes, PayloadPointer.Harmless, ofBytes, Ne.symm hbytes]
  | freed => simp [PayloadPointer.Harmless, set_of_freed hp]

theorem getsLast_cons (b : PayloadBuffer) (bytes : Bytes) (calls : List Bytes) (last : Bytes) :
    b.GetsLast (bytes :: calls) last ↔
      ∃ b', b.setDxlMessagePayload bytes = some b' ∧ b'.GetsLast calls last := by
  simp only [GetsLast, setPayloads, List.cons_append, List.foldlM_cons, Option.bind_eq_bind]
  cases b.setDxlMessagePayload bytes <;> simp

/-- The getter keeps the law on the harmless sequences and on no other. -/
theorem getsLast_iff (b : PayloadBuffer) (calls : List Bytes) (last : Bytes) :
    b.GetsLast calls last ↔ b.payload.Harmless (calls ++ [last]) := by
  induction calls generalizing b with
  | nil => exact getsLast_nil b last
  | cons bytes calls ih =>
    rw [getsLast_cons, List.cons_append, harmless_cons b bytes (by simp)]
    simp only [ih]

end PayloadBuffer

/-! ### The payload in the bytes -/

section Decoding

variable {c : Codec}

/-- The unpacker takes the length of the payload from its header. -/
theorem unpackRaw_raw32 (hc : c.Lawful32) (b rest : Bytes) :
    orBadData (unpackRaw c) (c.raw b ++ rest) =
      .ok (b.take (b.length % 2 ^ 32), b.drop (b.length % 2 ^ 32) ++ rest) := by
  have h : unpackNext c (c.raw b ++ rest) =
      .ok (.str (b.take (b.length % 2 ^ 32)), b.drop (b.length % 2 ^ 32) ++ rest) := by
    rw [unpackNext, hc.next_raw]
  exact orBadData_ok (unpack_bind h)

theorem unpackMessage_of_decoded {b : Bytes} {m : DxlMessageT}
    (h : createDxlMessageFromBytes c b = .ok m) : ∃ rest, unpackMessage c b = .ok (m, rest) := by
  rw [createDxlMessageFromBytes] at h
  cases hr : unpackMessage c b with
  | error e =>
    rw [hr] at h
    cases h
  | ok r =>
    rw [hr] at h
    cases h
    exact ⟨r.2, rfl⟩

/-- A decoded payload is as long as the header says. -/
theorem payload_of_decoded (hc : c.Lawful32) {m m' : DxlMessageT} {strip : Bool}
    {payload bytes : Bytes} (hp : m.payload = .buf payload)
    (hm : (m.strip strip).Fits (· < 2 ^ 32)) (hbytes : dxlMessageToBytes c m strip = some bytes)
    (h : createDxlMessageFromBytes c bytes = .ok m') :
    m'.payload = .buf (payload.take (payload.length % 2 ^ 32)) := by
  rw [dxlMessageToBytes, hp] at hbytes
  cases hbytes
  obtain ⟨last, hr⟩ := unpackMessage_of_decoded h
  obtain ⟨v, b1, hv, hr⟩ := unpack_bind_eq_ok hr
  obtain ⟨m0, b2, h0, hr⟩ := unpack_bind_eq_ok hr
  obtain ⟨m1, b3, h1, hr⟩ := unpack_bind_eq_ok hr
  obtain ⟨m2, b4, h2, hr⟩ := unpack_bind_eq_ok hr
  rw [unpackUInt32_packInt hc.lawfulOn] at hv
  cases hv
  have hclients : FitsArray (· < 2 ^ 32) (if strip then [] else m.clientGuids) := hm.clientGuids
  have hpayload : m0.payload = .buf (payload.take (payload.length % 2 ^ 32)) := by
    rw [@unpackVersion0_payload c _ hc.lawfulOn m _ hm.messageId hm.sourceClientId
      hm.sourceBrokerGuid hm.brokerGuids hclients, unpack_bind (unpackRaw_raw32 hc _ _)] at h0
    obtain ⟨d, b', -, h0⟩ := unpack_bind_eq_ok h0
    cases h0
    rfl
  -- What follows a cut payload may be misread, but the payload is not written again.
  obtain ⟨o, rfl, -⟩ := unpackVersion1_spec h1
  obtain ⟨s, t, rfl, -⟩ := unpackVersion2_spec h2
  obtain ⟨i, rfl, -⟩ := unpackVersion3_spec hr
  exact hpayload

variable {fits : ℕ → Prop}

theorem unpackVersion1_total (hc : c.LawfulOn fits) {l : List Bytes} (hl : FitsArray fits l)
    (v : UInt32) (m : DxlMessageT) (rest : Bytes) :
    ∃ m', unpackVersion1 c v m ((if 0 < v then packStringArray c l else []) ++ rest) =
      .ok (m', rest) := by
  rw [unpackVersion1]
  split_ifs
  · rw [unpack_bind (unpackStringArray_packStringArray_of_fits hc hl _), unpack_pure]
    exact ⟨_, rfl⟩
  · exact ⟨m, rfl⟩

theorem unpackVersion2_total (hc : c.LawfulOn fits) {s : Bytes} {l : List Bytes}
    (hs : FitsString fits s) (hl : FitsArray fits l) (v : UInt32) (m : DxlMessageT)
    (rest : Bytes) :
    ∃ m', unpackVersion2 c v m
      ((if 1 < v then packString c s ++ packStringArray c l else []) ++ rest) = .ok (m', rest) := by
  rw [unpackVersion2]
  split_ifs
  · rw [List.append_assoc, unpack_bind (unpackRaw_packString_of_fits hc hs _),
      unpack_bind (unpackStringArray_packStringArray_of_fits hc hl _), unpack_pure]
    exact ⟨_, rfl⟩
  · exact ⟨m, rfl⟩

theorem unpackVersion3_total (hc : c.LawfulOn fits) {s : Bytes} (hs : FitsString fits s)
    (v : UInt32) (m : DxlMessageT) :
    ∃ m', unpackVersion3 c v m (if 2 < v then packString c s else []) = .ok (m', []) := by
  rw [unpackVersion3]
  split_ifs
  · have hread := unpackRaw_packString_of_fits hc hs []
    rw [List.append_nil] at hread
    rw [unpack_bind hread, unpack_pure]
    exact ⟨_, rfl⟩
  · exact ⟨m, rfl⟩

/-- A message whose strings, arrays and payload fit is decoded, whatever its version. -/
theorem decoded_of_fits (hc : c.LawfulOn fits) {m : DxlMessageT} {strip : Bool}
    {payload bytes : Bytes} (hp : m.payload = .buf payload) (hm : (m.strip strip).Fits fits)
    (hfits : fits payload.length) (hbytes : dxlMessageToBytes c m strip = some bytes) :
    ∃ m', createDxlMessageFromBytes c bytes = .ok m' := by
  rw [dxlMessageToBytes, hp] at hbytes
  cases hbytes
  obtain ⟨m1, h1⟩ := unpackVersion1_total hc hm.otherFields m.version
    { createDxlMessage m.messageType m.sourceClientId [] m.messageId with
      sourceBrokerGuid := cstr m.sourceBrokerGuid
      brokerGuids := m.brokerGuids.map cstr
      clientGuids := (m.strip strip).clientGuids.map cstr
      payload := .buf payload
      specificData := m.specificData.norm } _
  obtain ⟨m2, h2⟩ := unpackVersion2_total hc hm.sourceTenantGuid hm.tenantGuids m.version m1 _
  obtain ⟨m3, h3⟩ := unpackVersion3_total hc hm.sourceClientInstanceId m.version m2
  have hclients : FitsArray fits (if strip then [] else m.clientGuids) := hm.clientGuids
  refine ⟨m3, ?_⟩
  rw [createDxlMessageFromBytes, unpackMessage, unpack_bind (unpackUInt32_packInt hc _ _),
    unpack_bind ?_, unpack_bind h1, unpack_bind h2, h3]
  · rfl
  · rw [@unpackVersion0_payload c _ hc m _ hm.messageId hm.sourceClientId hm.sourceBrokerGuid
      hm.brokerGuids hclients, unpack_bind (unpackRaw_raw_of_fits hc hfits _),
      DxlMessageT.messageType,
      unpack_bind (@unpackSpecificData_packSpecificData c _ hc m.specificData hm.specificData _),
      unpack_pure]
    rfl

end Decoding

/-! ### The message -/

/-- A message and the fields that hold its payload. -/
structure BufferedMessage where
  message : DxlMessage
  buffer : PayloadBuffer
  agrees : message.msg.payload = buffer.toPayload

/-- A call does to the fields what `setPayload` does to the payload of the message. -/
theorem PayloadBuffer.toPayload_set {b b' : PayloadBuffer} {bytes : Bytes} {m : DxlMessage}
    (hm : m.msg.payload = b.toPayload) (h : b.setDxlMessagePayload bytes = some b') :
    (m.setPayload bytes).msg.payload = b'.toPayload := by
  rw [DxlMessage.setPayload, hm]
  cases hp : b.payload with
  | null =>
    rw [set_of_null hp] at h
    cases h
    have hold : b.toPayload = .buf [] := by rw [toPayload, hp]
    rw [hold]
    by_cases hbytes : bytes = []
    · simp [hbytes, empty, toPayload]
    · simp [hbytes, ofBytes, toPayload]
  | block old =>
    rw [set_of_block hp] at h
    cases h
    have hold : b.toPayload = .buf old := by rw [toPayload, hp]
    rw [hold]
    by_cases hbytes : bytes = []
    · cases old <;> simp [hbytes, toPayload]
    · simp [hbytes, ofBytes, toPayload]
  | freed => rw [set_of_freed hp] at h; cases h

namespace BufferedMessage

/-- `DxlMessage::setPayload` -/
def setPayload (m : BufferedMessage) (bytes : Bytes) : Option BufferedMessage :=
  match h : m.buffer.setDxlMessagePayload bytes with
  | none => none
  | some buffer => some ⟨m.message.setPayload bytes, buffer, PayloadBuffer.toPayload_set m.agrees h⟩

def setPayloads (m : BufferedMessage) (calls : List Bytes) : Option BufferedMessage :=
  calls.foldlM setPayload m

/-- `DxlMessage::getPayloadStr` -/
def getPayloadStr (m : BufferedMessage) : Option Bytes := m.buffer.getPayloadStr

theorem setPayload_spec {m m' : BufferedMessage} {bytes : Bytes} (h : m.setPayload bytes = some m') :
    m.buffer.setDxlMessagePayload bytes = some m'.buffer ∧
      m'.message = m.message.setPayload bytes := by
  unfold setPayload at h
  split at h
  · cases h
  · cases h
    exact ⟨by assumption, rfl⟩

theorem setPayload_of_buffer {m : BufferedMessage} {bytes : Bytes} {b : PayloadBuffer}
    (h : m.buffer.setDxlMessagePayload bytes = some b) :
    ∃ m', m.setPayload bytes = some m' ∧ m'.buffer = b := by
  unfold setPayload
  split
  · rename_i hnone
    rw [h] at hnone
    cases hnone
  · rename_i buffer hsome
    rw [h] at hsome
    cases hsome
    exact ⟨_, rfl, rfl⟩

theorem onPreToBytes_setPayload (order : IterOrder (Bytes × Bytes)) (m : DxlMessage)
    (bytes : Bytes) :
    ((m.setPayload bytes).onPreToBytes order).msg =
      { (m.onPreToBytes order).msg with payload := (m.setPayload bytes).msg.payload } := by
  unfold DxlMessage.onPreToBytes
  have hpending : (m.setPayload bytes).otherFieldsPending = m.otherFieldsPending := rfl
  have hfields : (m.setPayload bytes).otherFields = m.otherFields := rfl
  rw [hpending, hfields]
  cases m.otherFieldsPending with
  | false => rfl
  | true =>
    cases m.otherFields with
    | none => rfl
    | some fields =>
      by_cases hlen : 0 < fields.pairs.length
      · simp only [if_true, if_pos hlen]
        rfl
      · simp only [if_true, if_neg hlen]
        rfl

theorem setPayloads_cons (m : BufferedMessage) (bytes : Bytes) (calls : List Bytes) :
    m.setPayloads (bytes :: calls) = (m.setPayload bytes).bind (setPayloads · calls) := by
  simp only [setPayloads, List.foldlM_cons, Option.bind_eq_bind]

theorem setPayloads_buffer {m m' : BufferedMessage} {calls : List Bytes}
    (h : m.setPayloads calls = some m') : m.buffer.setPayloads calls = some m'.buffer := by
  induction calls generalizing m with
  | nil =>
    cases h
    rfl
  | cons bytes calls ih =>
    rw [setPayloads_cons] at h
    obtain ⟨m1, h1, h⟩ := Option.bind_eq_some_iff.mp h
    simp only [PayloadBuffer.setPayloads, List.foldlM_cons, (setPayload_spec h1).1]
    exact ih h

theorem setPayloads_of_buffer {m : BufferedMessage} {calls : List Bytes} {b : PayloadBuffer}
    (h : m.buffer.setPayloads calls = some b) :
    ∃ m', m.setPayloads calls = some m' ∧ m'.buffer = b := by
  induction calls generalizing m with
  | nil =>
    cases h
    exact ⟨m, rfl, rfl⟩
  | cons bytes calls ih =>
    simp only [PayloadBuffer.setPayloads, List.foldlM_cons, Option.bind_eq_bind] at h
    obtain ⟨b1, h1, h⟩ := Option.bind_eq_some_iff.mp h
    obtain ⟨m1, hm1, rfl⟩ := setPayload_of_buffer h1
    obtain ⟨m', hm', rfl⟩ := ih h
    refine ⟨m', ?_, rfl⟩
    rw [setPayloads_cons, hm1]
    exact hm'

/-- Apart from the payload the message is packed as before the calls. -/
theorem setPayloads_packed (order : IterOrder (Bytes × Bytes)) {m m' : BufferedMessage}
    {calls : List Bytes} (h : m.setPayloads calls = some m') :
    ∃ payload, (m'.message.onPreToBytes order).msg =
      { (m.message.onPreToBytes order).msg with payload := payload } := by
  induction calls generalizing m with
  | nil =>
    cases h
    exact ⟨_, rfl⟩
  | cons bytes calls ih =>
    rw [setPayloads_cons] at h
    obtain ⟨m1, h1, h⟩ := Option.bind_eq_some_iff.mp h
    obtain ⟨payload, hpayload⟩ := ih h
    refine ⟨payload, ?_⟩
    rw [hpayload, (setPayload_spec h1).2, onPreToBytes_setPayload]

/-! ### The payload law -/

/-- The getter gives `bytes`. -/
def Gets (m : BufferedMessage) (bytes : Bytes) : Prop := m.getPayloadStr = some bytes

/-- The encoding of the message is decoded to a message with the payload `bytes`. -/
def Decodes (c : Codec) (order : IterOrder (Bytes × Bytes)) (strip : Bool) (m : BufferedMessage)
    (bytes : Bytes) : Prop :=
  ∃ encoding m', (m.message.toBytes c order strip).2 = some encoding ∧
    DxlMessage.fromBytes c encoding = .ok m' ∧ m'.getPayloadStr = bytes

/-- After the calls both yield the string of the last one. -/
def PayloadLaw (c : Codec) (order : IterOrder (Bytes × Bytes)) (strip : Bool) (m : BufferedMessage)
    (calls : List Bytes) (last : Bytes) : Prop :=
  ∃ m', m.setPayloads (calls ++ [last]) = some m' ∧ m'.Gets last ∧ m'.Decodes c order strip last

/-- Every string and array of the message that is packed is shorter than `2 ^ 32`. -/
def FitsFormat (order : IterOrder (Bytes × Bytes)) (strip : Bool) (m : BufferedMessage) : Prop :=
  ((m.message.onPreToBytes order).msg.strip strip).Fits (· < 2 ^ 32)

theorem FitsFormat.of_calls {order : IterOrder (Bytes × Bytes)} {strip : Bool}
    {m m' : BufferedMessage} {calls : List Bytes} (hm : m.FitsFormat order strip)
    (h : m.setPayloads calls = some m') : m'.FitsFormat order strip := by
  obtain ⟨payload, hpayload⟩ := setPayloads_packed order h
  rw [FitsFormat, hpayload]
  exact ⟨hm.messageId, hm.sourceClientId, hm.sourceBrokerGuid, hm.brokerGuids, hm.clientGuids,
    hm.specificData, hm.otherFields, hm.sourceTenantGuid, hm.tenantGuids,
    hm.sourceClientInstanceId⟩

theorem exists_gets_iff (m : BufferedMessage) (calls : List Bytes) (last : Bytes) :
    (∃ m', m.setPayloads (calls ++ [last]) = some m' ∧ m'.Gets last) ↔
      m.buffer.GetsLast calls last := by
  constructor
  · rintro ⟨m', hrun, hget⟩
    exact ⟨m'.buffer, setPayloads_buffer hrun, hget⟩
  · rintro ⟨b, hrun, hget⟩
    obtain ⟨m', hm', rfl⟩ := setPayloads_of_buffer hrun
    exact ⟨m', hm', hget⟩

/-- A message that fits is decoded to its payload when the payload is shorter than `2 ^ 32`, and to
a shorter one or not at all when it is not. -/
theorem decodes_iff {c : Codec} (hc : c.Lawful32) {order : IterOrder (Bytes × Bytes)} {strip : Bool}
    {m : BufferedMessage} (hm : m.FitsFormat order strip) {bytes : Bytes} (hget : m.Gets bytes) :
    m.Decodes c order strip bytes ↔ bytes.length < 2 ^ 32 := by
  have hpayload : (m.message.onPreToBytes order).msg.payload = .buf bytes := by
    obtain ⟨fields, hfields⟩ := m.message.onPreToBytes_msg order
    rw [hfields]
    exact m.agrees.trans (PayloadBuffer.getPayloadStr_iff.mp hget)
  constructor
  · rintro ⟨encoding, m', hencode, hdecode, hread⟩
    by_contra hlen
    rw [DxlMessage.fromBytes] at hdecode
    cases hdec : createDxlMessageFromBytes c encoding with
    | error e =>
      rw [hdec] at hdecode
      cases hdecode
    | ok d =>
      rw [hdec] at hdecode
      cases hdecode
      have hcut := payload_of_decoded hc hpayload hm hencode hdec
      rw [DxlMessage.getPayloadStr] at hread
      simp only [hcut] at hread
      have hlength := congrArg List.length hread
      rw [List.length_take] at hlength
      omega
  · intro hlen
    obtain ⟨encoding, hencode⟩ : ∃ encoding,
        dxlMessageToBytes c (m.message.onPreToBytes order).msg strip = some encoding := by
      rw [dxlMessageToBytes, hpayload]
      exact ⟨_, rfl⟩
    obtain ⟨d, hdec⟩ := decoded_of_fits hc.lawfulOn hpayload hm hlen hencode
    refine ⟨encoding, { msg := d }, hencode, ?_, ?_⟩
    · rw [DxlMessage.fromBytes, hdec]
      rfl
    · have hcut := payload_of_decoded hc hpayload hm hencode hdec
      rw [Nat.mod_eq_of_lt hlen, List.take_length] at hcut
      rw [DxlMessage.getPayloadStr]
      simp only [hcut]

theorem PayloadLaw.gets {c : Codec} {order : IterOrder (Bytes × Bytes)} {strip : Bool}
    {m : BufferedMessage} {calls : List Bytes} {last : Bytes}
    (h : m.PayloadLaw c order strip calls last) :
    ∃ m', m.setPayloads (calls ++ [last]) = some m' ∧ m'.Gets last := by
  obtain ⟨m', hrun, hget, -⟩ := h
  exact ⟨m', hrun, hget⟩

/-- The getter keeps the law exactly on the harmless sequences, and the encoding of a message whose
other fields fit keeps it for a last string that fits too. -/
theorem payloadLaw_iff {c : Codec} (hc : c.Lawful32) (order : IterOrder (Bytes × Bytes))
    (strip : Bool) (m : BufferedMessage) (calls : List Bytes) (last : Bytes) :
    ((∃ m', m.setPayloads (calls ++ [last]) = some m' ∧ m'.Gets last) ↔
      m.buffer.payload.Harmless (calls ++ [last])) ∧
    (m.FitsFormat order strip →
      (m.PayloadLaw c order strip calls last ↔
        m.buffer.payload.Harmless (calls ++ [last]) ∧ last.length < 2 ^ 32)) := by
  have hgets := (exists_gets_iff m calls last).trans (m.buffer.getsLast_iff calls last)
  -- The calls leave alone what else is packed, so that the message still fits after them.
  refine ⟨hgets, fun hm => ⟨?_, ?_⟩⟩
  · rintro ⟨m', hrun, hget, hdecode⟩
    exact ⟨hgets.mp ⟨m', hrun, hget⟩, (decodes_iff hc (hm.of_calls hrun) hget).mp hdecode⟩
  · rintro ⟨hharmless, hlen⟩
    obtain ⟨m', hrun, hget⟩ := hgets.mpr hharmless
    exact ⟨m', hrun, hget, (decodes_iff hc (hm.of_calls hrun) hget).mpr hlen⟩

/-- An event that was just created. -/
def createdEvent : BufferedMessage :=
  ⟨{ msg := createDxlMessage .event (lit "client") (lit "client") (lit "id") }, .empty, rfl⟩

theorem createdEvent_fits : createdEvent.FitsFormat (.asListed _) false where
  messageId := by decide
  sourceClientId := by decide
  sourceBrokerGuid := by decide
  brokerGuids := by decide
  clientGuids := by decide
  specificData := trivial
  otherFields := by decide
  sourceTenantGuid := by decide
  tenantGuids := by decide
  sourceClientInstanceId := by decide

/-- An empty payload, then two others. -/
theorem payloadLaw_createdEvent :
    createdEvent.PayloadLaw msgpackC (.asListed _) false [[], lit "one"] (lit "two") :=
  ((payloadLaw_iff msgpackC_lawful32 (.asListed _) false createdEvent [[], lit "one"]
    (lit "two")).2 createdEvent_fits).mpr ⟨by decide, by decide⟩

/-- An empty payload that replaces another: the getter and the packer would read the byte of the
block that was given back. -/
theorem not_payloadLaw_emptied :
    ¬ ∀ (m : BufferedMessage) (calls : List Bytes) (last : Bytes),
      m.PayloadLaw msgpackC (.asListed _) false calls last := by
  intro h
  have hharmless := (createdEvent.buffer.getsLast_iff [lit "x"] []).mp
    ((exists_gets_iff _ _ _).mp (h createdEvent [lit "x"] []).gets)
  revert hharmless
  decide

end BufferedMessage

end DxlBroker
