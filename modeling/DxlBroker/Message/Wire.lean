import DxlBroker.Lib.Msgpack

/-!
# The wire format of DXL messages

`DxlMessageT` is the `dxl_message_t` structure, `createDxlMessage` its constructor, and
`dxlMessageToBytes` / `createDxlMessageFromBytes` the hand-written packer and unpacker.  Strings
are the buffers the structure points to; the packer writes each of them up to its first NUL.

A message has the fields of four layouts.  The packer writes the layout of its `version` field;
the unpacker reads the layout the bytes declare and always promotes the message to version 3.
-/

namespace DxlBroker

open Bytes Msgpack

/-- `dxl_message_error_t` without the success value. -/
inductive DxlMessageError
  | initFailed
  | invalidOpForMessageType
  | notImplemented
  | badData
  | wrongMessageType
  | noMemory
  | invalidParams
  deriving DecidableEq, Repr

/-- `dxl_message_type_t`. -/
inductive DxlMessageType
  | request
  | response
  | event
  | responseError
  deriving DecidableEq, Repr

/-- The number of a message type on the wire. -/
def DxlMessageType.code : DxlMessageType → ℤ
  | .request => 0
  | .response => 1
  | .event => 2
  | .responseError => 3

/-- The type check of the unpacker. -/
def DxlMessageType.ofCode (i : Int32) : Option DxlMessageType :=
  if i = 0 then some .request
  else if i = 1 then some .response
  else if i = 2 then some .event
  else if i = 3 then some .responseError
  else none

/-- The type-specific part of a message (a union tagged by the message type). -/
inductive SpecificData
  | requestData (replyToTopic serviceInstanceId : Bytes)
  | responseData (requestMessageId serviceInstanceId : Bytes)
  | eventData
  | responseErrorData (requestMessageId serviceInstanceId errorMessage : Bytes) (code : Int32)
  deriving DecidableEq

/-- The payload pointer and size.  `freed n` is a pointer to memory that was given back while
the size field still says `n`. -/
inductive Payload
  | buf (b : Bytes)
  | freed (size : ℕ)
  deriving DecidableEq

/-- `dxl_message_t`. -/
structure DxlMessageT where
  version : UInt32
  messageId : Bytes
  sourceClientId : Bytes
  sourceBrokerGuid : Bytes
  brokerGuids : List Bytes
  clientGuids : List Bytes
  payload : Payload
  specificData : SpecificData
  otherFields : List Bytes
  sourceTenantGuid : Bytes
  tenantGuids : List Bytes
  sourceClientInstanceId : Bytes
  deriving DecidableEq

/-- The tag of the union. -/
def SpecificData.messageType : SpecificData → DxlMessageType
  | .requestData .. => .request
  | .responseData .. => .response
  | .eventData => .event
  | .responseErrorData .. => .responseError

/-- The type of a message. -/
def DxlMessageT.messageType (m : DxlMessageT) : DxlMessageType := m.specificData.messageType

/-- All messages are promoted to this version. -/
def dxlMsgVersion : UInt32 := 3

/-- `createDxlMessage` with a given message id: everything else takes its default. -/
def createDxlMessage (type : DxlMessageType) (clientId clientInstanceId messageId : Bytes) :
    DxlMessageT where
  version := dxlMsgVersion
  messageId := cstr messageId
  sourceClientId := cstr clientId
  sourceBrokerGuid := []
  brokerGuids := []
  clientGuids := []
  payload := .buf []
  specificData := match type with
    | .request => .requestData [] []
    | .response => .responseData [] []
    | .event => .eventData
    | .responseError => .responseErrorData [] [] [] 0
  otherFields := []
  sourceTenantGuid := []
  tenantGuids := []
  sourceClientInstanceId := cstr clientInstanceId

/-! ### Packing -/

/-- `strlen`, a raw header and the string's body. -/
def packString (c : Codec) (s : Bytes) : Bytes := c.raw (cstr s)

/-- A counted array of strings. -/
def packStringArray (c : Codec) (l : List Bytes) : Bytes :=
  c.packArray l.length ++ l.flatMap (packString c)

/-- The fields that depend on the message type. -/
def packSpecificData (c : Codec) : SpecificData → Bytes
  | .requestData replyTo service => packString c replyTo ++ packString c service
  | .responseData request service => packString c request ++ packString c service
  | .eventData => []
  | .responseErrorData request service error code =>
      packString c request ++ (packString c service ++ (c.packInt code.toInt ++ packString c error))

/-- `dxlMessageToBytes`.  There is no result when the payload pointer is dangling. -/
def dxlMessageToBytes (c : Codec) (m : DxlMessageT) (stripClientGuids : Bool) : Option Bytes :=
  match m.payload with
  | .freed _ => none
  | .buf payload => some <|
      -- Version 0
      c.packInt m.version.toInt32.toInt ++ (c.packInt m.messageType.code ++
      (packString c m.messageId ++ (packString c m.sourceClientId ++
      (packString c m.sourceBrokerGuid ++ (packStringArray c m.brokerGuids ++
      (packStringArray c (if stripClientGuids then [] else m.clientGuids) ++
      (c.raw payload ++ (packSpecificData c m.specificData ++
      -- Version 1
      ((if 0 < m.version then packStringArray c m.otherFields else []) ++
      -- Version 2
      ((if 1 < m.version then
          packString c m.sourceTenantGuid ++ packStringArray c m.tenantGuids else []) ++
      -- Version 3
      (if 2 < m.version then packString c m.sourceClientInstanceId else [])))))))))))

/-! ### Unpacking -/

/-- The unpacker state is the rest of the buffer. -/
abbrev Unpack := StateT Bytes (Except DxlMessageError)

/-- `msgpack_unpacker_next`. -/
def unpackNext (c : Codec) : Unpack Obj := fun b =>
  match c.next b with
  | some r => .ok r
  | none => .error .initFailed

/-- `unpackUInt32`: the 64-bit integer is cut to 32 bits. -/
def unpackUInt32 (c : Codec) : Unpack UInt32 := do
  match ← unpackNext c with
  | .int i => return UInt32.ofInt i
  | _ => throw .badData

/-- `unpackInt`. -/
def unpackInt (c : Codec) : Unpack Int32 := do
  match ← unpackNext c with
  | .int i => return Int32.ofInt i
  | _ => throw .badData

/-- `unpackRaw`: a string or binary object, copied into a buffer of its own. -/
def unpackRaw (c : Codec) : Unpack Bytes := do
  match ← unpackNext c with
  | .str b => return b
  | .bin b => return b
  | _ => throw .badData

/-- One element of `unpackStringArray`. -/
def stringElement : Obj → Except DxlMessageError Bytes
  | .str b => .ok b
  | .bin b => .ok b
  | _ => .error .badData

/-- `unpackStringArray`. -/
def unpackStringArray (c : Codec) : Unpack (List Bytes) := do
  match ← unpackNext c with
  | .array xs => liftM (xs.mapM stringElement)
  | _ => throw .badData

/-- The unpacker reports every failed read as bad data. -/
def orBadData {α : Type} (x : Unpack α) : Unpack α := fun b => (x b).mapError fun _ => .badData

/-- The fields that depend on the message type. -/
def unpackSpecificData (c : Codec) : DxlMessageType → Unpack SpecificData
  | .request => do
      let replyTo ← orBadData (unpackRaw c)
      let service ← orBadData (unpackRaw c)
      return .requestData replyTo service
  | .response => do
      let request ← orBadData (unpackRaw c)
      let service ← orBadData (unpackRaw c)
      return .responseData request service
  | .event => return .eventData
  | .responseError => do
      let request ← orBadData (unpackRaw c)
      let service ← orBadData (unpackRaw c)
      let code ← orBadData (unpackInt c)
      let error ← orBadData (unpackRaw c)
      return .responseErrorData request service error code

/-- The fields added by version 1. -/
def unpackVersion1 (c : Codec) (version : UInt32) (m : DxlMessageT) : Unpack DxlMessageT :=
  if 0 < version then do
    let otherFields ← orBadData (unpackStringArray c)
    return { m with otherFields := otherFields }
  else return m

/-- The fields added by version 2. -/
def unpackVersion2 (c : Codec) (version : UInt32) (m : DxlMessageT) : Unpack DxlMessageT :=
  if 1 < version then do
    let sourceTenantGuid ← orBadData (unpackRaw c)
    let tenantGuids ← orBadData (unpackStringArray c)
    return { m with sourceTenantGuid := sourceTenantGuid, tenantGuids := tenantGuids }
  else return m

/-- The fields added by version 3. -/
def unpackVersion3 (c : Codec) (version : UInt32) (m : DxlMessageT) : Unpack DxlMessageT :=
  if 2 < version then do
    let sourceClientInstanceId ← orBadData (unpackRaw c)
    return { m with sourceClientInstanceId := sourceClientInstanceId }
  else return m

/-- The fields of version 0 after the version number. -/
def unpackVersion0 (c : Codec) : Unpack DxlMessageT := do
  let code ← orBadData (unpackInt c)
  match DxlMessageType.ofCode code with
  | none => throw .badData
  | some type =>
    let messageId ← orBadData (unpackRaw c)
    let clientId ← orBadData (unpackRaw c)
    let sourceBrokerGuid ← orBadData (unpackRaw c)
    let brokerGuids ← orBadData (unpackStringArray c)
    let clientGuids ← orBadData (unpackStringArray c)
    let payload ← orBadData (unpackRaw c)
    let specificData ← unpackSpecificData c type
    return { createDxlMessage type clientId [] messageId with
      sourceBrokerGuid := sourceBrokerGuid
      brokerGuids := brokerGuids
      clientGuids := clientGuids
      payload := .buf payload
      specificData := specificData }

/-- The reads of `createDxlMessageFromBytes`, in order. -/
def unpackMessage (c : Codec) : Unpack DxlMessageT := do
  let version ← orBadData (unpackUInt32 c)
  let m ← unpackVersion0 c
  let m ← unpackVersion1 c version m
  let m ← unpackVersion2 c version m
  unpackVersion3 c version m

/-- `createDxlMessageFromBytes`: bytes after the last field are ignored. -/
def createDxlMessageFromBytes (c : Codec) (bytes : Bytes) : Except DxlMessageError DxlMessageT :=
  (unpackMessage c bytes).map Prod.fst

/-! ### Reading back what was packed -/

theorem ofInt_toInt_toInt32 (v : UInt32) : UInt32.ofInt v.toInt32.toInt = v := by
  have hv : v.toInt32.toInt = (v.toNat : ℤ).bmod (2 ^ 32) := by
    show v.toInt32.toBitVec.toInt = _
    rw [BitVec.toInt_eq_toNat_bmod]
    rfl
  apply UInt32.toNat_inj.mp
  rw [UInt32.ofInt, hv]
  have h : ((v.toNat : ℤ).bmod (2 ^ 32)) % 2 ^ 32 = (v.toNat : ℤ) % 2 ^ 32 := by
    rw [show ((2 : ℤ) ^ 32) = ((2 ^ 32 : ℕ) : ℤ) by norm_cast, Int.bmod_emod]
  have hlt := v.toNat_lt
  rw [h, Int.emod_eq_of_lt (by omega) (by omega)]
  simp

/-- A read that succeeds hands its value and the rest of the buffer on. -/
theorem unpack_bind {α β : Type} {x : Unpack α} {f : α → Unpack β} {a : α} {b b' : Bytes}
    (h : x b = .ok (a, b')) : (x >>= f) b = f a b' := by
  simp only [bind, StateT.bind, h, Except.bind]

theorem unpack_pure {α : Type} (a : α) (b : Bytes) : (pure a : Unpack α) b = .ok (a, b) := rfl

theorem orBadData_ok {α : Type} {x : Unpack α} {r : α × Bytes} {b : Bytes}
    (h : x b = .ok r) : orBadData x b = .ok r := by
  rw [orBadData, h]
  rfl

theorem mapM_stringElement (l : List Bytes) : (l.map Obj.str).mapM stringElement = .ok l := by
  induction l with
  | nil => rfl
  | cons s l ih => simp [stringElement, ih, bind, Except.bind, pure, Except.pure]

/-- A string whose C string has a length in `fits`. -/
def FitsString (fits : ℕ → Prop) (s : Bytes) : Prop := fits (cstr s).length

/-- An array of such strings, its count in `fits` as well. -/
def FitsArray (fits : ℕ → Prop) (l : List Bytes) : Prop :=
  fits l.length ∧ ∀ s ∈ l, FitsString fits s

instance {fits : ℕ → Prop} [DecidablePred fits] (s : Bytes) : Decidable (FitsString fits s) :=
  inferInstanceAs (Decidable (fits (cstr s).length))

instance {fits : ℕ → Prop} [DecidablePred fits] (l : List Bytes) : Decidable (FitsArray fits l) :=
  inferInstanceAs (Decidable (fits l.length ∧ ∀ s ∈ l, FitsString fits s))

section LawfulOn

variable {c : Codec} {fits : ℕ → Prop} (hc : c.LawfulOn fits)
include hc

theorem unpackRaw_raw_of_fits {b : Bytes} (hb : fits b.length) (rest : Bytes) :
    orBadData (unpackRaw c) (c.raw b ++ rest) = .ok (b, rest) := by
  have h : unpackNext c (c.raw b ++ rest) = .ok (.str b, rest) := by
    rw [unpackNext, hc.next_raw b rest hb]
  exact orBadData_ok (unpack_bind h)

theorem unpackRaw_packString_of_fits {s : Bytes} (hs : FitsString fits s) (rest : Bytes) :
    orBadData (unpackRaw c) (packString c s ++ rest) = .ok (cstr s, rest) :=
  unpackRaw_raw_of_fits hc hs rest

theorem unpackNext_packInt {i : ℤ} (rest : Bytes) (hlo : -2 ^ 31 ≤ i) (hhi : i < 2 ^ 31) :
    unpackNext c (c.packInt i ++ rest) = .ok (.int i, rest) := by
  rw [unpackNext, hc.next_int i rest hlo hhi]

theorem unpackInt_packInt (i : Int32) (rest : Bytes) :
    orBadData (unpackInt c) (c.packInt i.toInt ++ rest) = .ok (i, rest) := by
  have h := unpackNext_packInt hc rest i.le_toInt i.toInt_lt
  apply orBadData_ok
  rw [unpackInt, unpack_bind h]
  simp only [unpack_pure, Int32.ofInt_toInt]

theorem unpackUInt32_packInt (v : UInt32) (rest : Bytes) :
    orBadData (unpackUInt32 c) (c.packInt v.toInt32.toInt ++ rest) = .ok (v, rest) := by
  have h := unpackNext_packInt hc rest v.toInt32.le_toInt v.toInt32.toInt_lt
  apply orBadData_ok
  rw [unpackUInt32, unpack_bind h]
  simp only [unpack_pure, ofInt_toInt_toInt32]

theorem unpackStringArray_packStringArray_of_fits {l : List Bytes} (hl : FitsArray fits l)
    (rest : Bytes) :
    orBadData (unpackStringArray c) (packStringArray c l ++ rest) = .ok (l.map cstr, rest) := by
  have h : unpackNext c (packStringArray c l ++ rest) =
      .ok (.array ((l.map cstr).map .str), rest) := by
    have hlen : fits (l.map cstr).length := by
      rw [List.length_map]
      exact hl.1
    have hstr : ∀ b ∈ l.map cstr, fits b.length := by
      intro b hb
      obtain ⟨s, hs, rfl⟩ := List.mem_map.mp hb
      exact hl.2 s hs
    have hnext := hc.next_array (l.map cstr) rest hlen hstr
    rw [List.length_map, List.flatMap_map] at hnext
    rw [unpackNext, packStringArray, List.append_assoc, show packString c = fun s => c.raw (cstr s)
      from rfl, hnext]
  apply orBadData_ok
  rw [unpackStringArray, unpack_bind h]
  show (liftM (((l.map cstr).map Obj.str).mapM stringElement) : Unpack (List Bytes)) rest = _
  rw [mapM_stringElement]
  rfl

end LawfulOn

/-- The message as every reader of C strings sees it. -/
def SpecificData.norm : SpecificData → SpecificData
  | .requestData a b => .requestData (cstr a) (cstr b)
  | .responseData a b => .responseData (cstr a) (cstr b)
  | .eventData => .eventData
  | .responseErrorData a b e code => .responseErrorData (cstr a) (cstr b) (cstr e) code

/-- All strings cut at their first NUL. -/
def DxlMessageT.norm (m : DxlMessageT) : DxlMessageT where
  version := m.version
  messageId := cstr m.messageId
  sourceClientId := cstr m.sourceClientId
  sourceBrokerGuid := cstr m.sourceBrokerGuid
  brokerGuids := m.brokerGuids.map cstr
  clientGuids := m.clientGuids.map cstr
  payload := m.payload
  specificData := m.specificData.norm
  otherFields := m.otherFields.map cstr
  sourceTenantGuid := cstr m.sourceTenantGuid
  tenantGuids := m.tenantGuids.map cstr
  sourceClientInstanceId := cstr m.sourceClientInstanceId

theorem DxlMessageT.messageType_norm (m : DxlMessageT) : m.norm.messageType = m.messageType := by
  unfold DxlMessageT.messageType norm
  cases m.specificData <;> rfl

/-- `stripClientGuids`. -/
def DxlMessageT.strip (m : DxlMessageT) (stripClientGuids : Bool) : DxlMessageT :=
  { m with clientGuids := if stripClientGuids then [] else m.clientGuids }

theorem ofCode_code (t : DxlMessageType) :
    DxlMessageType.ofCode (Int32.ofInt t.code) = some t := by
  cases t <;> rfl

/-- The strings of the type-specific part fit. -/
def SpecificData.Fits (fits : ℕ → Prop) : SpecificData → Prop
  | .requestData a b | .responseData a b => FitsString fits a ∧ FitsString fits b
  | .eventData => True
  | .responseErrorData a b e _ => FitsString fits a ∧ FitsString fits b ∧ FitsString fits e

/-- The strings and arrays of a message fit; nothing is said of its payload. -/
structure DxlMessageT.Fits (fits : ℕ → Prop) (m : DxlMessageT) : Prop where
  messageId : FitsString fits m.messageId
  sourceClientId : FitsString fits m.sourceClientId
  sourceBrokerGuid : FitsString fits m.sourceBrokerGuid
  brokerGuids : FitsArray fits m.brokerGuids
  clientGuids : FitsArray fits m.clientGuids
  specificData : m.specificData.Fits fits
  otherFields : FitsArray fits m.otherFields
  sourceTenantGuid : FitsString fits m.sourceTenantGuid
  tenantGuids : FitsArray fits m.tenantGuids
  sourceClientInstanceId : FitsString fits m.sourceClientInstanceId

section LawfulOn

variable {c : Codec} {fits : ℕ → Prop} (hc : c.LawfulOn fits)
include hc

theorem unpackSpecificData_packSpecificData {d : SpecificData} (hd : d.Fits fits) (rest : Bytes) :
    unpackSpecificData c d.messageType (packSpecificData c d ++ rest) = .ok (d.norm, rest) := by
  cases d with
  | requestData a b =>
    obtain ⟨ha, hb⟩ := hd
    simp only [SpecificData.messageType, unpackSpecificData, packSpecificData, List.append_assoc]
    rw [unpack_bind (unpackRaw_packString_of_fits hc ha _),
      unpack_bind (unpackRaw_packString_of_fits hc hb _)]
    rfl
  | responseData a b =>
    obtain ⟨ha, hb⟩ := hd
    simp only [SpecificData.messageType, unpackSpecificData, packSpecificData, List.append_assoc]
    rw [unpack_bind (unpackRaw_packString_of_fits hc ha _),
      unpack_bind (unpackRaw_packString_of_fits hc hb _)]
    rfl
  | eventData => rfl
  | responseErrorData a b e code =>
    obtain ⟨ha, hb, he⟩ := hd
    simp only [SpecificData.messageType, unpackSpecificData, packSpecificData, List.append_assoc]
    rw [unpack_bind (unpackRaw_packString_of_fits hc ha _),
      unpack_bind (unpackRaw_packString_of_fits hc hb _), unpack_bind (unpackInt_packInt hc _ _),
      unpack_bind (unpackRaw_packString_of_fits hc he _)]
    rfl

/-- The fields in front of the payload are read back, whatever the payload is read as. -/
theorem unpackVersion0_payload {m : DxlMessageT} {guids : List Bytes}
    (hid : FitsString fits m.messageId)
    (hclient : FitsString fits m.sourceClientId) (hbroker : FitsString fits m.sourceBrokerGuid)
    (hbrokers : FitsArray fits m.brokerGuids) (hclients : FitsArray fits guids) (rest : Bytes) :
    unpackVersion0 c (c.packInt m.messageType.code ++ (packString c m.messageId ++
      (packString c m.sourceClientId ++ (packString c m.sourceBrokerGuid ++
      (packStringArray c m.brokerGuids ++ (packStringArray c guids ++ rest)))))) =
    (do
      let payload ← orBadData (unpackRaw c)
      let specificData ← unpackSpecificData c m.messageType
      return { createDxlMessage m.messageType m.sourceClientId [] m.messageId with
        sourceBrokerGuid := cstr m.sourceBrokerGuid
        brokerGuids := m.brokerGuids.map cstr
        clientGuids := guids.map cstr
        payload := .buf payload
        specificData := specificData } : Unpack DxlMessageT) rest := by
  have hi : c.packInt m.messageType.code = c.packInt (Int32.ofInt m.messageType.code).toInt := by
    cases h : m.messageType <;> rfl
  rw [unpackVersion0, hi, unpack_bind (unpackInt_packInt hc _ _)]
  simp only [ofCode_code]
  rw [unpack_bind (unpackRaw_packString_of_fits hc hid _),
    unpack_bind (unpackRaw_packString_of_fits hc hclient _),
    unpack_bind (unpackRaw_packString_of_fits hc hbroker _),
    unpack_bind (unpackStringArray_packStringArray_of_fits hc hbrokers _),
    unpack_bind (unpackStringArray_packStringArray_of_fits hc hclients _)]
  simp [createDxlMessage]

end LawfulOn

section LawfulOn

variable {c : Codec} {fits : ℕ → Prop} (hc : c.LawfulOn fits)
include hc

theorem unpackVersion0_ok {m : DxlMessageT} {strip : Bool} (hm : (m.strip strip).Fits fits)
    {payload : Bytes} (hfits : fits payload.length) (rest : Bytes) :
    unpackVersion0 c (c.packInt m.messageType.code ++ (packString c m.messageId ++
      (packString c m.sourceClientId ++ (packString c m.sourceBrokerGuid ++
      (packStringArray c m.brokerGuids ++
      (packStringArray c (if strip then [] else m.clientGuids) ++
      (c.raw payload ++ (packSpecificData c m.specificData ++ rest)))))))) =
    .ok ({ createDxlMessage m.messageType m.sourceClientId [] m.messageId with
      sourceBrokerGuid := cstr m.sourceBrokerGuid
      brokerGuids := m.brokerGuids.map cstr
      clientGuids := (if strip then [] else m.clientGuids).map cstr
      payload := .buf payload
      specificData := m.specificData.norm }, rest) := by
  have hclients : FitsArray fits (if strip then [] else m.clientGuids) := hm.clientGuids
  have hspecific : m.specificData.Fits fits := hm.specificData
  rw [@unpackVersion0_payload c fits hc m _ hm.messageId hm.sourceClientId hm.sourceBrokerGuid
    hm.brokerGuids hclients, unpack_bind (unpackRaw_raw_of_fits hc hfits _), DxlMessageT.messageType,
    unpack_bind (unpackSpecificData_packSpecificData hc hspecific _), unpack_pure]

theorem unpackVersion1_ok {v : UInt32} (h : 0 < v) (m : DxlMessageT) {l : List Bytes}
    (hl : FitsArray fits l) (rest : Bytes) :
    unpackVersion1 c v m (packStringArray c l ++ rest) =
      .ok ({ m with otherFields := l.map cstr }, rest) := by
  rw [unpackVersion1, if_pos h, unpack_bind (unpackStringArray_packStringArray_of_fits hc hl _),
    unpack_pure]

theorem unpackVersion2_ok {v : UInt32} (h : 1 < v) (m : DxlMessageT) {s : Bytes}
    (hs : FitsString fits s) {l : List Bytes} (hl : FitsArray fits l) (rest : Bytes) :
    unpackVersion2 c v m (packString c s ++ (packStringArray c l ++ rest)) =
      .ok ({ m with sourceTenantGuid := cstr s, tenantGuids := l.map cstr }, rest) := by
  rw [unpackVersion2, if_pos h, unpack_bind (unpackRaw_packString_of_fits hc hs _),
    unpack_bind (unpackStringArray_packStringArray_of_fits hc hl _), unpack_pure]

theorem unpackVersion3_ok {v : UInt32} (h : 2 < v) (m : DxlMessageT) {s : Bytes}
    (hs : FitsString fits s) :
    unpackVersion3 c v m (packString c s) = .ok ({ m with sourceClientInstanceId := cstr s }, []) := by
  have hread := unpackRaw_packString_of_fits hc hs []
  rw [List.append_nil] at hread
  rw [unpackVersion3, if_pos h, unpack_bind hread, unpack_pure]

/-- Packing a version 3 message and unpacking the bytes gives the message back, its strings cut
at their first NUL. -/
theorem fromBytes_toBytes_of_fits {m : DxlMessageT} (hv : m.version = dxlMsgVersion)
    {payload : Bytes} (hp : m.payload = .buf payload) {strip : Bool}
    (hm : (m.strip strip).Fits fits) (hfits : fits payload.length) {bytes : Bytes}
    (hbytes : dxlMessageToBytes c m strip = some bytes) :
    createDxlMessageFromBytes c bytes = .ok (m.strip strip).norm := by
  rw [dxlMessageToBytes, hp] at hbytes
  cases hbytes
  have h0 : (0 : UInt32) < m.version := by rw [hv]; decide
  have h1 : (1 : UInt32) < m.version := by rw [hv]; decide
  have h2 : (2 : UInt32) < m.version := by rw [hv]; decide
  have hother : FitsArray fits m.otherFields := hm.otherFields
  have htenant : FitsString fits m.sourceTenantGuid := hm.sourceTenantGuid
  have htenants : FitsArray fits m.tenantGuids := hm.tenantGuids
  have hinstance : FitsString fits m.sourceClientInstanceId := hm.sourceClientInstanceId
  simp only [if_pos h0, if_pos h1, if_pos h2, List.append_assoc]
  rw [createDxlMessageFromBytes, unpackMessage, unpack_bind (unpackUInt32_packInt hc _ _),
    unpack_bind (unpackVersion0_ok hc hm hfits _),
    unpack_bind (unpackVersion1_ok hc h0 _ hother _),
    unpack_bind (unpackVersion2_ok hc h1 _ htenant htenants _),
    unpackVersion3_ok hc h2 _ hinstance]
  simp only [Except.map, DxlMessageT.norm, DxlMessageT.strip, createDxlMessage, hv, hp]

theorem toBytes_ne_nil {m : DxlMessageT} {strip : Bool} {bytes : Bytes}
    (h : dxlMessageToBytes c m strip = some bytes) : bytes ≠ [] := by
  rw [dxlMessageToBytes] at h
  split at h
  · cases h
  · cases h
    intro hnil
    exact hc.packInt_ne_nil m.version.toInt32.le_toInt m.version.toInt32.toInt_lt
      (List.append_eq_nil_iff.mp hnil).1

end LawfulOn

/-! ### Bytes that are read back -/

/-- Bytes that were packed from a message of version 3 are read as this message. -/
def ReadsBack (c : Codec) (bytes : Bytes) : Prop :=
  ∀ (m : DxlMessageT) (strip : Bool), m.version = dxlMsgVersion →
    dxlMessageToBytes c m strip = some bytes →
    createDxlMessageFromBytes c bytes = .ok (m.strip strip).norm

theorem exists_toBytes (c : Codec) {m : DxlMessageT} {payload : Bytes} (hp : m.payload = .buf payload)
    (strip : Bool) : ∃ bytes, dxlMessageToBytes c m strip = some bytes := by
  rw [dxlMessageToBytes, hp]
  exact ⟨_, rfl⟩

section

variable {c : Codec} {limit : ℕ∞} {n : ℕ}

theorem length_le_raw (c : Codec) (b : Bytes) : b.length ≤ (c.raw b).length := by
  rw [Codec.raw, List.length_append]
  exact Nat.le_add_left _ _

/-- A part of something short is short. -/
theorem lt_of_length_le (hn : (n : ℕ∞) < limit) {k : ℕ} (h : k ≤ n) : (k : ℕ∞) < limit :=
  lt_of_le_of_lt (Nat.cast_le.mpr h) hn

theorem fitsString_of_length_le (c : Codec) (hn : (n : ℕ∞) < limit) {s : Bytes}
    (h : (packString c s).length ≤ n) : FitsString (fun k => (k : ℕ∞) < limit) s :=
  lt_of_length_le hn ((length_le_raw c (cstr s)).trans h)

/-- Each string of an array takes at least a byte. -/
theorem fitsArray_of_length_le (hc : c.LawfulBelow limit) (hn : (n : ℕ∞) < limit) {l : List Bytes}
    (h : (packStringArray c l).length ≤ n) : FitsArray (fun k => (k : ℕ∞) < limit) l := by
  rw [packStringArray, List.length_append] at h
  have hstrings : ∀ s ∈ l, FitsString (fun k => (k : ℕ∞) < limit) s := fun s hs =>
    fitsString_of_length_le c hn (((List.sublist_flatten_of_mem
      (List.mem_map_of_mem hs)).length_le.trans_eq (by rw [List.flatMap])).trans
      ((Nat.le_add_left _ _).trans h))
  refine ⟨lt_of_length_le hn ?_, hstrings⟩
  have hcount : l.length ≤ (l.flatMap (packString c)).length := by
    clear h
    induction l with
    | nil => exact le_rfl
    | cons s l ih =>
      have hpos := List.length_pos_iff.mpr (hc.raw_ne_nil (hstrings s List.mem_cons_self))
      have hrest := ih fun s' hs' => hstrings s' (List.mem_cons_of_mem s hs')
      rw [List.flatMap_cons, List.length_append, List.length_cons, packString]
      omega
  omega

theorem specificDataFits_of_length_le (c : Codec) (hn : (n : ℕ∞) < limit) {d : SpecificData}
    (h : (packSpecificData c d).length ≤ n) : d.Fits fun k => (k : ℕ∞) < limit := by
  cases d with
  | requestData a b =>
    rw [packSpecificData, List.length_append] at h
    exact ⟨fitsString_of_length_le c hn (by omega), fitsString_of_length_le c hn (by omega)⟩
  | responseData a b =>
    rw [packSpecificData, List.length_append] at h
    exact ⟨fitsString_of_length_le c hn (by omega), fitsString_of_length_le c hn (by omega)⟩
  | eventData => trivial
  | responseErrorData a b e code =>
    simp only [packSpecificData, List.length_append] at h
    exact ⟨fitsString_of_length_le c hn (by omega), fitsString_of_length_le c hn (by omega),
      fitsString_of_length_le c hn (by omega)⟩

/-- Below the limit of the library all bytes are read back: what was packed into them is shorter
than they are. -/
theorem readsBack_of_lt (hc : c.LawfulBelow limit) {bytes : Bytes}
    (hlt : (bytes.length : ℕ∞) < limit) : ReadsBack c bytes := by
  intro m strip hv hbytes
  obtain ⟨payload, hp⟩ : ∃ payload, m.payload = .buf payload := by
    cases hp : m.payload with
    | freed b => rw [dxlMessageToBytes, hp] at hbytes; cases hbytes
    | buf payload => exact ⟨payload, rfl⟩
  have hlength := congrArg (Option.map List.length) hbytes
  rw [dxlMessageToBytes, hp] at hlength
  have h0 : (0 : UInt32) < m.version := by rw [hv]; decide
  have h1 : (1 : UInt32) < m.version := by rw [hv]; decide
  have h2 : (2 : UInt32) < m.version := by rw [hv]; decide
  simp only [if_pos h0, if_pos h1, if_pos h2, List.length_append, Option.map_some,
    Option.some.injEq] at hlength
  have hpayload := length_le_raw c payload
  have hfits : (m.strip strip).Fits fun n => (n : ℕ∞) < limit := {
    messageId := fitsString_of_length_le c hlt (s := m.messageId) (by omega)
    sourceClientId := fitsString_of_length_le c hlt (s := m.sourceClientId) (by omega)
    sourceBrokerGuid := fitsString_of_length_le c hlt (s := m.sourceBrokerGuid) (by omega)
    brokerGuids := fitsArray_of_length_le hc hlt (l := m.brokerGuids) (by omega)
    clientGuids := fitsArray_of_length_le hc hlt (l := if strip then [] else m.clientGuids)
      (by omega)
    specificData := specificDataFits_of_length_le c hlt (d := m.specificData) (by omega)
    otherFields := fitsArray_of_length_le hc hlt (l := m.otherFields) (by omega)
    sourceTenantGuid := fitsString_of_length_le c hlt (s := m.sourceTenantGuid) (by omega)
    tenantGuids := fitsArray_of_length_le hc hlt (l := m.tenantGuids) (by omega)
    sourceClientInstanceId :=
      fitsString_of_length_le c hlt (s := m.sourceClientInstanceId) (by omega) }
  exact fromBytes_toBytes_of_fits hc hv hp hfits (lt_of_length_le hlt (by omega)) hbytes

end

/-! ### What a successful read tells -/

theorem unpack_bind_eq_ok {α β : Type} {x : Unpack α} {f : α → Unpack β} {b : Bytes}
    {r : β × Bytes} (h : (x >>= f) b = .ok r) :
    ∃ a b', x b = .ok (a, b') ∧ f a b' = .ok r := by
  simp only [bind, StateT.bind] at h
  cases hx : x b with
  | error e => rw [hx] at h; cases h
  | ok p => rw [hx] at h; exact ⟨p.1, p.2, rfl, h⟩

/-- The fields that versions 1 to 3 add have their defaults. -/
structure DxlMessageT.Base (m : DxlMessageT) : Prop where
  version : m.version = dxlMsgVersion
  payload : ∃ b, m.payload = .buf b
  otherFields : m.otherFields = []
  sourceTenantGuid : m.sourceTenantGuid = []
  tenantGuids : m.tenantGuids = []
  sourceClientInstanceId : m.sourceClientInstanceId = []

theorem unpackVersion0_base {c : Codec} {b : Bytes} {m : DxlMessageT} {rest : Bytes}
    (h : unpackVersion0 c b = .ok (m, rest)) : m.Base := by
  obtain ⟨code, b1, -, h⟩ := unpack_bind_eq_ok h
  cases htype : DxlMessageType.ofCode code with
  | none =>
    simp only [htype] at h
    cases h
  | some type =>
    simp only [htype] at h
    obtain ⟨_, _, -, h⟩ := unpack_bind_eq_ok h
    obtain ⟨_, _, -, h⟩ := unpack_bind_eq_ok h
    obtain ⟨_, _, -, h⟩ := unpack_bind_eq_ok h
    obtain ⟨_, _, -, h⟩ := unpack_bind_eq_ok h
    obtain ⟨_, _, -, h⟩ := unpack_bind_eq_ok h
    obtain ⟨payload, _, -, h⟩ := unpack_bind_eq_ok h
    obtain ⟨_, _, -, h⟩ := unpack_bind_eq_ok h
    rw [unpack_pure] at h
    cases h
    exact ⟨rfl, ⟨payload, rfl⟩, rfl, rfl, rfl, rfl⟩

/-- What each version adds to the message below it. -/
theorem unpackVersion1_spec {c : Codec} {v : UInt32} {m m' : DxlMessageT} {b rest : Bytes}
    (h : unpackVersion1 c v m b = .ok (m', rest)) :
    ∃ o, m' = { m with otherFields := o } ∧ (v = 0 → o = m.otherFields) := by
  rw [unpackVersion1] at h
  split_ifs at h with hv
  · obtain ⟨o, _, -, h⟩ := unpack_bind_eq_ok h
    cases h
    exact ⟨o, rfl, fun h0 => absurd hv (by rw [h0]; decide)⟩
  · cases h
    exact ⟨m.otherFields, rfl, fun _ => rfl⟩

theorem unpackVersion2_spec {c : Codec} {v : UInt32} {m m' : DxlMessageT} {b rest : Bytes}
    (h : unpackVersion2 c v m b = .ok (m', rest)) :
    ∃ s t, m' = { m with sourceTenantGuid := s, tenantGuids := t } ∧
      (v ≤ 1 → s = m.sourceTenantGuid ∧ t = m.tenantGuids) := by
  rw [unpackVersion2] at h
  split_ifs at h with hv
  · obtain ⟨s, _, -, h⟩ := unpack_bind_eq_ok h
    obtain ⟨t, _, -, h⟩ := unpack_bind_eq_ok h
    cases h
    exact ⟨s, t, rfl, fun h1 => absurd hv (UInt32.not_lt.mpr h1)⟩
  · cases h
    exact ⟨m.sourceTenantGuid, m.tenantGuids, rfl, fun _ => ⟨rfl, rfl⟩⟩

theorem unpackVersion3_spec {c : Codec} {v : UInt32} {m m' : DxlMessageT} {b rest : Bytes}
    (h : unpackVersion3 c v m b = .ok (m', rest)) :
    ∃ s, m' = { m with sourceClientInstanceId := s } ∧ (v ≤ 2 → s = m.sourceClientInstanceId) := by
  rw [unpackVersion3] at h
  split_ifs at h with hv
  · obtain ⟨s, _, -, h⟩ := unpack_bind_eq_ok h
    cases h
    exact ⟨s, rfl, fun h2 => absurd hv (UInt32.not_lt.mpr h2)⟩
  · cases h
    exact ⟨m.sourceClientInstanceId, rfl, fun _ => rfl⟩

/-- The version a byte string declares. -/
def declaredVersion (c : Codec) (b : Bytes) : Option UInt32 :=
  match unpackUInt32 c b with
  | .ok (v, _) => some v
  | .error _ => none

/-- A decoded message has version 3 and a live payload, and the fields that the declared version
lacks have their defaults. -/
structure DecodedAs (v : UInt32) (m : DxlMessageT) : Prop where
  version : m.version = dxlMsgVersion
  payload : ∃ b, m.payload = .buf b
  otherFields : v = 0 → m.otherFields = []
  tenant : v ≤ 1 → m.sourceTenantGuid = [] ∧ m.tenantGuids = []
  instanceId : v ≤ 2 → m.sourceClientInstanceId = []

theorem fromBytes_spec {c : Codec} {b : Bytes} {m : DxlMessageT}
    (h : createDxlMessageFromBytes c b = .ok m) :
    ∃ v, declaredVersion c b = some v ∧ DecodedAs v m := by
  rw [createDxlMessageFromBytes] at h
  cases hm : unpackMessage c b with
  | error e => rw [hm] at h; cases h
  | ok r =>
    rw [hm] at h
    cases h
    obtain ⟨v, b1, hv, hm⟩ := unpack_bind_eq_ok hm
    obtain ⟨m0, b2, h0, hm⟩ := unpack_bind_eq_ok hm
    obtain ⟨m1, b3, h1, hm⟩ := unpack_bind_eq_ok hm
    obtain ⟨m2, b4, h2, hm⟩ := unpack_bind_eq_ok hm
    have base := unpackVersion0_base h0
    obtain ⟨o, rfl, ho⟩ := unpackVersion1_spec h1
    obtain ⟨s, t, rfl, hst⟩ := unpackVersion2_spec h2
    have hlast : unpackVersion3 c v _ b4 = .ok (r.1, r.2) := hm
    obtain ⟨i, hr, hi⟩ := unpackVersion3_spec hlast
    have hdecl : declaredVersion c b = some v := by
      rw [orBadData] at hv
      rw [declaredVersion]
      cases hx : unpackUInt32 c b with
      | error e => rw [hx] at hv; cases hv
      | ok p => rw [hx] at hv; cases hv; rfl
    refine ⟨v, hdecl, ?_⟩
    rw [hr]
    exact {
      version := base.version
      payload := base.payload
      otherFields := fun h => (ho h).trans base.otherFields
      tenant := fun h => ⟨(hst h).1.trans base.sourceTenantGuid, (hst h).2.trans base.tenantGuids⟩
      instanceId := fun h => (hi h).trans base.sourceClientInstanceId }

/-! ### The round trip -/

/-- All strings of the type-specific part are NUL-free. -/
def SpecificData.NulFree : SpecificData → Prop
  | .requestData a b => Bytes.NulFree a ∧ Bytes.NulFree b
  | .responseData a b => Bytes.NulFree a ∧ Bytes.NulFree b
  | .eventData => True
  | .responseErrorData a b e _ => Bytes.NulFree a ∧ Bytes.NulFree b ∧ Bytes.NulFree e

/-- All strings of the message are NUL-free. -/
structure DxlMessageT.NulFree (m : DxlMessageT) : Prop where
  messageId : Bytes.NulFree m.messageId
  sourceClientId : Bytes.NulFree m.sourceClientId
  sourceBrokerGuid : Bytes.NulFree m.sourceBrokerGuid
  brokerGuids : ∀ s ∈ m.brokerGuids, Bytes.NulFree s
  clientGuids : ∀ s ∈ m.clientGuids, Bytes.NulFree s
  specificData : m.specificData.NulFree
  otherFields : ∀ s ∈ m.otherFields, Bytes.NulFree s
  sourceTenantGuid : Bytes.NulFree m.sourceTenantGuid
  tenantGuids : ∀ s ∈ m.tenantGuids, Bytes.NulFree s
  sourceClientInstanceId : Bytes.NulFree m.sourceClientInstanceId

theorem SpecificData.norm_of_nulFree {d : SpecificData} (h : d.NulFree) : d.norm = d := by
  cases d with
  | requestData a b => simp [norm, cstr_of_nulFree h.1, cstr_of_nulFree h.2]
  | responseData a b => simp [norm, cstr_of_nulFree h.1, cstr_of_nulFree h.2]
  | eventData => rfl
  | responseErrorData a b e code =>
    simp [norm, cstr_of_nulFree h.1, cstr_of_nulFree h.2.1, cstr_of_nulFree h.2.2]

theorem DxlMessageT.norm_of_nulFree {m : DxlMessageT} (h : m.NulFree) : m.norm = m := by
  simp only [norm, cstr_of_nulFree h.messageId, cstr_of_nulFree h.sourceClientId,
    cstr_of_nulFree h.sourceBrokerGuid, map_cstr_of_nulFree h.brokerGuids,
    map_cstr_of_nulFree h.clientGuids, SpecificData.norm_of_nulFree h.specificData,
    map_cstr_of_nulFree h.otherFields, cstr_of_nulFree h.sourceTenantGuid,
    map_cstr_of_nulFree h.tenantGuids, cstr_of_nulFree h.sourceClientInstanceId]

theorem DxlMessageT.NulFree.strip {m : DxlMessageT} (h : m.NulFree) (strip : Bool) :
    (m.strip strip).NulFree :=
  { h with
    clientGuids := by
      cases strip with
      | false => exact h.clientGuids
      | true => simp [DxlMessageT.strip] }

theorem SpecificData.norm_norm (d : SpecificData) : d.norm.norm = d.norm := by
  cases d <;> simp [norm]

theorem DxlMessageT.norm_norm (m : DxlMessageT) : m.norm.norm = m.norm := by
  simp only [norm, cstr_cstr, map_cstr_cstr, SpecificData.norm_norm]

/-- **The wire codec round trip.**  A version 3 message with NUL-free strings is decoded from its
own encoding (without the client GUIDs when they are stripped); and whatever bytes decode, the
message has the defaults of the fields their version lacks, and encoding it and decoding again
gives the same message up to the first NUL of each string.  Where the library keeps its round trip
only below a limit, so does this one. -/
theorem codec_round_trip (c : Codec) (limit : ℕ∞) (hc : c.LawfulBelow limit) :
    (∀ (m : DxlMessageT) (payload : Bytes) (strip : Bool), m.version = 3 → m.NulFree →
      m.payload = .buf payload →
      ∃ bytes, dxlMessageToBytes c m strip = some bytes ∧ ((bytes.length : ℕ∞) < limit →
        createDxlMessageFromBytes c bytes =
          .ok (if strip then { m with clientGuids := [] } else m))) ∧
    (∀ (b : Bytes) (m : DxlMessageT), createDxlMessageFromBytes c b = .ok m →
      (∃ v, declaredVersion c b = some v ∧ DecodedAs v m) ∧
      ∃ bytes, dxlMessageToBytes c m false = some bytes ∧ ((bytes.length : ℕ∞) < limit →
        ∃ m', createDxlMessageFromBytes c bytes = .ok m' ∧ m'.norm = m.norm)) := by
  refine ⟨fun m payload strip hv hn hp => ?_, fun b m h => ?_⟩
  · obtain ⟨bytes, he⟩ := exists_toBytes c hp strip
    refine ⟨bytes, he, fun hlt => ?_⟩
    rw [readsBack_of_lt hc hlt m strip hv he, DxlMessageT.norm_of_nulFree (hn.strip strip)]
    cases strip <;> rfl
  · obtain ⟨v, hv, hm⟩ := fromBytes_spec h
    obtain ⟨payload, hp⟩ := hm.payload
    obtain ⟨bytes, he⟩ := exists_toBytes c hp false
    refine ⟨⟨v, hv, hm⟩, bytes, he, fun hlt => ⟨_, readsBack_of_lt hc hlt m false hm.version he, ?_⟩⟩
    exact DxlMessageT.norm_norm (m.strip false)

/-- A version 0 event with the message id `e`. -/
def versionZeroEvent : Bytes := [0x00, 0x02, 0xa1, 0x65, 0xa0, 0xa0, 0x90, 0x90, 0xa0]

/-- A request to the service `s`, addressed to one client. -/
def serviceRequest : DxlMessageT :=
  { createDxlMessage .request (lit "c") (lit "i") (lit "m") with
    clientGuids := [lit "d"]
    payload := .buf [0, 1, 2]
    specificData := .requestData (lit "/r") (lit "s") }

theorem codec_round_trip_msgpackC :
    (∃ bytes, dxlMessageToBytes msgpackC serviceRequest true = some bytes ∧
      createDxlMessageFromBytes msgpackC bytes = .ok { serviceRequest with clientGuids := [] }) ∧
    (∃ v, declaredVersion msgpackC versionZeroEvent = some v ∧
      DecodedAs v (createDxlMessage .event [] [] (lit "e"))) := by
  have hc := msgpackC_lawful32.lawfulBelow
  obtain ⟨bytes, hbytes, hback⟩ := (codec_round_trip msgpackC (2 ^ 32) hc).1 serviceRequest
    [0, 1, 2] true rfl
    (by constructor <;> first | decide | exact ⟨by decide, by decide⟩) rfl
  refine ⟨⟨bytes, hbytes, hback ?_⟩,
    ((codec_round_trip msgpackC (2 ^ 32) hc).2 versionZeroEvent _ rfl).1⟩
  cases hbytes
  exact_mod_cast (show _ < 2 ^ 32 by decide)

end DxlBroker
