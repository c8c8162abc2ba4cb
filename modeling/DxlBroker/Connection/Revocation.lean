import DxlBroker.Connection.BrokerLoop
import DxlBroker.Handler.TopicHandlers

/-!
# Revoked certificates

A certificate is revoked by an event.  The handshake refuses it from then on; a connection that was made
with it before is closed by a task that the maintenance puts into the work queue.  In between the loop
goes on, and connections come, go and change places.
-/

namespace DxlBroker

open Bytes Unordered

/-- `RevocationService`: the set of revoked certificates, and those that are new since the
maintenance. -/
structure RevocationService where
  certs : List Bytes := []
  newCerts : List Bytes := []

namespace RevocationService

/-- `isRevoked` -/
def isRevoked (cert : Bytes) (s : RevocationService) : Bool := s.certs.contains cert

/-- `addCertificate` -/
def addCertificate (s : RevocationService) (cert : Bytes) : RevocationService :=
  if s.isRevoked cert then s
  else { certs := s.certs.insert cert, newCerts := s.newCerts ++ [cert] }

/-- `RevocationListEventHandler::onStoreMessage`, what it does to the service. -/
def onRevocationList (st : StoreState) (s : RevocationService) : RevocationService :=
  if !st.ctx.isPrivileged then s
  else
    match st.getDxlEvent with
    | .error _ => s
    | .ok event =>
        (certificatesOf event.getPayloadStr).foldl (fun s cert => s.addCertificate (cstr cert)) s

theorem certs_addCertificate (s : RevocationService) (cert : Bytes) :
    (s.addCertificate cert).certs = s.certs.insert cert := by
  unfold addCertificate isRevoked
  split_ifs with h
  · exact (List.insert_of_mem (List.contains_iff_mem.mp h)).symm
  · rfl

theorem certs_foldl_addCertificate (s : RevocationService) (certs : List Bytes) :
    (certs.foldl (fun s cert => s.addCertificate (cstr cert)) s).certs =
      certs.foldl (fun certs cert => certs.insert (cstr cert)) s.certs := by
  induction certs generalizing s with
  | nil => rfl
  | cons cert certs ih => rw [List.foldl_cons, List.foldl_cons, ih, certs_addCertificate]

/-- The handler of the event does this to the certificates of the broker. -/
theorem certs_onRevocationList {st : StoreState} {s : RevocationService}
    (h : s.certs = st.core.revokedCerts) :
    (s.onRevocationList st).certs = (revocationListEventHandler st).2.core.revokedCerts := by
  unfold onRevocationList revocationListEventHandler
  split_ifs
  · exact h
  · cases hevent : st.getDxlEvent with
    | error e =>
      simp only
      exact h
    | ok event =>
      simp only
      rw [certs_foldl_addCertificate, h]

/-! ### The file -/

/-- What a file is read as when its end is not noticed. -/
def eofLine : Bytes := lit "eof"

/-- `readFromFile`: the set of the lines up to the first that is taken for the end, without those
that are blank. -/
def readFromFile (file : Bytes) : List Bytes :=
  (((file.splitOn 0x0a).takeWhile fun line => line != eofLine).filter fun line =>
    line.any fun c => c != 0x20).dedup

/-- `writeToFile`, in the order the set is iterated. -/
def writeToFile (order : IterOrder Bytes) (s : RevocationService) : Bytes :=
  (order.arrange s.certs).flatMap fun cert => cert ++ [0x0a]

end RevocationService

/-- The broker with the certificates that were revoked, and the tasks that wait to close their
connections. -/
structure RevokingBroker where
  broker : MqttBroker
  service : RevocationService := {}
  /-- The tasks in the work queue, with their certificates. -/
  runners : List (List Bytes) := []

/-! ### What the loop keeps -/

namespace Context

/-- The certificates of a connection that was made to the broker meet a condition while packets are read
from it.  A WebSocket has no socket, and is no bridge of the broker. -/
structure Vetted (ok : Bytes → Prop) (c : Context) : Prop where
  sock : c.wsi = true → c.sock = false
  own : c.bridge.isSome = true → c.wsi = false
  certs : MqttBroker.readable c = true → c.bridge = none → ∀ cert ∈ c.certHashes, ok cert

variable {ok : Bytes → Prop} {c : Context}

theorem readable_socketClose : MqttBroker.readable c.socketClose = false := by
  unfold MqttBroker.readable socketClose
  split_ifs <;> simp_all [withState]

/-- A connection that is closed is not read from. -/
theorem vetted_socketClose (hsock : c.wsi = true → c.sock = false)
    (hown : c.bridge.isSome = true → c.wsi = false) : c.socketClose.Vetted ok := by
  refine ⟨?_, ?_, fun hread => absurd hread (by simp [readable_socketClose])⟩
  · unfold socketClose
    split_ifs with hwsi
    · exact hsock
    · exact fun _ => rfl
  · unfold socketClose
    split_ifs <;> exact hown

theorem Vetted.socketClose (h : c.Vetted ok) : c.socketClose.Vetted ok :=
  vetted_socketClose h.sock h.own

end Context

namespace MqttBroker

open Context

def Vetted (ok : Bytes → Prop) (β : MqttBroker) : Prop :=
  ∀ i c, β.contexts.lookup i = some c → c.Vetted ok

variable {settings : BrokerSettings} {env : RegistryEnv} {ok : Bytes → Prop} {β : MqttBroker}
  {c : Context} {i : ℕ}

theorem Vetted.setContext (h : β.Vetted ok) (hc : c.Vetted ok) : (β.setContext i c).Vetted ok := by
  intro j d hd
  rw [lookup_setContext] at hd
  split_ifs at hd
  · cases hd
    exact hc
  · exact h j d hd

theorem Vetted.of_contexts {β' : MqttBroker} (h : β.Vetted ok) (hcontexts : β'.contexts = β.contexts) :
    β'.Vetted ok := by
  unfold Vetted
  rw [hcontexts]
  exact h

theorem Vetted.contextDisconnect (h : β.Vetted ok) : (β.contextDisconnect settings env i).Vetted ok := by
  intro j d hd
  rw [lookup_contextDisconnect] at hd
  split_ifs at hd
  · obtain ⟨c, hc, rfl⟩ := Option.map_eq_some_iff.mp hd
    exact (h i c hc).socketClose
  · exact h j d hd

theorem Vetted.contextFree (h : β.Vetted ok) : (β.contextFree settings i).Vetted ok := by
  unfold MqttBroker.contextFree
  cases hc : β.contexts.lookup i with
  | none => exact h
  | some c =>
    intro j d hd
    simp only [forgetClient_frame.1] at hd
    exact h j d (Map.lookup_erase_eq_some.mp hd).2

theorem Vetted.addContext (h : β.Vetted ok) (hc : c.Vetted ok) : (β.addContext i c).Vetted ok := by
  unfold MqttBroker.addContext
  split_ifs
  · exact h.setContext hc
  · exact h

/-- The context that is enrolled is read from afterwards. -/
theorem Vetted.enroll {j : ℕ} {id : Bytes} {sendOk : Bool} (h : β.Vetted ok)
    (hcerts : ∀ c, β.contexts.lookup j = some c → c.bridge = none → ∀ cert ∈ c.certHashes, ok cert) :
    (β.enroll settings env j id sendOk).2.Vetted ok := by
  unfold MqttBroker.enroll
  cases hc : β.contexts.lookup j with
  | none => exact h
  | some c =>
    obtain ⟨hcontexts, -⟩ := @identify_frame settings β (c.withId id) j
    have hlookup : (β.identify settings j (c.withId id)).contexts.lookup j =
        some (c.withId id) := by
      rw [hcontexts, lookup_setContext, if_pos rfl]
    obtain ⟨d, hd, hannounced, -⟩ :=
      @announce_frame settings env _ (c.withId id) j sendOk hlookup
    have hvetted : d.Vetted ok := by
      rcases hd with rfl | ⟨-, rfl⟩
      · exact ⟨(h j c hc).sock, (h j c hc).own, fun _ hbridge => hcerts c hc hbridge⟩
      · exact vetted_socketClose (h j c hc).sock (h j c hc).own
    refine Vetted.of_contexts (@Vetted.setContext ok β d j h hvetted) ?_
    rw [hannounced]
    unfold MqttBroker.setContext
    rw [hcontexts]
    exact AList.insert_insert _

theorem Vetted.contextFor {id : Bytes} (h : β.Vetted ok) (hc : β.contexts.lookup i = some c)
    (hcerts : ∀ cert ∈ c.certHashes, ok cert) :
    (β.contextFor settings env i c id).2.Vetted ok ∧
      ∀ d, (β.contextFor settings env i c id).2.contexts.lookup
        (β.contextFor settings env i c id).1 = some d → ∀ cert ∈ d.certHashes, ok cert := by
  have hself : β.Vetted ok ∧ ∀ d, β.contexts.lookup i = some d → ∀ cert ∈ d.certHashes, ok cert :=
    ⟨h, fun d hd => by rwa [← Option.some.inj (hc.symm.trans hd)]⟩
  generalize hres : β.contextFor settings env i c id = res
  unfold MqttBroker.contextFor at hres
  split at hres
  · exact hres ▸ hself
  · rename_i j hj
    split at hres
    · exact hres ▸ hself
    · rename_i old hold
      split_ifs at hres with hws
      · subst hres
        refine ⟨h.contextDisconnect, fun d hd => ?_⟩
        rw [lookup_contextDisconnect] at hd
        split_ifs at hd with hij
        · simp only at hij
          rw [← hij, hc] at hd
          rw [← Option.some.inj hd]
          simp only [socketClose]
          split_ifs <;> exact hcerts
        · exact hself.2 d hd
      · subst hres
        have hplain : old.wsi = false ∧ c.wsi = false := by simp_all
        have hwsi : (reused c old).wsi = false := by
          show old.closed.wsi = false
          unfold closed Context.socketClose
          simp only [hplain.1]
          split_ifs <;> simp_all
        have hreused : (reused c old).Vetted ok :=
          ⟨fun h => absurd (hwsi.symm.trans h) (by decide), fun _ => hwsi, fun _ _ => hcerts⟩
        have hgiven : (given c).Vetted ok := ⟨fun _ => rfl, fun _ => hplain.2, fun _ _ => hcerts⟩
        have hset := @Vetted.setContext ok _ _ i (@Vetted.setContext ok β _ j h hreused) hgiven
        refine ⟨hset.of_contexts takeOver_frame.1, fun d hd => ?_⟩
        rw [takeOver_frame.1, lookup_setContext] at hd
        split_ifs at hd
        · rw [← Option.some.inj hd]
          exact hcerts
        · rw [lookup_setContext, if_pos rfl] at hd
          rw [← Option.some.inj hd]
          exact hcerts

theorem connectPacket_certHashes {cenv : ConnectEnv} {count : ℕ} {command : UInt8}
    {payload guid : Bytes} :
    (∀ rc c', connectPacket settings cenv c count command payload guid = .error (rc, c') →
      c'.certHashes = c.certHashes) ∧
    ∀ c' id, connectPacket settings cenv c count command payload guid = .ok (c', id) →
      c'.certHashes = c.certHashes := by
  unfold connectPacket
  cases connectHeader cenv c command payload with
  | error rc => exact ⟨fun rc' c' h => by cases h; rfl, fun c' id h => nomatch h⟩
  | ok header =>
    simp only
    split
    · exact ⟨fun rc' c' h => by cases h; rfl, fun c' id h => nomatch h⟩
    · refine ⟨fun rc' c' h => (nomatch h), fun c' id h => ?_⟩
      cases h
      unfold Context.withOpsFlag
      split_ifs <;> rfl

theorem Vetted.handleConnect {cenv : ConnectEnv} {command : UInt8} {payload guid : Bytes}
    {sendOk : Bool} (h : β.Vetted ok)
    (hread : ∀ c, β.contexts.lookup i = some c → readable c = true ∧ c.bridge = none) :
    (β.handleConnect settings env cenv i command payload guid sendOk).2.Vetted ok := by
  unfold MqttBroker.handleConnect
  cases hc : β.contexts.lookup i with
  | none => exact h
  | some c =>
    simp only
    obtain ⟨hreadable, hbridge⟩ := hread c hc
    have hcerts := (h i c hc).certs hreadable hbridge
    obtain ⟨herror, hpacket⟩ := @connectPacket_keeps settings c cenv β.clientIndex.length command
      payload guid
    obtain ⟨herror', hpacket'⟩ := @connectPacket_certHashes settings c cenv β.clientIndex.length
      command payload guid
    have hparsed : ∀ c', Parsed c c' → c'.certHashes = c.certHashes → c'.Vetted ok := by
      intro c' hkeeps hsame
      refine ⟨fun hwsi => ?_, fun hown => ?_, fun _ _ => hsame ▸ hcerts⟩
      · rw [hkeeps.sock]
        exact (h i c hc).sock (hkeeps.wsi ▸ hwsi)
      · rw [hkeeps.wsi]
        exact (h i c hc).own (hkeeps.bridge ▸ hown)
    split
    · exact h.contextDisconnect
    · cases hres : connectPacket settings cenv c β.clientIndex.length command payload guid with
      | error res =>
        obtain ⟨rc, c'⟩ := res
        exact (h.setContext (hparsed c' (herror rc c' hres) (herror' rc c' hres))).contextDisconnect
      | ok res =>
        obtain ⟨c', id⟩ := res
        have hsame := hpacket' c' id hres
        obtain ⟨hvetted, hfound⟩ := @Vetted.contextFor settings env ok (β.setContext i c') c' i id
          (h.setContext (hparsed c' (hpacket c' id hres) hsame))
          (by rw [lookup_setContext, if_pos rfl]) (hsame ▸ hcerts)
        exact hvetted.enroll fun d hd _ => hfound d hd

theorem Vetted.packetHandle {packet : Packet} (h : β.Vetted ok)
    (hcerts : ∀ c, β.contexts.lookup i = some c → c.bridge = none → ∀ cert ∈ c.certHashes, ok cert)
    (hread : packet.isConnect = true →
      ∀ c, β.contexts.lookup i = some c → readable c = true ∧ c.bridge = none) :
    (β.packetHandle settings env i packet).2.Vetted ok := by
  have hset : ∀ c, β.contexts.lookup i = some c → ∀ state : ClientState,
      (β.setContext i (c.withState state)).Vetted ok := fun c hc state =>
    h.setContext ⟨(h i c hc).sock, (h i c hc).own, fun _ => hcerts c hc⟩
  cases packet with
  | connect cenv command payload guid sendOk => exact h.handleConnect (hread rfl)
  | connack code sendOk =>
    show (β.handleConnack settings env i code sendOk).2.Vetted ok
    unfold handleConnack
    cases hc : β.contexts.lookup i with
    | none => exact h
    | some c =>
      have hconnected := hset c hc .connected
      simp only
      split_ifs
      · refine hconnected.of_contexts ?_
        unfold MqttBroker.setContext
        rw [dxlOnBridgeConnected_frame.1]
      · exact hconnected
      · exact h.of_contexts dxlOnBridgeConnected_frame.1
      · exact h
      · exact hconnected
      · exact h
  | disconnect command remainingLength =>
    show (β.handleDisconnect settings env i command remainingLength).2.Vetted ok
    unfold handleDisconnect
    cases hc : β.contexts.lookup i with
    | none => exact h
    | some c =>
      simp only
      split_ifs
      · exact h
      · exact h.contextDisconnect
      · exact (hset c hc .disconnecting).contextDisconnect
  | other remainingLength rc => exact h

theorem Vetted.handleRead {packet : Packet} {exceeds : Bool} (h : β.Vetted ok)
    (hc : β.contexts.lookup i = some c) (hreadable : readable c = true)
    (hconnect : packet.isConnect = true → c.bridge = none) :
    (β.handleRead settings env i packet exceeds).Vetted ok := by
  have hfound : ∀ d, β.contexts.lookup i = some d → d = c := fun d hd =>
    (Option.some.inj (hc.symm.trans hd)).symm
  have hcerts : ∀ d, β.contexts.lookup i = some d → d.bridge = none →
      ∀ cert ∈ d.certHashes, ok cert := fun d hd hbridge =>
    (h i d hd).certs (hfound d hd ▸ hreadable) hbridge
  have hread : (β.packetRead settings env i packet exceeds).2.Vetted ok := by
    unfold packetRead
    rw [hc]
    simp only
    split_ifs with herror hexceeds hrest
    · exact h
    · -- what is left of the packet is handled although the context was disconnected
      refine h.contextDisconnect.packetHandle (fun d hd hbridge => ?_) fun hnot => ?_
      · rw [lookup_contextDisconnect, if_pos rfl, hc, Option.map_some] at hd
        rw [← Option.some.inj hd] at hbridge ⊢
        unfold socketClose at hbridge ⊢
        split_ifs at hbridge ⊢
        · exact hcerts c hc hbridge
        · exact hcerts c hc hbridge
      · simp [hnot] at hexceeds
    · exact h.contextDisconnect
    · exact h.packetHandle hcerts fun hpacket d hd =>
        hfound d hd ▸ ⟨hreadable, hconnect hpacket⟩
  unfold MqttBroker.handleRead
  simp only
  split_ifs
  · exact hread
  · exact hread.contextDisconnect

/-- A bridge of the broker is not asked for certificates, whatever becomes of it. -/
theorem vetted_of_bridge (hwsi : c.wsi = false) (hbridge : c.bridge.isSome = true) : c.Vetted ok :=
  ⟨fun h => absurd (hwsi.symm.trans h) (by decide), fun _ => hwsi,
    fun _ hnone => by simp [hnone] at hbridge⟩

theorem Vetted.checkPrimaryBridge {bridge : Bridge} {ping : Option Bool} (h : β.Vetted ok)
    (hwsi : c.wsi = false) : (β.checkPrimaryBridge settings env i c bridge ping).Vetted ok := by
  unfold MqttBroker.checkPrimaryBridge
  split
  · split
    · exact h
    · refine (h.of_contexts dxlOnBridgeDisconnected_frame.1).setContext (vetted_of_bridge ?_ rfl)
      show c.socketClose.wsi = false
      simp [Context.socketClose, hwsi]
    · exact h.setContext (vetted_of_bridge hwsi rfl)
  · exact h

theorem Vetted.maintainBridge {timedOut : Bool} {ping : Option Bool} (h : β.Vetted ok) :
    (β.maintainBridge settings env i timedOut ping).Vetted ok := by
  unfold MqttBroker.maintainBridge
  cases hc : β.contexts.lookup i with
  | none => exact h
  | some c =>
    cases hbridge : c.bridge with
    | none =>
      simp only [hbridge]
      exact h
    | some bridge =>
      simp only [hbridge]
      have hwsi : c.wsi = false := (h i c hc).own (by rw [hbridge]; rfl)
      have hclosed : (if timedOut then c.socketClose else c).Vetted ok ∧
          (if timedOut then c.socketClose else c).wsi = false := by
        split_ifs
        · exact ⟨(h i c hc).socketClose, by simp [Context.socketClose, hwsi]⟩
        · exact ⟨h i c hc, hwsi⟩
      generalize (if timedOut then c.socketClose else c) = d at *
      refine Vetted.checkPrimaryBridge ?_ hclosed.2
      split
      · exact h.setContext hclosed.1
      · exact (h.setContext hclosed.1).of_contexts dxlOnBridgeDisconnected_frame.1

/-- What a certificate adds, if it is accepted: its hash, and it is not revoked. -/
theorem processClientCertificate_certHashes {bytesExceeded : Bytes → Bool} {cert : Certificate}
    (hc : β.contexts.lookup i = some c)
    (haccepted : (β.processClientCertificate settings bytesExceeded i cert).1 = true) :
    cert.revoked = false ∧ ∀ d,
      (β.processClientCertificate settings bytesExceeded i cert).2.contexts.lookup i = some d →
        ∀ hash ∈ d.certHashes, hash ∈ c.certHashes ∨ hash = cert.sha1 := by
  have hfold : ∀ (guids : List Bytes) (ok : Bool) (d : Context),
      ((guids.foldl (readTenantGuid settings bytesExceeded i) (ok, β.setContext i d)).1 = true →
        ok = true) ∧
      ∀ d', (guids.foldl (readTenantGuid settings bytesExceeded i)
        (ok, β.setContext i d)).2.contexts.lookup i = some d' → d'.certHashes = d.certHashes := by
    intro guids
    induction guids with
    | nil =>
      refine fun ok d => ⟨id, fun d' hd' => ?_⟩
      rw [List.foldl_nil, lookup_setContext, if_pos rfl] at hd'
      rw [← Option.some.inj hd']
    | cons guid guids ih =>
      intro ok d
      rw [List.foldl_cons, readTenantGuid]
      simp only [lookup_setContext, if_pos, setContext_setContext]
      obtain ⟨hok, hcerts⟩ := ih _ { d with tenantGuid := some (cstr guid) }
      exact ⟨fun h => by
        have := hok h
        simp only [Bool.and_eq_true] at this
        exact this.1.1, hcerts⟩
  unfold processClientCertificate at haccepted ⊢
  rw [hc] at haccepted ⊢
  obtain ⟨hok, hcerts⟩ := hfold cert.tenantGuids (!cert.revoked) { c with
    certHashes := if c.certHashes.contains cert.sha1 then c.certHashes
      else c.certHashes ++ [cert.sha1] }
  refine ⟨by simpa using hok haccepted, fun d hd hash hhash => ?_⟩
  rw [hcerts d hd] at hhash
  simp only at hhash
  split_ifs at hhash
  · exact .inl hhash
  · exact (List.mem_append.mp hhash).imp_right List.mem_singleton.mp

theorem Vetted.certificate {bytesExceeded : Bytes → Bool} {cert : Certificate} (h : β.Vetted ok)
    (hc : β.contexts.lookup i = some c) (hreadable : readable c = true) (hbridge : c.bridge = none)
    (hcert : cert.revoked = false → ok cert.sha1) :
    (if (β.processClientCertificate settings bytesExceeded i cert).1
      then (β.processClientCertificate settings bytesExceeded i cert).2
      else (β.processClientCertificate settings bytesExceeded i cert).2.contextDisconnect settings
        env i).Vetted ok := by
  obtain ⟨c', hsame, hβ⟩ := @processClientCertificate_frame settings β c i bytesExceeded cert hc
  have hsock : c'.wsi = true → c'.sock = false := by
    rw [hsame.wsi, hsame.sock]
    exact (h i c hc).sock
  have hown : c'.bridge.isSome = true → c'.wsi = false := by
    rw [hsame.wsi, hsame.bridge]
    exact (h i c hc).own
  split_ifs with haccepted
  · obtain ⟨hrevoked, hhashes⟩ := processClientCertificate_certHashes hc haccepted
    rw [hβ] at hhashes ⊢
    refine h.setContext ⟨hsock, hown, fun _ _ hash hhash => ?_⟩
    rcases hhashes c' (by rw [lookup_setContext, if_pos rfl]) hash hhash with hold | rfl
    · exact (h i c hc).certs hreadable hbridge hash hold
    · exact hcert hrevoked
  · rw [hβ]
    intro j d hd
    rw [lookup_contextDisconnect, lookup_setContext, lookup_setContext, if_pos rfl] at hd
    split_ifs at hd
    · rw [← Option.some.inj hd]
      exact vetted_socketClose hsock hown
    · exact h j d hd

/-- The broker's own bridges get no CONNECT. -/
def ConnectsToBroker (β : MqttBroker) : Step → Prop
  | .read i packet _ => packet.isConnect = true → ∀ c, β.contexts.lookup i = some c → c.bridge = none
  | _ => True

/-- A step keeps the condition if the certificate that it accepts meets it. -/
theorem Vetted.step {st : Step} (h : β.Vetted ok) (hst : β.ConnectsToBroker st)
    (hcert : ∀ i bytesExceeded cert, st = .certificate i bytesExceeded cert →
      cert.revoked = false → ok cert.sha1) : (β.step settings env st).Vetted ok := by
  cases st with
  | accept i wsi =>
    refine h.addContext ⟨fun hwsi => ?_, nofun, fun _ _ => nofun⟩
    have hwsi : wsi = true := hwsi
    rw [hwsi]
    rfl
  | certificate i bytesExceeded cert =>
    refine @whenContext_cases _ _ _ _ (Vetted ok) h fun c hc hp => ?_
    obtain ⟨-, hreadable, hbridge⟩ := of_decide_eq_true hp
    exact h.certificate hc hreadable hbridge (hcert i bytesExceeded cert rfl)
  | read i packet exceeds =>
    exact @whenContext_cases _ _ _ _ (Vetted ok) h fun c hc hp =>
      h.handleRead hc hp fun hconnect => hst hconnect c hc
  | drop i => exact @whenContext_cases _ _ _ _ (Vetted ok) h fun _ _ _ => h.contextDisconnect
  | forceDisconnect i => exact h.contextDisconnect
  | wsDestroy i =>
    simp only [MqttBroker.step]
    split
    · exact h
    · rename_i c hc
      have hafter : (if (c.wsi && c.state ≠ .wsDead) = true
          then β.contextDisconnect settings env i else β).Vetted ok := by
        split_ifs
        · exact h.contextDisconnect
        · exact h
      generalize (if (c.wsi && c.state ≠ .wsDead) = true
        then β.contextDisconnect settings env i else β) = β' at hafter ⊢
      split
      · exact hafter
      · rename_i d hd
        refine hafter.setContext ⟨nofun, fun _ => rfl, fun hread hbridge => ?_⟩
        have hsock : d.sock = true := hread
        cases hwsi : d.wsi with
        | true => exact absurd (hsock.symm.trans ((hafter i d hd).sock hwsi)) (by decide)
        | false =>
          refine (hafter i d hd).certs ?_ hbridge
          unfold readable
          rw [hwsi]
          exact hsock
  | maintainBridge i timedOut ping =>
    exact @whenContext_cases _ _ _ _ (Vetted ok) h fun _ _ _ => h.maintainBridge
  | restartBridge i next connect =>
    refine @whenContext_cases _ _ _ _ (Vetted ok) h fun c hc hp => ?_
    obtain ⟨hinvalid, hbridge⟩ := Bool.and_eq_true_iff.mp hp
    have hwsi := (h i c hc).own hbridge
    unfold MqttBroker.restartBridge
    rw [hc]
    simp only
    split
    · refine h.setContext ?_
      split_ifs
      · exact vetted_of_bridge hwsi (by simpa using hbridge)
      · exact vetted_of_bridge hwsi hbridge
    · refine h.setContext ?_
      split_ifs
      · exact vetted_of_bridge hwsi (by simpa using hbridge)
      · exact vetted_of_bridge hwsi hbridge
  | cleanSession i => exact @whenContext_cases _ _ _ _ (Vetted ok) h fun _ _ _ => h.contextFree
  | bridgeNew i id bridge => exact h.addContext (vetted_of_bridge rfl rfl)
  | clearBridge i =>
    exact @whenContext_cases _ _ _ _ (Vetted ok) h fun _ _ _ => h.contextDisconnect.contextFree

end MqttBroker

namespace RevokingBroker

open MqttBroker

section

variable (settings : BrokerSettings)

/-- `RevokeCertsRunner::run` for a context: it is disconnected for each of its certificates that was
revoked. -/
def revokeContext (env : RegistryEnv) (certs : List Bytes) (β : MqttBroker) (i : ℕ) : MqttBroker :=
  match β.contexts.lookup i with
  | none => β
  | some c =>
      (c.certHashes.filter fun cert => certs.contains cert).foldl
        (fun β _ => β.contextDisconnect settings env i) β

/-- `RevokeCertsRunner::run`: over the contexts in the order of their places. -/
def revokeCerts (env : RegistryEnv) (certs : List Bytes) (β : MqttBroker) : MqttBroker :=
  (β.contexts.keys.mergeSort (· ≤ ·)).foldl (revokeContext settings env certs) β

/-- The handshake asks the service whether the certificate is revoked. -/
def checkCertificate (s : RevocationService) : Step → Step
  | .certificate i bytesExceeded cert =>
      .certificate i bytesExceeded { cert with revoked := s.isRevoked cert.sha1 }
  | st => st

/-- What happens to the broker. -/
inductive Event
  /-- Any step of the loop. -/
  | loop (env : RegistryEnv) (st : Step)
  /-- A revocation list is stored. -/
  | revocationList (st : StoreState)
  | maintenance
  /-- The first task of the work queue is run. -/
  | runRunner (env : RegistryEnv)

def step (s : RevokingBroker) : Event → RevokingBroker
  | .loop env st =>
      { s with broker := s.broker.step settings env (checkCertificate s.service st) }
  | .revocationList st => { s with service := s.service.onRevocationList st }
  | .maintenance =>
      if s.service.newCerts = [] then s
      else
        { s with
          service := { s.service with newCerts := [] }
          runners := s.runners ++ [s.service.newCerts] }
  | .runRunner env =>
      match s.runners with
      | [] => s
      | certs :: rest =>
          { s with broker := revokeCerts settings env certs s.broker, runners := rest }

/-- A broker that starts with the certificates from its file. -/
def start (registry : BrokerRegistry) (file : Bytes) : RevokingBroker where
  broker := { registry := registry }
  service := { certs := RevocationService.readFromFile file }

def run (s : RevokingBroker) (events : List Event) : RevokingBroker :=
  events.foldl (step settings) s

end

/-! ### The tasks -/

section

variable {settings : BrokerSettings} {env : RegistryEnv} {ok : Bytes → Prop} {β : MqttBroker}
  {i j : ℕ} {certs : List Bytes}

/-- A context that is disconnected again and again: the others stay. -/
theorem lookup_foldl_contextDisconnect {hashes : List Bytes} (hj : j ≠ i) :
    (hashes.foldl (fun β _ => β.contextDisconnect settings env i) β).contexts.lookup j =
      β.contexts.lookup j := by
  induction hashes generalizing β with
  | nil => rfl
  | cons cert hashes ih => rw [List.foldl_cons, ih, lookup_contextDisconnect, if_neg hj]

/-- If it is disconnected at all it is not read from afterwards. -/
theorem readable_foldl_contextDisconnect {hashes : List Bytes} {d : Context}
    (hd : (hashes.foldl (fun β _ => β.contextDisconnect settings env i) β).contexts.lookup i = some d) :
    β.contexts.lookup i = some d ∧ hashes = [] ∨ readable d = false := by
  induction hashes generalizing β with
  | nil => exact .inl ⟨hd, rfl⟩
  | cons cert hashes ih =>
    rcases ih hd with ⟨hlast, -⟩ | hclosed
    · rw [lookup_contextDisconnect, if_pos rfl] at hlast
      obtain ⟨c, -, rfl⟩ := Option.map_eq_some_iff.mp hlast
      exact .inr Context.readable_socketClose
    · exact .inr hclosed

theorem lookup_revokeContext (hj : j ≠ i) :
    (revokeContext settings env certs β i).contexts.lookup j = β.contexts.lookup j := by
  unfold revokeContext
  split
  · rfl
  · exact lookup_foldl_contextDisconnect hj

theorem keys_revokeContext (hj : (revokeContext settings env certs β i).contexts.lookup j ≠ none) :
    β.contexts.lookup j ≠ none := by
  by_cases heq : j = i
  · intro hnone
    unfold revokeContext at hj
    rw [← heq, hnone] at hj
    exact hj hnone
  · rwa [lookup_revokeContext heq] at hj

theorem vetted_revokeContext (h : β.Vetted ok) : (revokeContext settings env certs β i).Vetted ok := by
  unfold revokeContext
  split
  · exact h
  · rename_i c hc
    clear hc
    generalize c.certHashes.filter _ = hashes
    induction hashes generalizing β with
    | nil => exact h
    | cons cert hashes ih => exact ih h.contextDisconnect

/-- Nothing is read from a context with a certificate of the task. -/
def Cleared (certs : List Bytes) (β : MqttBroker) (i : ℕ) : Prop :=
  ∀ c, β.contexts.lookup i = some c → readable c = true → ∀ cert ∈ c.certHashes, cert ∉ certs

theorem cleared_revokeContext : Cleared certs (revokeContext settings env certs β i) i := by
  intro d hd hread
  unfold revokeContext at hd
  split at hd
  · rename_i hnone
    rw [hnone] at hd
    cases hd
  · rename_i c hc
    rcases readable_foldl_contextDisconnect hd with ⟨hsame, hnil⟩ | hclosed
    · rw [hc] at hsame
      rw [← Option.some.inj hsame]
      intro cert hcert hmem
      have := List.filter_eq_nil_iff.mp hnil cert hcert
      rw [List.contains_iff_mem] at this
      exact this hmem
    · exact absurd (hread.symm.trans hclosed) (by decide)

theorem cleared_of_revokeContext (h : Cleared certs β j) :
    Cleared certs (revokeContext settings env certs β i) j := by
  by_cases heq : j = i
  · rw [heq]
    exact cleared_revokeContext
  · unfold Cleared
    rw [lookup_revokeContext heq]
    exact h

/-- A task clears all contexts. -/
theorem vetted_revokeCerts (h : β.Vetted ok) :
    (revokeCerts settings env certs β).Vetted fun cert => ok cert ∧ cert ∉ certs := by
  have hfold : ∀ (places : List ℕ) (β' : MqttBroker), β'.Vetted ok →
      (∀ j, β'.contexts.lookup j ≠ none → j ∈ places ∨ Cleared certs β' j) →
      (places.foldl (revokeContext settings env certs) β').Vetted ok ∧
        ∀ j, Cleared certs (places.foldl (revokeContext settings env certs) β') j := by
    intro places
    induction places with
    | nil =>
      refine fun β' h' hplaces => ⟨h', fun j c hc => ?_⟩
      rcases hplaces j (hc ▸ Option.some_ne_none c) with hnil | hcleared
      · exact absurd hnil List.not_mem_nil
      · exact hcleared c hc
    | cons place places ih =>
      intro β' h' hplaces
      refine ih _ (vetted_revokeContext h') fun j hj => ?_
      rcases hplaces j (keys_revokeContext hj) with hmem | hcleared
      · rcases List.mem_cons.mp hmem with rfl | hmem
        · exact .inr cleared_revokeContext
        · exact .inl hmem
      · exact .inr (cleared_of_revokeContext hcleared)
  obtain ⟨hvetted, hcleared⟩ := hfold (β.contexts.keys.mergeSort (· ≤ ·)) β h fun j hj => by
    refine .inl ((List.mergeSort_perm _ _).mem_iff.mpr ?_)
    rw [← AList.mem_keys]
    by_contra hnot
    exact hj (AList.lookup_eq_none.mpr hnot)
  exact fun j c hc => ⟨(hvetted j c hc).sock, (hvetted j c hc).own, fun hread hbridge cert hcert =>
    ⟨(hvetted j c hc).certs hread hbridge cert hcert, hcleared j c hc hread cert hcert⟩⟩

theorem Vetted.imp {ok' : Bytes → Prop} (h : β.Vetted ok) (himp : ∀ cert, ok cert → ok' cert) :
    β.Vetted ok' := fun i c hc => ⟨(h i c hc).sock, (h i c hc).own, fun hread hbridge cert hcert =>
      himp cert ((h i c hc).certs hread hbridge cert hcert)⟩

/-! ### Runs -/

variable {s : RevokingBroker}

/-- A certificate that is revoked waits for the maintenance, or in a task. -/
def Pending (s : RevokingBroker) (cert : Bytes) : Prop :=
  cert ∈ s.service.certs → cert ∈ s.service.newCerts ∨ ∃ certs ∈ s.runners, cert ∈ certs

/-- The broker's own bridges get no CONNECT. -/
def Event.ConnectsToBroker (s : RevokingBroker) : Event → Prop
  | .loop _ st => s.broker.ConnectsToBroker st
  | _ => True

theorem mem_addCertificate {service : RevocationService} {cert cert' : Bytes} :
    cert' ∈ (service.addCertificate cert).certs ↔ cert' = cert ∨ cert' ∈ service.certs := by
  unfold RevocationService.addCertificate RevocationService.isRevoked
  split_ifs with h
  · refine ⟨.inr, fun hor => hor.elim (fun heq => ?_) id⟩
    rw [heq]
    exact List.contains_iff_mem.mp h
  · exact List.mem_insert_iff

/-- What is added is new, unless it was revoked before. -/
theorem newCerts_addCertificate {service : RevocationService} {cert cert' : Bytes} :
    cert' ∈ (service.addCertificate cert).newCerts ↔
      cert' ∈ service.newCerts ∨ cert' = cert ∧ cert ∉ service.certs := by
  unfold RevocationService.addCertificate RevocationService.isRevoked
  split_ifs with h
  · rw [List.contains_iff_mem] at h
    simp [h]
  · rw [List.contains_iff_mem] at h
    simp [h]

/-- What every certificate of a list keeps, the list keeps. -/
theorem onRevocationList_induction {st : StoreState} {P : RevocationService → Prop}
    {service : RevocationService} (h : P service)
    (hadd : ∀ service cert payload, cert ∈ certificatesOf payload → P service →
      P (service.addCertificate (cstr cert))) : P (service.onRevocationList st) := by
  unfold RevocationService.onRevocationList
  split_ifs
  · exact h
  · split
    · exact h
    · rename_i event _
      exact List.foldlRecOn _ _ h fun service ih cert hcert => hadd service cert _ hcert ih

theorem safe_step {event : Event} (h : s.broker.Vetted s.Pending)
    (hevent : event.ConnectsToBroker s) :
    (s.step settings event).broker.Vetted (s.step settings event).Pending := by
  cases event with
  | loop env st =>
    refine Vetted.step h ?_ fun i bytesExceeded cert hst hrevoked hmem => ?_
    · cases st with
      | read i packet exceeds => exact hevent
      | _ => trivial
    · cases st with
      | certificate i' bytesExceeded' cert' =>
        -- what is accepted is not revoked
        injection hst with hi hbytes hcert
        rw [← hcert] at hrevoked hmem
        have hknown : s.service.isRevoked cert'.sha1 = true := List.contains_iff_mem.mpr hmem
        exact absurd (hknown.symm.trans hrevoked) (by decide)
      | _ => cases hst
  | revocationList st =>
    refine Vetted.imp h ?_
    show ∀ cert, s.Pending cert → Pending { s with service := s.service.onRevocationList st } cert
    refine @onRevocationList_induction st
      (fun service => ∀ cert, s.Pending cert → Pending { s with service := service } cert)
      s.service (fun _ => id) fun service cert _ _ ih cert' hpending hmem => ?_
    rcases mem_addCertificate.mp hmem with rfl | hold
    · by_cases hknown : cstr cert ∈ service.certs
      · exact (ih _ hpending hknown).imp_left fun hnew => newCerts_addCertificate.mpr (.inl hnew)
      · exact .inl (newCerts_addCertificate.mpr (.inr ⟨rfl, hknown⟩))
    · exact (ih _ hpending hold).imp_left fun hnew => newCerts_addCertificate.mpr (.inl hnew)
  | maintenance =>
    unfold step
    simp only
    split_ifs
    · exact h
    · refine Vetted.imp h fun cert hpending hmem => ?_
      rcases hpending hmem with hnew | ⟨certs, hcerts, hcert⟩
      · exact .inr ⟨_, List.mem_append_right _ (List.mem_singleton_self _), hnew⟩
      · exact .inr ⟨certs, List.mem_append_left _ hcerts, hcert⟩
  | runRunner env =>
    unfold step
    simp only
    split
    · exact h
    · rename_i certs rest hrunners
      refine Vetted.imp (vetted_revokeCerts h) fun cert hcert hmem => ?_
      obtain ⟨hpending, hcleared⟩ := hcert
      rcases hpending hmem with hnew | ⟨certs', hcerts', hcert'⟩
      · exact .inl hnew
      · rw [hrunners] at hcerts'
        rcases List.mem_cons.mp hcerts' with rfl | hrest
        · exact absurd hcert' hcleared
        · exact .inr ⟨certs', hrest, hcert'⟩

theorem run_append (event : Event) {events : List Event} :
    s.run settings (events ++ [event]) = (s.run settings events).step settings event := by
  unfold run
  rw [List.foldl_append]
  rfl

theorem safe_run {events : List Event} (h : s.broker.Vetted s.Pending)
    (hconnects : ∀ before event, before ++ [event] <+: events →
      event.ConnectsToBroker (s.run settings before)) :
    (s.run settings events).broker.Vetted (s.run settings events).Pending := by
  induction events using List.reverseRecOn with
  | nil => exact h
  | append_singleton events event ih =>
    rw [run_append]
    refine safe_step (ih fun before event' hpast => ?_) (hconnects events event List.prefix_rfl)
    exact hconnects before event' (hpast.trans (List.prefix_append events [event]))

/-- A certificate that was revoked before is revoked, and not new. -/
def Known (cert : Bytes) (service : RevocationService) : Prop :=
  cert ∈ service.certs ∧ cert ∉ service.newCerts

theorem known_step {event : Event} {cert : Bytes} (h : Known cert s.service) :
    Known cert (s.step settings event).service := by
  cases event with
  | loop env st => exact h
  | revocationList st =>
    refine onRevocationList_induction h fun service cert' _ _ hknown => ?_
    refine ⟨mem_addCertificate.mpr (.inr hknown.1), fun hnew => ?_⟩
    rcases newCerts_addCertificate.mp hnew with hold | ⟨heq, hnot⟩
    · exact hknown.2 hold
    · exact hnot (heq ▸ hknown.1)
  | maintenance =>
    unfold step
    simp only
    split_ifs
    · exact h
    · exact ⟨h.1, List.not_mem_nil⟩
  | runRunner env =>
    unfold step
    simp only
    split <;> exact h

theorem known_run {events : List Event} {cert : Bytes} (h : Known cert s.service) :
    Known cert (s.run settings events).service := by
  induction events generalizing s with
  | nil => exact h
  | cons event events ih => exact ih (known_step h)

/-- After the maintenance nothing is new. -/
theorem known_of_maintenance {cert : Bytes} (h : cert ∈ s.service.certs) :
    Known cert (s.step settings .maintenance).service := by
  unfold step
  simp only
  split_ifs with hnil
  · exact ⟨h, by rw [hnil]; exact List.not_mem_nil⟩
  · exact ⟨h, List.not_mem_nil⟩

/-- **Nobody goes on with a revoked certificate.**  Whatever happens after a maintenance, once its tasks are
done no packet is read from a connection to the broker that was made with a certificate that had been
revoked before the maintenance. -/
theorem revoked_closed {registry : BrokerRegistry} {file : Bytes} {before after : List Event}
    (hconnects : ∀ events event, events ++ [event] <+: before ++ .maintenance :: after →
      event.ConnectsToBroker ((start registry file).run settings events))
    (hdone : ((start registry file).run settings (before ++ .maintenance :: after)).runners = []) :
    ∀ i c, ((start registry file).run settings
        (before ++ .maintenance :: after)).broker.contexts.lookup i = some c →
      readable c = true → c.bridge = none → ∀ cert ∈ c.certHashes,
        cert ∉ ((start registry file).run settings before).service.certs := by
  intro i c hc hread hbridge cert hcert hrevoked
  have hstart : (start registry file).broker.Vetted (start registry file).Pending :=
    fun i c hc => by
      simp only [start, AList.lookup_empty] at hc
      cases hc
  have hsafe := (safe_run hstart hconnects i c hc).certs hread hbridge cert hcert
  have hknown : Known cert
      ((start registry file).run settings (before ++ .maintenance :: after)).service := by
    have hsplit : (start registry file).run settings (before ++ .maintenance :: after) =
        (((start registry file).run settings before).step settings .maintenance).run settings after := by
      unfold run
      rw [List.foldl_append, List.foldl_cons]
    rw [hsplit]
    exact known_run (known_of_maintenance hrevoked)
  rcases hsafe hknown.1 with hnew | ⟨certs, hcerts, -⟩
  · exact hknown.2 hnew
  · rw [hdone] at hcerts
    exact List.not_mem_nil hcerts

/-- The connection of a client whose certificate is revoked later. -/
def lateRevocation : List Event :=
  [.loop BrokerRegistry.steadyEnv (.accept 1 false),
    .loop BrokerRegistry.steadyEnv (.certificate 1 (fun _ => false) { sha1 := lit "a" }),
    .revocationList {
      ctx := ⟨[], [], true, 0, [], true, true, 0⟩
      message := some { msg := { createDxlMessage .event [] [] [] with payload := .buf (lit "a\n") } }
      core := {} }]

/-- The run goes on until the task of the revocation is done. -/
def lateRun : RevokingBroker :=
  (start {} []).run { guid := lit "L" } (lateRevocation ++ .maintenance ::
    [.loop BrokerRegistry.steadyEnv (.accept 2 true), .runRunner BrokerRegistry.steadyEnv])

theorem revoked_closed_late : ((lateRun.broker.contexts.lookup 1).any fun c =>
    readable c && c.bridge.isNone && c.certHashes.contains (lit "a")) = false := by
  rw [Bool.eq_false_iff, Ne, Option.any_eq_true]
  rintro ⟨c, hc, hopen⟩
  simp only [Bool.and_eq_true, Option.isNone_iff_eq_none, List.contains_iff_mem] at hopen
  obtain ⟨⟨hread, hbridge⟩, hcert⟩ := hopen
  refine @revoked_closed { guid := lit "L" } {} [] lateRevocation
    [.loop BrokerRegistry.steadyEnv (.accept 2 true), .runRunner BrokerRegistry.steadyEnv]
    (fun events event hpast => ?_) (by decide +kernel) 1 c hc hread hbridge (lit "a") hcert
    (by decide +kernel)
  have hmem := hpast.subset (List.mem_append_right events (List.mem_singleton_self event))
  simp only [lateRevocation, List.cons_append, List.nil_append, List.mem_cons, List.not_mem_nil,
    or_false] at hmem
  rcases hmem with rfl | rfl | rfl | rfl | rfl | rfl
  all_goals trivial

end

/-! ### The file -/

theorem not_mem_of_mem_splitOn {sep : UInt8} {s line : Bytes} (h : line ∈ s.splitOn sep) : sep ∉ line := by
  induction s generalizing line with
  | nil =>
    rw [List.splitOn_nil, List.mem_singleton] at h
    rw [h]
    exact List.not_mem_nil
  | cons b s ih =>
    rw [List.splitOn_cons_eq_if_modifyHead] at h
    split_ifs at h with hb
    · rcases List.mem_cons.mp h with rfl | h
      · exact List.not_mem_nil
      · exact ih h
    · obtain ⟨l, ls, hls⟩ := List.exists_cons_of_ne_nil (List.splitOn_ne_nil sep s)
      rw [hls] at h ih
      rcases List.mem_cons.mp h with rfl | h
      · rw [List.mem_cons, not_or]
        exact ⟨fun heq => hb (beq_iff_eq.mpr heq.symm), ih List.mem_cons_self⟩
      · exact ih (List.mem_cons_of_mem l h)

/-- The certificates are a set of lines. -/
structure Lines (service : RevocationService) : Prop where
  nodup : service.certs.Nodup
  line : ∀ cert ∈ service.certs, (0x0a : UInt8) ∉ cert

theorem lines_readFromFile (file : Bytes) :
    Lines { certs := RevocationService.readFromFile file } := by
  refine ⟨List.nodup_dedup _, fun cert hcert => ?_⟩
  have hread := (List.mem_filter.mp (List.mem_dedup.mp hcert)).1
  exact not_mem_of_mem_splitOn ((List.takeWhile_prefix _).subset hread)

theorem Lines.addCertificate {service : RevocationService} (h : Lines service) {cert : Bytes}
    (hcert : (0x0a : UInt8) ∉ cert) : Lines (service.addCertificate cert) := by
  refine ⟨?_, fun cert' hcert' => ?_⟩
  · rw [RevocationService.certs_addCertificate]
    exact h.nodup.insert
  · rcases mem_addCertificate.mp hcert' with rfl | hold
    · exact hcert
    · exact h.line cert' hold

theorem lines_step {settings : BrokerSettings} {s : RevokingBroker} {event : Event}
    (h : Lines s.service) : Lines (s.step settings event).service := by
  cases event with
  | loop env st => exact h
  | revocationList st =>
    refine onRevocationList_induction h fun service cert payload hcert hlines =>
      hlines.addCertificate fun hnl => ?_
    unfold certificatesOf at hcert
    obtain ⟨line, hline, rfl⟩ := List.mem_map.mp (List.mem_filter.mp hcert).1
    have hnl := (List.takeWhile_prefix _).subset hnl
    exact not_mem_of_mem_splitOn hline ((List.rdropWhile_prefix _ _).subset hnl)
  | maintenance =>
    unfold step
    simp only
    split_ifs
    · exact h
    · exact ⟨h.nodup, h.line⟩
  | runRunner env =>
    unfold step
    simp only
    split <;> exact h

theorem splitOn_writeToFile {certs : List Bytes} (h : ∀ cert ∈ certs, (0x0a : UInt8) ∉ cert) :
    (certs.flatMap fun cert => cert ++ [(0x0a : UInt8)]).splitOn 0x0a = certs ++ [[]] := by
  induction certs with
  | nil => rfl
  | cons cert certs ih =>
    obtain ⟨hcert, hcerts⟩ := List.forall_mem_cons.mp h
    rw [List.flatMap_cons, List.append_assoc, List.singleton_append,
      List.splitOn_append_cons_self_of_not_mem hcert, ih hcerts, List.cons_append]

theorem takeWhile_append_singleton (p : Bytes → Bool) (lines : List Bytes) (line : Bytes) :
    (lines ++ [line]).takeWhile p = lines.takeWhile p ∨
      (lines ++ [line]).takeWhile p = lines.takeWhile p ++ [line] := by
  by_cases hall : ∀ l ∈ lines, p l = true
  · rw [List.takeWhile_append_of_pos hall, List.takeWhile_eq_self_iff.mpr hall]
    cases hline : p line with
    | false => exact .inl (by simp [hline])
    | true => exact .inr (by simp [hline])
  · refine .inl ?_
    rw [List.takeWhile_append, if_neg]
    intro hlength
    refine hall (List.takeWhile_eq_self_iff.mp ?_)
    exact (List.takeWhile_prefix _).eq_of_length hlength

/-- **After a restart.**  Whatever the order in which the set is written, what is read back from the
file are the certificates that were revoked, up to the first that reads like the end of the file,
without blank ones. -/
theorem readFromFile_writeToFile {settings : BrokerSettings} {registry : BrokerRegistry} {file : Bytes}
    (events : List Event) (order : IterOrder Bytes) :
    let service := ((start registry file).run settings events).service
    RevocationService.readFromFile (service.writeToFile order) =
      ((order.arrange service.certs).takeWhile fun cert => cert != RevocationService.eofLine).filter
        fun cert => cert.any fun c => c != 0x20 := by
  have hlines : Lines ((start registry file).run settings events).service := by
    have hstart : Lines (start registry file).service := lines_readFromFile file
    generalize start registry file = s at hstart
    induction events generalizing s with
    | nil => exact hstart
    | cons event events ih => exact ih _ (lines_step hstart)
  generalize ((start registry file).run settings events).service = service at hlines
  have hnodup : (order.arrange service.certs).Nodup :=
    (order.perm service.certs).nodup_iff.mpr hlines.nodup
  have hline : ∀ cert ∈ order.arrange service.certs, (0x0a : UInt8) ∉ cert := fun cert hcert =>
    hlines.line cert (order.mem_arrange.mp hcert)
  simp only [RevocationService.readFromFile, RevocationService.writeToFile]
  generalize order.arrange service.certs = certs at hnodup hline
  rw [splitOn_writeToFile hline]
  have hset := ((List.takeWhile_prefix fun cert : Bytes =>
    cert != RevocationService.eofLine).sublist.nodup hnodup).filter fun cert : Bytes =>
      cert.any fun c => c != 0x20
  -- The blank line at the end is not read as a certificate.
  rcases takeWhile_append_singleton (fun cert => cert != RevocationService.eofLine) certs [] with
    htaken | htaken
  · rw [htaken, hset.dedup]
  · rw [htaken, List.filter_append]
    exact (congrArg List.dedup (List.append_nil _)).trans hset.dedup

end RevokingBroker

end DxlBroker
