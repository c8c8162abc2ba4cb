import DxlBroker.Connection.MainLoop

/-!
# The memory of the main loop

The sets of the loop hold pointers to contexts.  A context that is cleaned is taken out of two of them
before it is freed, but not out of the set of new clients, which is emptied at the start of every round.
-/

namespace DxlBroker

open Bytes Unordered

/-! ### What becomes of a context -/

namespace Context

/-- A connection to the broker over which nothing was read. -/
def Newcomer (c : Context) : Prop := c.sock = true ∧ c.bridge = none ∧ c.state = .new

/-- A context that goes on as the same one: it stays a bridge of the broker or another one, and is no
newcomer again. -/
structure GoesOn (c c' : Context) : Prop where
  bridge : c'.bridge.isSome = c.bridge.isSome
  newcomer : c'.Newcomer → c.Newcomer

variable {c c' c'' : Context}

theorem GoesOn.refl : c.GoesOn c := ⟨rfl, fun h => h⟩

theorem GoesOn.trans (h : c.GoesOn c') (h' : c'.GoesOn c'') : c.GoesOn c'' :=
  ⟨h'.bridge.trans h.bridge, h.newcomer ∘ h'.newcomer⟩

theorem goesOn_of_state (hbridge : c'.bridge.isSome = c.bridge.isSome) (hstate : c'.state ≠ .new) :
    c.GoesOn c' := ⟨hbridge, fun h => absurd h.2.2 hstate⟩

theorem goesOn_of_sock (hbridge : c'.bridge.isSome = c.bridge.isSome) (hsock : c'.sock = false) :
    c.GoesOn c' := ⟨hbridge, fun h => absurd h.1 (by simp [hsock])⟩

theorem not_newcomer_socketClose : ¬ c.socketClose.Newcomer := by
  unfold socketClose
  rintro ⟨hsock, -, hstate⟩
  split_ifs at hsock hstate
  cases hstate

theorem goesOn_socketClose : c.GoesOn c.socketClose :=
  ⟨by unfold socketClose; split_ifs <;> rfl, fun h => absurd h not_newcomer_socketClose⟩

theorem goesOn_of_bridge (hbridge : c.bridge.isSome = true) (hbridge' : c'.bridge.isSome = true) :
    c.GoesOn c' :=
  ⟨hbridge'.trans hbridge.symm, fun h => by simp [h.2.1] at hbridge'⟩

end Context

namespace MqttBroker

open Context

/-- The contexts stay at their places and go on. -/
def Keeps (β β' : MqttBroker) : Prop :=
  ∀ i, Option.Rel GoesOn (β.contexts.lookup i) (β'.contexts.lookup i)

variable {settings : BrokerSettings} {env : RegistryEnv} {β β' β'' : MqttBroker} {c c' : Context}
  {i : ℕ}

theorem keeps_of_contexts (h : β'.contexts = β.contexts) : β.Keeps β' := fun i => by
  rw [h]
  cases β.contexts.lookup i with
  | none => exact .none
  | some c => exact .some .refl

theorem Keeps.refl : β.Keeps β := keeps_of_contexts rfl

theorem Keeps.lookup (h : β.Keeps β') (hc : β.contexts.lookup i = some c) :
    ∃ c', β'.contexts.lookup i = some c' ∧ c.GoesOn c' := by
  have := h i
  rw [hc] at this
  cases hc' : β'.contexts.lookup i with
  | none => rw [hc'] at this; cases this
  | some c' =>
    rw [hc'] at this
    cases this with
    | some hgoes => exact ⟨c', rfl, hgoes⟩

theorem Keeps.lookup' (h : β.Keeps β') (hc : β'.contexts.lookup i = some c') :
    ∃ c, β.contexts.lookup i = some c ∧ c.GoesOn c' := by
  have := h i
  rw [hc] at this
  cases hc' : β.contexts.lookup i with
  | none => rw [hc'] at this; cases this
  | some c =>
    rw [hc'] at this
    cases this with
    | some hgoes => exact ⟨c, rfl, hgoes⟩

theorem Keeps.isSome (h : β.Keeps β') :
    (β'.contexts.lookup i).isSome = (β.contexts.lookup i).isSome := by
  have := h i
  cases hc : β.contexts.lookup i with
  | none => rw [hc] at this; cases hc' : β'.contexts.lookup i <;> simp_all
  | some c =>
    obtain ⟨c', hc', -⟩ := h.lookup hc
    rw [hc']
    rfl

theorem Keeps.trans (h : β.Keeps β') (h' : β'.Keeps β'') : β.Keeps β'' := by
  intro i
  cases hc : β.contexts.lookup i with
  | none =>
    have hnone : (β''.contexts.lookup i).isSome = false := by rw [h'.isSome, h.isSome, hc]; rfl
    rw [Option.isSome_eq_false_iff, Option.isNone_iff_eq_none] at hnone
    rw [hnone]
    exact .none
  | some c =>
    obtain ⟨c', hc', hgoes⟩ := h.lookup hc
    obtain ⟨c'', hc'', hgoes'⟩ := h'.lookup hc'
    rw [hc'']
    exact .some (hgoes.trans hgoes')

theorem keeps_setContext (hc : β.contexts.lookup i = some c) (hgoes : c.GoesOn c') :
    β.Keeps (β.setContext i c') := by
  intro j
  rw [lookup_setContext]
  split_ifs with h
  · rw [h, hc]
    exact .some hgoes
  · exact Keeps.refl j

theorem keeps_contextDisconnect : β.Keeps (β.contextDisconnect settings env i) := by
  intro j
  rw [lookup_contextDisconnect]
  split_ifs with h
  · rw [h]
    cases β.contexts.lookup i with
    | none => exact .none
    | some c => exact .some goesOn_socketClose
  · exact Keeps.refl j

/-- The context that is enrolled is no newcomer. -/
theorem keeps_enroll {j : ℕ} {id : Bytes} {sendOk : Bool} :
    β.Keeps (β.enroll settings env j id sendOk).2 ∧
      ∀ c, (β.enroll settings env j id sendOk).2.contexts.lookup j = some c → ¬ c.Newcomer := by
  unfold MqttBroker.enroll
  cases hc : β.contexts.lookup j with
  | none => exact ⟨.refl, fun c hd => by simp [hc] at hd⟩
  | some c =>
    simp only
    obtain ⟨hcontexts, -⟩ := @identify_frame settings β (c.withId id) j
    have hlookup : (β.identify settings j (c.withId id)).contexts.lookup j = some (c.withId id) := by
      rw [hcontexts, lookup_setContext, if_pos rfl]
    obtain ⟨d, hd, hannounced, -⟩ :=
      @announce_frame settings env _ (c.withId id) j sendOk hlookup
    have hidentify : β.Keeps (β.identify settings j (c.withId id)) :=
      (keeps_setContext hc (show c.GoesOn (c.withId id) from ⟨rfl, fun h => h⟩)).trans
        (keeps_of_contexts hcontexts)
    have hnot : ¬ d.Newcomer ∧ (c.withId id).GoesOn d := by
      rcases hd with rfl | ⟨-, rfl⟩
      · exact ⟨fun h => absurd h.2.2 nofun, goesOn_of_state rfl nofun⟩
      · exact ⟨not_newcomer_socketClose, goesOn_socketClose⟩
    refine ⟨hidentify.trans ((keeps_setContext hlookup hnot.2).trans (keeps_of_contexts hannounced)),
      fun d' hd' => ?_⟩
    rw [hannounced, lookup_setContext, if_pos rfl] at hd'
    rw [← Option.some.inj hd']
    exact hnot.1

/-- A context that gives its connection to another one is no newcomer. -/
theorem keeps_contextFor {id : Bytes} (hc : β.contexts.lookup i = some c) :
    β.Keeps (β.contextFor settings env i c id).2 ∧
      ((β.contextFor settings env i c id).1 ≠ i →
        ∀ d, (β.contextFor settings env i c id).2.contexts.lookup i = some d → ¬ d.Newcomer) := by
  unfold MqttBroker.contextFor
  split
  · exact ⟨.refl, fun h => absurd rfl h⟩
  · rename_i j hj
    split
    · exact ⟨.refl, fun h => absurd rfl h⟩
    · rename_i old hold
      split_ifs
      · exact ⟨keeps_contextDisconnect, fun h => absurd rfl h⟩
      · have hreused : old.GoesOn (reused c old) := by
          refine goesOn_of_state ?_ nofun
          show old.closed.bridge.isSome = old.bridge.isSome
          unfold closed Context.socketClose
          dsimp only
          split_ifs <;> rfl
        have hset := keeps_setContext hold hreused
        obtain ⟨d, hd, hgoes⟩ := hset.lookup hc
        have hgiven : d.GoesOn (given c) := by
          refine goesOn_of_sock ?_ rfl
          show c.bridge.isSome = d.bridge.isSome
          exact hgoes.bridge.symm
        refine ⟨(hset.trans (keeps_setContext hd hgiven)).trans
          (keeps_of_contexts takeOver_frame.1), fun _ d' hd' hnew => ?_⟩
        rw [takeOver_frame.1, lookup_setContext, if_pos rfl] at hd'
        rw [← Option.some.inj hd'] at hnew
        exact absurd hnew.1 (by simp [given])

theorem Parsed.goesOn (h : Parsed c c') : c.GoesOn c' :=
  ⟨by rw [h.bridge], fun hnew => ⟨h.sock ▸ hnew.1, h.bridge ▸ hnew.2.1, h.state ▸ hnew.2.2⟩⟩

/-- After a CONNECT packet there is no newcomer at its place. -/
theorem keeps_handleConnect {cenv : ConnectEnv} {command : UInt8} {payload guid : Bytes}
    {sendOk : Bool} :
    β.Keeps (β.handleConnect settings env cenv i command payload guid sendOk).2 ∧
      ∀ c, (β.handleConnect settings env cenv i command payload guid sendOk).2.contexts.lookup i =
        some c → ¬ c.Newcomer := by
  have hclosed : ∀ {β' : MqttBroker} {c : Context},
      (β'.contextDisconnect settings env i).contexts.lookup i = some c → ¬ c.Newcomer := by
    intro β' c hc
    rw [lookup_contextDisconnect, if_pos rfl] at hc
    obtain ⟨d, -, rfl⟩ := Option.map_eq_some_iff.mp hc
    exact not_newcomer_socketClose
  unfold MqttBroker.handleConnect
  cases hc : β.contexts.lookup i with
  | none => exact ⟨.refl, fun c hd => by simp [hc] at hd⟩
  | some c =>
    simp only
    split_ifs
    · exact ⟨keeps_contextDisconnect, fun c => hclosed⟩
    · obtain ⟨herror, hpacket⟩ := @connectPacket_keeps settings c cenv β.clientIndex.length command
        payload guid
      cases hres : connectPacket settings cenv c β.clientIndex.length command payload guid with
      | error res =>
        obtain ⟨rc, c'⟩ := res
        exact ⟨(keeps_setContext hc (herror rc c' hres).goesOn).trans keeps_contextDisconnect,
          fun c => hclosed⟩
      | ok res =>
        obtain ⟨c', id⟩ := res
        have hset := keeps_setContext hc (hpacket c' id hres).goesOn
        obtain ⟨hfor, hother⟩ := @keeps_contextFor settings env (β.setContext i c') c' i id
          (by rw [lookup_setContext, if_pos rfl])
        obtain ⟨henroll, hself⟩ := @keeps_enroll settings env
          ((β.setContext i c').contextFor settings env i c' id).2
          ((β.setContext i c').contextFor settings env i c' id).1 id sendOk
        refine ⟨(hset.trans hfor).trans henroll, fun d hd hnew => ?_⟩
        simp only at hd
        by_cases hj : ((β.setContext i c').contextFor settings env i c' id).1 = i
        · rw [hj] at hself hd
          exact hself d hd hnew
        · obtain ⟨d', hd', hgoes⟩ := henroll.lookup' hd
          exact hother hj d' hd' (hgoes.newcomer hnew)

theorem keeps_packetHandle {packet : Packet} : β.Keeps (β.packetHandle settings env i packet).2 := by
  cases packet with
  | connect cenv command payload guid sendOk => exact keeps_handleConnect.1
  | connack code sendOk =>
    show β.Keeps (β.handleConnack settings env i code sendOk).2
    unfold handleConnack
    cases hc : β.contexts.lookup i with
    | none => exact .refl
    | some c =>
      have hconnected : β.Keeps (β.setContext i (c.withState .connected)) :=
        keeps_setContext hc (goesOn_of_state rfl nofun)
      simp only
      split_ifs
      · refine hconnected.trans (keeps_of_contexts ?_)
        unfold MqttBroker.setContext
        rw [dxlOnBridgeConnected_frame.1]
      · exact hconnected
      · exact keeps_of_contexts dxlOnBridgeConnected_frame.1
      · exact .refl
      · exact hconnected
      · exact .refl
  | disconnect command remainingLength =>
    show β.Keeps (β.handleDisconnect settings env i command remainingLength).2
    unfold handleDisconnect
    cases hc : β.contexts.lookup i with
    | none => exact .refl
    | some c =>
      simp only
      split_ifs
      · exact .refl
      · exact keeps_contextDisconnect
      · have hset : β.Keeps (β.setContext i (c.withState .disconnecting)) :=
          keeps_setContext hc (goesOn_of_state rfl nofun)
        exact hset.trans keeps_contextDisconnect
  | other remainingLength rc => exact .refl

/-- A context from which a packet was read to its end is no newcomer. -/
theorem keeps_packetRead {packet : Packet} {exceeds : Bool} (hc : β.contexts.lookup i = some c) :
    β.Keeps (β.packetRead settings env i packet exceeds).2 ∧
      (readToEnd c packet exceeds = true → ∀ d,
        (β.packetRead settings env i packet exceeds).2.contexts.lookup i = some d →
          ¬ d.Newcomer) := by
  have hkeeps : β.Keeps (β.packetRead settings env i packet exceeds).2 := by
    unfold packetRead
    rw [hc]
    simp only
    split_ifs
    · exact .refl
    · exact keeps_contextDisconnect.trans keeps_packetHandle
    · exact keeps_contextDisconnect
    · exact keeps_packetHandle
  refine ⟨hkeeps, fun hend d hd hnew => ?_⟩
  obtain ⟨c', hc', hgoes⟩ := hkeeps.lookup' hd
  rw [hc] at hc'
  obtain ⟨hsock, hbridge, hstate⟩ := Option.some.inj hc' ▸ hgoes.newcomer hnew
  have hconnect : packet.isConnect = true := by
    simpa [readToEnd, hbridge, hstate] using (Bool.and_eq_true_iff.mp hend).1
  cases packet with
  | connect cenv command payload guid sendOk =>
    have hread : β.packetRead settings env i (.connect cenv command payload guid sendOk) exceeds =
        β.handleConnect settings env cenv i command payload guid sendOk := by
      unfold packetRead
      rw [hc]
      simp only [Packet.isConnect, Bool.true_eq_false, and_false, if_false, Bool.not_true,
        Bool.and_false, Bool.false_eq_true]
      rfl
    rw [hread] at hd
    exact keeps_handleConnect.2 d hd hnew
  | connack => cases hconnect
  | disconnect => cases hconnect
  | other => cases hconnect

theorem keeps_checkPrimaryBridge {bridge : Bridge} {ping : Option Bool}
    (hc : β.contexts.lookup i = some c) (hbridge : c.bridge.isSome = true) :
    β.Keeps (β.checkPrimaryBridge settings env i c bridge ping) := by
  unfold MqttBroker.checkPrimaryBridge
  split
  · split
    · exact .refl
    · have hsame : (β.dxlOnBridgeDisconnected settings env c).contexts.lookup i = some c := by
        rw [dxlOnBridgeDisconnected_frame.1, hc]
      exact (keeps_of_contexts dxlOnBridgeDisconnected_frame.1).trans
        (keeps_setContext hsame (goesOn_of_bridge hbridge rfl))
    · exact keeps_setContext hc (goesOn_of_bridge hbridge rfl)
  · exact .refl

theorem keeps_maintainBridge {timedOut : Bool} {ping : Option Bool} :
    β.Keeps (β.maintainBridge settings env i timedOut ping) := by
  unfold MqttBroker.maintainBridge
  cases hc : β.contexts.lookup i with
  | none => exact .refl
  | some c =>
    cases hbridge : c.bridge with
    | none =>
      simp only [hbridge]
      exact .refl
    | some bridge =>
      simp only [hbridge]
      have hclosed : c.GoesOn (if timedOut then c.socketClose else c) := by
        split_ifs
        · exact goesOn_socketClose
        · exact .refl
      generalize (if timedOut then c.socketClose else c) = d at *
      have hd : d.bridge.isSome = true := by
        rw [hclosed.bridge, hbridge]
        rfl
      have hset := keeps_setContext hc hclosed
      have hlookup : (β.setContext i d).contexts.lookup i = some d := by
        rw [lookup_setContext, if_pos rfl]
      split
      · exact hset.trans (keeps_checkPrimaryBridge hlookup hd)
      · exact (hset.trans (keeps_of_contexts dxlOnBridgeDisconnected_frame.1)).trans
          (keeps_checkPrimaryBridge (by rw [dxlOnBridgeDisconnected_frame.1, hlookup]) hd)

theorem keeps_certificate {bytesExceeded : Bytes → Bool} {cert : Certificate} :
    β.Keeps (β.step settings env (.certificate i bytesExceeded cert)) := by
  refine @whenContext_cases _ _ _ _ β.Keeps .refl fun c hc _ => ?_
  obtain ⟨c', hsame, hβ⟩ := @processClientCertificate_frame settings β c i bytesExceeded cert hc
  have hset : β.Keeps (β.setContext i c') := keeps_setContext hc
    ⟨by rw [hsame.bridge], fun h => ⟨hsame.sock ▸ h.1, hsame.bridge ▸ h.2.1, hsame.state ▸ h.2.2⟩⟩
  simp only [hβ]
  split_ifs
  · exact hset
  · exact hset.trans keeps_contextDisconnect

theorem keeps_wsDestroy : β.Keeps (β.step settings env (.wsDestroy i)) := by
  simp only [MqttBroker.step]
  split
  · exact .refl
  · rename_i c hc
    have hafter : β.Keeps (if (c.wsi && c.state ≠ .wsDead) = true
        then β.contextDisconnect settings env i else β) := by
      split_ifs
      · exact keeps_contextDisconnect
      · exact .refl
    generalize (if (c.wsi && c.state ≠ .wsDead) = true
      then β.contextDisconnect settings env i else β) = β' at hafter ⊢
    split
    · exact hafter
    · rename_i d hd
      exact hafter.trans (keeps_setContext hd ⟨rfl, fun h => h⟩)

theorem keeps_restartBridge {next : Bool} {connect : Option Bool} :
    β.Keeps (β.step settings env (.restartBridge i next connect)) := by
  refine @whenContext_cases _ _ _ _ β.Keeps .refl fun c hc hp => ?_
  have hbridge : c.bridge.isSome = true := (Bool.and_eq_true_iff.mp hp).2
  unfold MqttBroker.restartBridge
  rw [hc]
  simp only
  split
  · refine keeps_setContext hc (goesOn_of_bridge hbridge ?_)
    split_ifs
    · simpa using hbridge
    · exact hbridge
  · refine keeps_setContext hc (goesOn_of_bridge hbridge ?_)
    split_ifs
    · simpa using hbridge
    · exact hbridge

end MqttBroker

namespace MainLoop

open MqttBroker Context

/-! ### The sets -/

/-- What holds of the sets at any time: they hold living contexts only, those with the flag and those
with messages are in them, and bytes wait only where something was read. -/
structure Inv (s : MainLoop) : Prop where
  msgsNodup : s.newMsgs.Nodup
  pendingNodup : s.pendingBytes.Nodup
  msgs : ∀ r ∈ s.newMsgs, s.live r = true
  pending : ∀ r ∈ s.pendingBytes, s.live r = true ∧ s.pendingFlag r.place = true
  flagged : ∀ i, (s.broker.contexts.lookup i).isSome = true → s.pendingFlag i = true →
    s.ref i ∈ s.pendingBytes
  waiting : ∀ i, (s.broker.contexts.lookup i).isSome = true → s.hasMsgs i = true →
    s.ref i ∈ s.newMsgs
  newcomer : ∀ i c, s.broker.contexts.lookup i = some c → s.pendingFlag i = true → ¬ c.Newcomer

variable {settings : BrokerSettings} {env : RegistryEnv} {s s' s'' : MainLoop} {r : ContextRef}
  {i : ℕ}

theorem live_iff : s.live r = true ↔
    s.ref r.place = r ∧ (s.broker.contexts.lookup r.place).isSome = true := by
  unfold live ref
  rw [Bool.and_eq_true, beq_iff_eq]
  constructor
  · rintro ⟨hgeneration, hsome⟩
    exact ⟨by rw [hgeneration], hsome⟩
  · rintro ⟨hr, hsome⟩
    exact ⟨congrArg ContextRef.generation hr, hsome⟩

theorem live_ref : s.live (s.ref i) = (s.broker.contexts.lookup i).isSome := by
  unfold live ref
  simp

theorem ref_injective {j : ℕ} (h : s.ref i = s.ref j) : i = j := congrArg ContextRef.place h

/-- A step that frees nothing and adds at most clients to the set of the new ones. -/
structure Leads (s s' : MainLoop) : Prop where
  inv : s.Inv → s'.Inv
  generation : s'.generation = s.generation
  bridge : ∀ i c, s.broker.contexts.lookup i = some c →
    ∃ c', s'.broker.contexts.lookup i = some c' ∧ c'.bridge.isSome = c.bridge.isSome
  clients : ∀ r ∈ s.newClients, r ∈ s'.newClients
  added : ∀ r ∈ s'.newClients, r ∈ s.newClients ∨ s'.live r = true ∧
    ∀ c, s'.broker.contexts.lookup r.place = some c → c.bridge = none
  newClient : (s.newClients ≠ [] → s.newClient = true) → s'.newClients ≠ [] → s'.newClient = true
  faulted : s'.faulted = s.faulted
  parent : s.connectFromParent = true → s'.connectFromParent = true

theorem Leads.live (h : s.Leads s') (hr : s.live r = true) : s'.live r = true := by
  obtain ⟨href, hsome⟩ := live_iff.mp hr
  obtain ⟨c, hc⟩ := Option.isSome_iff_exists.mp hsome
  obtain ⟨c', hc', -⟩ := h.bridge r.place c hc
  refine live_iff.mpr ⟨?_, by rw [hc']; rfl⟩
  unfold ref at href ⊢
  rw [h.generation, href]

theorem Leads.refl : s.Leads s where
  inv := fun h => h
  generation := rfl
  bridge := fun _ c hc => ⟨c, hc, rfl⟩
  clients := fun _ hr => hr
  added := fun _ hr => .inl hr
  newClient := fun h => h
  faulted := rfl
  parent := fun h => h

theorem Leads.trans (h : s.Leads s') (h' : s'.Leads s'') : s.Leads s'' where
  inv := h'.inv ∘ h.inv
  generation := h'.generation.trans h.generation
  bridge := fun i c hc => by
    obtain ⟨c', hc', hbridge⟩ := h.bridge i c hc
    obtain ⟨c'', hc'', hbridge'⟩ := h'.bridge i c' hc'
    exact ⟨c'', hc'', hbridge'.trans hbridge⟩
  clients := fun r hr => h'.clients r (h.clients r hr)
  added := fun r hr => by
    rcases h'.added r hr with hold | hnew
    · rcases h.added r hold with hold | ⟨hlive, hnone⟩
      · exact .inl hold
      · refine .inr ⟨h'.live hlive, fun c'' hc'' => ?_⟩
        obtain ⟨c, hc⟩ := Option.isSome_iff_exists.mp (live_iff.mp hlive).2
        obtain ⟨d, hd, hbridge⟩ := h'.bridge r.place c hc
        rw [hc''] at hd
        rw [← Option.some.inj hd, hnone c hc] at hbridge
        exact Option.not_isSome_iff_eq_none.mp (by simp [hbridge])
    · exact .inr hnew
  newClient := fun hflag => h'.newClient (h.newClient hflag)
  faulted := h'.faulted.trans h.faulted
  parent := fun hp => h'.parent (h.parent hp)

theorem leads_foldl {ι : Type} {f : MainLoop → ι → MainLoop}
    (hf : ∀ (s : MainLoop) (x : ι), s.Leads (f s x))
    (inputs : List ι) : s.Leads (inputs.foldl f s) := by
  induction inputs generalizing s with
  | nil => exact .refl
  | cons x inputs ih => exact (hf s x).trans ih

/-- Only the contexts change. -/
theorem leads_of_keeps {β : MqttBroker} (h : s.broker.Keeps β) : s.Leads { s with broker := β } where
  inv := fun hinv => by
    have hlive : ∀ r, MainLoop.live { s with broker := β } r = s.live r := fun r => by
      unfold MainLoop.live
      rw [h.isSome]
    exact ⟨hinv.msgsNodup, hinv.pendingNodup, fun r hr => (hlive r).trans (hinv.msgs r hr),
      fun r hr => ⟨(hlive r).trans (hinv.pending r hr).1, (hinv.pending r hr).2⟩,
      fun i hi => hinv.flagged i (h.isSome ▸ hi), fun i hi => hinv.waiting i (h.isSome ▸ hi),
      fun i c' hc' hflag hnew => by
        obtain ⟨c, hc, hgoes⟩ := h.lookup' hc'
        exact hinv.newcomer i c hc hflag (hgoes.newcomer hnew)⟩
  generation := rfl
  bridge := fun i c hc => by
    obtain ⟨c', hc', hgoes⟩ := h.lookup hc
    exact ⟨c', hc', hgoes.bridge⟩
  clients := fun _ hr => hr
  added := fun _ hr => .inl hr
  newClient := fun h => h
  faulted := rfl
  parent := fun h => h

/-- Only the sets of messages and bytes change. -/
theorem leads_of_sets (hbroker : s'.broker = s.broker) (hgeneration : s'.generation = s.generation)
    (hclients : s'.newClients = s.newClients) (hnew : s'.newClient = s.newClient)
    (hfaulted : s'.faulted = s.faulted)
    (hparent : s.connectFromParent = true → s'.connectFromParent = true) (hinv : s.Inv → s'.Inv) :
    s.Leads s' where
  inv := hinv
  generation := hgeneration
  bridge := fun i c hc => ⟨c, by rw [hbroker, hc], rfl⟩
  clients := fun r hr => by rwa [hclients]
  added := fun r hr => .inl (hclients ▸ hr)
  newClient := fun h => by rwa [hclients, hnew]
  faulted := hfaulted
  parent := hparent

theorem leads_clearMsgs : s.Leads (s.clearMsgs i) := by
  refine leads_of_sets rfl rfl rfl rfl rfl (fun h => h) fun h => ⟨h.msgsNodup, h.pendingNodup, h.msgs,
    h.pending, h.flagged, fun j hj hmsgs => h.waiting j hj ?_, h.newcomer⟩
  have hij : j ≠ i := fun heq => by simp [clearMsgs, heq] at hmsgs
  have hmsgs : Function.update s.hasMsgs i false j = true := hmsgs
  rwa [Function.update_of_ne hij] at hmsgs

theorem leads_messageInsert : s.Leads (s.messageInsert i) := by
  unfold messageInsert
  split_ifs with hsome
  swap
  · exact .refl
  refine leads_of_sets rfl rfl rfl rfl rfl (fun h => h) fun h => ⟨HashIter.nodup_add h.msgsNodup,
    h.pendingNodup, fun r hr => ?_, h.pending, h.flagged, fun j hj hmsgs => ?_, h.newcomer⟩
  · rcases HashIter.mem_add.mp hr with hr | rfl
    · exact h.msgs r hr
    · exact live_ref.trans hsome
  · have hmsgs : Function.update s.hasMsgs i true j = true := hmsgs
    refine HashIter.mem_add.mpr ?_
    by_cases hij : j = i
    · exact .inr (by rw [hij]; rfl)
    · rw [Function.update_of_ne hij] at hmsgs
      exact .inl (h.waiting j hj hmsgs)

theorem leads_removePendingBytes : s.Leads (s.removePendingBytes i) := by
  unfold removePendingBytes
  split_ifs with hflag
  swap
  · exact .refl
  refine leads_of_sets rfl rfl rfl rfl rfl (fun h => h) fun h => ?_
  have hkept : ∀ j, Function.update s.pendingFlag i false j = true →
      j ≠ i ∧ s.pendingFlag j = true := by
    intro j hj
    have hij : j ≠ i := fun heq => by simp [heq] at hj
    rw [Function.update_of_ne hij] at hj
    exact ⟨hij, hj⟩
  refine ⟨h.msgsNodup, h.pendingNodup.erase _, h.msgs, fun r hr => ?_, fun j hj hmark => ?_,
    h.waiting, fun j c hc hmark => ?_⟩
  · obtain ⟨hne, hmem⟩ := (List.Nodup.mem_erase_iff h.pendingNodup).mp hr
    obtain ⟨hlive, hmark⟩ := h.pending r hmem
    refine ⟨hlive, ?_⟩
    have hplace : r.place ≠ i := fun heq => hne (by rw [← (live_iff.mp hlive).1, heq])
    show Function.update s.pendingFlag i false r.place = true
    rwa [Function.update_of_ne hplace]
  · obtain ⟨hij, hold⟩ := hkept j hmark
    exact (List.mem_erase_of_ne fun heq => hij (ref_injective heq)).mpr (h.flagged j hj hold)
  · exact h.newcomer j c hc (hkept j hmark).2

theorem leads_addPendingBytes {c : Context} (hc : s.broker.contexts.lookup i = some c)
    (hnew : ¬ c.Newcomer) : s.Leads (s.addPendingBytes i) := by
  unfold addPendingBytes
  split_ifs with hflag
  · exact .refl
  refine leads_of_sets rfl rfl rfl rfl rfl (fun h => h) fun h => ?_
  have hmark : ∀ j, Function.update s.pendingFlag i true j = true → j = i ∨ s.pendingFlag j = true := by
    intro j hj
    by_cases hij : j = i
    · exact .inl hij
    · rw [Function.update_of_ne hij] at hj
      exact .inr hj
  refine ⟨h.msgsNodup, HashIter.nodup_add h.pendingNodup, h.msgs, fun r hr => ?_, fun j hj hj' => ?_,
    h.waiting, fun j d hd hj => ?_⟩
  · show s.live r = true ∧ Function.update s.pendingFlag i true r.place = true
    rcases HashIter.mem_add.mp hr with hr | rfl
    · obtain ⟨hlive, hold⟩ := h.pending r hr
      refine ⟨hlive, ?_⟩
      by_cases hij : r.place = i
      · rw [hij, Function.update_self]
      · rwa [Function.update_of_ne hij]
    · exact ⟨live_ref.trans (by rw [hc]; rfl), Function.update_self _ _ _⟩
  · refine HashIter.mem_add.mpr ?_
    rcases hmark j hj' with rfl | hold
    · exact .inr rfl
    · exact .inl (h.flagged j hj hold)
  · rcases hmark j hj with rfl | hold
    · rw [hc] at hd
      rwa [← Option.some.inj hd]
    · exact h.newcomer j d hd hold

theorem leads_disconnect : s.Leads (s.disconnect settings env i) :=
  leads_of_keeps keeps_contextDisconnect

/-! ### Contexts -/

theorem lookup_freePlace {β : MqttBroker} : β.contexts.lookup β.freePlace = none := by
  unfold freePlace
  cases hfind : (List.range (β.contexts.keys.length + 1)).find? fun i =>
      (β.contexts.lookup i).isNone with
  | some i =>
    have hnone := List.find?_some hfind
    exact Option.isNone_iff_eq_none.mp hnone
  | none =>
    -- there are more places than contexts
    have hsub : List.range (β.contexts.keys.length + 1) ⊆ β.contexts.keys := fun i hi => by
      have hsome := List.find?_eq_none.mp hfind i hi
      rw [Bool.not_eq_true, Option.isNone_eq_false_iff] at hsome
      exact AList.mem_keys.mp (AList.lookup_isSome.mp hsome)
    have := (List.nodup_range.subperm hsub).length_le
    rw [List.length_range] at this
    omega

theorem lt_contextCount {β : MqttBroker} (h : (β.contexts.lookup i).isSome = true) :
    i < β.contextCount := by
  have hmem : i ∈ β.contexts.keys := AList.mem_keys.mp (AList.lookup_isSome.mp h)
  unfold contextCount
  generalize β.contexts.keys = keys at hmem
  induction keys with
  | nil => exact absurd hmem List.not_mem_nil
  | cons j keys ih =>
    rw [List.foldr_cons]
    rcases List.mem_cons.mp hmem with rfl | hmem
    · omega
    · have := ih hmem
      omega

theorem leads_addContext {c : Context} : s.Leads (s.addContext c) := by
  have hfree := @lookup_freePlace s.broker
  have hne : ∀ j, (s.broker.contexts.lookup j).isSome = true → j ≠ s.broker.freePlace :=
    fun j hj heq => by
      rw [heq, hfree] at hj
      cases hj
  have hlookup : ∀ j, j ≠ s.broker.freePlace →
      (s.addContext c).broker.contexts.lookup j = s.broker.contexts.lookup j := fun j hj => by
    show (s.broker.setContext s.broker.freePlace c).contexts.lookup j = _
    rw [lookup_setContext, if_neg hj]
  have hlive : ∀ r, s.live r = true → (s.addContext c).live r = true := fun r hr => by
    obtain ⟨href, hsome⟩ := live_iff.mp hr
    exact live_iff.mpr ⟨href, by rwa [hlookup _ (hne _ hsome)]⟩
  have hflag : ∀ j, Function.update s.pendingFlag s.broker.freePlace false j = true →
      j ≠ s.broker.freePlace ∧ s.pendingFlag j = true := fun j hj => by
    have hij : j ≠ s.broker.freePlace := fun heq => by simp [heq] at hj
    exact ⟨hij, by rwa [Function.update_of_ne hij] at hj⟩
  have hmsgs : ∀ j, Function.update s.hasMsgs s.broker.freePlace false j = true →
      j ≠ s.broker.freePlace ∧ s.hasMsgs j = true := fun j hj => by
    have hij : j ≠ s.broker.freePlace := fun heq => by simp [heq] at hj
    exact ⟨hij, by rwa [Function.update_of_ne hij] at hj⟩
  exact {
    inv := fun h => ⟨h.msgsNodup, h.pendingNodup, fun r hr => hlive r (h.msgs r hr),
      fun r hr => by
        obtain ⟨hl, hf⟩ := h.pending r hr
        refine ⟨hlive r hl, ?_⟩
        show Function.update s.pendingFlag s.broker.freePlace false r.place = true
        rwa [Function.update_of_ne (hne _ (live_iff.mp hl).2)],
      fun j hj hf => by
        obtain ⟨hij, hold⟩ := hflag j hf
        exact h.flagged j (hlookup j hij ▸ hj) hold,
      fun j hj hm => by
        obtain ⟨hij, hold⟩ := hmsgs j hm
        exact h.waiting j (hlookup j hij ▸ hj) hold,
      fun j d hd hf => by
        obtain ⟨hij, hold⟩ := hflag j hf
        exact h.newcomer j d (hlookup j hij ▸ hd) hold⟩
    generation := rfl
    bridge := fun j d hd => ⟨d, by rw [hlookup j (hne j (by rw [hd]; rfl)), hd], rfl⟩
    clients := fun _ hr => hr
    added := fun _ hr => .inl hr
    newClient := fun h => h
    faulted := rfl
    parent := fun h => h }

theorem lookup_addContext {c : Context} :
    (s.addContext c).broker.contexts.lookup s.broker.freePlace = some c := by
  show (s.broker.setContext s.broker.freePlace c).contexts.lookup _ = _
  rw [lookup_setContext, if_pos rfl]

theorem leads_accept {wsi : Bool} : s.Leads (s.accept wsi) := by
  unfold accept
  simp only
  split_ifs
  · exact leads_addContext
  · refine (@leads_addContext s { sock := !wsi, wsi := wsi }).trans ?_
    have hc := @lookup_addContext s { sock := !wsi, wsi := wsi }
    generalize s.addContext { sock := !wsi, wsi := wsi } = s' at hc ⊢
    exact {
      inv := fun h => ⟨h.msgsNodup, h.pendingNodup, h.msgs, h.pending, h.flagged, h.waiting,
        h.newcomer⟩
      generation := rfl
      bridge := fun j d hd => ⟨d, hd, rfl⟩
      clients := fun r hr => HashIter.mem_add.mpr (.inl hr)
      added := fun r hr => by
        rcases HashIter.mem_add.mp hr with hr | rfl
        · exact .inl hr
        · refine .inr ⟨?_, fun d hd => ?_⟩
          · show s'.live (s'.ref _) = true
            rw [live_ref, hc]
            rfl
          · have hd : s'.broker.contexts.lookup s.broker.freePlace = some d := hd
            rw [← Option.some.inj (hc.symm.trans hd)]
      newClient := fun _ _ => rfl
      faulted := rfl
      parent := fun h => h }

/-! ### Reading and writing -/

theorem leads_releaseTakenOver {packet : Packet} : s.Leads (s.releaseTakenOver settings i packet) ∧
    (s.releaseTakenOver settings i packet).broker = s.broker := by
  unfold releaseTakenOver
  split
  · refine ⟨leads_removePendingBytes.trans leads_clearMsgs, ?_⟩
    unfold clearMsgs removePendingBytes
    split_ifs <;> rfl
  · exact ⟨.refl, rfl⟩

theorem leads_updatePending {pending : Bool}
    (hnew : ∀ c, s.broker.contexts.lookup i = some c → ¬ c.Newcomer) :
    s.Leads (s.updatePending i pending) := by
  unfold updatePending
  split_ifs with hany
  · obtain ⟨c, hc, -⟩ := (Option.any_eq_true _ _).mp hany
    exact leads_addPendingBytes hc (hnew c hc)
  · exact leads_removePendingBytes
  · exact .refl

theorem leads_packetRead {c : Context} {packet : Packet} {exceeds pending : Bool}
    (hc : s.broker.contexts.lookup i = some c) :
    s.Leads (s.packetRead settings env i c packet exceeds pending) := by
  obtain ⟨hkeeps, hend⟩ := @keeps_packetRead settings env s.broker c i packet exceeds hc
  unfold packetRead
  simp only
  set s₁ : MainLoop := { s with
    connectFromParent := s.connectFromParent || (packet.isConnect && c.bridge.isSome) }
  have h₁ : s.Leads s₁ := leads_of_sets rfl rfl rfl rfl rfl (fun h => by simp [s₁, h]) fun h =>
    ⟨h.msgsNodup, h.pendingNodup, h.msgs, h.pending, h.flagged, h.waiting, h.newcomer⟩
  obtain ⟨h₂, hbroker⟩ := @leads_releaseTakenOver settings s₁ i packet
  have hread : (s₁.releaseTakenOver settings i packet).broker.Keeps
      (s.broker.packetRead settings env i packet exceeds).2 := by
    rw [hbroker]
    exact hkeeps
  have h₃ := h₁.trans (h₂.trans (leads_of_keeps hread))
  split_ifs with hwhole
  · exact h₃.trans (leads_updatePending (hend hwhole))
  · exact h₃

theorem leads_handleRead {receipt : Receipt} : s.Leads (s.handleRead settings env i receipt) := by
  unfold handleRead
  cases hc : s.broker.contexts.lookup i with
  | none => exact .refl
  | some c =>
    simp only
    split_ifs
    swap
    · exact .refl
    cases receipt with
    | part => exact .refl
    | error => exact leads_disconnect
    | packet packet exceeds pending =>
      simp only
      split_ifs
      · exact leads_packetRead hc
      · exact (leads_packetRead hc).trans leads_disconnect

end MainLoop

end DxlBroker
