import DxlBroker.Connection.LoopMemory

/-!
# Rounds of the main loop

Whatever happens in the rounds of the loop, its sets of messages and of bytes hold living contexts.  The
set of new clients does so too, unless the bridges are configured twice in one round.
-/

namespace DxlBroker

open Bytes Unordered

namespace MainLoop

open MqttBroker Context

variable {settings : BrokerSettings} {env : RegistryEnv} {s s' s'' : MainLoop} {r : ContextRef}
  {i : ℕ}

/-! ### The loops over the sets -/

theorem goes_refl (l : List ContextRef) : HashIter.Goes r l l := ⟨[], .inl (List.append_nil l).symm⟩

theorem newMsgs_inserts (inserts : List ℕ) :
    ∃ more, (inserts.foldl messageInsert s).newMsgs = s.newMsgs ++ more := by
  induction inserts generalizing s with
  | nil => exact ⟨[], (List.append_nil _).symm⟩
  | cons i inserts ih =>
    obtain ⟨more, hmore⟩ := @ih (s.messageInsert i)
    rw [List.foldl_cons, hmore]
    unfold messageInsert
    split_ifs
    · unfold addNewMsgs HashIter.add
      simp only
      split_ifs
      · exact ⟨more, rfl⟩
      · exact ⟨_ :: more, List.append_assoc _ _ _⟩
    · exact ⟨more, rfl⟩

theorem pendingBytes_inserts (inserts : List ℕ) :
    (inserts.foldl messageInsert s).pendingBytes = s.pendingBytes := by
  induction inserts generalizing s with
  | nil => rfl
  | cons i inserts ih =>
    rw [List.foldl_cons, ih]
    unfold messageInsert
    split_ifs <;> rfl

/-- A context that was written stays in the set as long as it has messages. -/
theorem leads_writeContext {w : Writing} (hr : s.live r = true) :
    s.Leads (writeContext settings env w r s) ∧
      (r ∈ s.newMsgs → HashIter.Goes r s.newMsgs (writeContext settings env w r s).newMsgs) := by
  unfold writeContext
  rw [if_pos hr]
  split
  · exact ⟨.refl, fun _ => goes_refl _⟩
  · simp only
    have hclear : s.Leads (if w.emptied then s.clearMsgs r.place else s) ∧
        (if w.emptied then s.clearMsgs r.place else s).newMsgs = s.newMsgs := by
      split_ifs
      · exact ⟨leads_clearMsgs, rfl⟩
      · exact ⟨.refl, rfl⟩
    generalize (if w.emptied then s.clearMsgs r.place else s) = s₁ at hclear ⊢
    have hfail : s₁.Leads (if w.failed then s₁.disconnect settings env r.place else s₁) ∧
        (if w.failed then s₁.disconnect settings env r.place else s₁).newMsgs = s₁.newMsgs := by
      split_ifs
      · exact ⟨leads_disconnect, rfl⟩
      · exact ⟨.refl, rfl⟩
    generalize (if w.failed then s₁.disconnect settings env r.place else s₁) = s₂ at hfail ⊢
    obtain ⟨more, hmore⟩ := @newMsgs_inserts s₂ w.inserts
    have hwrote : s.Leads (w.inserts.foldl messageInsert s₂) :=
      (hclear.1.trans hfail.1).trans (leads_foldl (fun _ _ => leads_messageInsert) _)
    rw [hfail.2, hclear.2] at hmore
    generalize w.inserts.foldl messageInsert s₂ = s₃ at hmore hwrote ⊢
    split_ifs with hmsgs
    · exact ⟨hwrote, fun _ => ⟨more, .inl hmore⟩⟩
    · refine ⟨hwrote.trans ?_, fun hmem => ⟨more, .inr ?_⟩⟩
      · have hlive := hwrote.live hr
        refine leads_of_sets rfl rfl rfl rfl rfl (fun h => h) fun h => ⟨h.msgsNodup.erase r,
          h.pendingNodup, fun x hx => h.msgs x (List.mem_of_mem_erase hx), h.pending, h.flagged,
          fun j hj hm => ?_, h.newcomer⟩
        refine (List.mem_erase_of_ne fun heq => hmsgs ?_).mpr (h.waiting j hj hm)
        rw [← heq]
        exact hm
      · show s₃.newMsgs.erase r = _
        rw [hmore, List.erase_append_left _ hmem]

@[simp] theorem newClients_messageInsert : (s.messageInsert i).newClients = s.newClients := by
  unfold messageInsert
  split_ifs <;> rfl

theorem newClients_writeContext {w : Writing} :
    (writeContext settings env w r s).newClients = s.newClients := by
  have hinserts : ∀ (inserts : List ℕ) (s : MainLoop),
      (inserts.foldl messageInsert s).newClients = s.newClients := by
    intro inserts
    induction inserts with
    | nil => exact fun s => rfl
    | cons i inserts ih => exact fun s => (ih _).trans newClients_messageInsert
  unfold writeContext
  simp only
  split_ifs
  all_goals first
    | rfl
    | exact hinserts _ _

/-- The second loop of `write_message_loop` frees nothing it needs, and visits the whole set. -/
theorem writeLoop_spec {writes : List Writing} (h : s.Inv) :
    s.Leads (writeLoop settings env writes s).state ∧
      (writeLoop settings env writes s).state.newClients = s.newClients ∧
      (writeLoop settings env writes s).fault = false ∧
      ((writeLoop settings env writes s).ended = true →
        ∀ r ∈ s.newMsgs, r ∈ (writeLoop settings env writes s).visited) := by
  have hbody : ∀ w r s', s'.Inv ∧ s.Leads s' ∧ s'.newClients = s.newClients → r ∈ s'.newMsgs →
      (writeContext settings env w r s').Inv ∧ s.Leads (writeContext settings env w r s') ∧
        (writeContext settings env w r s').newClients = s.newClients := by
    intro w r s' hs' hr
    have hleads := (@leads_writeContext settings env s' r w (hs'.1.msgs r hr)).1
    exact ⟨hleads.inv hs'.1, hs'.2.1.trans hleads, newClients_writeContext.trans hs'.2.2⟩
  have hstart : s.Inv ∧ s.Leads s ∧ s.newClients = s.newClients := ⟨h, .refl, rfl⟩
  obtain ⟨-, hleads, hclients⟩ := HashIter.loop_invariant hbody hstart
  refine ⟨hleads, hclients, ?_⟩
  exact @HashIter.loop_spec ContextRef MainLoop Writing _ newMsgs (writeContext settings env) _
    (fun _ => False) hbody (fun _ _ _ h => h)
    (fun w r s' hs' hr _ => (leads_writeContext (hs'.1.msgs r hr)).2 hr)
    (fun s' hs' => hs'.1.msgsNodup) writes s hstart id

/-- A context for which bytes wait is not taken for a new one, and takes over no connection. -/
theorem takenOver_eq_none {packet : Packet} {c : Context}
    (hc : s.broker.contexts.lookup i = some c) (hread : readable c = true) (hnew : ¬ c.Newcomer)
    (hparent : (packet.isConnect && c.bridge.isSome) = false) :
    s.broker.takenOver settings i packet = none := by
  cases packet with
  | connect cenv command payload guid sendOk =>
    have hbridge : c.bridge = none := Option.not_isSome_iff_eq_none.mp (by
      simpa [Packet.isConnect] using hparent)
    unfold takenOver
    simp only [hc]
    split_ifs with hstate
    · rfl
    · -- the connection is that of a WebSocket
      have hwsi : c.wsi = true := by
        by_contra hno
        refine hnew ⟨?_, hbridge, not_not.mp hstate⟩
        unfold readable at hread
        rwa [if_neg hno] at hread
      cases hres : connectPacket settings cenv c s.broker.clientIndex.length command payload guid with
      | error res => rfl
      | ok res =>
        obtain ⟨c', id⟩ := res
        simp only [(connectPacket_keeps.2 c' id hres).wsi, hwsi, Bool.or_true, Bool.not_true]
        cases s.broker.clientIndex.lookup id with
        | none => rfl
        | some j =>
          rw [Option.filter_some_eq_none]
          cases (s.broker.setContext i c').contexts.lookup j <;> simp
  | connack => rfl
  | disconnect => rfl
  | other => rfl

theorem pendingBytes_updatePending {pending : Bool} (href : s.ref i = r)
    (hflag : s.pendingFlag i = true) :
    HashIter.Goes r s.pendingBytes (s.updatePending i pending).pendingBytes := by
  unfold updatePending
  split_ifs
  · unfold addPendingBytes
    rw [if_pos hflag]
    exact goes_refl _
  · unfold removePendingBytes
    rw [if_pos hflag]
    refine ⟨[], .inr ?_⟩
    rw [List.append_nil, ← href]
  · exact goes_refl _

theorem goes_packetRead {c : Context} {packet : Packet} {exceeds pending : Bool}
    (href : s.ref i = r) (hflag : s.pendingFlag i = true)
    (htaken : s.broker.takenOver settings i packet = none) :
    HashIter.Goes r s.pendingBytes
      (s.packetRead settings env i c packet exceeds pending).pendingBytes := by
  unfold packetRead releaseTakenOver
  simp only [htaken]
  split_ifs
  · exact pendingBytes_updatePending href hflag
  · exact goes_refl _

@[simp] theorem connectFromParent_removePendingBytes :
    (s.removePendingBytes i).connectFromParent = s.connectFromParent := by
  unfold removePendingBytes
  split_ifs <;> rfl

@[simp] theorem connectFromParent_releaseTakenOver {packet : Packet} :
    (s.releaseTakenOver settings i packet).connectFromParent = s.connectFromParent := by
  unfold releaseTakenOver
  split
  · exact connectFromParent_removePendingBytes
  · rfl

@[simp] theorem connectFromParent_updatePending {pending : Bool} :
    (s.updatePending i pending).connectFromParent = s.connectFromParent := by
  unfold updatePending addPendingBytes
  split_ifs <;> simp

theorem connectFromParent_packetRead {c : Context} {packet : Packet} {exceeds pending : Bool} :
    (s.packetRead settings env i c packet exceeds pending).connectFromParent =
      (s.connectFromParent || (packet.isConnect && c.bridge.isSome)) := by
  unfold packetRead
  simp only
  split_ifs <;> simp

/-- Reading takes at most the context itself out of the set. -/
theorem goes_handleRead {receipt : Receipt} (h : s.Inv) (hr : r ∈ s.pendingBytes)
    (hparent : (s.handleRead settings env r.place receipt).connectFromParent = false) :
    HashIter.Goes r s.pendingBytes (s.handleRead settings env r.place receipt).pendingBytes := by
  obtain ⟨hlive, hflag⟩ := h.pending r hr
  unfold handleRead at hparent ⊢
  cases hc : s.broker.contexts.lookup r.place with
  | none => exact goes_refl _
  | some c =>
    simp only [hc] at hparent ⊢
    split_ifs at hparent ⊢ with hread
    swap
    · exact goes_refl _
    cases receipt with
    | part => exact goes_refl _
    | error => exact goes_refl _
    | packet packet exceeds pending =>
      simp only at hparent ⊢
      have hnot : (packet.isConnect && c.bridge.isSome) = false := by
        split_ifs at hparent
        · rw [connectFromParent_packetRead, Bool.or_eq_false_iff] at hparent
          exact hparent.2
        · rw [show (disconnect settings env _ r.place).connectFromParent = _ from
            connectFromParent_packetRead, Bool.or_eq_false_iff] at hparent
          exact hparent.2
      have hgoes := @goes_packetRead settings env s r r.place c packet exceeds pending
        (live_iff.mp hlive).1 hflag
        (takenOver_eq_none hc hread (h.newcomer r.place c hc hflag) hnot)
      split_ifs
      · exact hgoes
      · exact hgoes

/-- Unless a broker is sent a CONNECT by one to which it has made a bridge, the loop over the contexts
for which bytes wait does not come to freed memory. -/
theorem pendingLoop_spec {inputs : List (Receipt × List ℕ)} (h : s.Inv) :
    s.Leads (pendingLoop settings env inputs s).state ∧
      ((pendingLoop settings env inputs s).state.connectFromParent = false →
        (pendingLoop settings env inputs s).fault = false) := by
  have hread : ∀ (input : Receipt × List ℕ) {r : ContextRef} {s' : MainLoop}, s'.live r = true →
      readPending settings env input r s' =
        input.2.foldl messageInsert (s'.handleRead settings env r.place input.1) :=
    fun input r s' hr => if_pos hr
  have hstep : ∀ (input : Receipt × List ℕ) {r : ContextRef} {s' : MainLoop}, s'.live r = true →
      s'.Leads (readPending settings env input r s') := fun input r s' hr => by
    rw [hread input hr]
    exact leads_handleRead.trans (leads_foldl (fun _ _ => leads_messageInsert) _)
  have hbody : ∀ input r s', s'.Inv ∧ s.Leads s' → r ∈ s'.pendingBytes →
      (readPending settings env input r s').Inv ∧
        s.Leads (readPending settings env input r s') := by
    intro input r s' hs' hr
    have hleads := hstep input (hs'.1.pending r hr).1
    exact ⟨hleads.inv hs'.1, hs'.2.trans hleads⟩
  have hstart : s.Inv ∧ s.Leads s := ⟨h, .refl⟩
  refine ⟨(HashIter.loop_invariant hbody hstart).2, fun hparent => ?_⟩
  refine (@HashIter.loop_spec ContextRef MainLoop _ _ pendingBytes (readPending settings env) _
    (fun s' => s'.connectFromParent = true) hbody (fun input r s' hs' => ?_)
    (fun input r s' hs' hr hnot => ?_) (fun s' hs' => hs'.1.pendingNodup) inputs s hstart
    (by rw [Bool.not_eq_true]; exact hparent)).1
  · by_cases hr : s'.live r = true
    · exact (hstep input hr).parent hs'
    · unfold readPending
      rwa [if_neg hr]
  · have hlive := (hs'.1.pending r hr).1
    rw [hread input hlive] at hnot ⊢
    rw [pendingBytes_inserts]
    refine goes_handleRead hs'.1 hr ?_
    by_contra hyes
    rw [Bool.not_eq_false] at hyes
    exact hnot ((leads_foldl (fun _ _ => leads_messageInsert) input.2).parent hyes)

/-! ### The steps of a round -/

theorem leads_io {x : Io} : s.Leads (s.io settings env x) := by
  cases x with
  | accept wsi => exact leads_accept
  | certificate i bytesExceeded cert => exact leads_of_keeps keeps_certificate
  | read i receipt => exact leads_handleRead
  | disconnect i => exact leads_disconnect
  | wsDestroy i => exact leads_of_keeps keeps_wsDestroy
  | insert i => exact leads_messageInsert
  | acknowledge i => exact leads_clearMsgs

theorem keeps_maintainBridge_step {timedOut : Bool} {ping : Option Bool} {β : MqttBroker} :
    β.Keeps (β.step settings env (.maintainBridge i timedOut ping)) :=
  @whenContext_cases _ _ _ _ β.Keeps .refl fun _ _ _ => keeps_maintainBridge

theorem leads_upkeep {u : Upkeep} : s.Leads (s.upkeep settings env u) ∧
    (s.upkeep settings env u).newClients = s.newClients := by
  cases u with
  | disconnect i => exact ⟨leads_disconnect, rfl⟩
  | maintainBridge i timedOut ping => exact ⟨leads_of_keeps keeps_maintainBridge_step, rfl⟩
  | restartBridge i next connect =>
    unfold upkeep
    simp only
    split_ifs
    · exact ⟨leads_clearMsgs.trans (leads_of_keeps keeps_restartBridge), rfl⟩
    · exact ⟨leads_of_keeps keeps_restartBridge, rfl⟩
  | insert i => exact ⟨leads_messageInsert, newClients_messageInsert⟩

/-- The context was freed. -/
def Freed (s : MainLoop) (r : ContextRef) : Prop := r.generation < s.generation r.place

theorem Freed.not_live (h : s.Freed r) : s.live r = false := by
  unfold Freed at h
  unfold live
  rw [Bool.and_eq_false_iff, beq_eq_false_iff_ne]
  exact .inl (Nat.ne_of_gt h)

/-- A step that may free contexts. -/
structure Runs (s s' : MainLoop) : Prop where
  inv : s.Inv → s'.Inv
  freed : ∀ r, s.Freed r → s'.Freed r
  clients : ∀ r ∈ s.newClients, r ∈ s'.newClients
  newClient : (s.newClients ≠ [] → s.newClient = true) → s'.newClients ≠ [] → s'.newClient = true
  faulted : s'.faulted = s.faulted
  parent : s.connectFromParent = true → s'.connectFromParent = true

theorem Leads.runs (h : s.Leads s') : s.Runs s' where
  inv := h.inv
  freed := fun r hr => by
    unfold Freed at hr ⊢
    rwa [h.generation]
  clients := h.clients
  newClient := h.newClient
  faulted := h.faulted
  parent := h.parent

theorem Runs.refl : s.Runs s := Leads.refl.runs

theorem Runs.trans (h : s.Runs s') (h' : s'.Runs s'') : s.Runs s'' where
  inv := h'.inv ∘ h.inv
  freed := fun r hr => h'.freed r (h.freed r hr)
  clients := fun r hr => h'.clients r (h.clients r hr)
  newClient := fun hflag => h'.newClient (h.newClient hflag)
  faulted := h'.faulted.trans h.faulted
  parent := fun hp => h'.parent (h.parent hp)

theorem runs_foldl {ι : Type} {f : MainLoop → ι → MainLoop}
    (hf : ∀ (s : MainLoop) (x : ι), s.Runs (f s x)) (inputs : List ι) :
    s.Runs (inputs.foldl f s) := by
  induction inputs generalizing s with
  | nil => exact .refl
  | cons x inputs ih => exact (hf s x).trans ih

theorem lookup_contextFree {j : ℕ} : (s.contextFree settings i).broker.contexts.lookup j =
    if j = i then none else s.broker.contexts.lookup j := by
  unfold contextFree
  split_ifs with hsome hij hij
  · show (s.broker.contextFree settings i).contexts.lookup j = none
    obtain ⟨c, hc⟩ := Option.isSome_iff_exists.mp hsome
    unfold MqttBroker.contextFree
    rw [hc, hij]
    exact AList.lookup_erase _ _
  · show (s.broker.contextFree settings i).contexts.lookup j = _
    obtain ⟨c, hc⟩ := Option.isSome_iff_exists.mp hsome
    unfold MqttBroker.contextFree
    rw [hc]
    simp only [forgetClient_frame.1]
    exact AList.lookup_erase_ne hij
  · rw [hij]
    exact Option.not_isSome_iff_eq_none.mp hsome
  · rfl

theorem generation_contextFree {j : ℕ} (h : j ≠ i) :
    (s.contextFree settings i).generation j = s.generation j := by
  unfold contextFree
  split_ifs
  · show Function.update _ i _ j = _
    exact Function.update_of_ne h _ _
  · rfl

theorem live_contextFree_of_ne (h : r.place ≠ i) :
    (s.contextFree settings i).live r = s.live r := by
  unfold live
  rw [lookup_contextFree, if_neg h, generation_contextFree h]

theorem pendingBytes_removePendingBytes (h : s.Inv) :
    (s.removePendingBytes i).pendingBytes.Nodup ∧
      (∀ r ∈ (s.removePendingBytes i).pendingBytes, r ∈ s.pendingBytes ∧ r.place ≠ i) ∧
      ∀ r ∈ s.pendingBytes, r.place ≠ i → r ∈ (s.removePendingBytes i).pendingBytes := by
  unfold removePendingBytes
  split_ifs with hflag
  · refine ⟨h.pendingNodup.erase _, fun r hr => ?_, fun r hr hplace => ?_⟩
    · obtain ⟨hne, hmem⟩ := (List.Nodup.mem_erase_iff h.pendingNodup).mp hr
      refine ⟨hmem, fun heq => hne ?_⟩
      rw [← heq]
      exact (live_iff.mp (h.pending r hmem).1).1.symm
    · exact (List.mem_erase_of_ne fun heq => hplace (congrArg ContextRef.place heq)).mpr hr
  · refine ⟨h.pendingNodup, fun r hr => ⟨hr, fun heq => hflag ?_⟩, fun r hr _ => hr⟩
    rw [← heq]
    exact (h.pending r hr).2

theorem pendingFlag_removePendingBytes {j : ℕ} (h : j ≠ i) :
    (s.removePendingBytes i).pendingFlag j = s.pendingFlag j := by
  unfold removePendingBytes
  split_ifs
  · exact Function.update_of_ne h _ _
  · rfl

/-- A context is taken out of the two sets before it is freed. -/
theorem runs_contextFree : s.Runs (s.contextFree settings i) := by
  by_cases hsome : (s.broker.contexts.lookup i).isSome = true
  swap
  · unfold contextFree
    rw [if_neg hsome]
    exact .refl
  have hlookup : ∀ j, ((s.contextFree settings i).broker.contexts.lookup j).isSome = true →
      j ≠ i ∧ (s.contextFree settings i).broker.contexts.lookup j =
        s.broker.contexts.lookup j := by
    intro j hj
    rw [lookup_contextFree] at hj ⊢
    split_ifs at hj ⊢ with hij
    · cases hj
    · exact ⟨hij, rfl⟩
  have href : ∀ j, j ≠ i → (s.contextFree settings i).ref j = s.ref j := fun j hj => by
    unfold ref
    rw [generation_contextFree hj]
  have hmsgs : (s.contextFree settings i).newMsgs = s.newMsgs.erase (s.ref i) := by
    unfold contextFree
    rw [if_pos hsome]
  have hhas : (s.contextFree settings i).hasMsgs = s.hasMsgs := by
    unfold contextFree removePendingBytes
    split_ifs <;> rfl
  have hbytes : (s.contextFree settings i).pendingBytes = (s.removePendingBytes i).pendingBytes := by
    unfold contextFree
    rw [if_pos hsome]
  have hflags : (s.contextFree settings i).pendingFlag = (s.removePendingBytes i).pendingFlag := by
    unfold contextFree
    rw [if_pos hsome]
  refine ⟨fun h => ?_, fun r hr => ?_, fun r hr => ?_, fun hflag => ?_, ?_, fun hp => ?_⟩
  · obtain ⟨hnodup, hsub, hsup⟩ := @pendingBytes_removePendingBytes s i h
    refine ⟨?_, ?_, fun r hr => ?_, fun r hr => ?_, fun j hj hflag => ?_, fun j hj hm => ?_,
      fun j c hc hflag => ?_⟩
    · rw [hmsgs]
      exact h.msgsNodup.erase _
    · rw [hbytes]
      exact hnodup
    · rw [hmsgs] at hr
      obtain ⟨hne, hmem⟩ := (List.Nodup.mem_erase_iff h.msgsNodup).mp hr
      have hlive := h.msgs r hmem
      rw [live_contextFree_of_ne fun heq => hne ?_]
      · exact hlive
      · rw [← heq]
        exact (live_iff.mp hlive).1.symm
    · rw [hbytes] at hr
      obtain ⟨hmem, hplace⟩ := hsub r hr
      rw [live_contextFree_of_ne hplace, hflags, pendingFlag_removePendingBytes hplace]
      exact h.pending r hmem
    · obtain ⟨hij, heq⟩ := hlookup j hj
      rw [hflags, pendingFlag_removePendingBytes hij] at hflag
      rw [href j hij, hbytes]
      exact hsup _ (h.flagged j (heq ▸ hj) hflag) hij
    · obtain ⟨hij, heq⟩ := hlookup j hj
      rw [hhas] at hm
      rw [href j hij, hmsgs]
      exact (List.mem_erase_of_ne fun hsame => hij (ref_injective hsame)).mpr
        (h.waiting j (heq ▸ hj) hm)
    · obtain ⟨hij, heq⟩ := hlookup j (by rw [hc]; rfl)
      rw [hflags, pendingFlag_removePendingBytes hij] at hflag
      exact h.newcomer j c (heq ▸ hc) hflag
  · unfold Freed at hr ⊢
    by_cases hij : r.place = i
    · have hbump : (s.contextFree settings i).generation i = s.generation i + 1 := by
        unfold contextFree
        rw [if_pos hsome]
        exact Function.update_self _ _ _
      rw [hij] at hr ⊢
      omega
    · rwa [generation_contextFree hij]
  all_goals unfold contextFree removePendingBytes
  · split_ifs <;> exact hr
  · split_ifs <;> exact hflag
  · split_ifs <;> rfl
  · split_ifs <;> exact hp

@[simp] theorem newClients_contextFree : (s.contextFree settings i).newClients = s.newClients := by
  unfold contextFree removePendingBytes
  split_ifs <;> rfl

/-- A context that lived is freed then. -/
theorem freed_contextFree (hlive : s.live r = true) : (s.contextFree settings r.place).Freed r := by
  obtain ⟨href, hsome⟩ := live_iff.mp hlive
  have hgeneration : s.generation r.place = r.generation := congrArg ContextRef.generation href
  have hbump : (s.contextFree settings r.place).generation r.place = s.generation r.place + 1 := by
    unfold contextFree
    rw [if_pos hsome]
    exact Function.update_self _ _ _
  unfold Freed
  omega

theorem runs_cleanSession : s.Runs (s.cleanSession settings i) ∧
    (s.cleanSession settings i).newClients = s.newClients := by
  unfold cleanSession
  split_ifs
  · exact ⟨runs_contextFree, newClients_contextFree⟩
  · exact ⟨.refl, rfl⟩

/-! ### The bridges -/

/-- The new clients live, and are no bridges of the broker. -/
def Settled (s : MainLoop) : Prop :=
  ∀ r ∈ s.newClients, s.live r = true ∧
    ∀ c, s.broker.contexts.lookup r.place = some c → c.bridge = none

/-- The new clients live. -/
def AllLive (s : MainLoop) : Prop := ∀ r ∈ s.newClients, s.live r = true

/-- A living bridge of the broker. -/
def IsBridge (s : MainLoop) (r : ContextRef) : Prop :=
  s.live r = true ∧ ∃ c, s.broker.contexts.lookup r.place = some c ∧ c.bridge.isSome = true

/-- A bridge of the broker is among the new clients. -/
def Bridged (s : MainLoop) : Prop := ∃ r ∈ s.newClients, s.IsBridge r

/-- A context that was freed is among the new clients. -/
def Broken (s : MainLoop) : Prop := ∃ r ∈ s.newClients, s.Freed r

theorem Settled.allLive (h : s.Settled) : s.AllLive := fun r hr => (h r hr).1

theorem Leads.settled (h : s.Leads s') (hs : s.Settled) : s'.Settled := by
  intro r hr
  rcases h.added r hr with hold | hnew
  · obtain ⟨hlive, hnone⟩ := hs r hold
    refine ⟨h.live hlive, fun c' hc' => ?_⟩
    obtain ⟨c, hc⟩ := Option.isSome_iff_exists.mp (live_iff.mp hlive).2
    obtain ⟨d, hd, hbridge⟩ := h.bridge r.place c hc
    rw [hc'] at hd
    rw [← Option.some.inj hd, hnone c hc] at hbridge
    exact Option.not_isSome_iff_eq_none.mp (by simp [hbridge])
  · exact hnew

theorem Leads.allLive (h : s.Leads s') (hs : s.AllLive) : s'.AllLive := fun r hr =>
  (h.added r hr).elim (fun hold => h.live (hs r hold)) And.left

theorem Leads.isBridge (h : s.Leads s') (hr : s.IsBridge r) : s'.IsBridge r := by
  obtain ⟨hlive, c, hc, hbridge⟩ := hr
  obtain ⟨c', hc', heq⟩ := h.bridge r.place c hc
  exact ⟨h.live hlive, c', hc', heq.trans hbridge⟩

theorem Leads.bridged (h : s.Leads s') (hs : s.Bridged) : s'.Bridged := by
  obtain ⟨r, hr, hbridge⟩ := hs
  exact ⟨r, h.clients r hr, h.isBridge hbridge⟩

theorem Runs.broken (h : s.Runs s') (hs : s.Broken) : s'.Broken := by
  obtain ⟨r, hr, hfreed⟩ := hs
  exact ⟨r, h.clients r hr, h.freed r hfreed⟩

theorem runs_clearBridge : s.Runs (s.clearBridge settings env i) ∧
    (s.clearBridge settings env i).newClients = s.newClients := by
  unfold clearBridge
  split_ifs
  · exact ⟨leads_disconnect.runs.trans runs_contextFree, newClients_contextFree⟩
  · exact ⟨.refl, rfl⟩

theorem settled_clearBridge (hs : s.Settled) : (s.clearBridge settings env i).Settled := by
  unfold clearBridge
  split_ifs with hany
  swap
  · exact hs
  obtain ⟨c, hc, hbridge⟩ := (Option.any_eq_true _ _).mp hany
  have hclosed := (@leads_disconnect settings env s i).settled hs
  intro r hr
  rw [newClients_contextFree] at hr
  have hplace : r.place ≠ i := fun heq => by
    have hnone := (hs r hr).2 c (heq ▸ hc)
    simp [hnone] at hbridge
  obtain ⟨hlive, hnone⟩ := hclosed r hr
  rw [live_contextFree_of_ne hplace, lookup_contextFree, if_neg hplace]
  exact ⟨hlive, hnone⟩

/-- A bridge is freed at its place, and stays at the others. -/
theorem isBridge_clearBridge (hr : s.IsBridge r) :
    if r.place = i then (s.clearBridge settings env i).Freed r
    else (s.clearBridge settings env i).IsBridge r := by
  obtain ⟨hlive, c, hc, hbridge⟩ := hr
  have hclosed := (@leads_disconnect settings env s i).isBridge ⟨hlive, c, hc, hbridge⟩
  unfold clearBridge
  split_ifs with hplace hany hany
  · subst hplace
    exact freed_contextFree hclosed.1
  · rw [← hplace, hc] at hany
    exact absurd hbridge hany
  · refine ⟨?_, ?_⟩
    · rw [live_contextFree_of_ne hplace]
      exact hclosed.1
    · rw [lookup_contextFree, if_neg hplace]
      exact hclosed.2
  · exact ⟨hlive, c, hc, hbridge⟩

theorem clearBridges_spec (places : List ℕ) :
    s.Runs (places.foldl (clearBridge settings env) s) ∧
      (s.Settled → (places.foldl (clearBridge settings env) s).Settled) ∧
      ∀ r ∈ s.newClients, s.IsBridge r → r.place ∈ places →
        (places.foldl (clearBridge settings env) s).Broken := by
  induction places generalizing s with
  | nil => exact ⟨.refl, fun hs => hs, fun r _ _ hmem => absurd hmem List.not_mem_nil⟩
  | cons i places ih =>
    obtain ⟨hruns, hclients⟩ := @runs_clearBridge settings env s i
    obtain ⟨hrest, hsettled, hbroken⟩ := @ih (s.clearBridge settings env i)
    refine ⟨hruns.trans hrest, fun hs => hsettled (settled_clearBridge hs),
      fun r hr hbridge hmem => ?_⟩
    have hafter := @isBridge_clearBridge settings env s r i hbridge
    split_ifs at hafter with hplace
    · exact hrest.broken ⟨r, hclients ▸ hr, hafter⟩
    · rcases List.mem_cons.mp hmem with heq | hmem
      · exact absurd heq hplace
      · exact hbroken r (hclients ▸ hr) hafter hmem

/-- To clear the bridges frees a bridge that is among the new clients. -/
theorem clearCurrentBridges_spec : s.Runs (s.clearCurrentBridges settings env) ∧
    (s.Settled → (s.clearCurrentBridges settings env).Settled) ∧
    (s.Bridged → (s.clearCurrentBridges settings env).Broken) := by
  obtain ⟨hruns, hsettled, hbroken⟩ :=
    @clearBridges_spec settings env s (List.range s.broker.contextCount)
  refine ⟨hruns, hsettled, fun ⟨r, hr, hbridge⟩ => hbroken r hr hbridge ?_⟩
  exact List.mem_range.mpr (lt_contextCount (live_iff.mp hbridge.1).2)

theorem bridgeNew_spec {id : Bytes} {bridge : Bridge} : s.Runs (s.bridgeNew id bridge) ∧
    (s.AllLive → (s.bridgeNew id bridge).AllLive) ∧ (s.bridgeNew id bridge).Bridged := by
  unfold bridgeNew
  have hadded := @leads_addContext s { isBridge := true, bridge := some bridge, id := some id }
  have hc := @lookup_addContext s { isBridge := true, bridge := some bridge, id := some id }
  generalize s.addContext { isBridge := true, bridge := some bridge, id := some id } = s' at hadded hc ⊢
  have hlive : s'.live (s'.ref s.broker.freePlace) = true := by
    rw [live_ref, hc]
    rfl
  refine ⟨hadded.runs.trans ⟨fun h => ?_, fun _ h => h, fun r hr => ?_, fun _ _ => rfl, rfl,
    fun h => h⟩, fun hs r hr => ?_, ?_⟩
  · exact ⟨h.msgsNodup, h.pendingNodup, h.msgs, h.pending, h.flagged, h.waiting, h.newcomer⟩
  · exact HashIter.mem_add.mpr (.inl hr)
  · rcases HashIter.mem_add.mp hr with hr | rfl
    · exact hadded.allLive hs r hr
    · exact hlive
  · exact ⟨_, HashIter.mem_add.mpr (.inr rfl), hlive, _, hc, rfl⟩

/-- A bridge is made, and the bridges are configured again after it. -/
def Reconfigures (tasks : List Task) : Prop :=
  ∃ before config between config' after,
    tasks = before ++ .configure (some config) :: between ++ .configure config' :: after

theorem runs_task {t : Task} : s.Runs (s.task settings env t) := by
  cases t with
  | configure config =>
    have hclear := (@clearCurrentBridges_spec settings env s).1
    cases config with
    | none => exact hclear
    | some config => exact hclear.trans bridgeNew_spec.1
  | disconnect i => exact leads_disconnect.runs
  | insert i => exact leads_messageInsert.runs

theorem runs_tasks (tasks : List Task) : s.Runs (tasks.foldl (task settings env) s) :=
  runs_foldl (fun _ _ => runs_task) tasks

theorem broken_configure {config : Option (Bytes × Bridge)} (hs : s.Bridged) :
    (s.task settings env (.configure config)).Broken := by
  have hbroken := (@clearCurrentBridges_spec settings env s).2.2 hs
  cases config with
  | none => exact hbroken
  | some config => exact bridgeNew_spec.1.broken hbroken

/-- A bridge that was made is freed by the next configuration. -/
theorem broken_of_bridged {tasks : List Task} {config : Option (Bytes × Bridge)}
    {after : List Task} (hs : s.Bridged) :
    ((tasks ++ .configure config :: after).foldl (task settings env) s).Broken := by
  induction tasks generalizing s with
  | nil => exact (runs_tasks after).broken (broken_configure hs)
  | cons t tasks ih =>
    cases t with
    | configure config' =>
      exact (runs_tasks (tasks ++ .configure config :: after)).broken (broken_configure hs)
    | disconnect i => exact ih (leads_disconnect.bridged hs)
    | insert i => exact ih (leads_messageInsert.bridged hs)

theorem tasks_broken {tasks : List Task} (h : Reconfigures tasks) :
    (tasks.foldl (task settings env) s).Broken := by
  obtain ⟨before, config, between, config', after, rfl⟩ := h
  rw [List.append_assoc, List.foldl_append, List.cons_append, List.foldl_cons]
  exact broken_of_bridged bridgeNew_spec.2.2

/-- No bridge is freed that was just made, if there is one configuration at most after which there
is a bridge, and it is the last. -/
theorem tasks_allLive {tasks : List Task} (hs : s.Settled) (h : ¬ Reconfigures tasks) :
    (tasks.foldl (task settings env) s).AllLive := by
  have hlast : ∀ {tasks : List Task} {s : MainLoop}, s.AllLive →
      (∀ config, Task.configure config ∉ tasks) →
        (tasks.foldl (task settings env) s).AllLive := by
    intro tasks
    induction tasks with
    | nil => exact fun hs _ => hs
    | cons t tasks ih =>
      intro s hs hno
      have hrest : ∀ config, Task.configure config ∉ tasks := fun config hmem =>
        hno config (List.mem_cons_of_mem _ hmem)
      cases t with
      | configure config => exact absurd List.mem_cons_self (hno config)
      | disconnect i => exact ih (leads_disconnect.allLive hs) hrest
      | insert i => exact ih (leads_messageInsert.allLive hs) hrest
  induction tasks generalizing s with
  | nil => exact hs.allLive
  | cons t tasks ih =>
    have htail : ¬ Reconfigures tasks := by
      rintro ⟨before, config, between, config', after, rfl⟩
      exact h ⟨t :: before, config, between, config', after, rfl⟩
    cases t with
    | configure config =>
      have hclear := (@clearCurrentBridges_spec settings env s).2.1 hs
      cases config with
      | none => exact ih hclear htail
      | some config =>
        show (tasks.foldl (task settings env) (s.task settings env (.configure (some config)))).AllLive
        refine hlast (bridgeNew_spec.2.1 hclear.allLive) fun config' hmem => h ?_
        obtain ⟨between, after, rfl⟩ := List.append_of_mem hmem
        exact ⟨[], config, between, config', after, rfl⟩
    | disconnect i => exact ih (leads_disconnect.settled hs) htail
    | insert i => exact ih (leads_messageInsert.settled hs) htail

/-! ### Rounds -/

/-- The flag says when there are new clients. -/
def Flagged (s : MainLoop) : Prop := s.newClients ≠ [] → s.newClient = true

/-- After the first loop of a round there are no new clients. -/
theorem greetClients_spec (hflag : s.Flagged) :
    (s.Inv → s.greetClients.Inv) ∧ s.greetClients.newClients = [] ∧
      s.greetClients.faulted = (s.faulted || s.newClients.any fun r => !s.live r) ∧
      s.greetClients.connectFromParent = s.connectFromParent := by
  unfold greetClients
  split_ifs with hnew
  · exact ⟨fun h => ⟨h.msgsNodup, h.pendingNodup, h.msgs, h.pending, h.flagged, h.waiting,
      h.newcomer⟩, rfl, rfl, rfl⟩
  · have hnil : s.newClients = [] := by
      by_contra hne
      exact hnew (hflag hne)
    exact ⟨fun h => h, hnil, by simp [hnil], rfl⟩

theorem inv_settle {l : HashIter.Loop ContextRef MainLoop} (h : l.state.Inv) : (settle l).Inv :=
  ⟨h.msgsNodup, h.pendingNodup, h.msgs, h.pending, h.flagged, h.waiting, h.newcomer⟩

theorem settle_of_fault {l : HashIter.Loop ContextRef MainLoop} (h : l.fault = false) :
    settle l = l.state := by
  unfold settle
  rw [h, Bool.or_false]

theorem maintain_spec {m : Maintenance} (hs : s.newClients = []) :
    s.Runs (s.maintain settings env m) ∧ (s.maintain settings env m).Settled := by
  unfold maintain
  have hupkeep : ∀ (us : List Upkeep) {s : MainLoop},
      s.Runs (us.foldl (upkeep settings env) s) ∧
        (us.foldl (upkeep settings env) s).newClients = s.newClients := by
    intro us
    induction us with
    | nil => exact fun {s} => ⟨.refl, rfl⟩
    | cons u us ih =>
      intro s
      obtain ⟨hleads, hclients⟩ := @leads_upkeep settings env s u
      exact ⟨hleads.runs.trans ih.1, ih.2.trans hclients⟩
  have hclean : ∀ (is : List ℕ) {s : MainLoop}, s.Runs (is.foldl (cleanSession settings) s) ∧
      (is.foldl (cleanSession settings) s).newClients = s.newClients := by
    intro is
    induction is with
    | nil => exact fun {s} => ⟨.refl, rfl⟩
    | cons i is ih =>
      intro s
      obtain ⟨hruns, hclients⟩ := @runs_cleanSession settings s i
      exact ⟨hruns.trans ih.1, ih.2.trans hclients⟩
  have hbefore : (m.clean.foldl (cleanSession settings)
      (m.upkeep.foldl (upkeep settings env) s)).newClients = [] :=
    (hclean _).2.trans ((hupkeep _).2.trans hs)
  have hio := @leads_foldl (m.clean.foldl (cleanSession settings)
    (m.upkeep.foldl (upkeep settings env) s)) Io (io settings env) (fun _ _ => leads_io) m.service
  refine ⟨((hupkeep m.upkeep).1.trans (hclean m.clean).1).trans hio.runs, hio.settled fun r hr => ?_⟩
  rw [hbefore] at hr
  exact absurd hr List.not_mem_nil

/-- A round up to its tasks. -/
theorem roundIo_spec {r : Round} (h : s.Inv) (hflag : s.Flagged) :
    (s.roundIo settings r).Inv ∧ (s.roundIo settings r).Flagged ∧
      (s.roundIo settings r).Settled ∧
      (s.connectFromParent = true → (s.roundIo settings r).connectFromParent = true) ∧
      ((s.roundIo settings r).connectFromParent = false →
        (s.roundIo settings r).faulted =
          (s.faulted || s.newClients.any fun r => !s.live r)) := by
  obtain ⟨hgreet, hnil, hfaulted, hparent⟩ := greetClients_spec hflag
  obtain ⟨hwrite, hclients, hfault, -⟩ := @writeLoop_spec settings r.env s.greetClients r.writes
    (hgreet h)
  unfold roundIo writeMessageLoop
  rw [settle_of_fault hfault]
  generalize (writeLoop settings r.env r.writes s.greetClients).state = s₁ at hwrite hclients ⊢
  rw [hnil] at hclients
  have hmaintain : s₁.Runs (r.maintenance.elim s₁ (s₁.maintain settings r.env)) ∧
      (r.maintenance.elim s₁ (s₁.maintain settings r.env)).Settled := by
    cases r.maintenance with
    | none =>
      refine ⟨.refl, fun x hx => ?_⟩
      rw [show (Option.elim none s₁ (s₁.maintain settings r.env)).newClients = [] from hclients] at hx
      exact absurd hx List.not_mem_nil
    | some m => exact maintain_spec hclients
  simp only
  generalize r.maintenance.elim s₁ (s₁.maintain settings r.env) = s₂ at hmaintain ⊢
  have hinv : s₂.Inv := hmaintain.1.inv (hwrite.inv (hgreet h))
  obtain ⟨hpending, hread⟩ := @pendingLoop_spec settings r.env s₂ r.pending hinv
  generalize pendingLoop settings r.env r.pending s₂ = l at hpending hread ⊢
  have hio := @leads_foldl (settle l) Io (io settings r.env) (fun _ _ => leads_io) r.io
  have hsettle : l.state.Settled := hpending.settled hmaintain.2
  have hflagged : l.state.Flagged := hpending.newClient (hmaintain.1.newClient
    (hwrite.newClient fun hne => absurd hnil hne))
  refine ⟨hio.inv (inv_settle (hpending.inv hinv)), hio.newClient hflagged, hio.settled hsettle,
    fun hp => ?_, fun hnot => ?_⟩
  · exact hio.parent (hpending.parent (hmaintain.1.parent (hwrite.parent (hparent.trans hp))))
  · have hquiet : l.state.connectFromParent = false := by
      by_contra hyes
      rw [Bool.not_eq_false] at hyes
      rw [hio.parent hyes] at hnot
      cases hnot
    rw [hio.faulted, settle_of_fault (hread hquiet), hpending.faulted, hmaintain.1.faulted,
      hwrite.faulted, hfaulted]

theorem round_spec {r : Round} (h : s.Inv) (hflag : s.Flagged) :
    (s.round settings r).Inv ∧ (s.round settings r).Flagged ∧
      (s.connectFromParent = true → (s.round settings r).connectFromParent = true) ∧
      ((s.round settings r).connectFromParent = false →
        (s.round settings r).faulted = (s.faulted || s.newClients.any fun r => !s.live r)) ∧
      (((s.round settings r).newClients.any fun x => !(s.round settings r).live x) = true ↔
        Reconfigures r.tasks) := by
  obtain ⟨hinv, hflagged, hsettled, hparent, hfaulted⟩ := @roundIo_spec settings s r h hflag
  have htasks := @runs_tasks settings r.env (s.roundIo settings r) r.tasks
  unfold round
  refine ⟨htasks.inv hinv, htasks.newClient hflagged, fun hp => htasks.parent (hparent hp),
    fun hnot => ?_, ?_⟩
  · rw [htasks.faulted]
    refine hfaulted ?_
    by_contra hyes
    rw [Bool.not_eq_false] at hyes
    rw [htasks.parent hyes] at hnot
    cases hnot
  · constructor
    · intro hany
      by_contra hno
      have hlive := @tasks_allLive settings r.env _ _ hsettled hno
      obtain ⟨x, hx, hdead⟩ := List.any_eq_true.mp hany
      rw [hlive x hx] at hdead
      cases hdead
    · intro hre
      obtain ⟨x, hx, hfreed⟩ := @tasks_broken settings r.env (s.roundIo settings r) r.tasks hre
      refine List.any_eq_true.mpr ⟨x, hx, ?_⟩
      rw [hfreed.not_live]
      rfl

variable {registry : BrokerRegistry}

theorem run_append (rounds : List Round) (r : Round) :
    s.run settings (rounds ++ [r]) = (s.run settings rounds).round settings r :=
  List.foldl_concat _ _ _ _

theorem inv_run (rounds : List Round) : ((start registry).run settings rounds).Inv ∧
    ((start registry).run settings rounds).Flagged := by
  induction rounds using List.reverseRecOn with
  | nil =>
    exact ⟨⟨List.nodup_nil, List.nodup_nil, nofun, nofun, nofun, nofun, nofun⟩,
      fun h => absurd rfl h⟩
  | append_singleton rounds r ih =>
    rw [run_append]
    obtain ⟨hinv, hflag, -⟩ := @round_spec settings _ r ih.1 ih.2
    exact ⟨hinv, hflag⟩

/-- **The memory of the loop.**  Freed memory is used in a round exactly if in a round before it a
bridge was made and the bridges were configured again, unless a broker to which this one has made a
bridge has sent it a CONNECT. -/
theorem faulted_iff (rounds : List Round) (last : Round)
    (hparent : ((start registry).run settings (rounds ++ [last])).connectFromParent = false) :
    ((start registry).run settings (rounds ++ [last])).faulted = true ↔
      ∃ r ∈ rounds, Reconfigures r.tasks := by
  induction rounds using List.reverseRecOn generalizing last with
  | nil =>
    obtain ⟨hinv, hflag⟩ := @inv_run settings registry []
    obtain ⟨-, -, -, hfaulted, -⟩ := @round_spec settings _ last hinv hflag
    rw [run_append] at hparent ⊢
    rw [hfaulted hparent]
    exact ⟨fun h => (nomatch h), fun ⟨r, hr, _⟩ => absurd hr List.not_mem_nil⟩
  | append_singleton rounds r ih =>
    obtain ⟨hinv, hflag⟩ := @inv_run settings registry rounds
    obtain ⟨hinv', hflag'⟩ := @inv_run settings registry (rounds ++ [r])
    obtain ⟨-, -, hmono, hfaulted, -⟩ := @round_spec settings _ last hinv' hflag'
    obtain ⟨-, -, -, -, hbroken⟩ := @round_spec settings _ r hinv hflag
    rw [run_append _ last] at hparent ⊢
    have hbefore : ((start registry).run settings (rounds ++ [r])).connectFromParent = false := by
      by_contra hyes
      rw [Bool.not_eq_false] at hyes
      rw [hmono hyes] at hparent
      cases hparent
    rw [hfaulted hparent, Bool.or_eq_true, ih r hbefore, run_append, hbroken]
    simp only [List.mem_append, List.mem_singleton, or_and_right, exists_or, exists_eq_left]

/-- A bridge is made and taken away in one round. -/
def reconfigured : Round where
  env := BrokerRegistry.steadyEnv
  tasks := [.configure (some (lit "b", { addressCount := 1 })), .configure none]

theorem faulted_iff_reconfigured : ((start {}).run { guid := lit "L" }
    ([reconfigured] ++ [{ env := BrokerRegistry.steadyEnv }])).faulted = true :=
  (faulted_iff [reconfigured] _ (by decide +kernel)).mpr ⟨reconfigured, List.mem_singleton_self _,
    [], (lit "b", { addressCount := 1 }), [], none, [], rfl⟩

/-- **Nobody waits for messages.**  Whatever has happened, a context with messages is in the set of
those that have some, and the next round visits it when its loop over this set ends. -/
theorem waiting_visited {rounds : List Round} {writes : List Writing} {c : Context}
    (hc : ((start registry).run settings rounds).broker.contexts.lookup i = some c)
    (hmsgs : ((start registry).run settings rounds).hasMsgs i = true) :
    ((start registry).run settings rounds).ref i ∈
        ((start registry).run settings rounds).newMsgs ∧
      ((writeLoop settings env writes
          ((start registry).run settings rounds).greetClients).ended = true →
        ((start registry).run settings rounds).ref i ∈ (writeLoop settings env writes
          ((start registry).run settings rounds).greetClients).visited) := by
  obtain ⟨hinv, hflag⟩ := @inv_run settings registry rounds
  have hmem := hinv.waiting i (by rw [hc]; rfl) hmsgs
  refine ⟨hmem, fun hended => ?_⟩
  generalize (start registry).run settings rounds = s at *
  have hsame : s.greetClients.newMsgs = s.newMsgs := by
    unfold greetClients
    split_ifs <;> rfl
  obtain ⟨-, -, -, hvisited⟩ :=
    @writeLoop_spec settings env s.greetClients writes ((greetClients_spec hflag).1 hinv)
  exact hvisited hended _ (hsame ▸ hmem)

/-- Four clients are given messages; `2` is sent all of its own, and the connection of `3` ends. -/
def messaged : List Round :=
  [{ env := BrokerRegistry.steadyEnv
     io := [.accept false, .accept false, .accept false, .accept false, .insert 0, .insert 1,
       .insert 2, .insert 3] },
    { env := BrokerRegistry.steadyEnv
      writes := [{ failed := false, emptied := false }, { failed := false, emptied := false },
        { failed := false, emptied := true }, { failed := false, emptied := false }]
      io := [.disconnect 3] }]

/-- While `0` is sent its messages, `2` gets a new one and comes into the set again; the sending to `2`
fails, and `1` is not forgotten. -/
theorem waiting_visited_messaged :
    (⟨1, 0⟩ : ContextRef) ∈ ((start {}).run { guid := lit "L" } messaged).newMsgs ∧
    (⟨1, 0⟩ : ContextRef) ∈ (writeLoop { guid := lit "L" } BrokerRegistry.steadyEnv
      [{ failed := false, emptied := true, inserts := [2] }, { failed := false, emptied := false },
        { failed := false, emptied := false }, { failed := true, emptied := false }]
      ((start {}).run { guid := lit "L" } messaged).greetClients).visited := by
  obtain ⟨hmem, hvisited⟩ := @waiting_visited { guid := lit "L" } BrokerRegistry.steadyEnv 1 {}
    messaged [{ failed := false, emptied := true, inserts := [2] },
      { failed := false, emptied := false }, { failed := false, emptied := false },
      { failed := true, emptied := false }] { sock := true } (by decide +kernel)
    (by decide +kernel)
  exact ⟨hmem, hvisited (by decide +kernel)⟩

end MainLoop

end DxlBroker
