import DxlBroker.Mqtt.SubsOperations
import Mathlib.Data.Finset.Basic
import Mathlib.Data.Finset.Filter
import Mathlib.Data.Finset.Image
import Mathlib.Data.Set.Function

/-!
# Delivery by the subscription tree

A run of subscribe, unsubscribe and clean calls has a set of current subscriptions.  The tree holds
exactly that set, and the search for a topic without wildcards finds each current subscription
whose filter matches by the MQTT rules, once.
-/

namespace DxlBroker

open Bytes Subhier

/-! ### The paths a search follows -/

/-- The paths at which `_sub_search` processes leaves for some remaining tokens. -/
def matchingPaths : List Bytes → List (List Bytes)
  | [] => [[poundLevel]]
  | t :: ts =>
      let below := matchingPaths ts ++ if ts.isEmpty then [[]] else []
      [poundLevel] :: (below.map (plusLevel :: ·) ++ below.map (t :: ·))

theorem mem_matchingPaths {p tokens : List Bytes} :
    p ∈ matchingPaths tokens ↔ p ≠ [] ∧ matchLevels p tokens = true := by
  induction tokens generalizing p with
  | nil =>
    cases p with
    | nil => simp [matchingPaths]
    | cons f fs =>
      cases fs with
      | nil => simp [matchingPaths, matchLevels]
      | cons g gs => simp [matchingPaths, matchLevels]
  | cons t ts ih =>
    have hbelow : ∀ q, q ∈ matchingPaths ts ++ (if ts.isEmpty then [[]] else []) ↔
        matchLevels q ts = true := fun q => by
      rw [List.mem_append, ih]
      cases q with
      | nil => cases ts <;> simp [matchLevels]
      | cons f fs => cases ts <;> simp
    rw [matchingPaths]
    generalize matchingPaths ts ++ (if ts.isEmpty then [[]] else []) = below at hbelow
    cases p with
    | nil => simp
    | cons f fs =>
      simp only [List.mem_cons, List.cons.injEq, List.mem_append, List.mem_map, hbelow,
        matchLevels, ne_eq, reduceCtorEq, not_false_eq_true, true_and, Bool.or_eq_true,
        Bool.and_eq_true, beq_iff_eq, List.isEmpty_iff]
      constructor
      · rintro (h | ⟨q, hq, rfl, rfl⟩ | ⟨q, hq, rfl, rfl⟩)
        · exact .inl h
        · exact .inr ⟨.inl rfl, hq⟩
        · exact .inr ⟨.inr rfl, hq⟩
      · rintro (h | ⟨rfl | rfl, hq⟩)
        · exact .inl h
        · exact .inr (.inl ⟨fs, hq, rfl, rfl⟩)
        · exact .inr (.inr ⟨fs, hq, rfl, rfl⟩)

theorem WildcardFree.of_cons {t : Bytes} {ts : List Bytes} (h : WildcardFree (t :: ts)) :
    t ≠ plusLevel ∧ t ≠ poundLevel ∧ WildcardFree ts := by
  have hplus := h.plus
  have hpound := h.pound
  rw [List.mem_cons, not_or] at hplus hpound
  exact ⟨Ne.symm hplus.1, Ne.symm hpound.1, hplus.2, hpound.2⟩

/-- No path is followed twice. -/
theorem nodup_matchingPaths {tokens : List Bytes} (h : WildcardFree tokens) :
    (matchingPaths tokens).Nodup := by
  induction tokens with
  | nil => simp [matchingPaths]
  | cons t ts ih =>
    obtain ⟨hplus, hpound, hts⟩ := h.of_cons
    have hbelow : (matchingPaths ts ++ if ts.isEmpty then [[]] else []).Nodup := by
      refine (ih hts).append (by split_ifs <;> simp) ?_
      intro p hp hnil
      have hne := (mem_matchingPaths.mp hp).1
      split_ifs at hnil
      · exact hne (List.mem_singleton.mp hnil)
      · cases hnil
    rw [matchingPaths]
    generalize matchingPaths ts ++ (if ts.isEmpty then [[]] else []) = below at hbelow
    have hinj : ∀ u : Bytes, (below.map (u :: ·)).Nodup := fun u =>
      hbelow.map fun p q h => (List.cons.inj h).2
    rw [List.nodup_cons, List.nodup_append]
    refine ⟨?_, hinj _, hinj _, ?_⟩
    · intro hmem
      rcases List.mem_append.mp hmem with hmem | hmem
      · obtain ⟨p, -, hp⟩ := List.mem_map.mp hmem
        exact absurd (List.cons.inj hp).1 (by decide)
      · obtain ⟨p, -, hp⟩ := List.mem_map.mp hmem
        exact hpound (List.cons.inj hp).1
    · intro p hp q hq hpq
      obtain ⟨p', -, rfl⟩ := List.mem_map.mp hp
      obtain ⟨q', -, rfl⟩ := List.mem_map.mp hq
      exact hplus (List.cons.inj hpq).1.symm

/-! ### The search -/

/-- `_subs_process` inserts for every leaf but those of the bridge a message came from. -/
def notSource (sourceId : Bytes) (context : MqttContext) : Bool :=
  !(context.isBridge && context.id == sourceId)

/-- The leaves processed at a path below a node. -/
def processedAt (sourceId : Bytes) (n : Subhier) (p : List Bytes) : List Subleaf :=
  (n.leavesAt p).filter fun leaf => notSource sourceId leaf.context

theorem processedAt_cons {n c : Subhier} (hn : n.Linked) (hc : c ∈ n.children)
    (sourceId : Bytes) (p : List Bytes) :
    processedAt sourceId n (c.topic :: p) = processedAt sourceId c p := by
  rw [processedAt, processedAt, hn.leavesAt_cons hc]

theorem processedAt_cons_none {n : Subhier} {t : Bytes} (h : n.child? t = none)
    (sourceId : Bytes) (p : List Bytes) : processedAt sourceId n (t :: p) = [] := by
  rw [processedAt, leavesAt, h]
  rfl

/-- A counter that is zero says that no child has the name. -/
theorem child?_eq_none_of_count {n : Subhier} {t : Bytes}
    (h : ((n.children.map topic).count t : ℤ) = 0) : n.child? t = none := by
  rw [Int.natCast_eq_zero, List.count_eq_zero] at h
  refine List.find?_eq_none.mpr fun c hc ht => h ?_
  rw [← beq_iff_eq.mp ht]
  exact List.mem_map_of_mem hc

theorem poundLeaves_eq {n : Subhier} (hn : n.WF) (sourceId : Bytes) :
    poundLeaves sourceId n = processedAt sourceId n [poundLevel] := by
  have hlink := hn.linked.here
  rw [poundLeaves, hlink.hashFind_eq]
  cases hchild : n.child? poundLevel with
  | none =>
    rw [processedAt_cons_none hchild]
    simp
  | some c =>
    obtain ⟨hc, ht⟩ := mem_of_child? hchild
    have hcount : n.poundCount ≠ 0 := by
      intro h
      rw [hlink.poundCount] at h
      rw [child?_eq_none_of_count h] at hchild
      cases hchild
    rw [if_neg hcount, Option.elim_some, hn.poundLeaf.here c hc ht, if_pos List.isEmpty_nil, ← ht,
      processedAt_cons hlink hc]
    rfl

/-- The search processes the leaves at the matching paths, in order. -/
theorem subSearch_eq (sourceId : Bytes) {tokens : List Bytes} :
    ∀ {n : Subhier}, n.WF →
      subSearch sourceId n tokens = (matchingPaths tokens).flatMap (processedAt sourceId n) := by
  induction tokens with
  | nil =>
    intro n hn
    rw [subSearch, poundLeaves_eq hn, matchingPaths, List.flatMap_singleton]
  | cons t ts ih =>
    intro n hn
    have hlink := hn.linked.here
    -- What is found through the child of a name.
    have hvia : ∀ u : Bytes, ((n.child? u).elim [] fun branch => subSearch sourceId branch ts ++
          if ts.isEmpty then subsProcess sourceId branch else []) =
        ((matchingPaths ts ++ if ts.isEmpty then [[]] else []).map (u :: ·)).flatMap
          (processedAt sourceId n) := by
      intro u
      rw [List.flatMap_map]
      cases hchild : n.child? u with
      | none =>
        simp only [processedAt_cons_none hchild, List.flatMap_eq_nil_iff.mpr (fun _ _ => rfl),
          Option.elim_none]
      | some c =>
        obtain ⟨hc, rfl⟩ := mem_of_child? hchild
        simp only [processedAt_cons hlink hc, List.flatMap_append, ih (hn.child hc),
          Option.elim_some]
        congr 1
        split_ifs
        · rw [List.flatMap_singleton]
          rfl
        · rfl
    have hplus : n.plusCount = 0 → n.child? plusLevel = none := fun h =>
      child?_eq_none_of_count (hlink.plusCount ▸ h)
    rw [subSearch, poundLeaves_eq hn, hlink.hashFind_eq, hlink.hashFind_eq, matchingPaths,
      List.flatMap_cons, List.flatMap_append, ← hvia, ← hvia]
    split_ifs with hcount
    · simp [hplus hcount]
    · simp [hplus hcount]
    · rfl
    · rfl

/-! ### Runs -/

/-- The calls that change the subscriptions. -/
inductive SubsOp
  | add (context : MqttContext) (sub : Bytes) (qos : ℕ)
  | remove (context : MqttContext) (sub : Bytes)
  | clean (cleanSubs : MqttContext → Bool)

/-- The database with the current subscriptions: those added with success and neither removed nor
cleaned since. -/
structure SubsRun where
  db : SubsDb
  current : Finset (MqttContext × Bytes)

namespace SubsRun

def init : SubsRun := ⟨.init, ∅⟩

def step (s : BrokerSettings) (r : SubsRun) : SubsOp → SubsRun
  | .add context sub qos =>
      let (rc, db) := mqtt3SubAdd s r.db context sub qos
      ⟨db, if rc = 0 then insert (context, sub) r.current else r.current⟩
  | .remove context sub => ⟨mqtt3SubRemove r.db context sub, r.current.erase (context, sub)⟩
  | .clean cleanSubs =>
      ⟨mqtt3SubsCleanSession r.db cleanSubs, r.current.filter fun e => !cleanSubs e.1⟩

/-- A sequence of calls from the empty database. -/
def run (s : BrokerSettings) (ops : List SubsOp) : SubsRun := ops.foldl (step s) init

end SubsRun

/-- The calls are made by contexts of a given set, with filters the wildcard check accepts. -/
def SubsOp.Admissible (contexts : Set MqttContext) : SubsOp → Prop
  | .add context sub _ => context ∈ contexts ∧ topicWildcardPosCheck sub = true
  | .remove context sub => context ∈ contexts ∧ topicWildcardPosCheck sub = true
  | .clean _ => True

/-- The contexts subscribed at a path. -/
def contextsAt (db : SubsDb) (p : List Bytes) : List MqttContext :=
  (db.subs.leavesAt p).map Subleaf.context

/-- The tree holds the current subscriptions, each of them once. -/
structure Holds (contexts : Set MqttContext) (r : SubsRun) : Prop where
  wf : r.db.subs.WF
  mem : ∀ e ∈ r.current, e.1 ∈ contexts
  nodup : ∀ t p, (contextsAt r.db (t :: p)).Nodup
  mem_iff : ∀ t p context, context ∈ contextsAt r.db (t :: p) ↔
    ∃ sub, (context, sub) ∈ r.current ∧ subPath sub = t :: p

theorem updateQos_contexts (id : Bytes) (qos : ℕ) (subs : List Subleaf) :
    (updateQos id qos subs).map Subleaf.context = subs.map Subleaf.context := by
  induction subs with
  | nil => rfl
  | cons leaf subs ih =>
    rw [updateQos]
    split_ifs
    · rfl
    · rw [List.map_cons, ih, List.map_cons]

theorem withLeaf_contexts {contexts : Set MqttContext} (hids : Set.InjOn MqttContext.id contexts)
    {subs : List Subleaf} (hsubs : ∀ c ∈ subs.map Subleaf.context, c ∈ contexts)
    {context : MqttContext} (hc : context ∈ contexts) (qos : ℕ) :
    (withLeaf context qos subs).map Subleaf.context =
      if context ∈ subs.map Subleaf.context then subs.map Subleaf.context
      else subs.map Subleaf.context ++ [context] := by
  have hany : subs.any (fun leaf => leaf.context.id == context.id) = true ↔
      context ∈ subs.map Subleaf.context := by
    simp only [List.any_eq_true, beq_iff_eq, List.mem_map]
    constructor
    · rintro ⟨leaf, hleaf, hid⟩
      exact ⟨leaf, hleaf, hids (hsubs _ (List.mem_map_of_mem hleaf)) hc hid⟩
    · rintro ⟨leaf, hleaf, rfl⟩
      exact ⟨leaf, hleaf, rfl⟩
  unfold withLeaf
  by_cases h : context ∈ subs.map Subleaf.context
  · rw [if_pos (hany.mpr h), if_pos h, updateQos_contexts]
  · rw [if_neg (mt hany.mp h), if_neg h, List.map_append]
    rfl

theorem eraseP_contexts (context : MqttContext) (subs : List Subleaf) :
    (subs.eraseP fun leaf => leaf.context == context).map Subleaf.context =
      (subs.map Subleaf.context).erase context := by
  rw [List.erase_eq_eraseP', List.eraseP_map]
  rfl

theorem Holds.add {contexts : Set MqttContext} (hids : Set.InjOn MqttContext.id contexts)
    {r : SubsRun} (h : Holds contexts r) (s : BrokerSettings) {context : MqttContext}
    (hc : context ∈ contexts) {sub : Bytes} (hsub : topicWildcardPosCheck sub = true) (qos : ℕ) :
    Holds contexts (r.step s (.add context sub qos)) := by
  have hadd := mqtt3SubAdd_spec (s := s) h.wf context hsub qos
  simp only [SubsRun.step]
  cases hallowed : subscriptionAllowed s context r.db.log with
  | false =>
    obtain ⟨hrc, hleaves⟩ := hadd.rejected hallowed
    rw [if_neg (by rw [hrc]; decide)]
    have hat : ∀ p, contextsAt (mqtt3SubAdd s r.db context sub qos).2 p = contextsAt r.db p :=
      fun p => by rw [contextsAt, hleaves, contextsAt]
    exact ⟨hadd.wf, h.mem, fun t p => hat (t :: p) ▸ h.nodup t p,
      fun t p c => hat (t :: p) ▸ h.mem_iff t p c⟩
  | true =>
    obtain ⟨hrc, hleaves⟩ := hadd.accepted hallowed
    rw [if_pos hrc]
    have hsubs : ∀ t p, ∀ c ∈ contextsAt r.db (t :: p), c ∈ contexts := by
      intro t p c hmem
      obtain ⟨f, hf, -⟩ := (h.mem_iff t p c).mp hmem
      exact h.mem _ hf
    have hother : ∀ p, p ≠ subPath sub →
        contextsAt (mqtt3SubAdd s r.db context sub qos).2 p = contextsAt r.db p := fun p hp => by
      rw [contextsAt, hleaves, if_neg hp, contextsAt]
    have hself : contextsAt (mqtt3SubAdd s r.db context sub qos).2 (subPath sub) =
        if context ∈ contextsAt r.db (subPath sub) then contextsAt r.db (subPath sub)
        else contextsAt r.db (subPath sub) ++ [context] := by
      rw [contextsAt, hleaves, if_pos rfl]
      exact withLeaf_contexts hids (hsubs _ _) hc qos
    refine ⟨hadd.wf, ?_, fun t p => ?_, fun t p c => ?_⟩
    · intro e he
      rcases Finset.mem_insert.mp he with rfl | he
      · exact hc
      · exact h.mem e he
    · by_cases hp : t :: p = subPath sub
      · rw [hp, hself]
        have hnodup : (contextsAt r.db (subPath sub)).Nodup := h.nodup _ _
        split_ifs with hin
        · exact hnodup
        · rw [List.nodup_append]
          refine ⟨hnodup, List.nodup_singleton _, fun a ha b hb hab => hin ?_⟩
          rw [← List.mem_singleton.mp hb, ← hab]
          exact ha
      · rw [hother _ hp]
        exact h.nodup t p
    · by_cases hp : t :: p = subPath sub
      · have hmem : c ∈ contextsAt (mqtt3SubAdd s r.db context sub qos).2 (subPath sub) ↔
            c = context ∨ c ∈ contextsAt r.db (subPath sub) := by
          rw [hself]
          split_ifs with hin
          · exact ⟨.inr, fun hor => hor.elim (fun he => he ▸ hin) id⟩
          · rw [List.mem_append, List.mem_singleton, or_comm]
        rw [hp, hmem, show c ∈ contextsAt r.db (subPath sub) ↔ _ from h.mem_iff _ _ c]
        constructor
        · rintro (rfl | ⟨f, hf, hpath⟩)
          · exact ⟨sub, Finset.mem_insert_self _ _, rfl⟩
          · exact ⟨f, Finset.mem_insert_of_mem hf, hpath⟩
        · rintro ⟨f, hf, hpath⟩
          rcases Finset.mem_insert.mp hf with he | hf
          · exact .inl (Prod.ext_iff.mp he).1
          · exact .inr ⟨f, hf, hpath⟩
      · rw [hother _ hp, h.mem_iff]
        constructor
        · rintro ⟨f, hf, hpath⟩
          exact ⟨f, Finset.mem_insert_of_mem hf, hpath⟩
        · rintro ⟨f, hf, hpath⟩
          rcases Finset.mem_insert.mp hf with he | hf
          · have hfs : f = sub := (Prod.ext_iff.mp he).2
            exact absurd (hpath.symm.trans (congrArg subPath hfs)) hp
          · exact ⟨f, hf, hpath⟩

theorem Holds.remove {contexts : Set MqttContext} {r : SubsRun} (h : Holds contexts r)
    (s : BrokerSettings) (context : MqttContext) (sub : Bytes) :
    Holds contexts (r.step s (.remove context sub)) := by
  have hremove := mqtt3SubRemove_spec h.wf context sub
  have hat : ∀ p, contextsAt (mqtt3SubRemove r.db context sub) p =
      if p = subPath sub then (contextsAt r.db p).erase context else contextsAt r.db p := by
    intro p
    rw [contextsAt, hremove.leaves, eraseAt]
    split_ifs
    · exact eraseP_contexts context _
    · rfl
  refine ⟨hremove.wf, fun e he => h.mem e (Finset.mem_of_mem_erase he), fun t p => ?_,
    fun t p c => ?_⟩
  · show (contextsAt (mqtt3SubRemove r.db context sub) (t :: p)).Nodup
    rw [hat]
    split_ifs
    · exact (h.nodup t p).erase context
    · exact h.nodup t p
  · show c ∈ contextsAt (mqtt3SubRemove r.db context sub) (t :: p) ↔ ∃ f,
      (c, f) ∈ r.current.erase (context, sub) ∧ subPath f = t :: p
    rw [hat]
    split_ifs with hp
    · rw [(h.nodup t p).mem_erase_iff, h.mem_iff]
      constructor
      · rintro ⟨hne, f, hf, hpath⟩
        exact ⟨f, Finset.mem_erase.mpr ⟨fun he => hne (Prod.ext_iff.mp he).1, hf⟩, hpath⟩
      · rintro ⟨f, hf, hpath⟩
        obtain ⟨hne, hf⟩ := Finset.mem_erase.mp hf
        have hfs : f = sub := subPath_injective (hpath.trans hp)
        exact ⟨fun he => hne (by rw [he, hfs]), f, hf, hpath⟩
    · rw [h.mem_iff]
      constructor
      · rintro ⟨f, hf, hpath⟩
        refine ⟨f, Finset.mem_erase.mpr ⟨fun he => hp ?_, hf⟩, hpath⟩
        exact hpath.symm.trans (congrArg subPath (Prod.mk.inj he).2)
      · rintro ⟨f, hf, hpath⟩
        exact ⟨f, Finset.mem_of_mem_erase hf, hpath⟩

theorem Holds.clean {contexts : Set MqttContext} {r : SubsRun} (h : Holds contexts r)
    (s : BrokerSettings) (cleanSubs : MqttContext → Bool) :
    Holds contexts (r.step s (.clean cleanSubs)) := by
  obtain ⟨hwf, hleaves⟩ := mqtt3SubsCleanSession_spec h.wf cleanSubs
  have hat : ∀ t p, contextsAt (mqtt3SubsCleanSession r.db cleanSubs) (t :: p) =
      (contextsAt r.db (t :: p)).filter fun c => !cleanSubs c := by
    intro t p
    rw [contextsAt, hleaves, cleanAt, contextsAt, List.filter_map]
    rfl
  refine ⟨hwf, fun e he => h.mem e (Finset.mem_filter.mp he).1, fun t p => ?_, fun t p c => ?_⟩
  · show (contextsAt (mqtt3SubsCleanSession r.db cleanSubs) (t :: p)).Nodup
    rw [hat]
    exact (h.nodup t p).filter _
  · show c ∈ contextsAt (mqtt3SubsCleanSession r.db cleanSubs) (t :: p) ↔ ∃ f,
      (c, f) ∈ r.current.filter (fun e => !cleanSubs e.1) ∧ subPath f = t :: p
    rw [hat, List.mem_filter, h.mem_iff]
    constructor
    · rintro ⟨⟨f, hf, hpath⟩, hclean⟩
      exact ⟨f, Finset.mem_filter.mpr ⟨hf, hclean⟩, hpath⟩
    · rintro ⟨f, hf, hpath⟩
      obtain ⟨hf, hclean⟩ := Finset.mem_filter.mp hf
      exact ⟨⟨f, hf, hpath⟩, hclean⟩

theorem holds_init (contexts : Set MqttContext) : Holds contexts .init where
  wf := wf_init
  mem := by simp [SubsRun.init]
  nodup t p := by simp [contextsAt, SubsRun.init, leavesAt_init]
  mem_iff t p c := by simp [contextsAt, SubsRun.init, leavesAt_init]

theorem holds_run {contexts : Set MqttContext} (hids : Set.InjOn MqttContext.id contexts)
    (s : BrokerSettings) {ops : List SubsOp} (hops : ∀ op ∈ ops, op.Admissible contexts) :
    Holds contexts (.run s ops) := by
  have key : ∀ (ops : List SubsOp) (r : SubsRun), (∀ op ∈ ops, op.Admissible contexts) →
      Holds contexts r → Holds contexts (ops.foldl (SubsRun.step s) r) := by
    intro ops
    induction ops with
    | nil => exact fun _ _ h => h
    | cons op ops ih =>
      intro r hops h
      refine ih _ (fun o ho => hops o (List.mem_cons_of_mem _ ho)) ?_
      have hop := hops op List.mem_cons_self
      cases op with
      | add context sub qos => exact h.add hids s hop.1 hop.2 qos
      | remove context sub => exact h.remove s context sub
      | clean cleanSubs => exact h.clean s cleanSubs
  exact key ops .init hops (holds_init contexts)

/-! ### Exactly once -/

/-- The contexts that an insert is attempted for, with the path of the subscription. -/
def deliveries (db : SubsDb) (sourceId topic : Bytes) : List (MqttContext × List Bytes) :=
  (matchingPaths (subTopicTokenise topic)).flatMap fun p =>
    ((contextsAt db (rootToken topic :: p)).filter (notSource sourceId)).map fun c => (c, p)

theorem mqtt3DbMessagesQueue_contexts {db : SubsDb} (hdb : db.subs.WF) (upgrade : Bool)
    (sourceId topic : Bytes) (qos : ℕ) :
    (mqtt3DbMessagesQueue upgrade db sourceId topic qos).map MessageInsert.context =
      (deliveries db sourceId topic).map Prod.fst := by
  have hlink := hdb.linked.here
  rw [mqtt3DbMessagesQueue, hlink.hashFind_eq, deliveries, List.map_flatMap]
  cases hchild : db.subs.child? (rootToken topic) with
  | none =>
    have hnil : ∀ p, contextsAt db (rootToken topic :: p) = [] := fun p => by
      rw [contextsAt, leavesAt, hchild]
      rfl
    simp [hnil]
  | some child =>
    obtain ⟨hc, ht⟩ := mem_of_child? hchild
    simp only
    rw [subSearch_eq sourceId (hdb.child hc), List.map_map, List.map_flatMap]
    refine List.flatMap_congr fun p _ => ?_
    rw [contextsAt, ← ht, hlink.leavesAt_cons hc, processedAt, List.filter_map, List.map_map,
      List.map_map]
    rfl

theorem nodup_deliveries {contexts : Set MqttContext} {r : SubsRun} (h : Holds contexts r)
    (sourceId : Bytes) {topic : Bytes} (htopic : plus ∉ topic ∧ pound ∉ topic) :
    (deliveries r.db sourceId topic).Nodup := by
  rw [deliveries, List.nodup_flatMap]
  refine ⟨fun p _ => ?_, ?_⟩
  · exact ((h.nodup _ p).filter _).map fun c d he => (Prod.ext_iff.mp he).1
  · refine (nodup_matchingPaths (tokenise_wildcardFree htopic)).imp fun {p q} hpq => ?_
    intro e hp hq
    obtain ⟨c, -, rfl⟩ := List.mem_map.mp hp
    obtain ⟨d, -, he⟩ := List.mem_map.mp hq
    exact hpq (Prod.ext_iff.mp he).2.symm

theorem mem_deliveries {contexts : Set MqttContext} {r : SubsRun} (h : Holds contexts r)
    {sourceId topic : Bytes} {c : MqttContext} {p : List Bytes} :
    (c, p) ∈ deliveries r.db sourceId topic ↔ ∃ sub, (c, sub) ∈ r.current ∧
      (notSource sourceId c && mqttMatches sub topic) = true ∧ subTopicTokenise sub = p := by
  simp only [deliveries, List.mem_flatMap, List.mem_map, List.mem_filter, Prod.mk.injEq,
    h.mem_iff, Bool.and_eq_true, mqttMatches_iff, mem_matchingPaths]
  constructor
  · rintro ⟨q, ⟨-, hmatch⟩, d, ⟨⟨sub, hsub, hpath⟩, hsource⟩, rfl, rfl⟩
    obtain ⟨hroot, rfl⟩ := List.cons.inj hpath
    exact ⟨sub, hsub, ⟨hsource, hroot, hmatch⟩, rfl⟩
  · rintro ⟨sub, hsub, ⟨hsource, hroot, hmatch⟩, rfl⟩
    exact ⟨_, ⟨subTopicTokenise_ne_nil sub, hmatch⟩, c, ⟨⟨sub, hsub, by rw [subPath, hroot]⟩,
      hsource⟩, rfl, rfl⟩

/-- **Exactly-once delivery.**  After any sequence of calls by contexts with distinct ids, the
inserts attempted for a topic without wildcards are, as a multiset of contexts, one for each
current subscription whose filter matches the topic and whose context is not the bridge the message
came from. -/
theorem messagesQueue_exactly_once {contexts : Set MqttContext}
    (hids : Set.InjOn MqttContext.id contexts) (s : BrokerSettings) (ops : List SubsOp)
    (hops : ∀ op ∈ ops, op.Admissible contexts) (upgrade : Bool) (sourceId : Bytes)
    {topic : Bytes} (htopic : plus ∉ topic ∧ pound ∉ topic) (qos : ℕ) :
    (((mqtt3DbMessagesQueue upgrade (SubsRun.run s ops).db sourceId topic qos).map
      MessageInsert.context : List MqttContext) : Multiset MqttContext) =
    ((SubsRun.run s ops).current.filter fun e =>
      (notSource sourceId e.1 && mqttMatches e.2 topic) = true).val.map Prod.fst := by
  have h := holds_run hids s hops
  rw [mqtt3DbMessagesQueue_contexts h.wf]
  set r := SubsRun.run s ops
  -- A subscription is known by its context and its tokens.
  let tagged : MqttContext × Bytes → MqttContext × List Bytes := fun e =>
    (e.1, subTopicTokenise e.2)
  have htagged : Function.Injective tagged := fun e f hef =>
    Prod.ext (Prod.ext_iff.mp hef).1 (subTopicTokenise_injective (Prod.ext_iff.mp hef).2)
  have hsame : ((deliveries r.db sourceId topic : List _) : Multiset _) =
      (r.current.filter fun e =>
        (notSource sourceId e.1 && mqttMatches e.2 topic) = true).val.map tagged := by
    refine (Multiset.Nodup.ext (Multiset.coe_nodup.mpr (nodup_deliveries h sourceId htopic))
      ((Finset.nodup _).map htagged)).mpr fun e => ?_
    obtain ⟨c, p⟩ := e
    rw [Multiset.mem_coe, mem_deliveries h, Multiset.mem_map]
    constructor
    · rintro ⟨sub, hsub, hmatch, rfl⟩
      exact ⟨(c, sub), Finset.mem_filter.mpr ⟨hsub, hmatch⟩, rfl⟩
    · rintro ⟨⟨d, sub⟩, hmem, he⟩
      obtain ⟨rfl, rfl⟩ := Prod.mk.inj he
      obtain ⟨hsub, hmatch⟩ := Finset.mem_filter.mp hmem
      exact ⟨sub, hsub, hmatch, rfl⟩
  rw [← Multiset.map_coe, hsame, Multiset.map_map]
  rfl

/-- A client. -/
def subscriber : MqttContext := { id := lit "c" }

/-- A bridge to another broker. -/
def bridge : MqttContext := { id := lit "b", isBridge := true }

/-- The client subscribes to `foo/#` and `+`, the bridge to `foo`; then `+` is removed. -/
def fooOps : List SubsOp :=
  [.add subscriber (lit "foo/#") 1, .add subscriber (lit "+") 0, .add bridge (lit "foo") 0,
    .remove subscriber (lit "+")]

theorem messagesQueue_foo :
    (((mqtt3DbMessagesQueue false (SubsRun.run { guid := [] } fooOps).db (lit "c") (lit "foo")
      0).map MessageInsert.context : List MqttContext) : Multiset MqttContext) =
    {subscriber, bridge} := by
  have hids : Set.InjOn MqttContext.id {subscriber, bridge} := by
    rintro c (rfl | rfl) d (rfl | rfl) h
    · rfl
    · exact absurd h (by decide)
    · exact absurd h (by decide)
    · rfl
  rw [messagesQueue_exactly_once hids { guid := [] } fooOps (fun op hop => ?_) false
    (lit "c") (by decide) 0]
  · decide
  · simp only [fooOps, List.mem_cons, List.not_mem_nil, or_false] at hop
    rcases hop with rfl | rfl | rfl | rfl <;>
      exact ⟨by simp [subscriber, bridge], by decide⟩

end DxlBroker
