import DxlBroker.Mqtt.PathReconstruction

/-!
# Counting the subscribers of a topic

`mqtt3_sub_count` walks the tree in a way of its own: it asks the hash tables for the wildcards
without a look at the counters, and a flag that comes back from a `#` makes it count at the
first-level node too.  It counts the clients that a message of the topic would be inserted for.
-/

namespace DxlBroker

open Bytes Subhier

section Count

-- `guidOf` reads `dxl_tenant_guid`, which may be null; a null `tenantGuid` asks for all tenants.
variable (guidOf : MqttContext → Option Bytes) (tenantGuid : Option Bytes)

/-- The test of a leaf in `_sub_count_process`. -/
def countsContext (context : MqttContext) : Bool :=
  !context.isBridge && (tenantGuid.isNone || guidOf context == tenantGuid)

/-- `_sub_count_process`: the number of leaves counted. -/
def subCountProcess (n : Subhier) : ℕ :=
  n.subs.countP fun leaf => countsContext guidOf tenantGuid leaf.context

/-- `_sub_count_search`: the flag and the number of leaves counted. -/
def subCountSearch (n : Subhier) : List Bytes → ℤ × ℕ
  | [] =>
      (n.hashFind poundLevel).elim (0, 0) fun branch =>
        (-1, subCountProcess guidOf tenantGuid branch)
  | token :: tokens =>
      let found (branch : Subhier) : ℤ × ℕ :=
        let (flag, count) := subCountSearch branch tokens
        (flag, count + if tokens.isEmpty then subCountProcess guidOf tenantGuid branch else 0)
      let (plusFlag, plusCount) := (n.hashFind plusLevel).elim (0, 0) found
      let (topicFlag, topicCount) := (n.hashFind token).elim (0, 0) found
      let (poundFlag, poundCount) := (n.hashFind poundLevel).elim (0, 0) fun branch =>
        (-1, subCountProcess guidOf tenantGuid branch)
      (if plusFlag = -1 ∨ topicFlag = -1 ∨ poundFlag = -1 then -1 else 0,
        plusCount + topicCount + poundCount)

/-- `mqtt3_sub_count`, called with a count of zero. -/
def mqtt3SubCount (db : SubsDb) (topic : Bytes) : ℕ :=
  match db.subs.hashFind (rootToken topic) with
  | none => 0
  | some child =>
      let (flag, count) := subCountSearch guidOf tenantGuid child (subTopicTokenise topic)
      if flag = -1 then count + subCountProcess guidOf tenantGuid child else count

/-! ### The two searches -/

variable {guidOf tenantGuid}

/-- A leaf that is counted is never skipped as the source of a message. -/
theorem countP_processedAt (sourceId : Bytes) (n : Subhier) (p : List Bytes) :
    ((processedAt sourceId n p).countP fun leaf => countsContext guidOf tenantGuid leaf.context) =
      (n.leavesAt p).countP fun leaf => countsContext guidOf tenantGuid leaf.context := by
  rw [processedAt, List.countP_filter]
  refine List.countP_congr fun leaf _ => ?_
  simp only [countsContext, notSource, Bool.and_eq_true, Bool.not_eq_true']
  constructor
  · exact And.left
  · exact fun h => ⟨h, by rw [h.1]; rfl⟩

/-- What both searches find through the child of a name. -/
theorem countP_through {n : Subhier} (hn : n.WF) (name : Bytes) {search : Subhier → List Subleaf}
    {count : Subhier → ℕ} (flag : Subhier → ℤ)
    (h : ∀ c : Subhier, c.WF → count c =
      (search c).countP fun leaf => countsContext guidOf tenantGuid leaf.context) :
    ((n.hashFind name).elim (0, 0) fun c => (flag c, count c)).2 =
      ((n.hashFind name).elim [] search).countP
        fun leaf => countsContext guidOf tenantGuid leaf.context := by
  rw [hn.linked.here.hashFind_eq]
  cases hchild : n.child? name with
  | none => rfl
  | some c => exact h c (hn.child (mem_of_child? hchild).1)

theorem countP_poundLeaves (sourceId : Bytes) {n : Subhier} (hn : n.WF) :
    ((n.hashFind poundLevel).elim (0, 0) fun branch =>
      ((-1 : ℤ), subCountProcess guidOf tenantGuid branch)).2 =
    (poundLeaves sourceId n).countP fun leaf => countsContext guidOf tenantGuid leaf.context := by
  rw [poundLeaves_eq hn, countP_processedAt, hn.linked.here.hashFind_eq, leavesAt]
  cases n.child? poundLevel with
  | none => rfl
  | some c => rfl

/-- The count is that of the leaves which the search for the topic finds. -/
theorem subCountSearch_snd (sourceId : Bytes) {tokens : List Bytes} :
    ∀ {n : Subhier}, n.WF → (subCountSearch guidOf tenantGuid n tokens).2 =
      (subSearch sourceId n tokens).countP
        fun leaf => countsContext guidOf tenantGuid leaf.context := by
  induction tokens with
  | nil =>
    intro n hn
    exact countP_poundLeaves sourceId hn
  | cons token tokens ih =>
    intro n hn
    have hbranch : ∀ c : Subhier, c.WF →
        (subCountSearch guidOf tenantGuid c tokens).2 +
          (if tokens.isEmpty then subCountProcess guidOf tenantGuid c else 0) =
        (subSearch sourceId c tokens ++ if tokens.isEmpty then subsProcess sourceId c else
          []).countP fun leaf => countsContext guidOf tenantGuid leaf.context := by
      intro c hc
      rw [List.countP_append, ih hc]
      split_ifs
      · exact congrArg _ (countP_processedAt sourceId c []).symm
      · rfl
    have hplus : n.plusCount = 0 → n.hashFind plusLevel = none := fun h => by
      rw [hn.linked.here.hashFind_eq]
      exact child?_eq_none_of_count (hn.linked.here.plusCount ▸ h)
    have hthrough := fun name => countP_through hn name
      (fun c => (subCountSearch guidOf tenantGuid c tokens).1) hbranch
    rw [subSearch, List.countP_append, List.countP_append, ← hthrough token,
      ← countP_poundLeaves sourceId hn]
    have hplusLeaves : (if n.plusCount = 0 then [] else (n.hashFind plusLevel).elim [] fun branch =>
          subSearch sourceId branch tokens ++
            if tokens.isEmpty then subsProcess sourceId branch else []).countP
          (fun leaf => countsContext guidOf tenantGuid leaf.context) =
        ((n.hashFind plusLevel).elim (0, 0) fun c =>
          ((subCountSearch guidOf tenantGuid c tokens).1,
            (subCountSearch guidOf tenantGuid c tokens).2 +
              if tokens.isEmpty then subCountProcess guidOf tenantGuid c else 0)).2 := by
      rw [hthrough plusLevel]
      by_cases hcount : n.plusCount = 0
      · rw [if_pos hcount, hplus hcount]
        rfl
      · rw [if_neg hcount]
    rw [hplusLeaves, subCountSearch]
    simp only
    omega

/-! ### Runs -/

variable (guidOf tenantGuid)

theorem wf_run (s : BrokerSettings) {ops : List SubsOp} (hops : ∀ op ∈ ops, op.FilterAccepted) :
    (SubsRun.run s ops).db.subs.WF := by
  have key : ∀ (ops : List SubsOp) (db : SubsDb), (∀ op ∈ ops, op.FilterAccepted) →
      db.subs.WF → (ops.foldl (SubsOp.apply s) db).subs.WF := by
    intro ops
    induction ops with
    | nil => exact fun db _ h => h
    | cons op ops ih =>
      intro db hops h
      have hop := hops op List.mem_cons_self
      refine ih _ (fun o ho => hops o (List.mem_cons_of_mem _ ho)) ?_
      cases op with
      | add context sub qos => exact (mqtt3SubAdd_spec h context hop qos).wf
      | remove context sub => exact (mqtt3SubRemove_spec h context sub).wf
      | clean cleanSubs => exact (mqtt3SubsCleanSession_spec h cleanSubs).1
  rw [SubsRun.run_db]
  exact key ops .init hops wf_init

/-- A filter has two tokens at least, so a first-level node has no leaves. -/
theorem subs_of_firstLevel {db : SubsDb} (h : db.subs.Linked) (hdb : db.FiltersAccepted)
    {child : Subhier} (hchild : child ∈ db.subs.children) : child.subs = [] := by
  by_contra hne
  rw [show child.subs = db.subs.leavesAt [child.topic] from (h.leavesAt_cons hchild []).symm] at hne
  obtain ⟨sub, -, hpath⟩ := hdb _ hne
  exact subTopicTokenise_ne_nil sub (List.cons.inj hpath).2

/-- The count of a topic is that of the inserts attempted for it. -/
theorem mqtt3SubCount_eq {db : SubsDb} (hwf : db.subs.WF) (hdb : db.FiltersAccepted)
    (upgrade : Bool) (sourceId topic : Bytes) (qos : ℕ) :
    mqtt3SubCount guidOf tenantGuid db topic =
      (mqtt3DbMessagesQueue upgrade db sourceId topic qos).countP
        fun m => countsContext guidOf tenantGuid m.context := by
  have hlink := hwf.linked.here
  rw [mqtt3SubCount, mqtt3DbMessagesQueue, hlink.hashFind_eq]
  cases hchild : db.subs.child? (rootToken topic) with
  | none => rfl
  | some child =>
    have hmem := (mem_of_child? hchild).1
    have hnone : subCountProcess guidOf tenantGuid child = 0 := by
      rw [subCountProcess, subs_of_firstLevel hlink hdb hmem, List.countP_nil]
    simp only [hnone, Nat.add_zero, ite_self, List.countP_map]
    exact subCountSearch_snd sourceId (hwf.child hmem)

end Count

/-- **The subscriber count agrees with delivery.**  In every tree that calls with accepted filters
lead to, the count of a topic is the number of inserts attempted for clients that are no bridges,
and the count of a topic for a tenant is the number of those for clients of that tenant. -/
theorem subCount_eq_delivery (s : BrokerSettings) (ops : List SubsOp)
    (hops : ∀ op ∈ ops, op.FilterAccepted) (guidOf : MqttContext → Option Bytes) (upgrade : Bool)
    (sourceId topic : Bytes) (qos : ℕ) :
    mqtt3SubCount guidOf none (SubsRun.run s ops).db topic =
      ((mqtt3DbMessagesQueue upgrade (SubsRun.run s ops).db sourceId topic qos).filter
        fun m => !m.context.isBridge).length ∧
    ∀ tenantGuid, mqtt3SubCount guidOf (some tenantGuid) (SubsRun.run s ops).db topic =
      ((mqtt3DbMessagesQueue upgrade (SubsRun.run s ops).db sourceId topic qos).filter
        fun m => !m.context.isBridge && guidOf m.context == some tenantGuid).length := by
  have hcount := fun tenantGuid => mqtt3SubCount_eq guidOf tenantGuid (wf_run s hops)
    (filtersAccepted_run s hops).2 upgrade sourceId topic qos
  refine ⟨?_, fun tenantGuid => ?_⟩
  · rw [hcount, List.countP_eq_length_filter]
    simp only [countsContext, Option.isNone_none, Bool.true_or, Bool.and_true]
  · rw [hcount, List.countP_eq_length_filter]
    simp only [countsContext, Option.isNone_some, Bool.false_or]

theorem subCount_eq_delivery_foo :
    mqtt3SubCount (fun _ => none) none (SubsRun.run { guid := [] } fooOps).db (lit "foo") = 1 := by
  rw [(subCount_eq_delivery { guid := [] } fooOps (fun op hop => ?_) (fun _ => none) false (lit "c")
    (lit "foo") 0).1]
  · decide
  · simp only [fooOps, List.mem_cons, List.not_mem_nil, or_false] at hop
    rcases hop with rfl | rfl | rfl | rfl
    · exact show topicWildcardPosCheck (lit "foo/#") = true by decide
    · exact show topicWildcardPosCheck (lit "+") = true by decide
    · exact show topicWildcardPosCheck (lit "foo") = true by decide
    · exact show topicWildcardPosCheck (lit "+") = true by decide

end DxlBroker
