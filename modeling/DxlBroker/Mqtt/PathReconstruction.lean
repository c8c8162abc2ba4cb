import DxlBroker.Mqtt.TopicNotices

/-!
# The topics of notifications

The topic of a notification is rebuilt from the names on the way to the node.  It is the filter of
the subscription, as far as the buffer reaches, unless the filter starts with `$`.
-/

namespace DxlBroker

open Bytes Subhier


/-! ### The topic of a node -/

theorem take_take_append (n : ℕ) (x y : Bytes) : (x.take n ++ y).take n = (x ++ y).take n := by
  rw [List.take_append, List.take_append, List.take_take, Nat.min_self, List.length_take]
  congr 2
  omega

/-- From the third level on each name follows a slash. -/
theorem topicBelow_of_two_lt {depth : ℕ} (hdepth : 2 < depth) (x : Bytes) (path : List Bytes) :
    topicBelow (x.take (maxTopicLen - 1)) depth path =
      (x ++ path.flatMap (slash :: ·)).take (maxTopicLen - 1) := by
  induction path generalizing x depth with
  | nil => rw [topicBelow, List.flatMap_nil, List.append_nil]
  | cons name path ih =>
    rw [topicBelow, addTopicToPath, if_pos (.inl hdepth), List.append_assoc, take_take_append,
      ih (by omega), List.flatMap_cons, List.append_assoc]
    simp

theorem flatMap_levels {topic l : Bytes} {ls : List Bytes} (h : levels topic = l :: ls) :
    l ++ ls.flatMap (slash :: ·) = topic := by
  have hjoin : ∀ (l : Bytes) (ls : List Bytes),
      [slash].intercalate (l :: ls) = l ++ ls.flatMap (slash :: ·) := by
    intro l ls
    induction ls generalizing l with
    | nil => simp
    | cons k ls ih => simp [List.intercalate_cons_cons, ih]
  rw [← hjoin, ← h]
  exact List.intercalate_splitOn slash

/-- The names on the way to the node of a filter give the filter back, up to the length of the
buffer. -/
theorem pathTopic_subPath {sub : Bytes} (h : sub.head? ≠ some dollar) :
    pathTopic (subPath sub) = sub.take (maxTopicLen - 1) := by
  obtain ⟨l, ls, hl⟩ := List.exists_cons_of_ne_nil (levels_ne_nil sub)
  have hfirst : addTopicToPath l [] 2 = l.take (maxTopicLen - 1) := by simp [addTopicToPath]
  have hempty : ∀ depth, depth < 2 → addTopicToPath [] [] depth = [] := fun depth hd => by
    rw [addTopicToPath, if_neg (by omega)]
    rfl
  rw [pathTopic, subPath, rootToken_of_ne_dollar h, tokenise_of_ne_dollar h, hl]
  simp only [topicBelow, hempty 0 (by decide), hempty 1 (by decide), hfirst]
  rw [topicBelow_of_two_lt (by decide), flatMap_levels hl]

/-! ### Notifications of accepted filters -/

namespace SubsOp

/-- The wildcard position check accepts the filter of a call. -/
def FilterAccepted : SubsOp → Prop
  | .add _ sub _ => topicWildcardPosCheck sub = true
  | .remove _ sub => topicWildcardPosCheck sub = true
  | .clean _ => True

/-- The filters that a call can concern: its own one, or any when leaves are cleaned. -/
def Concerns (sub : Bytes) : SubsOp → Prop
  | .add _ sub' _ => sub = sub'
  | .remove _ sub' => sub = sub'
  | .clean _ => True

end SubsOp

/-- Leaves are only found at the nodes of accepted filters. -/
def SubsDb.FiltersAccepted (db : SubsDb) : Prop :=
  ∀ p, db.subs.leavesAt p ≠ [] → ∃ sub, topicWildcardPosCheck sub = true ∧ subPath sub = p

/-- A call that changes the leaves at a path has a filter for it. -/
theorem exists_filter_of_change {db : SubsDb} (h : db.Represented) (hdb : db.FiltersAccepted)
    (s : BrokerSettings) {op : SubsOp} (hop : op.FilterAccepted) {p : List Bytes}
    (hp : (op.apply s db).subs.leavesAt p ≠ db.subs.leavesAt p) :
    ∃ sub, topicWildcardPosCheck sub = true ∧ subPath sub = p ∧ op.Concerns sub := by
  have hvisited : p ∈ op.visited db := by
    by_contra hnot
    exact hp ((h.changes s op).other p hnot)
  cases op with
  | add context sub qos => exact ⟨sub, hop, (List.mem_singleton.mp hvisited).symm, rfl⟩
  | remove context sub => exact ⟨sub, hop, (List.mem_singleton.mp hvisited).symm, rfl⟩
  | clean cleanSubs =>
    have hne : db.subs.leavesAt p ≠ [] := by
      intro hnil
      refine hp ?_
      show (mqtt3SubsCleanSession db cleanSubs).subs.leavesAt p = _
      rw [(h.clean cleanSubs).2.2, hnil]
      rfl
    obtain ⟨sub, hsub, hpath⟩ := hdb p hne
    exact ⟨sub, hsub, hpath, trivial⟩

theorem filtersAccepted_apply {db : SubsDb} (h : db.Represented) (hdb : db.FiltersAccepted)
    (s : BrokerSettings) {op : SubsOp} (hop : op.FilterAccepted) :
    (op.apply s db).FiltersAccepted := by
  intro p hp
  by_cases hsame : (op.apply s db).subs.leavesAt p = db.subs.leavesAt p
  · exact hdb p (hsame ▸ hp)
  · obtain ⟨sub, hsub, hpath, -⟩ := exists_filter_of_change h hdb s hop hsame
    exact ⟨sub, hsub, hpath⟩

theorem filtersAccepted_run (s : BrokerSettings) {ops : List SubsOp}
    (hops : ∀ op ∈ ops, op.FilterAccepted) :
    (SubsRun.run s ops).db.Represented ∧ (SubsRun.run s ops).db.FiltersAccepted := by
  have key : ∀ (ops : List SubsOp) (db : SubsDb), (∀ op ∈ ops, op.FilterAccepted) →
      db.Represented → db.FiltersAccepted →
      (ops.foldl (SubsOp.apply s) db).Represented ∧
        (ops.foldl (SubsOp.apply s) db).FiltersAccepted := by
    intro ops
    induction ops with
    | nil => exact fun db _ h hdb => ⟨h, hdb⟩
    | cons op ops ih =>
      intro db hops h hdb
      exact ih _ (fun o ho => hops o (List.mem_cons_of_mem _ ho)) (h.represented_apply s op)
        (filtersAccepted_apply h hdb s (hops op List.mem_cons_self))
  rw [SubsRun.run_db]
  exact key ops .init hops represented_init fun p hp => absurd (leavesAt_init p) hp

/-- **Path reconstruction.**  In every run in which the wildcard position check accepts the
filters, each notification of a call is for the node of an accepted filter, which is the one of
the call when leaves are added or removed.  Its topic is the filter, cut to the length of the
buffer, if the filter does not start with `$`. -/
theorem notice_topic_eq_filter (s : BrokerSettings) (ops : List SubsOp)
    (hops : ∀ op ∈ ops, op.FilterAccepted) (op : SubsOp) (hop : op.FilterAccepted) :
    (op.apply s (SubsRun.run s ops).db).log.notices = (SubsRun.run s ops).db.log.notices ++
      (op.fired s (SubsRun.run s ops).db).map NodeNotice.notice ∧
    ∀ e ∈ op.fired s (SubsRun.run s ops).db, ∃ sub, topicWildcardPosCheck sub = true ∧
      e.path = subPath sub ∧ op.Concerns sub ∧
      (sub.head? ≠ some dollar → e.notice =
        if e.added then .added (sub.take 1023) else .removed (sub.take 1023)) := by
  obtain ⟨h, hdb⟩ := filtersAccepted_run s hops
  refine ⟨h.notices_apply s op, fun e he => ?_⟩
  obtain ⟨p, -, he⟩ := List.mem_flatMap.mp he
  rw [changeNotice] at he
  split_ifs at he with hsame
  · cases he
  · rw [List.mem_singleton] at he
    obtain ⟨sub, hsub, hpath, hconcerns⟩ :=
      exists_filter_of_change h hdb s hop fun heq => hsame (by rw [heq])
    refine ⟨sub, hsub, by rw [he, hpath], hconcerns, fun hdollar => ?_⟩
    rw [NodeNotice.notice, he, ← hpath, pathTopic_subPath hdollar]
    rfl

/-- A subscription to `a/b` is announced under that topic. -/
theorem notice_topic_eq_filter_ab :
    ∃ sub, topicWildcardPosCheck sub = true ∧ subPath (lit "a/b") = subPath sub ∧
      (SubsOp.add subscriber (lit "a/b") 0).Concerns sub ∧ (sub.head? ≠ some dollar →
        (NodeNotice.mk (subPath (lit "a/b")) true).notice = .added (sub.take 1023)) :=
  (notice_topic_eq_filter { guid := [] } [] (fun _ h => absurd h List.not_mem_nil)
    (.add subscriber (lit "a/b") 0) (show topicWildcardPosCheck (lit "a/b") = true by decide)).2
    ⟨subPath (lit "a/b"), true⟩ (by decide)

/-- A filter that is longer than the buffer is not announced as it is. -/
theorem notices_add_ne_of_length {sub : Bytes} (hdollar : sub.head? ≠ some dollar)
    (hlength : maxTopicLen - 1 < sub.length) (s : BrokerSettings) (context : MqttContext)
    (qos : ℕ) :
    (mqtt3SubAdd s .init context sub qos).2.log.notices ≠ [.added sub] := by
  intro h
  have hnotices := represented_init.notices_apply s (.add context sub qos)
  have hmem : TopicNotice.added sub ∈
      (SubsOp.fired s .init (.add context sub qos)).map NodeNotice.notice := by
    have heq : [TopicNotice.added sub] =
        [] ++ (SubsOp.fired s .init (.add context sub qos)).map NodeNotice.notice :=
      h.symm.trans hnotices
    rw [List.nil_append] at heq
    rw [← heq]
    exact List.mem_singleton_self _
  obtain ⟨e, he, hnotice⟩ := List.mem_map.mp hmem
  obtain ⟨p, hp, he⟩ := List.mem_flatMap.mp he
  have hpath : e.path = subPath sub := by
    rw [changeNotice] at he
    split_ifs at he
    · cases he
    · rw [List.mem_singleton.mp he]
      exact List.mem_singleton.mp hp
  rw [NodeNotice.notice, hpath, pathTopic_subPath hdollar] at hnotice
  split_ifs at hnotice
  have hcut := congrArg List.length (TopicNotice.added.inj hnotice)
  rw [List.length_take] at hcut
  omega

/-- A filter of 1024 bytes. -/
def longFilter : Bytes := List.replicate 1024 0x61

/-- A filter longer than the buffer is cut, and the first name of a filter that starts with `$` is
written twice. -/
theorem notice_topic_ne_filter :
    topicWildcardPosCheck longFilter = true ∧
    (mqtt3SubAdd { guid := [] } .init subscriber longFilter 0).2.log.notices ≠
      [.added longFilter] ∧
    topicWildcardPosCheck (lit "$SYS/a") = true ∧
    (mqtt3SubAdd { guid := [] } .init subscriber (lit "$SYS/a") 0).2.log.notices =
      [.added (lit "$SYS$SYSa")] := by
  refine ⟨by decide +kernel, notices_add_ne_of_length (by decide) ?_ _ _ _, by decide, by decide⟩
  rw [longFilter, List.length_replicate]
  decide

end DxlBroker
