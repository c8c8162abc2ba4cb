import DxlBroker.Mqtt.Delivery

/-!
# How the subscription tree is represented

After any sequence of calls, accepted or rejected, each node's hash table and counters agree with
its list of children, a node that is not used is unlinked, and the two counters beside the tree
count its leaves.  The filters need not pass the wildcard check here.
-/

namespace DxlBroker

open Bytes

namespace Subhier

/-! ### All leaves of a tree -/

mutual

/-- The leaves of a node and of the nodes below it. -/
def leaves : Subhier → List Subleaf
  | ⟨_, _, subs, _, children, _, _, _⟩ => subs ++ leavesBelow children

/-- The leaves of some trees. -/
def leavesBelow : List Subhier → List Subleaf
  | [] => []
  | child :: children => leaves child ++ leavesBelow children

end

theorem leavesBelow_append (l₁ l₂ : List Subhier) :
    leavesBelow (l₁ ++ l₂) = leavesBelow l₁ ++ leavesBelow l₂ := by
  induction l₁ with
  | nil => simp [leavesBelow]
  | cons c l₁ ih => simp [leavesBelow, ih]

theorem leaves_eq (n : Subhier) : n.leaves = n.subs ++ leavesBelow n.children := by
  cases n
  simp [leaves]

theorem leaves_of_isUnused {n : Subhier} (h : n.isUnused = true) : n.leaves = [] := by
  simp only [isUnused, Bool.and_eq_true, List.isEmpty_iff] at h
  rw [leaves_eq, h.1.1, h.1.2, leavesBelow, List.append_nil]

/-! ### Changed children -/

section Replaces

variable {n c c' : Subhier} {l₁ l₂ : List Subhier} (hn : n.Linked)
  (hl : n.children = l₁ ++ c :: l₂) (haddr : c'.addr = c.addr)
include hn hl haddr

theorem addr_ne_of_split : ∀ d ∈ l₁ ++ l₂, d.addr ≠ c'.addr := by
  have hnodup := hn.addrs
  rw [hl, List.map_append, List.map_cons, List.nodup_middle, List.nodup_cons, ← List.map_append]
    at hnodup
  intro d hd h
  rw [haddr] at h
  exact hnodup.1 (h ▸ List.mem_map_of_mem hd)

theorem setChild_children : (n.setChild c').children = l₁ ++ c' :: l₂ := by
  have hne := addr_ne_of_split hn hl haddr
  have hsame : ∀ l : List Subhier, (∀ d ∈ l, d ∈ l₁ ++ l₂) →
      l.map (fun d => if d.addr = c'.addr then c' else d) = l := fun l h => by
    conv_rhs => rw [← List.map_id l]
    exact List.map_congr_left fun d hd => if_neg (hne d (h d hd))
  rw [setChild, hl, List.map_append, List.map_cons, if_pos haddr.symm,
    hsame l₁ fun d hd => List.mem_append_left _ hd, hsame l₂ fun d hd => List.mem_append_right _ hd]

theorem putChild_children :
    (n.putChild c').children = l₁ ++ (if c'.isUnused then [] else [c']) ++ l₂ := by
  unfold putChild
  split_ifs
  · have hne := addr_ne_of_split hn hl haddr
    rw [dropChild, hl, List.append_nil, List.eraseP_append_right]
    · rw [List.eraseP_cons_of_pos (by simp [haddr])]
    · intro d hd
      simpa using hne d (List.mem_append_left _ hd)
  · rw [setChild_children hn hl haddr, List.append_assoc, List.singleton_append]

end Replaces

/-! ### Nodes in use -/

/-- The links of a node are right, and no child of it is unused. -/
structure Neat (n : Subhier) : Prop where
  linked : n.Linked
  used : ∀ c ∈ n.children, c.isUnused = false

theorem neat_leaf (addr : ℕ) (topic : Bytes) :
    ({ addr := addr, topic := topic } : Subhier).Everywhere Neat :=
  .intro ⟨⟨by simp, by simp, by simp, by simp, by simp⟩, by simp⟩ (by simp)

/-- A node whose children are used subtrees. -/
theorem neat_intro {n : Subhier} (hlinked : n.Linked)
    (hchildren : ∀ c ∈ n.children, c.isUnused = false ∧ c.Everywhere Neat) :
    n.Everywhere Neat :=
  .intro ⟨hlinked, fun c hc => (hchildren c hc).1⟩ fun c hc => (hchildren c hc).2

theorem isUnused_eq_false_of_child {n c : Subhier} (hc : c ∈ n.children) : n.isUnused = false := by
  have : n.children ≠ [] := List.ne_nil_of_mem hc
  simp [isUnused, this]

theorem isUnused_eq_false_of_subs {n : Subhier} (h : n.subs ≠ []) : n.isUnused = false := by
  simp [isUnused, h]

end Subhier

open Subhier

/-! ### Counters -/

/-- The two kinds of counters: of all subscriptions (`none`), and of those of a context. -/
def SubsLog.tally (log : SubsLog) : Option MqttContext → ℤ
  | none => log.subscriptionCount
  | some context => log.contextCount context

/-- The contexts that a counter counts. -/
def tallied : Option MqttContext → MqttContext → Bool
  | none, _ => true
  | some context, c => c == context

/-- The number of leaves of a tree that a counter counts. -/
def Subhier.tally (n : Subhier) (k : Option MqttContext) : ℤ :=
  Int.ofNat ((n.leaves.map Subleaf.context).countP (tallied k))

theorem Subhier.tally_none (n : Subhier) : n.tally none = Int.ofNat n.leaves.length := by
  have h : (n.leaves.map Subleaf.context).countP (tallied none) =
      (n.leaves.map Subleaf.context).length := List.countP_eq_length.mpr fun _ _ => rfl
  rw [Subhier.tally, h, List.length_map]

/-- A change of the tree and the counters by the same numbers. -/
def Balanced (n : Subhier) (log : SubsLog) (n' : Subhier) (log' : SubsLog) : Prop :=
  ∀ k, log'.tally k + n.tally k = log.tally k + n'.tally k

/-- Around a changed child everything counts the same. -/
theorem Balanced.replace {n n' c c' : Subhier} {log log' : SubsLog} {l₁ l₂ : List Subhier}
    (h : Balanced c log c' log') (hsubs : n'.subs = n.subs) (hl : n.children = l₁ ++ c :: l₂)
    (hl' : leavesBelow n'.children = leavesBelow (l₁ ++ c' :: l₂)) : Balanced n log n' log' := by
  intro k
  have hk := h k
  simp only [Subhier.tally, Int.ofNat_eq_natCast] at hk ⊢
  simp only [leaves_eq n, leaves_eq n', hsubs, hl, hl', leavesBelow_append, leavesBelow,
    List.map_append, List.countP_append]
  omega

/-- Only the leaves of the node itself changed. -/
theorem Balanced.of_subs {n : Subhier} {subs : List Subleaf} {log log' : SubsLog}
    (h : ∀ k, log'.tally k + Int.ofNat ((n.subs.map Subleaf.context).countP (tallied k)) =
      log.tally k + Int.ofNat ((subs.map Subleaf.context).countP (tallied k))) :
    Balanced n log { n with subs := subs } log' := by
  intro k
  have hk := h k
  simp only [Subhier.tally, Int.ofNat_eq_natCast] at hk ⊢
  simp only [leaves_eq, List.map_append, List.countP_append]
  omega

theorem SubsLog.tally_notify (log : SubsLog) (notice : TopicNotice) :
    (log.notify notice).tally = log.tally := by
  funext k
  cases k <;> rfl

/-- A subscription more or less, for the context it belongs to. -/
theorem SubsLog.tally_count (log : SubsLog) (context : MqttContext) (i : ℤ)
    (k : Option MqttContext) :
    ((log.addSubscription i).addContextCount context i).tally k =
      log.tally k + if tallied k context then i else 0 := by
  cases k with
  | none => simp [tally, tallied, addContextCount, addSubscription]
  | some c =>
    by_cases h : c = context
    · subst h
      simp [tally, tallied, addContextCount, addSubscription]
    · simp [tally, tallied, addContextCount, addSubscription, h, Ne.symm h]

/-! ### Adding -/

theorem addLeaf_balanced (context : MqttContext) (qos : ℕ) (n : Subhier) (fulltopic : Bytes)
    (log : SubsLog) :
    Balanced n log (addLeaf context qos n fulltopic log).2.1
      (addLeaf context qos n fulltopic log).2.2 := by
  unfold addLeaf
  split
  · refine .of_subs fun k => ?_
    rw [updateQos_contexts]
  · refine .of_subs fun k => ?_
    have hlog : ∀ b : Bool,
        (if b then ((log.addSubscription 1).addContextCount context 1).notify (.added fulltopic)
          else (log.addSubscription 1).addContextCount context 1).tally k =
        log.tally k + if tallied k context then 1 else 0 := fun b => by
      rw [← SubsLog.tally_count]
      cases b
      · rfl
      · exact congrFun (SubsLog.tally_notify _ _) k
    rw [hlog]
    simp only [List.map_append, List.map_cons, List.map_nil, List.countP_append,
      List.countP_singleton, Int.ofNat_eq_natCast]
    split_ifs <;> omega

/-- A node after an accepted subscription below it. -/
structure Grown (n : Subhier) (log : SubsLog) (n' : Subhier) (log' : SubsLog) : Prop where
  addr : n'.addr = n.addr
  topic : n'.topic = n.topic
  neat : n'.Everywhere Neat
  used : n'.isUnused = false
  balanced : Balanced n log n' log'

theorem withLeaf_ne_nil (context : MqttContext) (qos : ℕ) (subs : List Subleaf) :
    withLeaf context qos subs ≠ [] := by
  unfold withLeaf
  split_ifs with h
  · intro hnil
    have : (updateQos context.id qos subs).map Subleaf.context = [] := by rw [hnil]; rfl
    rw [updateQos_contexts, List.map_eq_nil_iff] at this
    rw [this] at h
    cases h
  · simp

/-- The other children around one. -/
theorem mem_of_split {n c d : Subhier} {l₁ l₂ : List Subhier} (hl : n.children = l₁ ++ c :: l₂)
    (hd : d ∈ l₁ ++ l₂) : d ∈ n.children := by
  rw [hl]
  rcases List.mem_append.mp hd with hd | hd
  · exact List.mem_append_left _ hd
  · exact List.mem_append_right _ (List.mem_cons_of_mem _ hd)

/-- A child grew, or was linked and then grew. -/
theorem Grown.setChild {n m c c' : Subhier} {log log' : SubsLog} {l₁ l₂ : List Subhier}
    (hm : m.Linked) (haddr : m.addr = n.addr) (htopic : m.topic = n.topic)
    (hl : m.children = l₁ ++ c :: l₂) (h : Grown c log c' log')
    (hothers : ∀ d ∈ l₁ ++ l₂, d.isUnused = false ∧ d.Everywhere Neat)
    (hbalanced : Balanced m log (m.setChild c') log' → Balanced n log (m.setChild c') log') :
    Grown n log (m.setChild c') log' := by
  have hchildren := setChild_children hm hl h.addr
  have hmem : c' ∈ (m.setChild c').children := by simp [hchildren]
  have hc : c ∈ m.children := by simp [hl]
  refine ⟨haddr, htopic, ?_, isUnused_eq_false_of_child hmem,
    hbalanced (h.balanced.replace rfl hl (by rw [hchildren]))⟩
  refine neat_intro (linked_setChild hm ⟨hc, h.addr, h.topic⟩) fun d hd => ?_
  rw [hchildren] at hd
  rcases List.mem_append.mp hd with hd | hd
  · exact hothers d (List.mem_append_left _ hd)
  · rcases List.mem_cons.mp hd with rfl | hd
    · exact ⟨h.used, h.neat⟩
    · exact hothers d (List.mem_append_right _ hd)

theorem subAdd_grown {s : BrokerSettings} {context : MqttContext} {log : SubsLog}
    (hallowed : subscriptionAllowed s context log = true) (qos : ℕ) {tokens : List Bytes} :
    ∀ {n : Subhier}, n.Everywhere Neat → ∀ (fulltopic : Bytes) (depth : ℕ),
      Grown n log (subAdd s context qos n tokens fulltopic depth log).2.1
        (subAdd s context qos n tokens fulltopic depth log).2.2 := by
  induction tokens with
  | nil =>
    intro n hn fulltopic depth
    simp only [subAdd, hallowed, Bool.not_true, Bool.false_eq_true, if_false]
    have hbalanced := addLeaf_balanced context qos n (addTopicToPath n.topic fulltopic depth) log
    obtain ⟨hsubs, -⟩ := addLeaf_subs context qos n (addTopicToPath n.topic fulltopic depth) log
    rw [hsubs] at hbalanced ⊢
    refine ⟨rfl, rfl, neat_intro { hn.here.linked with } fun c hc => ?_, ?_, hbalanced⟩
    · exact ⟨hn.here.used c hc, hn.children c hc⟩
    · exact isUnused_eq_false_of_subs (withLeaf_ne_nil context qos n.subs)
  | cons token tokens ih =>
    intro n hn fulltopic depth
    have hlink := hn.here.linked
    simp only [subAdd, hallowed, Bool.not_true, Bool.false_eq_true, if_false, hlink.hashFind_eq]
    cases hchild : n.child? token with
    | some c =>
      obtain ⟨hc, rfl⟩ := mem_of_child? hchild
      obtain ⟨l₁, l₂, hl⟩ := List.append_of_mem hc
      refine Grown.setChild hlink rfl rfl hl (ih (hn.children c hc) _ _) ?_ id
      intro d hd
      have hd := mem_of_split hl hd
      exact ⟨hn.here.used d hd, hn.children d hd⟩
    | none =>
      have hfresh : n.Fresh { addr := n.freshAddr, topic := token } :=
        ⟨rfl, fun c hc ht => by simpa [ht] using List.find?_eq_none.mp hchild c hc⟩
      have hl : (n.addChild { addr := n.freshAddr, topic := token }).children =
          n.children ++ { addr := n.freshAddr, topic := token } :: [] := rfl
      refine Grown.setChild (linked_addChild hlink hfresh) rfl rfl hl
        (ih (neat_leaf n.freshAddr token) _ _) ?_ ?_
      · rw [List.append_nil]
        exact fun d hd => ⟨hn.here.used d hd, hn.children d hd⟩
      · -- The linked child has no leaves yet.
        intro h k
        have hk := h k
        have hsame : (n.addChild { addr := n.freshAddr, topic := token }).tally k = n.tally k := by
          simp only [Subhier.tally, leaves_eq n, Subhier.addChild,
            leavesBelow_append, leavesBelow, leaves, List.append_nil]
        rw [hsame] at hk
        exact hk

/-! ### Removing -/

theorem removeLeaf_balanced (context : MqttContext) (n : Subhier) (fulltopic : Bytes)
    (log : SubsLog) :
    Balanced n log (removeLeaf context n fulltopic log).1 (removeLeaf context n fulltopic log).2 := by
  unfold removeLeaf
  split
  · rename_i h
    refine .of_subs fun k => ?_
    have hlog : ∀ b : Bool,
        (if b then
            ((log.addSubscription (-1)).addContextCount context (-1)).notify (.removed fulltopic)
          else (log.addSubscription (-1)).addContextCount context (-1)).tally k =
        log.tally k + if tallied k context then -1 else 0 := fun b => by
      rw [← SubsLog.tally_count]
      cases b
      · rfl
      · exact congrFun (SubsLog.tally_notify _ _) k
    rw [hlog, eraseP_contexts, List.countP_erase]
    -- The context is among the leaves, so the count is positive where it counts.
    obtain ⟨leaf, hleaf, hcontext⟩ := List.any_eq_true.mp h
    have hmem : context ∈ n.subs.map Subleaf.context :=
      beq_iff_eq.mp hcontext ▸ List.mem_map_of_mem hleaf
    rw [if_congr (and_iff_right hmem) rfl rfl]
    by_cases hk : tallied k context = true
    · have hpos := List.countP_pos_iff.mpr ⟨context, hmem, hk⟩
      simp only [hk, if_true, Int.ofNat_eq_natCast]
      omega
    · simp [hk]
  · exact fun _ => rfl

/-- A node after leaves below it were taken away. -/
structure Trimmed (n : Subhier) (log : SubsLog) (n' : Subhier) (log' : SubsLog) : Prop where
  addr : n'.addr = n.addr
  topic : n'.topic = n.topic
  neat : n'.Everywhere Neat
  balanced : Balanced n log n' log'

theorem leavesBelow_put (c' : Subhier) (l₁ l₂ : List Subhier) :
    leavesBelow (l₁ ++ (if c'.isUnused then [] else [c']) ++ l₂) =
      leavesBelow (l₁ ++ c' :: l₂) := by
  simp only [leavesBelow_append, leavesBelow]
  split_ifs with h
  · simp [leavesBelow, leaves_of_isUnused h]
  · simp [leavesBelow]

/-- A child that was trimmed is unlinked if nothing is left of it. -/
theorem neat_putChild {n c c' : Subhier} (hn : n.Everywhere Neat) (hc : c ∈ n.children)
    (haddr : c'.addr = c.addr) (htopic : c'.topic = c.topic) (hneat : c'.Everywhere Neat) :
    (n.putChild c').Everywhere Neat := by
  obtain ⟨l₁, l₂, hl⟩ := List.append_of_mem hc
  have hlink := hn.here.linked
  refine neat_intro (linked_putChild hlink ⟨hc, haddr, htopic⟩) fun d hd => ?_
  have hother : ∀ d ∈ l₁ ++ l₂, d.isUnused = false ∧ d.Everywhere Neat := fun d hd =>
    ⟨hn.here.used d (mem_of_split hl hd), hn.children d (mem_of_split hl hd)⟩
  rw [putChild_children hlink hl haddr] at hd
  rcases List.mem_append.mp hd with hd | hd
  · rcases List.mem_append.mp hd with hd | hd
    · exact hother d (List.mem_append_left _ hd)
    · split_ifs at hd with h
      · cases hd
      · rw [List.mem_singleton.mp hd]
        exact ⟨Bool.eq_false_iff.mpr h, hneat⟩
  · exact hother d (List.mem_append_right _ hd)

/-- Two states of one node, with different children. -/
structure Subhier.SameNode (m n : Subhier) : Prop where
  addr : m.addr = n.addr
  topic : m.topic = n.topic
  subs : m.subs = n.subs

theorem Subhier.SameNode.trans {l m n : Subhier} (h : l.SameNode m) (g : m.SameNode n) :
    l.SameNode n :=
  ⟨h.addr.trans g.addr, h.topic.trans g.topic, h.subs.trans g.subs⟩

theorem putChild_same (n c : Subhier) : (n.putChild c).SameNode n := by
  unfold putChild
  split_ifs <;> exact ⟨rfl, rfl, rfl⟩

theorem subRemove_trimmed (context : MqttContext) (log : SubsLog) {tokens : List Bytes} :
    ∀ {n : Subhier}, n.Everywhere Neat → ∀ (fulltopic : Bytes) (depth : ℕ),
      Trimmed n log (subRemove context n tokens fulltopic depth log).1
        (subRemove context n tokens fulltopic depth log).2 := by
  induction tokens with
  | nil =>
    intro n hn fulltopic depth
    have hbalanced :=
      removeLeaf_balanced context n (addTopicToPath n.topic fulltopic depth) log
    rw [subRemove]
    rw [removeLeaf_subs] at hbalanced ⊢
    refine ⟨rfl, rfl, neat_intro { hn.here.linked with } fun c hc => ?_, hbalanced⟩
    exact ⟨hn.here.used c hc, hn.children c hc⟩
  | cons token tokens ih =>
    intro n hn fulltopic depth
    rw [subRemove]
    cases hchild : n.children.find? (fun c => c.topic == token) with
    | none => exact ⟨rfl, rfl, hn, fun _ => rfl⟩
    | some c =>
      obtain ⟨hc, rfl⟩ := mem_of_child? hchild
      have h := ih (hn.children c hc) (addTopicToPath n.topic fulltopic depth) (depth + 1)
      have hsame := putChild_same n
        (subRemove context c tokens (addTopicToPath n.topic fulltopic depth) (depth + 1) log).1
      obtain ⟨l₁, l₂, hl⟩ := List.append_of_mem hc
      refine ⟨hsame.addr, hsame.topic, neat_putChild hn hc h.addr h.topic h.neat,
        h.balanced.replace hsame.subs hl ?_⟩
      show leavesBelow (n.putChild _).children = _
      rw [putChild_children hn.here.linked hl h.addr]
      exact leavesBelow_put _ l₁ l₂

/-! ### Cleaning -/

/-- Nodes and counters after the leaves of marked contexts were taken away; the contexts' own
counters are left as they were. -/
structure CleanedUp (cleanSubs : MqttContext → Bool) (leaves leaves' : List Subleaf)
    (log log' : SubsLog) : Prop where
  filtered : leaves' = leaves.filter fun leaf => !cleanSubs leaf.context
  count : log'.subscriptionCount + Int.ofNat leaves.length =
    log.subscriptionCount + Int.ofNat leaves'.length
  contextCount : log'.contextCount = log.contextCount

namespace CleanedUp

variable {cleanSubs : MqttContext → Bool}

theorem nil (log : SubsLog) : CleanedUp cleanSubs [] [] log log := ⟨rfl, rfl, rfl⟩

theorem append {k k' l l' : List Subleaf} {log₁ log₂ log₃ : SubsLog}
    (hk : CleanedUp cleanSubs k k' log₁ log₂) (hl : CleanedUp cleanSubs l l' log₂ log₃) :
    CleanedUp cleanSubs (k ++ l) (k' ++ l') log₁ log₃ where
  filtered := by rw [List.filter_append, hk.filtered, hl.filtered]
  count := by
    have h₁ := hk.count
    have h₂ := hl.count
    simp only [List.length_append, Int.ofNat_eq_natCast] at h₁ h₂ ⊢
    omega
  contextCount := hl.contextCount.trans hk.contextCount

end CleanedUp

theorem cleanLeaves_cleanedUp (cleanSubs : MqttContext → Bool) (fulltopic : Bytes)
    (subs kept : List Subleaf) (log : SubsLog) :
    CleanedUp cleanSubs subs (subs.filter fun leaf => !cleanSubs leaf.context) log
      (cleanLeaves cleanSubs fulltopic kept subs log).2 := by
  induction subs generalizing kept log with
  | nil => exact .nil log
  | cons leaf subs ih =>
    rw [cleanLeaves]
    by_cases h : cleanSubs leaf.context = true
    · rw [if_pos h, List.filter_cons_of_neg (by simp [h])]
      have hrest := ih kept (if isTopicRemoved leaf.context (kept ++ subs) then
        (log.addSubscription (-1)).notify (.removed fulltopic) else log.addSubscription (-1))
      have hcount : ∀ b : Bool, (if b then (log.addSubscription (-1)).notify (.removed fulltopic)
          else log.addSubscription (-1)).subscriptionCount = log.subscriptionCount - 1 := by
        rintro (_ | _) <;> rfl
      refine ⟨by simp [h], ?_, hrest.contextCount.trans (by split_ifs <;> rfl)⟩
      have := hrest.count
      rw [hcount] at this
      simp only [List.length_cons, Int.ofNat_eq_natCast] at this ⊢
      omega
    · rw [if_neg h, List.filter_cons_of_pos (by simp [h])]
      have hrest := ih (kept ++ [leaf]) log
      refine ⟨by simp [h], ?_, hrest.contextCount⟩
      have := hrest.count
      simp only [List.length_cons, Int.ofNat_eq_natCast] at this ⊢
      omega

/-- A node after the leaves of marked contexts below it were taken away. -/
structure CleanedNode (cleanSubs : MqttContext → Bool) (n n' : Subhier) (log log' : SubsLog) :
    Prop where
  addr : n'.addr = n.addr
  topic : n'.topic = n.topic
  neat : n'.Everywhere Neat
  cleanedUp : CleanedUp cleanSubs n.leaves n'.leaves log log'
  leavesAt : ∀ p, n'.leavesAt p = cleanAt cleanSubs p (n.leavesAt p)

/-- What putting a cleaned child back does to a node: it stays in its place or is unlinked. -/
structure PutBack (cleanSubs : MqttContext → Bool) (Q : Subhier → Prop) (n c c' m : Subhier) :
    Prop where
  linked : m.Linked
  same : m.SameNode n
  leavesAt : ∀ p, m.leavesAt p = onChild c.topic (cleanAt cleanSubs) p (n.leavesAt p)
  children : ∀ l₁ l₂, n.children = l₁ ++ c :: l₂ → ∃ kept, m.children = l₁ ++ kept ++ l₂ ∧
    leavesBelow kept = c'.leaves ∧ ∀ d ∈ kept, Q d

section PutBack

variable {cleanSubs : MqttContext → Bool} {n c c' : Subhier} {log log' : SubsLog}
  (hn : n.Linked) (hc : c ∈ n.children) (h : CleanedNode cleanSubs c c' log log')
include hn hc h

theorem putBack_putChild :
    PutBack cleanSubs (fun d => d.isUnused = false ∧ d.Everywhere Neat) n c c' (n.putChild c') where
  linked := linked_putChild hn ⟨hc, h.addr, h.topic⟩
  same := putChild_same n c'
  leavesAt := leavesAt_putChild hn ⟨hc, h.addr, h.topic⟩ h.leavesAt
  children l₁ l₂ hl := by
    refine ⟨_, putChild_children hn hl h.addr, ?_, fun d hd => ?_⟩
    · split_ifs with hunused
      · rw [leaves_of_isUnused hunused, leavesBelow]
      · simp [leavesBelow]
    · split_ifs at hd with hunused
      · cases hd
      · rw [List.mem_singleton.mp hd]
        exact ⟨Bool.eq_false_iff.mpr hunused, h.neat⟩

theorem putBack_setChild :
    PutBack cleanSubs (fun d => d.Everywhere Neat) n c c' (n.setChild c') where
  linked := linked_setChild hn ⟨hc, h.addr, h.topic⟩
  same := ⟨rfl, rfl, rfl⟩
  leavesAt := leavesAt_setChild hn ⟨hc, h.addr, h.topic⟩ h.leavesAt
  children l₁ l₂ hl := by
    refine ⟨[c'], ?_, by simp [leavesBelow], fun d hd => ?_⟩
    · rw [setChild_children hn hl h.addr, List.append_assoc, List.singleton_append]
    · rw [List.mem_singleton.mp hd]
      exact h.neat

end PutBack

/-- A node in the middle of a loop over its children: some are done, the others are linked as
they were. -/
structure CleanedChildren (cleanSubs : MqttContext → Bool) (Q : Subhier → Prop)
    (root : Subhier) (done children : List Subhier) (log : SubsLog) (r : Subhier × SubsLog) :
    Prop where
  linked : r.1.Linked
  same : r.1.SameNode root
  all : ∀ d ∈ r.1.children, Q d
  leaves : ∃ rest, leavesBelow r.1.children = leavesBelow done ++ rest ∧
    CleanedUp cleanSubs (leavesBelow children) rest log r.2
  leavesAt : ∀ p, r.1.leavesAt p = cleanBelow cleanSubs children p (root.leavesAt p)

theorem cleanedChildren_foldl (cleanSubs : MqttContext → Bool) {fulltopic : Bytes} {depth : ℕ}
    {Q : Subhier → Prop} (put : Subhier → Subhier → Subhier)
    (hput : ∀ {n c c' : Subhier} {log log' : SubsLog}, n.Linked → c ∈ n.children →
      CleanedNode cleanSubs c c' log log' → PutBack cleanSubs Q n c c' (put n c'))
    {children : List Subhier}
    (ih : ∀ c ∈ children, ∀ log,
      CleanedNode cleanSubs c (subsCleanSession cleanSubs c fulltopic depth log).1 log
        (subsCleanSession cleanSubs c fulltopic depth log).2) :
    ∀ {root : Subhier} {done : List Subhier} (log : SubsLog), root.Linked →
      root.children = done ++ children → (∀ d ∈ done, Q d) →
      CleanedChildren cleanSubs Q root done children log
        (children.foldl (fun (r : Subhier × SubsLog) c =>
          (put r.1 (subsCleanSession cleanSubs c fulltopic depth r.2).1,
            (subsCleanSession cleanSubs c fulltopic depth r.2).2)) (root, log)) := by
  induction children with
  | nil =>
    intro root done log hroot hchildren hdone
    rw [List.append_nil] at hchildren
    refine ⟨hroot, ⟨rfl, rfl, rfl⟩, fun d hd => hdone d (hchildren ▸ hd), ⟨[], ?_, .nil log⟩,
      fun p => ?_⟩
    · show leavesBelow root.children = _
      rw [hchildren, List.append_nil]
    · cases p <;> simp [cleanBelow]
  | cons c children ihc =>
    intro root done log hroot hchildren hdone
    have hc : c ∈ root.children := by simp [hchildren]
    have hclean := ih c List.mem_cons_self log
    have hfirst := hput hroot hc hclean
    obtain ⟨kept, hkept, hleaves, hQ⟩ := hfirst.children done children hchildren
    have hrest := ihc (fun d hd => ih d (List.mem_cons_of_mem _ hd))
      (subsCleanSession cleanSubs c fulltopic depth log).2 hfirst.linked hkept
      fun d hd => by
        rcases List.mem_append.mp hd with hd | hd
        · exact hdone d hd
        · exact hQ d hd
    obtain ⟨rest, hbelow, hcleaned⟩ := hrest.leaves
    refine ⟨hrest.linked, hrest.same.trans hfirst.same, hrest.all, ⟨_ ++ rest, ?_,
      hclean.cleanedUp.append hcleaned⟩, fun p => ?_⟩
    · rw [List.foldl_cons, hbelow, leavesBelow_append, hleaves, List.append_assoc]
    · have hnodup := hroot.topics
      rw [hchildren, List.map_append, List.map_cons] at hnodup
      have hnot := (List.nodup_cons.mp (List.nodup_append.mp hnodup).2.1).1
      rw [List.foldl_cons, hrest.leavesAt, hfirst.leavesAt]
      exact cleanBelow_cons cleanSubs hnot p _

theorem subsCleanSession_cleanedNode (cleanSubs : MqttContext → Bool) {n : Subhier}
    (hn : n.Everywhere Neat) :
    ∀ fulltopic depth log,
      CleanedNode cleanSubs n (subsCleanSession cleanSubs n fulltopic depth log).1 log
        (subsCleanSession cleanSubs n fulltopic depth log).2 := by
  induction hn with
  | @intro n hneat hchildren ih =>
    intro fulltopic depth log
    obtain ⟨addr, topic, subs, retained, children, hashTable, poundCount, plusCount⟩ := n
    rw [subsCleanSession]
    simp only
    have hsubs := cleanLeaves_fst cleanSubs (addTopicToPath topic fulltopic depth) subs [] log
    have hown := cleanLeaves_cleanedUp cleanSubs (addTopicToPath topic fulltopic depth) subs [] log
    rw [List.nil_append] at hsubs
    generalize cleanLeaves cleanSubs (addTopicToPath topic fulltopic depth) [] subs log = after
      at hsubs hown ⊢
    rw [subsCleanChildren_eq_foldl]
    have hroot : Subhier.Linked
        ⟨addr, topic, after.1, retained, children, hashTable, poundCount, plusCount⟩ :=
      { hneat.linked with }
    have h := cleanedChildren_foldl cleanSubs Subhier.putChild putBack_putChild
      (fun c hc log => ih c hc (addTopicToPath topic fulltopic depth) (depth + 1) log)
      after.2 hroot (List.nil_append _).symm fun d hd => absurd hd List.not_mem_nil
    obtain ⟨rest, hrest, hcleaned⟩ := h.leaves
    refine ⟨h.same.addr, h.same.topic, neat_intro h.linked h.all, ?_, fun p => ?_⟩
    · rw [leaves_eq, leaves_eq, h.same.subs, hrest, leavesBelow, List.nil_append]
      rw [← hsubs] at hown
      exact hown.append hcleaned
    · rw [h.leavesAt]
      cases p with
      | nil =>
        show cleanBelow cleanSubs children [] after.1 = cleanAt cleanSubs [] subs
        rw [hsubs]
        rfl
      | cons t p =>
        exact cleanBelow_all cleanSubs (n := ⟨addr, topic, subs, retained, children, hashTable,
          poundCount, plusCount⟩) t p

/-! ### Runs -/

/-- What the tree and the counters keep in all runs. -/
structure SubsDb.Represented (db : SubsDb) : Prop where
  linked : db.subs.Linked
  neat : ∀ c ∈ db.subs.children, c.Everywhere Neat
  subs : db.subs.subs = []
  subscriptionCount : db.log.subscriptionCount = Int.ofNat db.subs.leaves.length

/-- The leaves of a context. -/
def SubsDb.leavesOf (db : SubsDb) (context : MqttContext) : ℕ :=
  (db.subs.leaves.map Subleaf.context).count context

/-- A step that changes the tree and the counters by the same numbers. -/
structure SubsDb.Moves (db db' : SubsDb) : Prop where
  represented : db'.Represented
  contextCount : ∀ c, db'.log.contextCount c + Int.ofNat (db.leavesOf c) =
    db.log.contextCount c + Int.ofNat (db'.leavesOf c)

namespace SubsDb.Represented

variable {db : SubsDb} (h : db.Represented)
include h

/-- One first-level node is changed. -/
theorem moves {root child child' : Subhier} {log : SubsLog} (hroot : root.Linked)
    (hsubs : root.subs = []) (hchild : child ∈ root.children)
    (hneat : ∀ c ∈ root.children, c ≠ child → c.Everywhere Neat)
    (hleaves : leavesBelow root.children = db.subs.leaves) (haddr : child'.addr = child.addr)
    (htopic : child'.topic = child.topic) (hneat' : child'.Everywhere Neat)
    (hbalanced : Balanced child db.log child' log) :
    db.Moves { subs := root.setChild child', log := log } := by
  obtain ⟨l₁, l₂, hl⟩ := List.append_of_mem hchild
  have hchildren := setChild_children hroot hl haddr
  have hb : ∀ k, log.tally k + db.subs.tally k =
      db.log.tally k + (root.setChild child').tally k := fun k => by
    have hk := hbalanced.replace (show (root.setChild child').subs = root.subs from rfl) hl
      (by rw [hchildren]) k
    have hsame : root.tally k = db.subs.tally k := by
      rw [Subhier.tally, Subhier.tally, leaves_eq, hsubs, List.nil_append, hleaves]
    rw [hsame] at hk
    exact hk
  refine ⟨⟨linked_setChild hroot ⟨hchild, haddr, htopic⟩, fun c hc => ?_, hsubs, ?_⟩, fun c => ?_⟩
  · rcases (mem_setChild hroot ⟨hchild, haddr, htopic⟩).mp hc with rfl | ⟨hc, hne⟩
    · exact hneat'
    · exact hneat c hc fun he => hne (he ▸ rfl)
  · have hnone := hb none
    rw [Subhier.tally_none, Subhier.tally_none] at hnone
    have hcount := h.subscriptionCount
    simp only [SubsLog.tally] at hnone
    show log.subscriptionCount = Int.ofNat (root.setChild child').leaves.length
    omega
  · exact hb (some c)

theorem add (s : BrokerSettings) (context : MqttContext) (sub : Bytes) (qos : ℕ) :
    db.Moves (mqtt3SubAdd s db context sub qos).2 := by
  have hleaves : leavesBelow db.subs.children = db.subs.leaves := by
    rw [leaves_eq, h.subs, List.nil_append]
  have hat : ∀ {root child : Subhier}, root.Linked → root.subs = [] → child ∈ root.children →
      (∀ c ∈ root.children, c.Everywhere Neat) → leavesBelow root.children = db.subs.leaves →
      db.Moves (subAddAt s db.log context sub qos root child).2 := by
    intro root child hroot hsubs hchild hneat hleaves
    cases hallowed : subscriptionAllowed s context db.log with
    | false =>
      simp only [subAddAt, subAdd_rejected hallowed]
      exact h.moves hroot hsubs hchild (fun c hc _ => hneat c hc) hleaves rfl rfl
        (hneat child hchild) fun _ => rfl
    | true =>
      have hgrown := @subAdd_grown s context db.log hallowed qos (subTopicTokenise sub) child
        (hneat child hchild) [] 0
      exact h.moves hroot hsubs hchild (fun c hc _ => hneat c hc) hleaves hgrown.addr hgrown.topic
        hgrown.neat hgrown.balanced
  rw [mqtt3SubAdd, h.linked.hashFind_eq]
  cases hchild : db.subs.child? (rootToken sub) with
  | some child =>
    exact hat h.linked h.subs (mem_of_child? hchild).1 h.neat hleaves
  | none =>
    have hfresh : db.subs.Fresh { addr := db.subs.freshAddr, topic := rootToken sub } :=
      ⟨rfl, fun c hc ht => by simpa [ht] using List.find?_eq_none.mp hchild c hc⟩
    obtain ⟨hpound, hplus⟩ := rootToken_not_wildcard sub
    refine hat (linked_pushChild h.linked hfresh hpound hplus) h.subs List.mem_cons_self
      (fun c hc => ?_) ?_
    · rcases List.mem_cons.mp hc with rfl | hc
      · exact neat_leaf _ _
      · exact h.neat c hc
    · simp only [Subhier.pushChild, leavesBelow, leaves, List.nil_append]
      exact hleaves

theorem remove (context : MqttContext) (sub : Bytes) :
    db.Moves (mqtt3SubRemove db context sub) := by
  rw [mqtt3SubRemove, h.linked.hashFind_eq]
  cases hchild : db.subs.child? (rootToken sub) with
  | none => exact ⟨h, fun _ => rfl⟩
  | some child =>
    have hmem := (mem_of_child? hchild).1
    have htrimmed := @subRemove_trimmed context db.log (subTopicTokenise sub) child
      (h.neat child hmem) [] 0
    refine h.moves h.linked h.subs hmem (fun c hc _ => h.neat c hc) ?_ htrimmed.addr htrimmed.topic
      htrimmed.neat htrimmed.balanced
    rw [leaves_eq, h.subs, List.nil_append]

theorem clean (cleanSubs : MqttContext → Bool) :
    (mqtt3SubsCleanSession db cleanSubs).Represented ∧
      CleanedUp cleanSubs db.subs.leaves (mqtt3SubsCleanSession db cleanSubs).subs.leaves db.log
        (mqtt3SubsCleanSession db cleanSubs).log ∧
      ∀ p, (mqtt3SubsCleanSession db cleanSubs).subs.leavesAt p =
        cleanAt cleanSubs p (db.subs.leavesAt p) := by
  have hloop := cleanedChildren_foldl cleanSubs Subhier.setChild putBack_setChild
    (fun c hc log => subsCleanSession_cleanedNode cleanSubs (h.neat c hc) [] 0 log)
    db.log h.linked (List.nil_append _).symm fun d hd => absurd hd List.not_mem_nil
  rw [mqtt3SubsCleanSession_eq_foldl]
  simp only
  generalize db.subs.children.foldl (fun (r : Subhier × SubsLog) c =>
    (r.1.setChild (subsCleanSession cleanSubs c [] 0 r.2).1,
      (subsCleanSession cleanSubs c [] 0 r.2).2)) (db.subs, db.log) = r at *
  obtain ⟨rest, hrest, hcleaned⟩ := hloop.leaves
  have hbefore : leavesBelow db.subs.children = db.subs.leaves := by
    rw [leaves_eq, h.subs, List.nil_append]
  have hsubs := hloop.same.subs.trans h.subs
  have hafter : rest = r.1.leaves := by
    rw [leaves_eq, hsubs, hrest, leavesBelow, List.nil_append, List.nil_append]
  rw [hbefore, hafter] at hcleaned
  refine ⟨⟨hloop.linked, hloop.all, hsubs, ?_⟩, hcleaned, fun p => ?_⟩
  · have hcount := hcleaned.count
    have hlength := h.subscriptionCount
    show r.2.subscriptionCount = Int.ofNat r.1.leaves.length
    omega
  · rw [hloop.leavesAt]
    cases p with
    | nil =>
      show db.subs.subs = cleanAt cleanSubs [] db.subs.subs
      rw [h.subs]
      rfl
    | cons t p => exact cleanBelow_all cleanSubs t p

end SubsDb.Represented

theorem represented_init : SubsDb.init.Represented where
  linked := wf_init.linked.here
  neat c hc := by
    simp only [SubsDb.init, List.mem_cons, List.not_mem_nil, or_false] at hc
    rcases hc with rfl | rfl <;> exact neat_leaf _ _
  subs := rfl
  subscriptionCount := by simp [SubsDb.init, leaves, leavesBelow]

namespace SubsRun

/-- No clean call of a sequence took away a subscription of the context. -/
def NeverCleaned (s : BrokerSettings) (ops : List SubsOp) (context : MqttContext) : Prop :=
  ∀ before cleanSubs after, ops = before ++ .clean cleanSubs :: after →
    cleanSubs context = true → (run s before).db.leavesOf context = 0

theorem NeverCleaned.of_concat {s : BrokerSettings} {ops : List SubsOp} {op : SubsOp}
    {context : MqttContext} (h : NeverCleaned s (ops ++ [op]) context) :
    NeverCleaned s ops context := fun before cleanSubs after hops =>
  h before cleanSubs (after ++ [op]) (by rw [hops, List.append_assoc, List.cons_append])

/-- A clean call that does not concern a context keeps its leaves. -/
theorem leavesOf_clean {db : SubsDb} (h : db.Represented) {cleanSubs : MqttContext → Bool}
    {context : MqttContext} (hc : cleanSubs context = true → db.leavesOf context = 0) :
    (mqtt3SubsCleanSession db cleanSubs).leavesOf context = db.leavesOf context := by
  have hleaves := (h.clean cleanSubs).2.1.filtered
  have hmap : (mqtt3SubsCleanSession db cleanSubs).subs.leaves.map Subleaf.context =
      (db.subs.leaves.map Subleaf.context).filter fun c => !cleanSubs c := by
    rw [hleaves, List.filter_map]
    rfl
  rw [SubsDb.leavesOf, hmap]
  by_cases hclean : cleanSubs context = true
  · have hzero := hc hclean
    rw [hzero, List.count_eq_zero]
    intro hmem
    exact List.count_eq_zero.mp hzero (List.mem_filter.mp hmem).1
  · rw [List.count_filter (by simpa using hclean)]
    rfl

theorem represented_run (s : BrokerSettings) (ops : List SubsOp) :
    (run s ops).db.Represented ∧ ∀ context, NeverCleaned s ops context →
      (run s ops).db.log.contextCount context = Int.ofNat ((run s ops).db.leavesOf context) := by
  induction ops using List.reverseRecOn with
  | nil => exact ⟨represented_init, fun _ _ => by simp [run, init, SubsDb.init, SubsDb.leavesOf,
      leaves, leavesBelow]⟩
  | append_singleton ops op ih =>
    obtain ⟨hrep, hcount⟩ := ih
    have hstep : run s (ops ++ [op]) = step s (run s ops) op := by
      rw [run, List.foldl_append, run]
      rfl
    have hmoves : ∀ db', (run s ops).db.Moves db' → db'.Represented ∧
        ∀ context, NeverCleaned s (ops ++ [op]) context →
          db'.log.contextCount context = Int.ofNat (db'.leavesOf context) := fun db' h => by
      refine ⟨h.represented, fun context hnever => ?_⟩
      have := hcount context hnever.of_concat
      have := h.contextCount context
      omega
    rw [hstep]
    cases op with
    | add context sub qos => exact hmoves _ (hrep.add s context sub qos)
    | remove context sub => exact hmoves _ (hrep.remove context sub)
    | clean cleanSubs =>
      obtain ⟨hrep', hclean, -⟩ := hrep.clean cleanSubs
      refine ⟨hrep', fun context hnever => ?_⟩
      show (mqtt3SubsCleanSession (run s ops).db cleanSubs).log.contextCount context =
        Int.ofNat ((mqtt3SubsCleanSession (run s ops).db cleanSubs).leavesOf context)
      rw [hclean.contextCount, hcount context hnever.of_concat,
        leavesOf_clean hrep (hnever ops cleanSubs [] rfl)]

end SubsRun

theorem Subhier.Everywhere.imp {P Q : Subhier → Prop} (hPQ : ∀ n, P n → Q n) {n : Subhier}
    (h : n.Everywhere P) : n.Everywhere Q := by
  induction h with
  | intro h _ ih => exact .intro (hPQ _ h) ih

/-- No node below a first-level node is unused. -/
theorem Subhier.Everywhere.used {n : Subhier} (h : n.Everywhere Neat) :
    ∀ c ∈ n.children, c.Everywhere fun d => d.isUnused = false := by
  induction h with
  | intro h _ ih => exact fun c hc => .intro (h.used c hc) (ih c hc)

/-- **Representation of the subscription tree.**  After any sequence of calls, those rejected by
the tenant limit among them, every node's hash table and wildcard counters agree with its children,
no node below the first level is without children, subscriptions and retained message, and the
counters beside the tree count its leaves: all of them, and those of each context of which no
clean call took a subscription. -/
theorem subscriptionTree_represented (s : BrokerSettings) (ops : List SubsOp) :
    (SubsRun.run s ops).db.subs.Everywhere Linked ∧
    (∀ child ∈ (SubsRun.run s ops).db.subs.children, ∀ c ∈ child.children,
      c.Everywhere fun d => d.isUnused = false) ∧
    (SubsRun.run s ops).db.log.subscriptionCount =
      Int.ofNat (SubsRun.run s ops).db.subs.leaves.length ∧
    ∀ context, SubsRun.NeverCleaned s ops context →
      (SubsRun.run s ops).db.log.contextCount context =
        Int.ofNat ((SubsRun.run s ops).db.leavesOf context) := by
  obtain ⟨hrep, hcount⟩ := SubsRun.represented_run s ops
  refine ⟨.intro hrep.linked fun c hc => (hrep.neat c hc).imp fun _ h => h.linked,
    fun child hchild => (hrep.neat child hchild).used, hrep.subscriptionCount, hcount⟩

end DxlBroker
