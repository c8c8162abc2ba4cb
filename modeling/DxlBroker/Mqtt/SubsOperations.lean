import DxlBroker.Mqtt.SubsTree

/-!
# What the operations on the subscription tree do

Each operation keeps the tree well formed, with `#` nodes at the ends of paths, and its effect on
the leaves is a function of the path: `withLeaf` at one path for `subAdd`, an erased leaf at one
path for `subRemove`, a filter at every path for `subsCleanSession`.
-/

namespace DxlBroker

open Bytes Subhier

/-- A well-formed subscription tree. -/
structure Subhier.WF (n : Subhier) : Prop where
  linked : n.Everywhere Linked
  poundLeaf : n.Everywhere PoundLeaf

theorem Subhier.WF.child {n c : Subhier} (h : n.WF) (hc : c ∈ n.children) : c.WF :=
  ⟨h.linked.children c hc, h.poundLeaf.children c hc⟩

theorem Subhier.WF.intro {n : Subhier} (hlinked : n.Linked) (hpound : n.PoundLeaf)
    (hchildren : ∀ c ∈ n.children, c.WF) : n.WF :=
  ⟨.intro hlinked fun c hc => (hchildren c hc).linked,
    .intro hpound fun c hc => (hchildren c hc).poundLeaf⟩

/-- Only the leaves of the node itself changed. -/
theorem Subhier.WF.of_subs {n : Subhier} (h : n.WF) (subs : List Subleaf) :
    ({ n with subs := subs } : Subhier).WF :=
  .intro { h.linked.here with } h.poundLeaf.here fun _ hc => h.child hc

theorem Subhier.wf_leaf (addr : ℕ) (topic : Bytes) :
    ({ addr := addr, topic := topic } : Subhier).WF :=
  .intro ⟨by simp, by simp, by simp, by simp, by simp⟩ (by simp [PoundLeaf]) (by simp)

theorem Subhier.WF.setChild {n c c' : Subhier} (h : n.WF) (hc : n.Replaces c c') (hc' : c'.WF)
    (hpound : c.topic = poundLevel → c'.children = []) : (n.setChild c').WF := by
  have hmem := fun d => mem_setChild (d := d) h.linked.here hc
  refine .intro (linked_setChild h.linked.here hc) (fun d hd ht => ?_) fun d hd => ?_
  · rcases (hmem d).mp hd with rfl | ⟨hd, -⟩
    · exact hpound (hc.topic.symm.trans ht)
    · exact h.poundLeaf.here d hd ht
  · rcases (hmem d).mp hd with rfl | ⟨hd, -⟩
    · exact hc'
    · exact h.child hd

theorem Subhier.WF.putChild {n c c' : Subhier} (h : n.WF) (hc : n.Replaces c c') (hc' : c'.WF)
    (hpound : c.topic = poundLevel → c'.children = []) : (n.putChild c').WF := by
  have hmem := fun d => mem_of_mem_putChild (d := d) h.linked.here hc
  refine .intro (linked_putChild h.linked.here hc) (fun d hd ht => ?_) fun d hd => ?_
  · rcases hmem d hd with rfl | ⟨hd, -⟩
    · exact hpound (hc.topic.symm.trans ht)
    · exact h.poundLeaf.here d hd ht
  · rcases hmem d hd with rfl | ⟨hd, -⟩
    · exact hc'
    · exact h.child hd

theorem Subhier.WF.addChild {n b : Subhier} (h : n.WF) (hb : n.Fresh b) (hb' : b.WF)
    (hpound : b.topic = poundLevel → b.children = []) : (n.addChild b).WF := by
  have hmem : ∀ d, d ∈ (n.addChild b).children → d ∈ n.children ∨ d = b := fun d hd => by
    simpa [Subhier.addChild] using hd
  refine .intro (linked_addChild h.linked.here hb) (fun d hd ht => ?_) fun d hd => ?_
  · rcases hmem d hd with hd | rfl
    · exact h.poundLeaf.here d hd ht
    · exact hpound ht
  · rcases hmem d hd with hd | rfl
    · exact h.child hd
    · exact hb'

/-! ### Adding -/

/-- The leaves of a node after a subscription. -/
def withLeaf (context : MqttContext) (qos : ℕ) (subs : List Subleaf) : List Subleaf :=
  if subs.any (fun leaf => leaf.context.id == context.id) then updateQos context.id qos subs
  else subs ++ [⟨context, qos⟩]

theorem addLeaf_subs (context : MqttContext) (qos : ℕ) (n : Subhier) (fulltopic : Bytes)
    (log : SubsLog) :
    (addLeaf context qos n fulltopic log).2.1 = { n with subs := withLeaf context qos n.subs } ∧
      ((addLeaf context qos n fulltopic log).1 = 0 ∨
        (addLeaf context qos n fulltopic log).1 = -1) := by
  unfold addLeaf withLeaf
  split_ifs
  · exact ⟨rfl, .inr rfl⟩
  · exact ⟨rfl, .inl rfl⟩

/-- A rejected subscription changes nothing. -/
theorem subAdd_rejected {s : BrokerSettings} {context : MqttContext} {log : SubsLog}
    (h : subscriptionAllowed s context log = false) (qos : ℕ) (n : Subhier) (tokens : List Bytes)
    (fulltopic : Bytes) (depth : ℕ) :
    subAdd s context qos n tokens fulltopic depth log = (1, n, log) := by
  cases tokens <;> simp [subAdd, h]

/-- What an accepted subscription does to a node. -/
structure Added (context : MqttContext) (qos : ℕ) (n : Subhier) (tokens : List Bytes) (rc : ℤ)
    (n' : Subhier) : Prop where
  rc : rc = 0 ∨ rc = -1
  addr : n'.addr = n.addr
  topic : n'.topic = n.topic
  wf : n'.WF
  children : tokens = [] → n'.children = n.children
  self : n'.leavesAt tokens = withLeaf context qos (n.leavesAt tokens)
  other : ∀ p, p ≠ tokens → n'.leavesAt p = n.leavesAt p

/-- The step of a subscription through a child. -/
theorem Added.setChild {context : MqttContext} {qos : ℕ} {n c c' : Subhier} {tokens : List Bytes}
    {rc : ℤ} (hn : n.WF) (hc : c ∈ n.children) (h : Added context qos c tokens rc c')
    (hpound : PoundLast (c.topic :: tokens)) :
    Added context qos n (c.topic :: tokens) rc (n.setChild c') := by
  have hrep : n.Replaces c c' := ⟨hc, h.addr, h.topic⟩
  refine ⟨h.rc, rfl, rfl, hn.setChild hrep h.wf fun ht => ?_, (fun h => absurd h (List.cons_ne_nil _ _)), ?_, ?_⟩
  · have htokens : tokens = [] := by
      by_contra hne
      rw [PoundLast, List.dropLast_cons_of_ne_nil hne, ht] at hpound
      exact hpound List.mem_cons_self
    rw [h.children htokens]
    exact hn.poundLeaf.here c hc ht
  · rw [leavesAt_setChild_self hn.linked.here hrep, hn.linked.here.leavesAt_cons hc, h.self]
  · intro p hp
    cases p with
    | nil => rfl
    | cons t p =>
      by_cases ht : t = c.topic
      · subst ht
        rw [leavesAt_setChild_self hn.linked.here hrep, hn.linked.here.leavesAt_cons hc]
        exact h.other p fun he => hp (he ▸ rfl)
      · exact leavesAt_setChild_of_ne hn.linked.here hrep ht p

theorem poundLast_of_cons {t : Bytes} {tokens : List Bytes} (h : PoundLast (t :: tokens)) :
    PoundLast tokens := by
  cases tokens with
  | nil => simp [PoundLast]
  | cons u tokens =>
    rw [PoundLast, List.dropLast_cons_cons, List.mem_cons, not_or] at h
    exact h.2

/-- The leaves below a node to which an empty child was linked. -/
theorem leavesAt_addChild {n b : Subhier} (hn : n.Linked) (hb : n.Fresh b)
    (hempty : ∀ p, b.leavesAt p = []) (p : List Bytes) :
    (n.addChild b).leavesAt p = n.leavesAt p := by
  cases p with
  | nil => rfl
  | cons t p =>
    have hmem : ∀ d, d ∈ (n.addChild b).children ↔ d ∈ n.children ∨ d = b := fun d => by
      simp [Subhier.addChild]
    by_cases ht : t = b.topic
    · subst ht
      rw [(linked_addChild hn hb).leavesAt_cons ((hmem b).mpr (.inr rfl)), hempty]
      exact (leavesAt_cons_eq_nil hb.topic p).symm
    · refine (linked_addChild hn hb).leavesAt_congr hn (fun d hd => ?_) p
      rw [hmem]
      constructor
      · rintro (h | rfl)
        · exact h
        · exact absurd hd.symm ht
      · exact .inl

theorem subAdd_spec {s : BrokerSettings} {context : MqttContext} {log : SubsLog}
    (hallowed : subscriptionAllowed s context log = true) (qos : ℕ) {tokens : List Bytes} :
    ∀ {n : Subhier}, n.WF → PoundLast tokens → ∀ (fulltopic : Bytes) (depth : ℕ),
      Added context qos n tokens (subAdd s context qos n tokens fulltopic depth log).1
        (subAdd s context qos n tokens fulltopic depth log).2.1 := by
  induction tokens with
  | nil =>
    intro n hn _ fulltopic depth
    obtain ⟨hsubs, hrc⟩ := addLeaf_subs context qos n (addTopicToPath n.topic fulltopic depth) log
    simp only [subAdd, hallowed, Bool.not_true, Bool.false_eq_true, if_false]
    rw [hsubs]
    refine ⟨hrc, rfl, rfl, hn.of_subs _, fun _ => rfl, rfl, fun p hp => ?_⟩
    cases p with
    | nil => exact absurd rfl hp
    | cons t p => rfl
  | cons token tokens ih =>
    intro n hn hpound fulltopic depth
    have hlink := hn.linked.here
    simp only [subAdd, hallowed, Bool.not_true, Bool.false_eq_true, if_false, hlink.hashFind_eq]
    cases hchild : n.child? token with
    | some c =>
      obtain ⟨hc, rfl⟩ := mem_of_child? hchild
      exact (ih (hn.child hc) (poundLast_of_cons hpound) _ _).setChild hn hc hpound
    | none =>
      -- The new child is linked first and filled then.
      have hfresh : n.Fresh { addr := n.freshAddr, topic := token } :=
        ⟨rfl, fun c hc ht => by simpa [ht] using List.find?_eq_none.mp hchild c hc⟩
      have hadd := hn.addChild hfresh (wf_leaf _ _) fun _ => rfl
      have hmem : ({ addr := n.freshAddr, topic := token } : Subhier) ∈
          (n.addChild { addr := n.freshAddr, topic := token }).children := by
        simp [Subhier.addChild]
      have h := (ih (wf_leaf n.freshAddr token) (poundLast_of_cons hpound)
        (addTopicToPath n.topic fulltopic depth) (depth + 1)).setChild hadd hmem hpound
      have hleaves := leavesAt_addChild hlink hfresh fun p => leavesAt_of_isUnused rfl p
      exact ⟨h.rc, h.addr, h.topic, h.wf, (fun h => absurd h (List.cons_ne_nil _ _)), by rw [h.self, hleaves],
        fun p hp => by rw [h.other p hp, hleaves]⟩

/-! ### Removing -/

/-- What a change that only takes leaves away does to a node; `f` gives the leaves at each path. -/
structure Shrunk (f : List Bytes → List Subleaf → List Subleaf) (n n' : Subhier) : Prop where
  addr : n'.addr = n.addr
  topic : n'.topic = n.topic
  wf : n'.WF
  children : n.children = [] → n'.children = []
  leaves : ∀ p, n'.leavesAt p = f p (n.leavesAt p)

theorem Shrunk.congr {f g : List Bytes → List Subleaf → List Subleaf} {n n' : Subhier}
    (h : Shrunk f n n') (hfg : ∀ p, f p (n.leavesAt p) = g p (n.leavesAt p)) : Shrunk g n n' :=
  { h with leaves := fun p => (h.leaves p).trans (hfg p) }

/-- A change of the leaves below one child. -/
def onChild (t : Bytes) (f : List Bytes → List Subleaf → List Subleaf) :
    List Bytes → List Subleaf → List Subleaf
  | [], l => l
  | u :: p, l => if u = t then f p l else l

section Replaces

variable {f : List Bytes → List Subleaf → List Subleaf} {n c c' : Subhier} (hlink : n.Linked)
  (hrep : n.Replaces c c') (h : ∀ p, c'.leavesAt p = f p (c.leavesAt p))
include hlink hrep h

theorem leavesAt_setChild (p : List Bytes) :
    (n.setChild c').leavesAt p = onChild c.topic f p (n.leavesAt p) := by
  cases p with
  | nil => rfl
  | cons t p =>
    rw [onChild]
    split_ifs with ht
    · rw [ht, leavesAt_setChild_self hlink hrep, hlink.leavesAt_cons hrep.mem, h]
    · exact leavesAt_setChild_of_ne hlink hrep ht p

theorem leavesAt_putChild (p : List Bytes) :
    (n.putChild c').leavesAt p = onChild c.topic f p (n.leavesAt p) := by
  cases p with
  | nil =>
    show (n.putChild c').subs = n.subs
    unfold Subhier.putChild
    split_ifs <;> rfl
  | cons t p =>
    rw [onChild]
    split_ifs with ht
    · rw [ht, leavesAt_putChild_self hlink hrep, hlink.leavesAt_cons hrep.mem, h]
    · exact leavesAt_putChild_of_ne hlink hrep ht p

end Replaces

section Replaces

variable {f : List Bytes → List Subleaf → List Subleaf} {n c c' : Subhier} (hn : n.WF)
  (hc : c ∈ n.children) (h : Shrunk f c c')
include hn hc h

omit hn in
theorem Shrunk.replaces : n.Replaces c c' := ⟨hc, h.addr, h.topic⟩

theorem Shrunk.setChild : Shrunk (onChild c.topic f) n (n.setChild c') := by
  have hrep := h.replaces hc
  exact ⟨rfl, rfl, hn.setChild hrep h.wf fun ht => h.children (hn.poundLeaf.here c hc ht),
    fun hnone => absurd (hnone ▸ hc) List.not_mem_nil,
    leavesAt_setChild hn.linked.here hrep h.leaves⟩

theorem Shrunk.putChild : Shrunk (onChild c.topic f) n (n.putChild c') := by
  have hrep := h.replaces hc
  have hsame : (n.putChild c').addr = n.addr ∧ (n.putChild c').topic = n.topic := by
    unfold Subhier.putChild
    split_ifs <;> exact ⟨rfl, rfl⟩
  exact ⟨hsame.1, hsame.2,
    hn.putChild hrep h.wf fun ht => h.children (hn.poundLeaf.here c hc ht),
    fun hnone => absurd (hnone ▸ hc) List.not_mem_nil,
    leavesAt_putChild hn.linked.here hrep h.leaves⟩

end Replaces

/-- The leaf of a context at one path is taken away. -/
def eraseAt (context : MqttContext) (tokens p : List Bytes) (subs : List Subleaf) : List Subleaf :=
  if p = tokens then subs.eraseP fun leaf => leaf.context == context else subs

theorem onChild_eraseAt (context : MqttContext) (t : Bytes) (tokens p : List Bytes)
    (subs : List Subleaf) :
    onChild t (eraseAt context tokens) p subs = eraseAt context (t :: tokens) p subs := by
  cases p with
  | nil => simp [onChild, eraseAt]
  | cons u p =>
    by_cases h : u = t <;> simp [onChild, eraseAt, h]

theorem removeLeaf_subs (context : MqttContext) (n : Subhier) (fulltopic : Bytes)
    (log : SubsLog) :
    (removeLeaf context n fulltopic log).1 =
      { n with subs := n.subs.eraseP fun leaf => leaf.context == context } := by
  unfold removeLeaf
  split_ifs with h
  · rfl
  · have : n.subs.eraseP (fun leaf => leaf.context == context) = n.subs := by
      apply List.eraseP_of_forall_not
      intro leaf hleaf hcontext
      exact h (List.any_eq_true.mpr ⟨leaf, hleaf, hcontext⟩)
    rw [this]
    cases n
    rfl

theorem subRemove_spec (context : MqttContext) (log : SubsLog) {tokens : List Bytes} :
    ∀ {n : Subhier}, n.WF → ∀ (fulltopic : Bytes) (depth : ℕ),
      Shrunk (eraseAt context tokens) n (subRemove context n tokens fulltopic depth log).1 := by
  induction tokens with
  | nil =>
    intro n hn fulltopic depth
    rw [subRemove, removeLeaf_subs]
    refine ⟨rfl, rfl, hn.of_subs _, id, fun p => ?_⟩
    cases p with
    | nil => rfl
    | cons t p => rfl
  | cons token tokens ih =>
    intro n hn fulltopic depth
    rw [subRemove]
    cases hchild : n.children.find? (fun c => c.topic == token) with
    | none =>
      refine ⟨rfl, rfl, hn, id, fun p => ?_⟩
      by_cases hp : p = token :: tokens
      · have : n.leavesAt (token :: tokens) = [] := leavesAt_cons_eq_nil (fun c hc ht => by
          simpa [ht] using List.find?_eq_none.mp hchild c hc) tokens
        rw [hp, this]
        simp [eraseAt]
      · simp [eraseAt, hp]
    | some c =>
      obtain ⟨hc, rfl⟩ := mem_of_child? hchild
      exact (ih (hn.child hc) (addTopicToPath n.topic fulltopic depth) (depth + 1)).putChild
        hn hc |>.congr fun p => onChild_eraseAt context c.topic tokens p _

/-! ### Cleaning -/

theorem cleanLeaves_fst (cleanSubs : MqttContext → Bool) (fulltopic : Bytes)
    (subs kept : List Subleaf) (log : SubsLog) :
    (cleanLeaves cleanSubs fulltopic kept subs log).1 =
      kept ++ subs.filter fun leaf => !cleanSubs leaf.context := by
  induction subs generalizing kept log with
  | nil => simp [cleanLeaves]
  | cons leaf subs ih =>
    rw [cleanLeaves]
    by_cases h : cleanSubs leaf.context = true
    · rw [if_pos h, ih]
      simp [h]
    · rw [if_neg h, ih]
      simp [h]

/-- The leaves of marked contexts are taken away. -/
def cleanAt (cleanSubs : MqttContext → Bool) (_p : List Bytes) (subs : List Subleaf) :
    List Subleaf :=
  subs.filter fun leaf => !cleanSubs leaf.context

/-- The leaves below some of the children are cleaned. -/
def cleanBelow (cleanSubs : MqttContext → Bool) (children : List Subhier) (p : List Bytes)
    (subs : List Subleaf) : List Subleaf :=
  if p.head?.any (fun t => t ∈ children.map topic) then cleanAt cleanSubs p subs else subs

/-- Cleaning below one child, and below the others then. -/
theorem cleanBelow_cons (cleanSubs : MqttContext → Bool) {c : Subhier} {children : List Subhier}
    (hc : c.topic ∉ children.map topic) (p : List Bytes) (subs : List Subleaf) :
    cleanBelow cleanSubs children p (onChild c.topic (cleanAt cleanSubs) p subs) =
      cleanBelow cleanSubs (c :: children) p subs := by
  cases p with
  | nil => rfl
  | cons t p =>
    by_cases ht : t = c.topic
    · subst ht
      simp only [cleanBelow, onChild, List.head?_cons, Option.any_some, hc, if_true,
        decide_false, Bool.false_eq_true, if_false, List.map_cons, List.mem_cons, true_or,
        decide_true]
      rfl
    · simp [cleanBelow, onChild, ht]

/-- A loop that cleans one child after the other, started in the middle: the children still to be
cleaned are linked, and only the leaves below them change. -/
theorem shrunk_foldl (cleanSubs : MqttContext → Bool) {fulltopic : Bytes} {depth : ℕ}
    (put : Subhier → Subhier → Subhier)
    (hput : ∀ {n c c' : Subhier}, n.WF → c ∈ n.children → Shrunk (cleanAt cleanSubs) c c' →
      Shrunk (onChild c.topic (cleanAt cleanSubs)) n (put n c') ∧
      ∀ d ∈ n.children, d.topic ≠ c.topic → d ∈ (put n c').children)
    {children : List Subhier}
    (ih : ∀ c ∈ children, c.WF → ∀ log,
      Shrunk (cleanAt cleanSubs) c (subsCleanSession cleanSubs c fulltopic depth log).1) :
    ∀ {root : Subhier} (log : SubsLog), root.WF → (children.map topic).Nodup →
      (∀ c ∈ children, c ∈ root.children) →
      Shrunk (cleanBelow cleanSubs children) root
        (children.foldl (fun (r : Subhier × SubsLog) c =>
          (put r.1 (subsCleanSession cleanSubs c fulltopic depth r.2).1,
            (subsCleanSession cleanSubs c fulltopic depth r.2).2)) (root, log)).1 := by
  induction children with
  | nil =>
    intro root log hroot _ _
    refine ⟨rfl, rfl, hroot, id, fun p => ?_⟩
    cases p <;> simp [cleanBelow]
  | cons c children ihc =>
    intro root log hroot hnodup hmem
    rw [List.map_cons, List.nodup_cons] at hnodup
    have hc := hmem c List.mem_cons_self
    obtain ⟨hfirst, hothers⟩ :=
      hput hroot hc (ih c List.mem_cons_self (hroot.child hc) log)
    have hne : ∀ d ∈ children, d.topic ≠ c.topic := fun d hd ht =>
      hnodup.1 (ht ▸ List.mem_map_of_mem hd)
    rw [List.foldl_cons]
    have hrest := ihc (fun d hd => ih d (List.mem_cons_of_mem _ hd))
      (subsCleanSession cleanSubs c fulltopic depth log).2 hfirst.wf hnodup.2
      fun d hd => hothers d (hmem d (List.mem_cons_of_mem _ hd)) (hne d hd)
    refine ⟨hrest.addr.trans hfirst.addr, hrest.topic.trans hfirst.topic, hrest.wf,
      fun h => hrest.children (hfirst.children h), fun p => ?_⟩
    rw [hrest.leaves, hfirst.leaves]
    exact cleanBelow_cons cleanSubs hnodup.1 p _

theorem subsCleanChildren_eq_foldl (cleanSubs : MqttContext → Bool) (children : List Subhier)
    (root : Subhier) (fulltopic : Bytes) (depth : ℕ) (log : SubsLog) :
    subsCleanChildren cleanSubs children root fulltopic depth log =
      children.foldl (fun (r : Subhier × SubsLog) c =>
        (r.1.putChild (subsCleanSession cleanSubs c fulltopic (depth + 1) r.2).1,
          (subsCleanSession cleanSubs c fulltopic (depth + 1) r.2).2)) (root, log) := by
  induction children generalizing root log with
  | nil => simp [subsCleanChildren]
  | cons c children ih =>
    rw [subsCleanChildren, List.foldl_cons]
    exact ih _ _

/-- Leaves are only found below children, so cleaning below all of them cleans all. -/
theorem cleanBelow_all (cleanSubs : MqttContext → Bool) {n : Subhier} (t : Bytes)
    (p : List Bytes) :
    cleanBelow cleanSubs n.children (t :: p) (n.leavesAt (t :: p)) =
      cleanAt cleanSubs (t :: p) (n.leavesAt (t :: p)) := by
  by_cases ht : t ∈ n.children.map topic
  · rw [cleanBelow, if_pos (by simpa using ht)]
  · have hnil : n.leavesAt (t :: p) = [] := by
      refine leavesAt_cons_eq_nil (fun c hc he => ht ?_) p
      rw [← he]
      exact List.mem_map_of_mem hc
    rw [cleanBelow, if_neg (by simpa using ht), hnil]
    rfl

theorem subsCleanSession_spec (cleanSubs : MqttContext → Bool) {n : Subhier} (hn : n.WF) :
    ∀ fulltopic depth log,
      Shrunk (cleanAt cleanSubs) n (subsCleanSession cleanSubs n fulltopic depth log).1 := by
  obtain ⟨hlinked, hpound⟩ := hn
  induction hlinked with
  | @intro n hlink hchildren ih =>
    intro fulltopic depth log
    have hn : n.WF := ⟨.intro hlink hchildren, hpound⟩
    obtain ⟨addr, topic, subs, retained, children, hashTable, poundCount, plusCount⟩ := n
    rw [subsCleanSession]
    simp only
    have hsubs := cleanLeaves_fst cleanSubs (addTopicToPath topic fulltopic depth) subs [] log
    rw [List.nil_append] at hsubs
    rw [subsCleanChildren_eq_foldl]
    have h := shrunk_foldl cleanSubs Subhier.putChild
      (fun hn hc h => ⟨h.putChild hn hc, fun d hd ht =>
        mem_putChild_of_ne hn.linked.here (h.replaces hc) hd ht⟩)
      (fun c hc hwf => ih c hc hwf.poundLeaf (addTopicToPath topic fulltopic depth) (depth + 1))
      (cleanLeaves cleanSubs (addTopicToPath topic fulltopic depth) [] subs log).2
      (hn.of_subs (cleanLeaves cleanSubs (addTopicToPath topic fulltopic depth) [] subs log).1)
      hlink.topics fun c hc => hc
    refine ⟨h.addr, h.topic, h.wf, h.children, fun p => ?_⟩
    rw [h.leaves]
    cases p with
    | nil =>
      simp [cleanBelow, leavesAt, hsubs, cleanAt]
    | cons t p => exact cleanBelow_all cleanSubs t p

/-! ### The operations on the database -/

/-- The path of a filter: its first token is repeated, once for the first-level node and once
below it. -/
def subPath (sub : Bytes) : List Bytes := rootToken sub :: subTopicTokenise sub

theorem subPath_injective : Function.Injective subPath := fun _ _ h =>
  subTopicTokenise_injective (List.cons.inj h).2

theorem rootToken_not_wildcard (sub : Bytes) :
    rootToken sub ≠ poundLevel ∧ rootToken sub ≠ plusLevel := by
  by_cases h : sub.head? = some dollar
  · have := head_rootToken_of_dollar h
    constructor <;> intro he <;> rw [he] at this <;> exact absurd this (by decide)
  · rw [rootToken_of_ne_dollar h]
    exact ⟨Ne.symm poundLevel_ne_nil, Ne.symm plusLevel_ne_nil⟩

theorem wf_init : SubsDb.init.subs.WF := by
  refine .intro ⟨by decide, by decide, .refl _, by decide, by decide⟩ ?_ ?_
  · intro c hc
    simp only [SubsDb.init, List.mem_cons, List.not_mem_nil, or_false] at hc
    rcases hc with rfl | rfl <;> exact fun _ => rfl
  · intro c hc
    simp only [SubsDb.init, List.mem_cons, List.not_mem_nil, or_false] at hc
    rcases hc with rfl | rfl <;> exact wf_leaf _ _

theorem leavesAt_init (p : List Bytes) : SubsDb.init.subs.leavesAt p = [] := by
  cases p with
  | nil => rfl
  | cons t p =>
    have hlink := wf_init.linked.here
    by_cases ht : ∃ c ∈ SubsDb.init.subs.children, c.topic = t
    · obtain ⟨c, hc, rfl⟩ := ht
      rw [hlink.leavesAt_cons hc]
      simp only [SubsDb.init, List.mem_cons, List.not_mem_nil, or_false] at hc
      rcases hc with rfl | rfl <;> exact leavesAt_of_isUnused rfl p
    · exact leavesAt_cons_eq_nil (fun c hc he => ht ⟨c, hc, he⟩) p

theorem linked_pushChild {root b : Subhier} (h : root.Linked) (hb : root.Fresh b)
    (hpound : b.topic ≠ poundLevel) (hplus : b.topic ≠ plusLevel) : (root.pushChild b).Linked :=
  linked_of_perm h hb (.refl _) rfl (by simp [Subhier.pushChild, hpound]) (by simp [Subhier.pushChild, hplus])

theorem wf_pushChild {root b : Subhier} (h : root.WF) (hb : root.Fresh b) (hwf : b.WF)
    (hpound : b.topic ≠ poundLevel) (hplus : b.topic ≠ plusLevel) : (root.pushChild b).WF := by
  refine .intro (linked_pushChild h.linked.here hb hpound hplus) ?_ ?_
  · intro c hc ht
    rcases List.mem_cons.mp hc with rfl | hc
    · exact absurd ht hpound
    · exact h.poundLeaf.here c hc ht
  · intro c hc
    rcases List.mem_cons.mp hc with rfl | hc
    · exact hwf
    · exact h.child hc

theorem leavesAt_pushChild {root b : Subhier} (h : root.Linked) (hb : root.Fresh b)
    (hpound : b.topic ≠ poundLevel) (hplus : b.topic ≠ plusLevel)
    (hempty : ∀ p, b.leavesAt p = []) (p : List Bytes) :
    (root.pushChild b).leavesAt p = root.leavesAt p := by
  have hlink := linked_pushChild h hb hpound hplus
  cases p with
  | nil => rfl
  | cons t p =>
    by_cases ht : t = b.topic
    · subst ht
      rw [hlink.leavesAt_cons List.mem_cons_self, hempty]
      exact (leavesAt_cons_eq_nil hb.topic p).symm
    · refine hlink.leavesAt_congr h (fun d hd => ?_) p
      constructor
      · intro hmem
        rcases List.mem_cons.mp hmem with rfl | hmem
        · exact absurd hd.symm ht
        · exact hmem
      · exact List.mem_cons_of_mem _

/-- The result of `mqtt3_sub_add`: the tree is as before when the tenant check rejects the
subscription, and else has the leaf at the path of the filter. -/
structure SubAdded (s : BrokerSettings) (db : SubsDb) (context : MqttContext) (sub : Bytes)
    (qos : ℕ) (result : ℤ × SubsDb) : Prop where
  wf : result.2.subs.WF
  rejected : subscriptionAllowed s context db.log = false →
    result.1 = 1 ∧ ∀ p, result.2.subs.leavesAt p = db.subs.leavesAt p
  accepted : subscriptionAllowed s context db.log = true →
    result.1 = 0 ∧ ∀ p, result.2.subs.leavesAt p =
      if p = subPath sub then withLeaf context qos (db.subs.leavesAt p) else db.subs.leavesAt p

theorem setChild_self {n c : Subhier} (hn : n.Linked) (hc : c ∈ n.children) :
    n.setChild c = n := by
  have : n.children.map (fun d => if d.addr = c.addr then c else d) = n.children := by
    conv_rhs => rw [← List.map_id n.children]
    refine List.map_congr_left fun d hd => ?_
    split_ifs with h
    · exact (hn.eq_of_addr hd hc h).symm
    · rfl
  rw [Subhier.setChild, this]
  cases n
  rfl

theorem subPath_poundLast {sub : Bytes} (hsub : topicWildcardPosCheck sub = true) :
    PoundLast (subPath sub) := by
  rw [PoundLast, subPath, List.dropLast_cons_of_ne_nil (subTopicTokenise_ne_nil sub)]
  intro h
  rcases List.mem_cons.mp h with h | h
  · exact (rootToken_not_wildcard sub).1 h.symm
  · exact tokenise_poundLast hsub h

theorem subAddAt_spec {s : BrokerSettings} {db : SubsDb} (context : MqttContext) {sub : Bytes}
    (hsub : topicWildcardPosCheck sub = true) (qos : ℕ) {root child : Subhier} (hroot : root.WF)
    (hchild : child ∈ root.children) (htopic : child.topic = rootToken sub)
    (hleaves : ∀ p, root.leavesAt p = db.subs.leavesAt p) :
    SubAdded s db context sub qos (subAddAt s db.log context sub qos root child) := by
  cases hallowed : subscriptionAllowed s context db.log with
  | false =>
    have h : subAddAt s db.log context sub qos root child = (1, { subs := root, log := db.log }) := by
      simp [subAddAt, subAdd_rejected hallowed, setChild_self hroot.linked.here hchild]
    rw [h]
    exact ⟨hroot, fun _ => ⟨rfl, hleaves⟩, fun h => absurd (hallowed.symm.trans h) (by decide)⟩
  | true =>
    have hadd := (subAdd_spec hallowed qos (hroot.child hchild) (tokenise_poundLast hsub) []
      0).setChild hroot hchild (htopic ▸ subPath_poundLast hsub)
    rw [htopic] at hadd
    refine ⟨hadd.wf, fun h => absurd (hallowed.symm.trans h) (by decide), fun _ => ⟨?_, fun p => ?_⟩⟩
    · rcases hadd.rc with h | h
      · simp [subAddAt, h]
      · simp [subAddAt, h]
    · show (root.setChild _).leavesAt p = _
      by_cases hp : p = subPath sub
      · subst hp
        rw [if_pos rfl, ← hleaves]
        exact hadd.self
      · rw [if_neg hp, ← hleaves]
        exact hadd.other p hp

theorem mqtt3SubAdd_spec {s : BrokerSettings} {db : SubsDb} (hdb : db.subs.WF)
    (context : MqttContext) {sub : Bytes} (hsub : topicWildcardPosCheck sub = true) (qos : ℕ) :
    SubAdded s db context sub qos (mqtt3SubAdd s db context sub qos) := by
  rw [mqtt3SubAdd, hdb.linked.here.hashFind_eq]
  cases hchild : db.subs.child? (rootToken sub) with
  | some child =>
    obtain ⟨hmem, htopic⟩ := mem_of_child? hchild
    exact subAddAt_spec context hsub qos hdb hmem htopic fun _ => rfl
  | none =>
    have hfresh : db.subs.Fresh { addr := db.subs.freshAddr, topic := rootToken sub } :=
      ⟨rfl, fun c hc ht => by simpa [ht] using List.find?_eq_none.mp hchild c hc⟩
    obtain ⟨hpound, hplus⟩ := rootToken_not_wildcard sub
    exact subAddAt_spec context hsub qos (wf_pushChild hdb hfresh (wf_leaf _ _) hpound hplus)
      List.mem_cons_self rfl
      (leavesAt_pushChild hdb.linked.here hfresh hpound hplus fun p => leavesAt_of_isUnused rfl p)

theorem mqtt3SubRemove_spec {db : SubsDb} (hdb : db.subs.WF) (context : MqttContext)
    (sub : Bytes) :
    Shrunk (eraseAt context (subPath sub)) db.subs (mqtt3SubRemove db context sub).subs := by
  rw [mqtt3SubRemove, hdb.linked.here.hashFind_eq]
  cases hchild : db.subs.child? (rootToken sub) with
  | none =>
    refine ⟨rfl, rfl, hdb, id, fun p => ?_⟩
    by_cases hp : p = subPath sub
    · have : db.subs.leavesAt (subPath sub) = [] := leavesAt_cons_eq_nil (fun c hc ht => by
        simpa [ht] using List.find?_eq_none.mp hchild c hc) _
      rw [hp, this]
      simp [eraseAt]
    · simp [eraseAt, hp]
  | some child =>
    obtain ⟨hmem, htopic⟩ := mem_of_child? hchild
    refine ((subRemove_spec context db.log (hdb.child hmem) [] 0).setChild hdb hmem).congr ?_
    intro p
    rw [onChild_eraseAt, htopic]
    rfl

/-- The loop of `mqtt3_subs_clean_session`, with the tree and the log as a pair. -/
theorem mqtt3SubsCleanSession_eq_foldl (db : SubsDb) (cleanSubs : MqttContext → Bool) :
    mqtt3SubsCleanSession db cleanSubs =
      let r := db.subs.children.foldl (fun (r : Subhier × SubsLog) c =>
        (r.1.setChild (subsCleanSession cleanSubs c [] 0 r.2).1,
          (subsCleanSession cleanSubs c [] 0 r.2).2)) (db.subs, db.log)
      { subs := r.1, log := r.2 } := by
  have key : ∀ (children : List Subhier) (db : SubsDb),
      children.foldl (fun (db : SubsDb) c =>
        { subs := db.subs.setChild (subsCleanSession cleanSubs c [] 0 db.log).1
          log := (subsCleanSession cleanSubs c [] 0 db.log).2 }) db =
      let r := children.foldl (fun (r : Subhier × SubsLog) c =>
        (r.1.setChild (subsCleanSession cleanSubs c [] 0 r.2).1,
          (subsCleanSession cleanSubs c [] 0 r.2).2)) (db.subs, db.log)
      { subs := r.1, log := r.2 } := by
    intro children
    induction children with
    | nil => exact fun _ => rfl
    | cons c children ih => exact fun db => ih _
  exact key db.subs.children db

theorem mqtt3SubsCleanSession_spec {db : SubsDb} (hdb : db.subs.WF)
    (cleanSubs : MqttContext → Bool) :
    (mqtt3SubsCleanSession db cleanSubs).subs.WF ∧
    ∀ t p, (mqtt3SubsCleanSession db cleanSubs).subs.leavesAt (t :: p) =
      cleanAt cleanSubs (t :: p) (db.subs.leavesAt (t :: p)) := by
  have h := shrunk_foldl cleanSubs Subhier.setChild
    (fun hn hc h => ⟨h.setChild hn hc, fun d hd ht =>
      (mem_setChild hn.linked.here (h.replaces hc)).mpr (.inr ⟨hd, ht⟩)⟩)
    (fun c _ hwf log => subsCleanSession_spec cleanSubs hwf [] 0 log) db.log hdb
    hdb.linked.here.topics fun c hc => hc
  rw [mqtt3SubsCleanSession_eq_foldl]
  refine ⟨h.wf, fun t p => ?_⟩
  show Subhier.leavesAt _ (t :: p) = _
  rw [h.leaves]
  exact cleanBelow_all cleanSubs t p

end DxlBroker
