import Mathlib.Combinatorics.SimpleGraph.Acyclic

/-!
# Routes in a tree

In a graph without cycles the neighbour of a vertex that leads to another one is unique, and so is
the path between them.  A message that spreads from a vertex along these routes, to every neighbour
that leads to a target except the one it came from, uses exactly the edges of the paths to the
targets, each once and in its direction, whatever the order of the deliveries.
-/

namespace TreeRoute

variable {V : Type} {G : SimpleGraph V} {s v c c' u w x y : V}

/-! ### Neighbours that lead to a vertex -/

/-- The neighbour `c` of `v` leads to `x`: there is a walk from `c` that does not come back to `v`. -/
def Via (G : SimpleGraph V) (v c x : V) : Prop := G.Adj v c ∧ ∃ p : G.Walk c x, v ∉ p.support

theorem Via.of_adj (h : G.Adj v c) : Via G v c c :=
  ⟨h, .nil, by simpa using h.ne⟩

theorem Via.ne (h : Via G v c x) : v ≠ x := by
  obtain ⟨-, p, hp⟩ := h
  rintro rfl
  exact hp p.end_mem_support

theorem mem_edges_of_adj (hG : G.IsAcyclic) (h : G.Adj v c) (p : G.Walk v c) : s(v, c) ∈ p.edges :=
  SimpleGraph.isBridge_iff_forall_walk_mem_edges.mp
    (SimpleGraph.isAcyclic_iff_forall_adj_isBridge.mp hG h) p

theorem Via.unique (hG : G.IsAcyclic) (h : Via G v c x) (h' : Via G v c' x) : c = c' := by
  obtain ⟨hadj, p, hp⟩ := h
  obtain ⟨hadj', p', hp'⟩ := h'
  have hmem := mem_edges_of_adj hG hadj ((SimpleGraph.Walk.cons hadj' p').append p.reverse)
  rw [SimpleGraph.Walk.edges_append, SimpleGraph.Walk.edges_cons, SimpleGraph.Walk.edges_reverse,
    List.mem_append, List.mem_cons, List.mem_reverse] at hmem
  rcases hmem with (heq | hmem) | hmem
  · exact Sym2.congr_right.mp heq
  · exact absurd (p'.fst_mem_support_of_mem_edges hmem) hp'
  · exact absurd (p.fst_mem_support_of_mem_edges hmem) hp

/-- No vertex is on both sides of an edge. -/
theorem disjoint_sides (hG : G.IsAcyclic) (h : G.Adj v c) (p : G.Walk v y) (hp : c ∉ p.support)
    (q : G.Walk c y) (hq : v ∉ q.support) : False := by
  have hmem := mem_edges_of_adj hG h (p.append q.reverse)
  rw [SimpleGraph.Walk.edges_append, SimpleGraph.Walk.edges_reverse, List.mem_append,
    List.mem_reverse] at hmem
  rcases hmem with hmem | hmem
  · exact hp (p.snd_mem_support_of_mem_edges hmem)
  · exact hq (q.fst_mem_support_of_mem_edges hmem)

theorem Via.not_opposite (hG : G.IsAcyclic) (h : Via G v c x) (h' : Via G c v x) : False := by
  obtain ⟨hadj, p, hp⟩ := h
  obtain ⟨-, q, hq⟩ := h'
  exact disjoint_sides hG hadj q hq p hp

/-! ### Walks as chains and as closures -/

theorem exists_walk_of_chain {x : V} :
    ∀ {l : List V} {v : V}, (v :: l).IsChain G.Adj → (v :: l).getLast? = some x →
      ∃ p : G.Walk v x, p.support = v :: l := by
  intro l
  induction l with
  | nil =>
    intro v _ hlast
    obtain rfl : v = x := by simpa using hlast
    exact ⟨.nil, rfl⟩
  | cons w l ih =>
    intro v hchain hlast
    rw [List.isChain_cons_cons] at hchain
    obtain ⟨p, hp⟩ := ih hchain.2 (by simpa using hlast)
    exact ⟨.cons hchain.1 p, by rw [SimpleGraph.Walk.support_cons, hp]⟩

theorem reflTransGen_iff_walk {b c x : V} (hc : c ≠ b) :
    Relation.ReflTransGen (fun v w => G.Adj v w ∧ w ≠ b) c x ↔ ∃ p : G.Walk c x, b ∉ p.support := by
  constructor
  · intro h
    induction h with
    | refl => exact ⟨.nil, by simpa using hc.symm⟩
    | tail _ hstep ih =>
      obtain ⟨p, hp⟩ := ih
      refine ⟨p.concat hstep.1, ?_⟩
      rw [SimpleGraph.Walk.support_concat, List.mem_append, List.mem_singleton, not_or]
      exact ⟨hp, hstep.2.symm⟩
  · rintro ⟨p, hp⟩
    induction p with
    | nil => exact .refl
    | cons hadj q ih =>
      rw [SimpleGraph.Walk.support_cons, List.mem_cons, not_or] at hp
      have hne : _ ≠ b := fun heq => hp.2 (heq ▸ q.start_mem_support)
      exact .head ⟨hadj, hne⟩ (ih hne hp.2)

/-! ### The edges of a path -/

/-- The path from `s` to `x` uses the edge from `v` to `c`. -/
def Carries (G : SimpleGraph V) (s x v c : V) : Prop :=
  ∃ p : G.Walk s x, p.IsPath ∧ ∃ d ∈ p.darts, d.fst = v ∧ d.snd = c

theorem via_of_mem_darts {p : G.Walk s x} (hp : p.IsPath) {d : G.Dart} (hd : d ∈ p.darts) :
    Via G d.fst d.snd x ∧ Via G d.snd d.fst s := by
  induction p with
  | nil => simp at hd
  | cons hadj q ih =>
    rw [SimpleGraph.Walk.cons_isPath_iff] at hp
    rw [SimpleGraph.Walk.darts_cons, List.mem_cons] at hd
    rcases hd with rfl | hd
    · exact ⟨⟨hadj, q, hp.2⟩, .of_adj hadj.symm⟩
    · obtain ⟨hvia, hback, r, hr⟩ := ih hp.1 hd
      refine ⟨hvia, hback, r.concat hadj.symm, ?_⟩
      rw [SimpleGraph.Walk.support_concat, List.mem_append, List.mem_singleton, not_or]
      refine ⟨hr, fun heq => hp.2 ?_⟩
      rw [← heq]
      exact q.dart_snd_mem_support_of_mem_darts hd

theorem carries_iff (hG : G.IsAcyclic) : Carries G s x v c ↔ Via G v c x ∧ Via G c v s := by
  classical
  constructor
  · rintro ⟨p, hp, d, hd, rfl, rfl⟩
    exact via_of_mem_darts hp hd
  · rintro ⟨⟨hadj, q, hq⟩, -, r, hr⟩
    have hq' : v ∉ q.bypass.support := fun h => hq (q.support_bypass_subset_support h)
    have hr' : c ∉ r.bypass.support := fun h => hr (r.support_bypass_subset_support h)
    refine ⟨r.bypass.reverse.append (.cons hadj q.bypass), ?_, ⟨(v, c), hadj⟩, ?_, rfl, rfl⟩
    · rw [SimpleGraph.Walk.isPath_def, SimpleGraph.Walk.support_append,
        SimpleGraph.Walk.support_cons, List.tail_cons, SimpleGraph.Walk.support_reverse,
        List.nodup_append]
      refine ⟨List.nodup_reverse.mpr r.bypass_isPath.support_nodup, q.bypass_isPath.support_nodup,
        ?_⟩
      rintro y hyr z hzq rfl
      rw [List.mem_reverse] at hyr
      refine disjoint_sides hG hadj (r.bypass.takeUntil y hyr) (fun h => hr' ?_)
        (q.bypass.takeUntil y hzq) fun h => hq' ?_
      · exact r.bypass.support_takeUntil_subset_support hyr h
      · exact q.bypass.support_takeUntil_subset_support hzq h
    · rw [SimpleGraph.Walk.darts_append, SimpleGraph.Walk.darts_cons]
      exact List.mem_append_right _ List.mem_cons_self

/-! ### Spreading a message -/

/-- The edge from `v` to `c` is on a path from `s` to a target. -/
def Wanted (G : SimpleGraph V) (targets : Set V) (s v c : V) : Prop :=
  ∃ x ∈ targets, Carries G s x v c

/-- What a vertex does with a message: it sends it to each neighbour that leads to a target, except
the one it has the message from. -/
structure Forwards (G : SimpleGraph V) (targets : Set V) (v : V) (source : Option V)
    (out : List V) : Prop where
  nodup : out.Nodup
  mem : ∀ c, c ∈ out ↔ source ≠ some c ∧ ∃ x ∈ targets, Via G v c x

/-- The message on its way: the edges it is on, all edges it was sent along, and the vertices it has
come to. -/
structure Spread (V : Type) where
  inFlight : List (V × V)
  sent : List (V × V)
  received : List V

namespace Spread

/-- The message starts at `s`. -/
def publish (s : V) (out : List V) : Spread V where
  inFlight := out.map fun c => (s, c)
  sent := out.map fun c => (s, c)
  received := [s]

/-- The message on the edge number `i` comes to its end `w`. -/
def deliver (σ : Spread V) (i : ℕ) (w : V) (out : List V) : Spread V where
  inFlight := σ.inFlight.eraseIdx i ++ out.map fun c => (w, c)
  sent := σ.sent ++ out.map fun c => (w, c)
  received := σ.received ++ [w]

/-- The states reached when the deliveries are made in any order. -/
inductive Reached (G : SimpleGraph V) (targets : Set V) (s : V) : Spread V → Prop
  | publish {out : List V} (h : Forwards G targets s none out) : Reached G targets s (publish s out)
  | deliver {σ : Spread V} (hσ : Reached G targets s σ) {i : ℕ} {u w : V} {out : List V}
      (hi : σ.inFlight[i]? = some (u, w)) (h : Forwards G targets w (some u) out) :
      Reached G targets s (σ.deliver i w out)

end Spread

variable {targets : Set V}

theorem Wanted.unique (hG : G.IsAcyclic) (h : Wanted G targets s u w) (h' : Wanted G targets s v w) :
    u = v := by
  obtain ⟨x, -, hx⟩ := h
  obtain ⟨y, -, hy⟩ := h'
  exact ((carries_iff hG).mp hx).2.unique hG ((carries_iff hG).mp hy).2

theorem Wanted.ne_start (hG : G.IsAcyclic) (h : Wanted G targets s v c) : c ≠ s := by
  obtain ⟨x, -, hx⟩ := h
  exact ((carries_iff hG).mp hx).2.ne

theorem Wanted.adj (hG : G.IsAcyclic) (h : Wanted G targets s v c) : G.Adj v c := by
  obtain ⟨x, -, hx⟩ := h
  exact ((carries_iff hG).mp hx).1.1

/-- The edges from the start. -/
theorem Forwards.mem_start (hG : G.IsAcyclic) {out : List V} (h : Forwards G targets s none out) :
    c ∈ out ↔ Wanted G targets s s c := by
  rw [h.mem]
  constructor
  · rintro ⟨-, x, hx, hvia⟩
    exact ⟨x, hx, (carries_iff hG).mpr ⟨hvia, .of_adj hvia.1.symm⟩⟩
  · rintro ⟨x, hx, hcarries⟩
    exact ⟨by simp, x, hx, ((carries_iff hG).mp hcarries).1⟩

/-- The edges from a vertex that the message has come to along a wanted edge. -/
theorem Forwards.mem_next (hG : G.IsAcyclic) {out : List V} (h : Forwards G targets w (some u) out)
    (hu : Wanted G targets s u w) : c ∈ out ↔ Wanted G targets s w c := by
  obtain ⟨y, -, hy⟩ := hu
  obtain ⟨-, hback⟩ := (carries_iff hG).mp hy
  rw [h.mem]
  constructor
  · rintro ⟨hne, x, hx, hvia⟩
    -- The start is behind `u`, and `c` is not, so it is behind `w` as seen from `c`.
    refine ⟨x, hx, (carries_iff hG).mpr ⟨hvia, hvia.1.symm, ?_⟩⟩
    obtain ⟨hadj, p, hp⟩ := hback
    refine ⟨.cons hadj p, ?_⟩
    rw [SimpleGraph.Walk.support_cons, List.mem_cons, not_or]
    refine ⟨hvia.1.ne', fun hc => hne ?_⟩
    classical
    have hfirst : Via G w u c := ⟨hadj, p.takeUntil c hc, fun hw =>
      hp (p.support_takeUntil_subset_support hc hw)⟩
    rw [hfirst.unique hG (.of_adj hvia.1)]
  · rintro ⟨x, hx, hcarries⟩
    obtain ⟨hvia, haway⟩ := (carries_iff hG).mp hcarries
    refine ⟨fun heq => ?_, x, hx, hvia⟩
    rw [Option.some.inj heq] at hback
    exact hback.not_opposite hG haway

/-- What holds while the message spreads. -/
structure Spread.Inv (G : SimpleGraph V) (targets : Set V) (s : V) (σ : Spread V) : Prop where
  wanted : ∀ v c, (v, c) ∈ σ.sent → Wanted G targets s v c
  sent_nodup : σ.sent.Nodup
  received_nodup : σ.received.Nodup
  inFlight_nodup : σ.inFlight.Nodup
  inFlight : ∀ v c, (v, c) ∈ σ.inFlight → (v, c) ∈ σ.sent ∧ c ∉ σ.received
  sent : ∀ v c, (v, c) ∈ σ.sent → v ∈ σ.received ∧ ((v, c) ∈ σ.inFlight ∨ c ∈ σ.received)
  complete : ∀ v ∈ σ.received, ∀ c, Wanted G targets s v c → (v, c) ∈ σ.sent
  start : s ∈ σ.received
  received : ∀ w ∈ σ.received, w = s ∨ ∃ u, (u, w) ∈ σ.sent

theorem Spread.inv_publish (hG : G.IsAcyclic) {out : List V} (h : Forwards G targets s none out) :
    (Spread.publish s out).Inv G targets s := by
  have hsent : ∀ v c, (v, c) ∈ (Spread.publish s out).sent ↔ v = s ∧ Wanted G targets s s c := by
    intro v c
    simp only [publish, List.mem_map, Prod.mk.injEq]
    constructor
    · rintro ⟨_, hc, rfl, rfl⟩
      exact ⟨rfl, (h.mem_start hG).mp hc⟩
    · rintro ⟨rfl, hc⟩
      exact ⟨c, (h.mem_start hG).mpr hc, rfl, rfl⟩
  have hnodup : (out.map fun c => (s, c)).Nodup := h.nodup.map fun _ _ heq => (Prod.mk.inj heq).2
  refine ⟨fun v c hvc => ?_, hnodup, List.nodup_singleton s, hnodup, fun v c hvc => ?_,
    fun v c hvc => ?_, fun v hv c hc => ?_, List.mem_singleton_self s,
    fun w hw => .inl (List.mem_singleton.mp hw)⟩
  · obtain ⟨rfl, hc⟩ := (hsent v c).mp hvc
    exact hc
  · obtain ⟨rfl, hc⟩ := (hsent v c).mp hvc
    exact ⟨hvc, fun hm => hc.ne_start hG (List.mem_singleton.mp hm)⟩
  · obtain ⟨rfl, hc⟩ := (hsent v c).mp hvc
    exact ⟨List.mem_singleton_self _, .inl hvc⟩
  · obtain rfl := List.mem_singleton.mp hv
    exact (hsent v c).mpr ⟨rfl, hc⟩

theorem Spread.Inv.deliver (hG : G.IsAcyclic) {σ : Spread V} (hσ : σ.Inv G targets s) {i : ℕ}
    {out : List V} (hi : σ.inFlight[i]? = some (u, w)) (h : Forwards G targets w (some u) out) :
    (σ.deliver i w out).Inv G targets s := by
  obtain ⟨huw, hw⟩ := hσ.inFlight u w (List.mem_of_getElem? hi)
  have hwanted := hσ.wanted u w huw
  have hout : ∀ c, c ∈ out ↔ Wanted G targets s w c := fun c => h.mem_next hG hwanted
  have hnew : ∀ v c, (v, c) ∈ (out.map fun c => (w, c)) ↔ v = w ∧ Wanted G targets s w c := by
    intro v c
    simp only [List.mem_map, Prod.mk.injEq]
    constructor
    · rintro ⟨_, hc, rfl, rfl⟩
      exact ⟨rfl, (hout _).mp hc⟩
    · rintro ⟨rfl, hc⟩
      exact ⟨c, (hout c).mpr hc, rfl, rfl⟩
  have hnodup : (out.map fun c => (w, c)).Nodup := h.nodup.map fun _ _ heq => (Prod.mk.inj heq).2
  -- The edges from `w` are new, since those sent before start at vertices received before.
  have hfresh : ∀ e ∈ σ.sent, ∀ e' ∈ (out.map fun c => (w, c)), e ≠ e' := by
    rintro ⟨v, c⟩ he ⟨v', c'⟩ he' heq
    rw [Prod.mk.injEq] at heq
    exact hw (((hnew v' c').mp he').1 ▸ heq.1 ▸ (hσ.sent v c he).1)
  have herase : ∀ e, e ∈ σ.inFlight.eraseIdx i ↔ e ∈ σ.inFlight ∧ e ≠ (u, w) := by
    obtain ⟨hlt, hget⟩ := List.getElem?_eq_some_iff.mp hi
    intro e
    rw [List.mem_eraseIdx_iff_getElem]
    constructor
    · rintro ⟨j, hj, hne, rfl⟩
      refine ⟨List.getElem_mem hj, fun heq => hne ?_⟩
      exact hσ.inFlight_nodup.getElem_inj_iff.mp (heq.trans hget.symm)
    · rintro ⟨he, hne⟩
      obtain ⟨j, hj, rfl⟩ := List.getElem_of_mem he
      refine ⟨j, hj, fun heq => hne ?_, rfl⟩
      subst heq
      exact hget
  refine ⟨fun v c hvc => ?_, ?_, ?_, ?_, fun v c hvc => ?_, fun v c hvc => ?_, fun v hv c hc => ?_,
    List.mem_append_left _ hσ.start, fun v hv => ?_⟩
  · rcases List.mem_append.mp hvc with hvc | hvc
    · exact hσ.wanted v c hvc
    · obtain ⟨rfl, hc⟩ := (hnew v c).mp hvc
      exact hc
  · exact List.nodup_append.mpr ⟨hσ.sent_nodup, hnodup, hfresh⟩
  · refine List.nodup_append.mpr ⟨hσ.received_nodup, List.nodup_singleton w, ?_⟩
    rintro v hv v' hv' rfl
    exact hw (List.mem_singleton.mp hv' ▸ hv)
  · refine List.nodup_append.mpr ⟨hσ.inFlight_nodup.sublist (List.eraseIdx_sublist _ i), hnodup,
      fun e he => hfresh e ?_⟩
    obtain ⟨v, c⟩ := e
    exact (hσ.inFlight v c ((herase _).mp he).1).1
  · rcases List.mem_append.mp hvc with hvc | hvc
    · obtain ⟨hmem, hne⟩ := (herase _).mp hvc
      obtain ⟨hsent, hc⟩ := hσ.inFlight v c hmem
      refine ⟨List.mem_append_left _ hsent, fun hm => ?_⟩
      rcases List.mem_append.mp hm with hm | hm
      · exact hc hm
      · obtain rfl := List.mem_singleton.mp hm
        exact hne (by rw [(hσ.wanted v c hsent).unique hG hwanted])
    · obtain ⟨rfl, hc⟩ := (hnew v c).mp hvc
      refine ⟨List.mem_append_right _ hvc, fun hm => ?_⟩
      rcases List.mem_append.mp hm with hm | hm
      · rcases hσ.received c hm with rfl | ⟨u', hu'⟩
        · exact hc.ne_start hG rfl
        · have heq := (hσ.wanted u' c hu').unique hG hc
          exact hw (heq ▸ (hσ.sent u' c hu').1)
      · exact (hc.adj hG).ne (List.mem_singleton.mp hm).symm
  · rcases List.mem_append.mp hvc with hvc | hvc
    · obtain ⟨hv, hc⟩ := hσ.sent v c hvc
      refine ⟨List.mem_append_left _ hv, ?_⟩
      rcases hc with hc | hc
      · by_cases heq : (v, c) = (u, w)
        · exact .inr (List.mem_append_right _ (List.mem_singleton.mpr (Prod.mk.inj heq).2))
        · exact .inl (List.mem_append_left _ ((herase _).mpr ⟨hc, heq⟩))
      · exact .inr (List.mem_append_left _ hc)
    · obtain ⟨rfl, -⟩ := (hnew v c).mp hvc
      exact ⟨List.mem_append_right _ (List.mem_singleton_self _), .inl (List.mem_append_right _ hvc)⟩
  · rcases List.mem_append.mp hv with hv | hv
    · exact List.mem_append_left _ (hσ.complete v hv c hc)
    · obtain rfl := List.mem_singleton.mp hv
      exact List.mem_append_right _ ((hnew v c).mpr ⟨rfl, hc⟩)
  · rcases List.mem_append.mp hv with hv | hv
    · exact (hσ.received v hv).imp_right fun ⟨u', hu'⟩ => ⟨u', List.mem_append_left _ hu'⟩
    · obtain rfl := List.mem_singleton.mp hv
      exact .inr ⟨u, List.mem_append_left _ huw⟩

theorem Spread.Reached.inv (hG : G.IsAcyclic) {σ : Spread V} (h : Spread.Reached G targets s σ) :
    σ.Inv G targets s := by
  induction h with
  | publish h => exact Spread.inv_publish hG h
  | deliver _ hi h ih => exact ih.deliver hG hi h

/-- When nothing is in flight the message has come to every vertex of a walk along wanted edges. -/
theorem Spread.Inv.support_received {σ : Spread V} (hσ : σ.Inv G targets s)
    (hdone : σ.inFlight = []) {a : V} (p : G.Walk a x) (ha : a ∈ σ.received)
    (hp : ∀ d ∈ p.darts, Wanted G targets s d.fst d.snd) : ∀ w ∈ p.support, w ∈ σ.received := by
  induction p with
  | nil => simpa using ha
  | @cons a b x hadj q ih =>
    have hab : b ∈ σ.received := by
      obtain ⟨-, hflight | hb⟩ := hσ.sent a b (hσ.complete a ha b
        (hp ⟨(a, b), hadj⟩ (by simp)))
      · rw [hdone] at hflight
        cases hflight
      · exact hb
    intro w hw
    rw [SimpleGraph.Walk.support_cons, List.mem_cons] at hw
    rcases hw with rfl | hw
    · exact ha
    · exact ih hab (fun d hd => hp d (by simp [hd])) w hw

/-- **A message that spreads along the routes uses the edges of the paths to the targets, each once,
and comes to their vertices, each once.** -/
theorem Spread.Reached.exactly_once (hG : G.IsAcyclic) {σ : Spread V}
    (h : Spread.Reached G targets s σ) :
    σ.sent.Nodup ∧ σ.received.Nodup ∧ (∀ v c, (v, c) ∈ σ.sent → Wanted G targets s v c) ∧
    (σ.inFlight = [] → (∀ v c, (v, c) ∈ σ.sent ↔ Wanted G targets s v c) ∧
      ∀ w, w ∈ σ.received ↔ w = s ∨ ∃ x ∈ targets, ∃ p : G.Walk s x, p.IsPath ∧ w ∈ p.support) := by
  have hσ := h.inv hG
  refine ⟨hσ.sent_nodup, hσ.received_nodup, hσ.wanted, fun hdone => ?_⟩
  have hall : ∀ x ∈ targets, ∀ p : G.Walk s x, p.IsPath → ∀ w ∈ p.support, w ∈ σ.received :=
    fun x hx p hp => hσ.support_received hdone p hσ.start fun d hd =>
      ⟨x, hx, p, hp, d, hd, rfl, rfl⟩
  refine ⟨fun v c => ⟨hσ.wanted v c, fun hvc => ?_⟩, fun w => ⟨fun hw => ?_, ?_⟩⟩
  · obtain ⟨x, hx, p, hp, d, hd, rfl, rfl⟩ := id hvc
    exact hσ.complete _ (hall x hx p hp _ (p.dart_fst_mem_support_of_mem_darts hd)) _ hvc
  · rcases hσ.received w hw with rfl | ⟨u, hu⟩
    · exact .inl rfl
    · obtain ⟨x, hx, p, hp, d, hd, rfl, rfl⟩ := hσ.wanted u w hu
      exact .inr ⟨x, hx, p, hp, p.dart_snd_mem_support_of_mem_darts hd⟩
  · rintro (rfl | ⟨x, hx, p, hp, hw⟩)
    · exact hσ.start
    · exact hall x hx p hp w hw

end TreeRoute
