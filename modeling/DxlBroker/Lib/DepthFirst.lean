import Mathlib.Data.Finset.Card
import Mathlib.Data.Finset.Insert
import Mathlib.Data.List.Chain
import Mathlib.Logic.Relation

/-!
# Depth-first search with a visited set

`search next allow stop` walks along `next`, enters a vertex when it is allowed and was not visited
before, and ends at the first vertex that satisfies `stop`.  It returns the path to that vertex, or
nothing when the walk has run dry, together with the vertices visited.

The recursion is bounded by a number of levels.  Every level but the last is at a vertex with
successors that was not visited before, so a bound above the number of such vertices is enough
(`search_spec`), and the search then finds a stop vertex exactly when one is reachable.
-/

namespace DepthFirst

section Search

variable {V : Type} [DecidableEq V] (next : V → List V) (allow stop : V → Bool)

/-- The loop over the successors of a vertex; `enter` is the search from one of them. -/
def searchList (enter : V → Finset V → Option (List V) × Finset V) :
    List V → Finset V → Option (List V) × Finset V
  | [], visited => (none, visited)
  | w :: ws, visited =>
      if w ∉ visited ∧ allow w then
        match enter w visited with
        | (some path, visited) => (some path, visited)
        | (none, visited) => searchList enter ws visited
      else searchList enter ws visited

/-- The search from a vertex that may be entered. -/
def search : ℕ → V → Finset V → Option (List V) × Finset V
  | 0, _, visited => (none, visited)
  | levels + 1, v, visited =>
      let visited := insert v visited
      if stop v then (some [v], visited)
      else
        match searchList allow (search levels) (next v) visited with
        | (some path, visited) => (some (v :: path), visited)
        | (none, visited) => (none, visited)

/-- One step of the walk. -/
def Step (v w : V) : Prop := w ∈ next v ∧ allow w = true

/-- The vertices a walk from `v` can enter. -/
def Reach : V → V → Prop := Relation.ReflTransGen (Step next allow)

/-- What one call does to the visited set: only reachable vertices are added; and unless a stop
vertex was found, none of the new vertices is one and all their successors were visited. -/
structure Visits (v : V) (visited : Finset V) (r : Option (List V) × Finset V) : Prop where
  subset : visited ⊆ r.2
  reach : ∀ w ∈ r.2, w ∉ visited → Reach next allow v w
  found : ∀ path, r.1 = some path → ∃ w, path.head? = some v ∧ path.getLast? = some w ∧
    path.IsChain (Step next allow) ∧ stop w = true ∧ w ∈ r.2
  simple : ∀ path, r.1 = some path → path.Nodup ∧ ∀ u ∈ path, u ∉ visited
  self : v ∈ r.2
  quiet : r.1 = none → ∀ w ∈ r.2, w ∉ visited →
    stop w = false ∧ ∀ u, Step next allow w u → u ∈ r.2

/-- The same for the loop over some successors of `v`. -/
structure VisitsList (v : V) (ws : List V) (visited : Finset V)
    (r : Option (List V) × Finset V) : Prop where
  subset : visited ⊆ r.2
  reach : ∀ w ∈ r.2, w ∉ visited → Reach next allow v w
  found : ∀ path, r.1 = some path → ∃ w, (∃ u ∈ ws, allow u = true ∧ path.head? = some u) ∧
    path.getLast? = some w ∧ path.IsChain (Step next allow) ∧ stop w = true ∧ w ∈ r.2
  simple : ∀ path, r.1 = some path → path.Nodup ∧ ∀ u ∈ path, u ∉ visited
  all : r.1 = none → ∀ u ∈ ws, allow u = true → u ∈ r.2
  quiet : r.1 = none → ∀ w ∈ r.2, w ∉ visited →
    stop w = false ∧ ∀ u, Step next allow w u → u ∈ r.2

variable {next allow stop}

theorem searchList_visits {enter : V → Finset V → Option (List V) × Finset V} {v : V} :
    ∀ {ws : List V} {visited : Finset V},
      (∀ w ∈ ws, ∀ visited', visited ⊆ visited' → w ∉ visited' → allow w = true →
        Visits next allow stop w visited' (enter w visited')) →
      (∀ w ∈ ws, w ∈ next v) →
      VisitsList next allow stop v ws visited (searchList allow enter ws visited) := by
  intro ws
  induction ws with
  | nil =>
    intro visited _ _
    rw [searchList]
    refine ⟨subset_rfl, fun w h hn => absurd h hn, fun path h => ?_, fun path h => ?_,
      fun _ u hu => ?_, fun _ w h hn => absurd h hn⟩
    · cases h
    · cases h
    · cases hu
  | cons w ws ih =>
    intro visited henter hnext
    have hrest : ∀ visited', visited ⊆ visited' →
        VisitsList next allow stop v ws visited' (searchList allow enter ws visited') :=
      fun visited' hsub => ih
        (fun u hu vis hvis => henter u (List.mem_cons_of_mem _ hu) vis (hsub.trans hvis))
        fun u hu => hnext u (List.mem_cons_of_mem _ hu)
    rw [searchList]
    split_ifs with hw
    · have hstep : Step next allow v w := ⟨hnext w List.mem_cons_self, hw.2⟩
      have hvis := henter w List.mem_cons_self visited subset_rfl hw.1 hw.2
      cases henter : enter w visited with
      | mk found visited' =>
        rw [henter] at hvis
        cases found with
        | some path =>
          refine ⟨hvis.subset, fun u hu hn => .head hstep (hvis.reach u hu hn), fun p hp => ?_,
            hvis.simple, fun h => absurd h (Option.some_ne_none path),
            fun h => absurd h (Option.some_ne_none path)⟩
          obtain ⟨u, hhead, hlast, hchain, hstop, hmem⟩ := hvis.found p hp
          exact ⟨u, ⟨w, List.mem_cons_self, hw.2, hhead⟩, hlast, hchain, hstop, hmem⟩
        | none =>
          have hr : VisitsList next allow stop v ws visited' (searchList allow enter ws visited') :=
            hrest visited' hvis.subset
          refine ⟨hvis.subset.trans hr.subset, fun u hu hn => ?_, fun p hp => ?_,
            fun p hp => ?_, fun hnone u hu ha => ?_, fun hnone u hu hn => ?_⟩
          · by_cases hu' : u ∈ visited'
            · exact .head hstep (hvis.reach u hu' hn)
            · exact hr.reach u hu hu'
          · obtain ⟨u, ⟨x, hx, ha, hhead⟩, rest⟩ := hr.found p hp
            exact ⟨u, ⟨x, List.mem_cons_of_mem _ hx, ha, hhead⟩, rest⟩
          · obtain ⟨hnodup, hnew⟩ := hr.simple p hp
            exact ⟨hnodup, fun u hu hvisited => hnew u hu (hvis.subset hvisited)⟩
          · rcases List.mem_cons.mp hu with rfl | hu
            · exact hr.subset hvis.self
            · exact hr.all hnone u hu ha
          · by_cases hu' : u ∈ visited'
            · obtain ⟨hstop, hclosed⟩ := hvis.quiet rfl u hu' hn
              exact ⟨hstop, fun x hx => hr.subset (hclosed x hx)⟩
            · exact hr.quiet hnone u hu hu'
    · have hr := hrest visited subset_rfl
      refine ⟨hr.subset, hr.reach, fun p hp => ?_, hr.simple, fun hnone u hu ha => ?_, hr.quiet⟩
      · obtain ⟨u, ⟨x, hx, ha, hhead⟩, rest⟩ := hr.found p hp
        exact ⟨u, ⟨x, List.mem_cons_of_mem _ hx, ha, hhead⟩, rest⟩
      · rcases List.mem_cons.mp hu with rfl | hu
        · by_contra hn
          exact hw ⟨fun h => hn (hr.subset h), ha⟩
        · exact hr.all hnone u hu ha

/-- A bound above the number of unvisited vertices with successors is enough. -/
theorem search_visits {inner : Finset V} (hinner : ∀ v, next v ≠ [] → v ∈ inner) :
    ∀ {levels : ℕ} {v : V} {visited : Finset V}, v ∉ visited → (inner \ visited).card < levels →
      Visits next allow stop v visited (search next allow stop levels v visited) := by
  intro levels
  induction levels with
  | zero => exact fun _ h => absurd h (Nat.not_lt_zero _)
  | succ levels ih =>
    intro v visited hv hcard
    rw [search]
    split_ifs with hstop
    · refine ⟨Finset.subset_insert _ _, fun w hw hn => ?_, fun path hpath => ?_,
        fun path hpath => ?_, Finset.mem_insert_self _ _,
        fun h => absurd h (Option.some_ne_none [v])⟩
      · rcases Finset.mem_insert.mp hw with rfl | hw
        · exact .refl
        · exact absurd hw hn
      · cases hpath
        exact ⟨v, rfl, rfl, List.isChain_singleton v, hstop, Finset.mem_insert_self _ _⟩
      · cases hpath
        exact ⟨List.nodup_singleton v, fun u hu => List.mem_singleton.mp hu ▸ hv⟩
    · -- A vertex with successors leaves the unvisited ones, so the bound holds one level below.
      have hlevels : next v ≠ [] → (inner \ insert v visited).card < levels := by
        intro hne
        have hmem : v ∈ inner \ visited := Finset.mem_sdiff.mpr ⟨hinner v hne, hv⟩
        have hlt : (inner \ insert v visited).card < (inner \ visited).card := by
          rw [Finset.sdiff_insert]
          exact Finset.card_erase_lt_of_mem hmem
        omega
      have hlist : VisitsList next allow stop v (next v) (insert v visited)
          (searchList allow (search next allow stop levels) (next v) (insert v visited)) := by
        refine searchList_visits (fun w hw visited' hsub hwn _ => ih hwn ?_) fun w hw => hw
        refine lt_of_le_of_lt (Finset.card_le_card ?_) (hlevels (List.ne_nil_of_mem hw))
        exact Finset.sdiff_subset_sdiff subset_rfl hsub
      have hself : v ∈ (searchList allow (search next allow stop levels) (next v)
          (insert v visited)).2 := hlist.subset (Finset.mem_insert_self _ _)
      cases hr : searchList allow (search next allow stop levels) (next v) (insert v visited) with
      | mk found visited' =>
        rw [hr] at hlist hself
        have hsub : visited ⊆ visited' := (Finset.subset_insert _ _).trans hlist.subset
        have hreach : ∀ w ∈ visited', w ∉ visited → Reach next allow v w := by
          intro w hw hn
          by_cases hwv : w = v
          · rw [hwv]
            exact .refl
          · refine hlist.reach w hw fun h => ?_
            rcases Finset.mem_insert.mp h with h | h
            · exact hwv h
            · exact hn h
        cases found with
        | some path =>
          refine ⟨hsub, hreach, fun p hp => ?_, fun p hp => ?_, hself,
            fun h => absurd h (Option.some_ne_none (v :: path))⟩
          · cases hp
            obtain ⟨w, ⟨u, hu, ha, hhead⟩, hlast, hchain, hstopw, hmem⟩ := hlist.found path rfl
            refine ⟨w, rfl, ?_, ?_, hstopw, hmem⟩
            · rw [List.getLast?_cons, hlast]
              rfl
            · refine List.isChain_cons.mpr ⟨fun x hx => ?_, hchain⟩
              rw [hhead, Option.mem_some_iff] at hx
              exact hx ▸ ⟨hu, ha⟩
          · -- The rest of the path avoids everything visited before, `v` with it.
            cases hp
            obtain ⟨hnodup, hnew⟩ := hlist.simple path rfl
            refine ⟨List.nodup_cons.mpr ⟨fun h => hnew v h (Finset.mem_insert_self _ _), hnodup⟩,
              fun u hu => ?_⟩
            rcases List.mem_cons.mp hu with rfl | hu
            · exact hv
            · exact fun h => hnew u hu (Finset.mem_insert_of_mem h)
        | none =>
          refine ⟨hsub, hreach, fun p hp => absurd hp.symm (Option.some_ne_none p),
            fun p hp => absurd hp.symm (Option.some_ne_none p), hself, fun _ w hw hn => ?_⟩
          by_cases hwv : w = v
          · rw [hwv]
            refine ⟨by simpa using hstop, fun u hu => hlist.all rfl u hu.1 hu.2⟩
          · refine hlist.quiet rfl w hw fun h => ?_
            rcases Finset.mem_insert.mp h with h | h
            · exact hwv h
            · exact hn h

/-- The loop depends only on the searches from vertices that were not visited before. -/
theorem searchList_congr {enter enter' : V → Finset V → Option (List V) × Finset V} {ws : List V} :
    ∀ {visited : Finset V},
      (∀ w ∈ ws, ∀ visited', visited ⊆ visited' → w ∉ visited' →
        enter w visited' = enter' w visited' ∧ visited' ⊆ (enter' w visited').2) →
      searchList allow enter ws visited = searchList allow enter' ws visited := by
  induction ws with
  | nil => exact fun _ => rfl
  | cons w ws ih =>
    intro visited h
    have hrest : ∀ visited', visited ⊆ visited' →
        searchList allow enter ws visited' = searchList allow enter' ws visited' :=
      fun visited' hsub => ih fun u hu vis hvis hu' =>
        h u (List.mem_cons_of_mem _ hu) vis (hsub.trans hvis) hu'
    rw [searchList, searchList]
    split_ifs with hw
    · obtain ⟨heq, hsub⟩ := h w List.mem_cons_self visited subset_rfl hw.1
      rw [heq]
      cases henter : enter' w visited with
      | mk found visited' =>
        rw [henter] at hsub
        cases found with
        | some path => rfl
        | none => exact hrest visited' hsub
    · exact hrest visited subset_rfl

/-- A greater bound changes nothing: the recursion ends by itself. -/
theorem search_stable {inner : Finset V} (hinner : ∀ v, next v ≠ [] → v ∈ inner) (more : ℕ) :
    ∀ {levels : ℕ} {v : V} {visited : Finset V}, v ∉ visited → (inner \ visited).card < levels →
      search next allow stop (levels + more) v visited =
        search next allow stop levels v visited := by
  intro levels
  induction levels with
  | zero => exact fun _ h => absurd h (Nat.not_lt_zero _)
  | succ levels ih =>
    intro v visited hv hcard
    have hlist : searchList allow (search next allow stop (levels + more)) (next v)
        (insert v visited) = searchList allow (search next allow stop levels) (next v)
          (insert v visited) := by
      refine searchList_congr fun w hw visited' hsub hwn => ?_
      have hmem : v ∈ inner \ visited :=
        Finset.mem_sdiff.mpr ⟨hinner v (List.ne_nil_of_mem hw), hv⟩
      have hless : (inner \ visited').card < levels := by
        have hlt : (inner \ insert v visited).card < (inner \ visited).card := by
          rw [Finset.sdiff_insert]
          exact Finset.card_erase_lt_of_mem hmem
        have hle := Finset.card_le_card (Finset.sdiff_subset_sdiff (subset_refl inner) hsub)
        omega
      exact ⟨ih hwn hless, (search_visits hinner hwn hless).subset⟩
    rw [Nat.succ_add, search, search, hlist]

/-! ### A search from nothing visited -/

section Root

variable {inner : Finset V} (hinner : ∀ v, next v ≠ [] → v ∈ inner) (v : V)
include hinner

/-- Without a stop vertex all reachable vertices are visited. -/
theorem visited_eq_reach (h : (search next allow stop (inner.card + 1) v ∅).1 = none) (w : V) :
    w ∈ (search next allow stop (inner.card + 1) v ∅).2 ↔ Reach next allow v w := by
  have hvis : Visits next allow stop v ∅ (search next allow stop (inner.card + 1) v ∅) :=
    search_visits hinner (Finset.notMem_empty v) (by simp)
  constructor
  · exact fun hw => hvis.reach w hw (Finset.notMem_empty w)
  · intro hw
    induction hw with
    | refl => exact hvis.self
    | tail _ hstep ih => exact (hvis.quiet h _ ih (Finset.notMem_empty _)).2 _ hstep

/-- The search finds a stop vertex exactly when one is reachable. -/
theorem search_isSome_iff :
    (search next allow stop (inner.card + 1) v ∅).1.isSome = true ↔
      ∃ w, Reach next allow v w ∧ stop w = true := by
  have hvis : Visits next allow stop v ∅ (search next allow stop (inner.card + 1) v ∅) :=
    search_visits hinner (Finset.notMem_empty v) (by simp)
  cases hr : (search next allow stop (inner.card + 1) v ∅).1 with
  | some path =>
    obtain ⟨w, -, -, -, hstop, hmem⟩ := hvis.found path hr
    exact iff_of_true rfl ⟨w, hvis.reach w hmem (Finset.notMem_empty w), hstop⟩
  | none =>
    refine iff_of_false (by simp) ?_
    rintro ⟨w, hreach, hstop⟩
    have hmem := (visited_eq_reach hinner v hr w).mpr hreach
    rw [(hvis.quiet hr w hmem (Finset.notMem_empty w)).1] at hstop
    cases hstop

/-- The path that is found leads from the start to a stop vertex, without a vertex met twice. -/
theorem search_path {path : List V}
    (h : (search next allow stop (inner.card + 1) v ∅).1 = some path) :
    ∃ w, path.head? = some v ∧ path.getLast? = some w ∧ path.IsChain (Step next allow) ∧
      path.Nodup ∧ stop w = true := by
  have hvis : Visits next allow stop v ∅ (search next allow stop (inner.card + 1) v ∅) :=
    search_visits hinner (Finset.notMem_empty v) (by simp)
  obtain ⟨w, hhead, hlast, hchain, hstop, -⟩ := hvis.found path h
  exact ⟨w, hhead, hlast, hchain, (hvis.simple path h).1, hstop⟩

end Root

end Search

end DepthFirst
