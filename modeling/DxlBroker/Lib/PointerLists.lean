import DxlBroker.Lib.PointerForest
import Mathlib.Data.Finset.Card

/-!
# Lists along pointers

Every vertex has a list of its own and points to one other vertex at most.  Its whole list is its own
one followed by the whole list of that vertex.  `gather` computes it and keeps it; a vertex is marked
before its list is complete, so the recursion ends on circles too.  Where the pointers come to an
end, no vertex is ever asked for a list that is not complete.
-/

namespace PointerLists

variable {V α : Type}

/-- The marked vertices and the lists that are kept. -/
structure Gathered (V α : Type) where
  marked : Finset V
  lists : V → List α

variable [DecidableEq V]

/-- A list is appended to the one that is kept for a vertex. -/
def Gathered.append (st : Gathered V α) (v : V) (list : List α) : Gathered V α :=
  { st with lists := Function.update st.lists v (st.lists v ++ list) }

def Gathered.mark (st : Gathered V α) (v : V) : Gathered V α :=
  { st with marked := insert v st.marked }

section

variable (next : V → Option V) (own : V → List α)

/-- The whole list of a vertex, within a number of levels. -/
def gather : ℕ → V → Gathered V α → Option (List α × Gathered V α)
  | 0, _, _ => none
  | levels + 1, v, st =>
      if v ∈ st.marked then some (st.lists v, st)
      else
        let st := (st.mark v).append v (own v)
        match next v with
        | none => some (st.lists v, st)
        | some w =>
            (gather levels w st).map fun res => ((res.2.append v res.1).lists v, res.2.append v res.1)

/-- The whole lists of some vertices in turn. -/
def gatherAll (levels : ℕ) : List V → Gathered V α → Option (Gathered V α)
  | [], st => some st
  | v :: vs, st => (gather next own levels v st).bind fun res => gatherAll levels vs res.2

/-- One step along the pointers. -/
def Step (v w : V) : Prop := next v = some w

/-- The whole list of a vertex from which the pointers come to an end. -/
inductive ListOf : V → List α → Prop
  | last {v : V} (h : next v = none) : ListOf v (own v)
  | step {v w : V} {list : List α} (h : next v = some w) (hlist : ListOf w list) :
      ListOf v (own v ++ list)

end

variable {next : V → Option V} {own : V → List α}

omit [DecidableEq V] in
theorem ListOf.of_step {v w : V} {list : List α} (h : ListOf next own v list)
    (hnext : next v = some w) : ∃ rest, ListOf next own w rest ∧ list = own v ++ rest := by
  cases h with
  | last hlast => exact absurd (hlast.symm.trans hnext) (by simp)
  | step hstep hlist =>
    rw [hstep, Option.some.injEq] at hnext
    exact ⟨_, hnext ▸ hlist, rfl⟩

omit [DecidableEq V] in
/-- Such a vertex is on no circle. -/
theorem ListOf.not_circle {v : V} {list : List α} (h : ListOf next own v list) :
    ¬ Relation.TransGen (Step next) v v := by
  induction h with
  | last hlast =>
    intro hcircle
    obtain ⟨w, hstep, -⟩ := Relation.TransGen.head'_iff.mp hcircle
    exact absurd (hlast.symm.trans hstep) (by simp)
  | @step v w list hnext _ ih =>
    intro hcircle
    obtain ⟨u, hstep, hback⟩ := Relation.TransGen.head'_iff.mp hcircle
    obtain rfl : u = w := Option.some.inj (hstep.symm.trans hnext)
    exact ih (Relation.TransGen.tail' hback hnext)

omit [DecidableEq V] in
/-- Among finitely many vertices without circles every vertex has a whole list. -/
theorem exists_listOf {S : Finset V} (hclosed : ∀ v ∈ S, ∀ w, next v = some w → w ∈ S)
    (hcircle : PointerForest.NoCircle (Step next)) {v : V} (hv : v ∈ S) :
    ∃ list, ListOf next own v list := by
  -- On a finite set a strict order is well-founded.
  have hstrict : IsStrictOrder V fun w v => Relation.TransGen (Step next) v w :=
    { irrefl := hcircle, trans := fun _ _ _ hba hcb => hcb.trans hba }
  have hwf := (Finset.finite_toSet S).wellFoundedOn
    (r := fun w v => Relation.TransGen (Step next) v w)
  refine hwf.induction (P := fun u => ∃ list, ListOf next own u list) (Finset.mem_coe.mpr hv)
    fun u hu ih => ?_
  cases hnext : next u with
  | none => exact ⟨own u, .last hnext⟩
  | some w =>
    obtain ⟨list, hlist⟩ := ih w (hclosed u hu w hnext) (.single hnext)
    exact ⟨_, .step hnext hlist⟩

/-! ### One vertex -/

/-- `gather` comes to an end: every level but the last marks a vertex. -/
theorem gather_isSome {S : Finset V} (hclosed : ∀ v ∈ S, ∀ w, next v = some w → w ∈ S)
    {levels : ℕ} {v : V} {st : Gathered V α} (hv : v ∈ S)
    (hlevels : (S \ st.marked).card < levels) :
    ∃ res, gather next own levels v st = some res ∧ st.marked ⊆ res.2.marked := by
  induction levels generalizing v st with
  | zero => omega
  | succ levels ih =>
    rw [gather]
    split_ifs with hmarked
    · exact ⟨_, rfl, Finset.Subset.refl _⟩
    · have hsub : st.marked ⊆ ((st.mark v).append v (own v)).marked := Finset.subset_insert _ _
      cases hnext : next v with
      | none => exact ⟨_, rfl, hsub⟩
      | some w =>
        -- The vertex is marked before the next one is visited.
        have hfewer : (S \ ((st.mark v).append v (own v)).marked).card < levels := by
          have hlt : (S \ insert v st.marked).card < (S \ st.marked).card :=
            Finset.card_lt_card ⟨Finset.sdiff_subset_sdiff (Finset.Subset.refl _)
              (Finset.subset_insert _ _), fun h => by
                have := h (Finset.mem_sdiff.mpr ⟨hv, hmarked⟩)
                simp at this⟩
          exact lt_of_lt_of_le hlt (Nat.lt_succ_iff.mp hlevels)
        obtain ⟨res, hres, hmore⟩ := ih (hclosed v hv w hnext) hfewer
        exact ⟨((res.2.append v res.1).lists v, res.2.append v res.1),
          by simp only [hres, Option.map_some], hsub.trans hmore⟩

/-- What `gather` does for a vertex. -/
structure Gathers (next : V → Option V) (own : V → List α) (v : V) (st : Gathered V α)
    (res : List α × Gathered V α) : Prop where
  marked : st.marked ⊆ res.2.marked
  self : v ∈ res.2.marked
  kept : ∀ u ∈ st.marked, res.2.lists u = st.lists u
  empty : ∀ u, u ∉ res.2.marked → res.2.lists u = []
  closed : ∀ u ∈ res.2.marked, u ∉ st.marked → ∀ w, next u = some w → w ∈ res.2.marked
  whole : ∀ u ∈ res.2.marked, u ∉ st.marked → ∀ list, ListOf next own u list →
    res.2.lists u = list
  result : ∀ list, ListOf next own v list → res.1 = list

/-- The marked vertices that the pointers lead to have their whole lists. -/
def WholeFrom (next : V → Option V) (own : V → List α) (v : V) (st : Gathered V α) : Prop :=
  ∀ u, Relation.ReflTransGen (Step next) v u → u ∈ st.marked → ∀ list, ListOf next own u list →
    st.lists u = list

theorem Gathered.append_lists_self (st : Gathered V α) (v : V) (list : List α) :
    (st.append v list).lists v = st.lists v ++ list := Function.update_self ..

theorem Gathered.append_lists_of_ne (st : Gathered V α) {u v : V} (h : u ≠ v) (list : List α) :
    (st.append v list).lists u = st.lists u := Function.update_of_ne h ..

section

variable {v : V} {st : Gathered V α}

/-- A vertex has its own list when it is marked, and nothing else changes. -/
theorem lists_mark (hempty : ∀ u, u ∉ st.marked → st.lists u = []) (hv : v ∉ st.marked) :
    ((st.mark v).append v (own v)).lists v = own v ∧
    (∀ u, u ≠ v → ((st.mark v).append v (own v)).lists u = st.lists u) ∧
    ∀ u, u ∉ insert v st.marked → ((st.mark v).append v (own v)).lists u = [] := by
  have hother : ∀ u, u ≠ v → ((st.mark v).append v (own v)).lists u = st.lists u :=
    fun u hu => Gathered.append_lists_of_ne _ hu _
  refine ⟨?_, hother, fun u hu => ?_⟩
  · rw [Gathered.append_lists_self]
    exact (congrArg (· ++ own v) (hempty v hv)).trans (List.nil_append _)
  · rw [Finset.mem_insert, not_or] at hu
    exact (hother u hu.1).trans (hempty u hu.2)

/-- A vertex where the pointers end. -/
theorem Gathers.of_last (hempty : ∀ u, u ∉ st.marked → st.lists u = []) (hv : v ∉ st.marked)
    (hnext : next v = none) :
    Gathers next own v st (((st.mark v).append v (own v)).lists v,
      (st.mark v).append v (own v)) := by
  obtain ⟨hself, hother, hnil⟩ := @lists_mark _ _ _ own _ _ hempty hv
  have hresult : ∀ list, ListOf next own v list → own v = list := by
    intro list hlist
    cases hlist with
    | last => rfl
    | step hstep => exact absurd (hnext.symm.trans hstep) (by simp)
  have honly : ∀ u ∈ insert v st.marked, u ∉ st.marked → u = v := fun u hu hnot =>
    (Finset.mem_insert.mp hu).resolve_right hnot
  refine ⟨Finset.subset_insert _ _, Finset.mem_insert_self _ _,
    fun u hu => hother u fun h => hv (h ▸ hu), hnil, fun u hu hnot w hw => ?_,
    fun u hu hnot list hlist => ?_, fun list hlist => hself.trans (hresult list hlist)⟩
  · rw [honly u hu hnot, hnext] at hw
    cases hw
  · obtain rfl := honly u hu hnot
    exact hself.trans (hresult list hlist)

/-- A vertex after the one that it points to. -/
theorem Gathers.of_step (hempty : ∀ u, u ∉ st.marked → st.lists u = []) (hv : v ∉ st.marked)
    {w : V} (hnext : next v = some w) {inner : List α × Gathered V α}
    (hinner : Gathers next own w ((st.mark v).append v (own v)) inner) :
    Gathers next own v st ((inner.2.append v inner.1).lists v, inner.2.append v inner.1) := by
  obtain ⟨hself, hother, -⟩ := @lists_mark _ _ _ own _ _ hempty hv
  have hmem : v ∈ inner.2.marked := hinner.marked (Finset.mem_insert_self _ _)
  have hne : ∀ u ∈ st.marked, u ≠ v := fun u hu h => hv (h ▸ hu)
  have hresult : ∀ list, ListOf next own v list →
      (inner.2.append v inner.1).lists v = list := by
    intro list hlist
    obtain ⟨rest, hrest, rfl⟩ := hlist.of_step hnext
    rw [Gathered.append_lists_self, hinner.kept v (Finset.mem_insert_self _ _), hself,
      hinner.result rest hrest]
  have hnew : ∀ u, u ∉ st.marked → u ≠ v → u ∉ ((st.mark v).append v (own v)).marked :=
    fun u hu huv h => (Finset.mem_insert.mp h).elim huv hu
  refine ⟨(Finset.subset_insert _ _).trans hinner.marked, hmem, fun u hu => ?_, fun u hu => ?_,
    fun u hu hnot x hx => ?_, fun u hu hnot list hlist => ?_, hresult⟩
  · rw [Gathered.append_lists_of_ne _ (hne u hu),
      hinner.kept u (Finset.mem_insert_of_mem hu), hother u (hne u hu)]
  · rw [Gathered.append_lists_of_ne _ fun h => hu (by rw [h]; exact hmem)]
    exact hinner.empty u hu
  · by_cases huv : u = v
    · rw [huv, hnext, Option.some.injEq] at hx
      exact hx ▸ hinner.self
    · exact hinner.closed u hu (hnew u hnot huv) x hx
  · by_cases huv : u = v
    · subst huv
      exact hresult list hlist
    · rw [Gathered.append_lists_of_ne _ huv]
      exact hinner.whole u hu (hnew u hnot huv) list hlist

theorem gather_spec {levels : ℕ} {res : List α × Gathered V α}
    (hres : gather next own levels v st = some res) (hempty : ∀ u, u ∉ st.marked → st.lists u = [])
    (hwhole : WholeFrom next own v st) : Gathers next own v st res := by
  induction levels generalizing v st res with
  | zero => cases hres
  | succ levels ih =>
    rw [gather] at hres
    split_ifs at hres with hmarked
    · cases hres
      exact ⟨Finset.Subset.refl _, hmarked, fun _ _ => rfl, hempty, fun u hu hnot => absurd hu hnot,
        fun u hu hnot => absurd hu hnot, hwhole v .refl hmarked⟩
    · cases hnext : next v with
      | none =>
        simp only [hnext] at hres
        cases hres
        exact .of_last hempty hmarked hnext
      | some w =>
        simp only [hnext] at hres
        obtain ⟨inner, hinner, rfl⟩ := Option.map_eq_some_iff.mp hres
        obtain ⟨-, hother, hnil⟩ := @lists_mark _ _ _ own _ _ hempty hmarked
        refine .of_step hempty hmarked hnext (ih hinner hnil fun u hreach hu list hlist => ?_)
        rcases Finset.mem_insert.mp hu with rfl | hold
        · -- A vertex that leads back to itself has no whole list.
          exact absurd (Relation.TransGen.head' (show Step next _ w from hnext) hreach) hlist.not_circle
        · rw [hother u fun h => hmarked (h ▸ hold)]
          exact hwhole u (.head (show Step next v w from hnext) hreach) hold list hlist

end

/-! ### All vertices -/

/-- The marked vertices have their whole lists, the others nothing, and the pointers stay among the
marked ones. -/
structure Sound (next : V → Option V) (own : V → List α) (st : Gathered V α) : Prop where
  empty : ∀ u, u ∉ st.marked → st.lists u = []
  closed : ∀ u ∈ st.marked, ∀ w, next u = some w → w ∈ st.marked
  whole : ∀ u ∈ st.marked, ∀ list, ListOf next own u list → st.lists u = list

theorem Sound.gather {st : Gathered V α} (h : Sound next own st) {levels : ℕ} {v : V}
    {res : List α × Gathered V α} (hres : gather next own levels v st = some res) :
    Sound next own res.2 ∧ st.marked ⊆ res.2.marked ∧ v ∈ res.2.marked := by
  have hspec := gather_spec hres h.empty fun u _ hu => h.whole u hu
  refine ⟨⟨hspec.empty, fun u hu w hw => ?_, fun u hu list hlist => ?_⟩, hspec.marked, hspec.self⟩
  · by_cases hold : u ∈ st.marked
    · exact hspec.marked (h.closed u hold w hw)
    · exact hspec.closed u hu hold w hw
  · by_cases hold : u ∈ st.marked
    · exact (hspec.kept u hold).trans (h.whole u hold list hlist)
    · exact hspec.whole u hu hold list hlist

theorem Sound.gatherAll {levels : ℕ} {vs : List V} {st st' : Gathered V α}
    (h : Sound next own st) (hres : gatherAll next own levels vs st = some st') :
    Sound next own st' ∧ st.marked ⊆ st'.marked ∧ ∀ v ∈ vs, v ∈ st'.marked := by
  induction vs generalizing st with
  | nil =>
    cases hres
    exact ⟨h, Finset.Subset.refl _, nofun⟩
  | cons v vs ih =>
    obtain ⟨res, hone, hrest⟩ := Option.bind_eq_some_iff.mp hres
    obtain ⟨hsound, hsub, hv⟩ := h.gather hone
    obtain ⟨hsound', hsub', hvs⟩ := ih hsound hrest
    refine ⟨hsound', hsub.trans hsub', fun u hu => ?_⟩
    rcases List.mem_cons.mp hu with rfl | hu
    · exact hsub' hv
    · exact hvs u hu

theorem gatherAll_isSome {S : Finset V} (hclosed : ∀ v ∈ S, ∀ w, next v = some w → w ∈ S)
    {levels : ℕ} {vs : List V} (hvs : ∀ v ∈ vs, v ∈ S) {st : Gathered V α}
    (hlevels : (S \ st.marked).card < levels) :
    ∃ st', gatherAll next own levels vs st = some st' := by
  induction vs generalizing st with
  | nil => exact ⟨st, rfl⟩
  | cons v vs ih =>
    obtain ⟨res, hres, hsub⟩ := @gather_isSome _ _ _ next own S hclosed levels v st
      (hvs v List.mem_cons_self) hlevels
    have hfewer : (S \ res.2.marked).card < levels :=
      lt_of_le_of_lt (Finset.card_le_card (Finset.sdiff_subset_sdiff (Finset.Subset.refl _) hsub))
        hlevels
    obtain ⟨st', hst'⟩ := ih (fun u hu => hvs u (List.mem_cons_of_mem _ hu)) hfewer
    exact ⟨st', by rw [gatherAll, hres, Option.bind_some, hst']⟩

omit [DecidableEq V] in
/-- From empty lists. -/
theorem sound_start : Sound next own (⟨∅, fun _ => []⟩ : Gathered V α) :=
  ⟨fun _ _ => rfl, fun _ h => absurd h (Finset.notMem_empty _),
    fun _ h => absurd h (Finset.notMem_empty _)⟩

omit [DecidableEq V] in
/-- Without circles the whole list of a marked vertex is its own one and the whole list of the vertex
that it points to. -/
theorem Sound.lists_eq {st : Gathered V α} (h : Sound next own st) {S : Finset V}
    (hclosed : ∀ v ∈ S, ∀ w, next v = some w → w ∈ S)
    (hcircle : PointerForest.NoCircle (Step next)) {v : V} (hv : v ∈ S) (hmarked : v ∈ st.marked) :
    st.lists v = own v ++ (next v).elim [] st.lists := by
  obtain ⟨list, hlist⟩ := @exists_listOf _ _ next own S hclosed hcircle v hv
  rw [h.whole v hmarked list hlist]
  cases hlist with
  | last hnext => rw [hnext, Option.elim_none, List.append_nil]
  | step hnext hrest =>
    rw [hnext, Option.elim_some, h.whole _ (h.closed v hmarked _ hnext) _ hrest]

end PointerLists
