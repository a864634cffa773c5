import TurtleDb.Execution.Draining
import TurtleDb.Execution.GroupBy
import TurtleDb.Execution.Limit
import TurtleDb.Lib.FullBatches

/-!
# Batches of one size

An executor that is always asked for the same number of rows gives full batches, if its child does.
One section for each executor.
-/

namespace TurtleDb.Execution

open TurtleDb.Lib TurtleDb.Buffer TurtleDb.Table TurtleDb.Datatype

variable {σ φ : Type} {n fuel N : Nat} {excuse : Prop} {child : AbstractExecutor σ}
  {R : σ → List Row → Prop}

/-! ## Leaves -/

namespace ValuesExecutor

theorem full (plan : ValuesPlanNode) (n : Nat) :
    Full n False (next plan) fun cursor out => rowsFrom plan cursor = .ok out := by
  intro cursor out h
  obtain ⟨cursor', hfill, hrest⟩ := fill_of_rowsFrom (n := n) h
  exact .inl ⟨cursor', by rw [next, hfill]; rfl, hrest⟩

end ValuesExecutor

namespace SeqScanExecutor

variable {δ : Type} [PageDisk δ] {h : TableHeap} {b : BufferPoolManager δ} {it : TableIterator}

theorem fill_mono {r : List Row × TableIterator × BufferPoolManager δ} {fuel' : Nat}
    (hr : fill fuel h n b it = .ok r) (hle : fuel ≤ fuel') : fill fuel' h n b it = .ok r := by
  induction n generalizing b it r with
  | zero => exact hr
  | succ n ih =>
      rw [fill] at hr ⊢
      split at hr
      · rwa [if_pos ‹_›]
      · rw [if_neg ‹_›]
        obtain ⟨⟨it', b'⟩, hinc, hr⟩ := bind_eq_ok.mp hr
        obtain ⟨⟨rows, it'', b''⟩, hrows, hr⟩ := bind_eq_ok.mp hr
        rw [TableIterator.increment_mono hinc hle, ok_bind]
        dsimp only
        rw [ih hrows]
        exact hr

/-- With too little fuel the scan gives the same rows, or fails. -/
theorem full (n fuel N : Nat) :
    Full n (fuel ≤ N) (next fuel : AbstractExecutor (BufferPoolManager δ × SeqScanExecutor))
      fun st out => Visits (max fuel (N + 1)) st.2.tableHeap st.1 st.2.iter out := by
  rintro ⟨b, e⟩ out hv
  obtain ⟨it', b', hfill, hrest⟩ := Visits.fill hv n
  cases hown : fill fuel e.tableHeap n b e.iter with
  | ok r =>
      have hr := fill_mono hown (Nat.le_max_left fuel (N + 1))
      cases hr.symm.trans hfill
      exact .inl ⟨(b', { e with iter := it' }), by rw [next, hown]; rfl, hrest⟩
  | error fault =>
      refine .inr ⟨?_, fault, by rw [next, hown]; rfl⟩
      by_contra hlt
      rw [Nat.max_eq_left (Nat.succ_le_of_lt (Nat.not_le.mp hlt))] at hfill
      cases hown.symm.trans hfill

end SeqScanExecutor

/-! ## Sorts and aggregations -/

namespace SortExecutor

theorem full (hn : 1 ≤ n) :
    Full n False next fun s l => l = (s.sortedEntries.drop s.cursor).map SortEntry.row := by
  rintro s _ rfl
  dsimp only
  rw [next]
  by_cases hend : s.cursor ≥ s.sortedEntries.length
  · have hnil : s.sortedEntries.drop s.cursor = [] := List.drop_of_length_le hend
    rw [if_pos hend, hnil, List.map_nil, List.take_nil, List.drop_nil]
    exact .inl ⟨s, rfl, by rw [hnil]; rfl⟩
  · rw [if_neg hend]
    have hlen : ((s.sortedEntries.drop s.cursor).map SortEntry.row).length =
        s.sortedEntries.length - s.cursor := by rw [List.length_map, List.length_drop]
    have htake : ((s.sortedEntries.drop s.cursor).map SortEntry.row).take n =
        ((s.sortedEntries.drop s.cursor).take
          (min n (s.sortedEntries.length - s.cursor))).map SortEntry.row := by
      rw [← List.map_take, ← hlen, List.length_map, ← List.take_eq_take_min]
    have hne : ((s.sortedEntries.drop s.cursor).map SortEntry.row).take n ≠ [] := by
      intro hnil
      have := congrArg List.length hnil
      rw [List.length_take, hlen, List.length_nil] at this
      omega
    refine .inl ⟨_, by rw [batchOf_of_ne hne, htake], ?_⟩
    rw [← List.map_drop, List.drop_drop]
    rcases Nat.le_total n (s.sortedEntries.length - s.cursor) with hle | hle
    · rw [Nat.min_eq_left hle]
    · have hfar : s.sortedEntries.length ≤ s.cursor + n := by omega
      have hend' : s.sortedEntries.length ≤ s.cursor + (s.sortedEntries.length - s.cursor) := by
        omega
      rw [Nat.min_eq_right hle, List.drop_of_length_le hfar, List.drop_of_length_le hend']

/-- The body of the loop over the child's batches. -/
def addEntries (orderBys : List OrderBy) (entries : List SortEntry) (rows : List Row) :
    Except Fault (List SortEntry) := do
  let new ← rows.mapM (entry orderBys)
  return entries ++ new

theorem addEntries_nil (orderBys : List OrderBy) (entries : List SortEntry) :
    addEntries orderBys entries [] = .ok entries := by
  rw [addEntries, List.mapM_nil]
  exact congrArg Except.ok (List.append_nil entries)

theorem addEntries_append (orderBys : List OrderBy) (entries : List SortEntry)
    (rows rows' : List Row) : addEntries orderBys entries (rows ++ rows') =
      addEntries orderBys entries rows >>= fun entries => addEntries orderBys entries rows' := by
  rw [addEntries, addEntries, List.mapM_append]
  cases rows.mapM (entry orderBys) with
  | error e => rfl
  | ok new =>
      rw [ok_bind, ok_bind]
      change _ = addEntries orderBys (entries ++ new) rows'
      rw [addEntries]
      cases rows'.mapM (entry orderBys) with
      | error e => rfl
      | ok new' => exact congrArg Except.ok (List.append_assoc entries new new').symm

theorem collect_eq_foldBatches (orderBys : List OrderBy) (fuel : Nat) (c : σ)
    (entries : List SortEntry) :
    collect child orderBys fuel c entries =
      foldBatches .outOfFuel 256 (addEntries orderBys) child fuel c entries := by
  induction fuel generalizing c entries with
  | zero => rfl
  | succ fuel ih =>
      rw [collect, foldBatches]
      cases child c 256 with
      | error e => rfl
      | ok r =>
          obtain ⟨batch, c'⟩ := r
          cases batch with
          | none => rfl
          | some rows =>
              simp only [ok_bind, addEntries]
              cases rows.mapM (entry orderBys) with
              | error e => rfl
              | ok new => exact ih c' (entries ++ new)

theorem collect_full {orderBys : List OrderBy} {c : σ} {rows : List Row}
    {new : List SortEntry} (hchild : Full 256 excuse child R) (hc : R c rows)
    (hnew : rows.mapM (entry orderBys) = .ok new) (fuel : Nat) :
    (∃ c', collect child orderBys fuel c [] = .ok (new, c')) ∨
      (fuel ≤ rows.length ∨ excuse) ∧ ∃ e, collect child orderBys fuel c [] = .error e := by
  have hbody : addEntries orderBys [] rows = .ok new := by
    rw [addEntries, hnew]
    rfl
  rw [collect_eq_foldBatches]
  rcases hchild.foldBatches (by decide) .outOfFuel fuel (addEntries_nil orderBys)
    (addEntries_append orderBys) hc hbody with ⟨c', hfold, -⟩ | herror
  · exact .inl ⟨c', hfold⟩
  · exact .inr herror

end SortExecutor

namespace AggregationExecutor

variable [Aggregating φ] {rt : Runtime} {plan : AggregationPlan φ}

/-- What is emitted for an element of the hash table. -/
def emitRow (plan : AggregationPlan φ) (e : AggregationHashTable.Entry) : Except Fault Row := do
  let values ← valuesOf plan e
  makeRow plan values

theorem full (plan : AggregationPlan φ) (n : Nat) :
    Full n False (next plan) fun s l => s.ahead.mapM (emitRow plan) = .ok l := by
  intro s l h
  obtain ⟨hbatch, hrest⟩ := mapM_split h n
  refine .inl ⟨⟨s.ahead.drop n⟩, ?_, hrest⟩
  change ((s.ahead.take n).mapM (emitRow plan) >>= _) = _
  rw [hbatch]
  rfl

theorem consume_eq_foldBatches (fuel : Nat) (c : σ) (entries : List AggregationHashTable.Entry) :
    consume rt plan child fuel c entries =
      foldBatches .outOfFuel 256 (insertBatch rt plan) child fuel c entries := by
  induction fuel generalizing c entries with
  | zero => rfl
  | succ fuel ih =>
      rw [consume, foldBatches]
      cases child c 256 with
      | error e => rfl
      | ok r =>
          obtain ⟨batch, c'⟩ := r
          cases batch with
          | none => rfl
          | some rows =>
              simp only [ok_bind]
              cases insertBatch rt plan entries rows with
              | error e => rfl
              | ok entries' => exact ih c' entries'

/-- The loop of `init`. -/
theorem consume_full {c : σ} {rows : List Row} {entries : List AggregationHashTable.Entry}
    (hchild : Full 256 excuse child R) (hc : R c rows)
    (hentries : insertBatch rt plan [] rows = .ok entries) (fuel : Nat) :
    (∃ c', consume rt plan child fuel c [] = .ok (entries, c')) ∨
      (fuel ≤ rows.length ∨ excuse) ∧ ∃ e, consume rt plan child fuel c [] = .error e := by
  rw [consume_eq_foldBatches]
  rcases hchild.foldBatches (by decide) .outOfFuel fuel (fun _ => rfl) insertBatch_append hc
    hentries with ⟨c', hfold, -⟩ | herror
  · exact .inl ⟨c', hfold⟩
  · exact .inr herror

end AggregationExecutor

/-! ## Filters -/

namespace FilterExecutor

variable {filterExpr : Option (Tuple → Except Fault Value)} {keep : Row → Bool}

theorem fill_full {rows batch out : List Row} {i j : Nat}
    (h : fill filterExpr n rows i batch = .ok (out, some j)) : n ≤ out.length := by
  induction rows generalizing i batch with
  | nil => cases h
  | cons row rows ih =>
      rw [fill] at h
      obtain ⟨pass, -, h⟩ := bind_eq_ok.mp h
      split at h
      · split at h
        · cases h
          assumption
        · exact ih h
      · exact ih h

/-- What the filter has still to give. Fewer rows wait than fill a batch. -/
def Partly (filterExpr : Option (Tuple → Except Fault Value)) (keep : Row → Bool) (n N : Nat)
    (R : σ → List Row → Prop) (s : State σ) (l : List Row) : Prop :=
  (waiting s).length < n ∧ ∃ rest, R s.child rest ∧ rest.length ≤ N ∧
    Decides filterExpr keep (waiting s ++ rest) ∧ l = (waiting s ++ rest).filter keep

/-- The loop fills the batch, and asks the child no more often than it has rows. -/
theorem full_loop (hchild : Full n excuse child R) {c : σ} {rest batch : List Row} (hc : R c rest)
    (hN : rest.length ≤ N) (h : Decides filterExpr keep rest) (hbatch : batch.length < n) :
    (∃ s', loop filterExpr child n fuel c batch =
        .ok (batchOf ((batch ++ rest.filter keep).take n), s') ∧
      Partly filterExpr keep n N R s' ((batch ++ rest.filter keep).drop n)) ∨
      (fuel ≤ rest.length ∨ excuse) ∧ ∃ e, loop filterExpr child n fuel c batch = .error e := by
  have hn : 1 ≤ n := Nat.lt_of_le_of_lt (Nat.zero_le _) hbatch
  induction fuel generalizing c rest batch with
  | zero => exact .inr ⟨.inl (Nat.zero_le _), .outOfFuel, rfl⟩
  | succ fuel ih =>
      rw [loop]
      rcases hchild c rest hc with ⟨c', hnext, hc'⟩ | ⟨hex, e, hnext⟩
      · rw [hnext, ok_bind]
        cases rest with
        | nil =>
            rw [List.drop_nil] at hc'
            rw [List.filter_nil, List.append_nil, List.take_of_length_le (Nat.le_of_lt hbatch),
              List.drop_of_length_le (Nat.le_of_lt hbatch), List.take_nil]
            exact .inl ⟨_, rfl, hn, [], hc', Nat.zero_le _, Decides.nil, rfl⟩
        | cons row rest =>
            have htake := take_ne_nil hn row rest
            have hsplit := List.take_append_drop n (row :: rest)
            rw [batchOf_of_ne htake]
            dsimp only
            rw [← hsplit] at h
            rcases fill_eq h.left n 0 batch with
              ⟨hall, hless⟩ | ⟨taken, left, hrows, htaken, hfull, hle⟩
            · have hless' := hless hbatch
              have hdrop : ((row :: rest).drop n).length < (row :: rest).length := by
                rw [List.length_drop, List.length_cons]
                omega
              have hwhole : batch ++ ((row :: rest).take n).filter keep ++
                  ((row :: rest).drop n).filter keep = batch ++ (row :: rest).filter keep := by
                rw [List.append_assoc, ← List.filter_append, hsplit]
              have hrest := ih hc' (Nat.le_trans (Nat.le_of_lt hdrop) hN) h.right hless'
              rw [hwhole] at hrest
              rw [hall, ok_bind]
              rcases hrest with hok | ⟨hfuel | hex, herror⟩
              · exact .inl hok
              · exact .inr ⟨.inl (Nat.lt_of_le_of_lt hfuel hdrop), herror⟩
              · exact .inr ⟨.inr hex, herror⟩
            · have htne : taken ≠ [] := fun h0 => htaken (by rw [h0]; rfl)
              have hlen : (batch ++ taken.filter keep).length = n :=
                Nat.le_antisymm (hle hbatch) (fill_full hfull)
              have hwhole : batch ++ (row :: rest).filter keep =
                  batch ++ taken.filter keep ++ (left ++ (row :: rest).drop n).filter keep := by
                rw [List.append_assoc, ← List.filter_append, ← List.append_assoc, ← hrows, hsplit]
              have hleft : left.length < n := by
                have hshort := congrArg List.length hrows
                have hpos := List.length_pos_of_ne_nil htne
                rw [List.length_take, List.length_append] at hshort
                omega
              have hdecides : Decides filterExpr keep (left ++ (row :: rest).drop n) := by
                rw [hrows, List.append_assoc] at h
                exact h.right
              have hne : batch ++ taken.filter keep ≠ [] := by simp [htaken]
              have hwait := waiting_full c' htne left
              rw [hwhole, List.take_left' hlen, List.drop_left' hlen, batchOf_of_ne hne, hfull,
                ok_bind, hrows, Nat.zero_add]
              refine .inl ⟨_, rfl, ?_, (row :: rest).drop n, hc', ?_, ?_, ?_⟩
              · rwa [hwait]
              · rw [List.length_drop]
                omega
              · rwa [hwait]
              · rw [hwait]
      · exact .inr ⟨.inr hex, e, by rw [hnext]; rfl⟩

theorem full (hchild : Full n excuse child R) (fuel N : Nat) :
    Full n (fuel ≤ N ∨ excuse) (next filterExpr child fuel) (Partly filterExpr keep n N R) := by
  rintro s _ ⟨hwait, rest, hc, hN, h, rfl⟩
  have hless : ((waiting s).filter keep).length < n :=
    Nat.lt_of_le_of_lt (List.length_filter_le _ _) hwait
  rw [next_eq h.left, filterMap_emit, List.filter_append]
  refine (full_loop hchild hc hN h.right hless).imp_right ?_
  rintro ⟨hfuel | hex, herror⟩
  · exact ⟨.inl (Nat.le_trans hfuel hN), herror⟩
  · exact ⟨.inr hex, herror⟩

end FilterExecutor

/-! ## Projections -/

namespace ProjectionExecutor

open FilterExecutor (waiting waiting_full)

variable {plan : ProjectionPlanNode} {image : Tuple → Tuple}

theorem fill_full {rows batch out : List Row} {i j : Nat}
    (h : fill plan n rows i batch = .ok (out, some j)) : n ≤ out.length := by
  induction rows generalizing i batch with
  | nil => cases h
  | cons row rows ih =>
      rw [fill] at h
      obtain ⟨tuple, -, h⟩ := bind_eq_ok.mp h
      split at h
      · cases h
        assumption
      · exact ih h

/-- What the projection has still to give. No row waits. -/
def Whole (plan : ProjectionPlanNode) (image : Tuple → Tuple) (R : σ → List Row → Prop)
    (s : State σ) (l : List Row) : Prop :=
  waiting s = [] ∧ ∃ rest, R s.child rest ∧ Projects plan image rest ∧
    l = rest.map (imageRow image)

theorem full (hn : 1 ≤ n) (hchild : Full n excuse child R) :
    Full n excuse (next plan child) (Whole plan image R) := by
  rintro s _ ⟨hwait, rest, hc, h, rfl⟩
  have hnone : Projects plan image (waiting s) := by
    rw [hwait]
    exact fun _ hr => (nomatch hr)
  rw [next_eq hnone, hwait, List.filterMap_nil, advance]
  rcases hchild s.child rest hc with ⟨c', hnext, hc'⟩ | ⟨hex, e, hnext⟩
  · rw [hnext, ok_bind]
    cases rest with
    | nil =>
        rw [List.drop_nil] at hc'
        rw [List.map_nil, List.take_nil, List.drop_nil]
        exact .inl ⟨_, rfl, rfl, [], hc', h, rfl⟩
    | cons row rest =>
        have htake := take_ne_nil hn row rest
        have himages : ((row :: rest).map (imageRow image)).take n =
            ((row :: rest).take n).map (imageRow image) := List.map_take.symm
        have hne : ((row :: rest).take n).map (imageRow image) ≠ [] := fun h0 =>
          htake (List.map_eq_nil_iff.mp h0)
        have hrest : ((row :: rest).map (imageRow image)).drop n =
            ((row :: rest).drop n).map (imageRow image) := List.map_drop.symm
        have hprojects := List.take_append_drop n (row :: rest) ▸ h
        rw [batchOf_of_ne htake, himages, hrest, batchOf_of_ne hne]
        dsimp only
        rcases fill_eq hprojects.left n 0 [] with ⟨hall, -⟩ | ⟨taken, left, hrows, htaken, hfull, -⟩
        · rw [hall, ok_bind, List.nil_append]
          refine .inl ⟨⟨c', (row :: rest).take n, 0⟩, ?_, rfl, _, hc', hprojects.right, rfl⟩
          have hfalse : (((row :: rest).take n).map (imageRow image)).isEmpty = false := by
            rwa [← Bool.not_eq_true, List.isEmpty_iff]
          dsimp only
          rw [hfalse]
          rfl
        · -- a batch of the child is no larger than the one that is filled
          have hleft : left = [] := by
            have hshort := congrArg List.length hrows
            have hlong := fill_full hfull
            rw [List.length_take, List.length_append] at hshort
            rw [List.nil_append, List.length_map] at hlong
            exact List.length_eq_zero_iff.mp (by omega)
          subst hleft
          rw [List.append_nil] at hrows
          rw [hfull, ok_bind, hrows, List.nil_append, Nat.zero_add]
          have hlast := waiting_full c' htaken []
          rw [List.append_nil] at hlast
          exact .inl ⟨_, rfl, hlast, _, hc', hprojects.right, rfl⟩
  · exact .inr ⟨hex, e, by rw [hnext]; rfl⟩

end ProjectionExecutor

/-! ## LIMIT -/

namespace LimitExecutor

/-- What LIMIT has still to give. If it is served, the child has as many rows as are wanted, or only
whole batches. -/
def Remaining (n limit : Nat) (served : Prop) (R : σ → List Row → Prop) (s : State σ)
    (l : List Row) : Prop :=
  s.emittedCount ≤ limit ∧ ∃ rest, R s.child rest ∧ l = rest.take (limit - s.emittedCount) ∧
    (served → limit - s.emittedCount ≤ rest.length ∨ n ∣ rest.length)

theorem full (hn : 1 ≤ n) {limit : Nat} {served : Prop} (hchild : Full n excuse child R) :
    Full n (excuse ∨ ¬ served) (next child limit) (Remaining n limit served R) := by
  rintro s _ ⟨hle, rest, hc, rfl, hserved⟩
  rcases hchild s.child rest hc with ⟨c', hnext, hc'⟩ | ⟨hex, e, hnext⟩
  · cases rest with
    | nil =>
        rw [List.drop_nil] at hc'
        rw [List.take_nil] at hnext
        rw [List.take_nil, List.take_nil, List.drop_nil, next_none hle hnext]
        exact .inl ⟨_, rfl, hle, [], hc', List.take_nil.symm, fun _ => .inr (Nat.dvd_zero n)⟩
    | cons row rest =>
        rw [batchOf_of_ne (take_ne_nil hn row rest)] at hnext
        have hlen : ((row :: rest).take n).length = min n (rest.length + 1) := List.length_take
        have hdrop : ((row :: rest).drop n).length = rest.length + 1 - n := List.length_drop
        rw [next_some hle hnext]
        by_cases hfetch : min n (limit - s.emittedCount) ≤ ((row :: rest).take n).length
        · rw [if_pos hfetch]
          have hbatch : ((row :: rest).take n).take (min n (limit - s.emittedCount)) =
              ((row :: rest).take (limit - s.emittedCount)).take n := by
            rw [List.take_take, List.take_take]
            congr 1
            omega
          have hrest : ((row :: rest).take (limit - s.emittedCount)).drop n =
              ((row :: rest).drop n).take (limit -
                (s.emittedCount + min n (limit - s.emittedCount))) := by
            rw [List.drop_take]
            congr 1
            omega
          rw [hbatch]
          refine .inl ⟨_, rfl, ?_, _, hc', hrest, fun hs => ?_⟩
          · dsimp only
            omega
          · dsimp only
            rw [hdrop]
            rcases hserved hs with hmany | hwhole
            · rw [List.length_cons] at hmany
              exact .inl (by omega)
            · exact .inr (Nat.dvd_sub hwhole (Nat.dvd_refl n))
        · rw [if_neg hfetch]
          refine .inr ⟨.inr fun hs => ?_, _, rfl⟩
          rw [hlen] at hfetch
          rcases hserved hs with hmany | hwhole
          · rw [List.length_cons] at hmany
            omega
          · rw [List.length_cons] at hwhole
            have := Nat.le_of_dvd (Nat.succ_pos _) hwhole
            omega
  · refine .inr ⟨.inl hex, e, ?_⟩
    rw [next, if_neg (Nat.not_lt.mpr hle), hnext]
    rfl

end LimitExecutor

end TurtleDb.Execution
