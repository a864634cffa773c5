import TurtleDb.Buffer.Pins

/-!
# The guards of one call

What a call does with the guard objects on its stack, step by step, while the other clients wait.
-/

namespace TurtleDb.Buffer

open TurtleDb.Lib BufferPoolManager

/-- The system in the course of a call, and the steps that the call has taken. -/
structure Caller (δ : Type) extends System δ where
  steps : List System.Event

/-- The pool after `drop` of a guard of this mode. -/
def Mode.unpin {δ : Type} (mode : Mode) (b : BufferPoolManager δ) (page : FrameId) :
    BufferPoolManager δ :=
  match mode with
  | .read => ReadPageGuard.drop b page
  | .write => WritePageGuard.drop b page

theorem Guard.unpin_eq {δ : Type} (g : Guard) (b : BufferPoolManager δ) :
    g.unpin b = g.mode.unpin b g.page := by
  unfold Guard.unpin
  cases g.mode <;> rfl

namespace Caller

/-- The guard at `a` is replaced. -/
def replace (a : Address) (p : Address × Guard) :
    List (Address × Guard) → List (Address × Guard)
  | [] => []
  | q :: guards => if q.1 = a then p :: guards else q :: replace a p guards

variable {δ : Type} [PageDisk δ]

instance (s : System δ) (g : Guard) : Decidable (s.LatchFree g) := by
  unfold System.LatchFree
  infer_instance

omit [PageDisk δ] in
/-- The constructor of a guard. A latch that is not free is waited for: the call alone does not
return. -/
def lock (c : Caller δ) (a : Address) : Except Fault (Caller δ) :=
  match c.guards.lookup a with
  | none => .ok c
  | some g =>
      if c.LatchFree g then .ok {
        toSystem := { c.toSystem with
          guards := replace a (a, { g with phase := .locked }) c.guards }
        steps := c.steps ++ [.lock a] }
      else .error .outOfFuel

/-- `read_page` or `write_page`, with the guard at `a`. -/
def request (c : Caller δ) (a : Address) (mode : Mode) (k : PageKey) :
    Except Fault (Option FrameId × Caller δ) := do
  match ← c.pool.fetchPage k.fileId k.pageId with
  | (none, b) =>
      return (none, { toSystem := c.setPool b, steps := c.steps ++ [.fetch a mode k] })
  | (some f, b) => do
      let c ← lock {
        toSystem := (c.setPool b).fetched a mode k f
        steps := c.steps ++ [.fetch a mode k] } a
      return (some f, c)

/-- `new_page`. The page waits for the guard at `a`. -/
def newPage (c : Caller δ) (a : Address) (file : FileId) :
    Except Fault (Option (FrameId × PageId) × Caller δ) := do
  match ← c.pool.newPage file with
  | (none, b) =>
      return (none, { toSystem := c.setPool b, steps := c.steps ++ [.newPage a .write file] })
  | (some (f, page), b) =>
      return (some (f, page), {
        toSystem := { (c.setPool b).fetched a .write ⟨file, page⟩ f with
          allocated := c.allocated + 1, handed := ⟨file, page⟩ :: c.handed }
        steps := c.steps ++ [.newPage a .write file] })

omit [PageDisk δ] in
/-- Bytes are written through the guard. -/
def access (c : Caller δ) (a : Address) (data : PageData) : Caller δ :=
  match c.guards.lookup a with
  | none => c
  | some g => {
      toSystem := { c.toSystem with pool := c.pool.setData g.page data }
      steps := c.steps ++ [.access a data] }

omit [PageDisk δ] in
/-- `drop`, and the destructor. -/
def drop (c : Caller δ) (a : Address) : Caller δ :=
  match c.guards.lookup a with
  | none => c
  | some g => {
      toSystem := { c.toSystem with
        pool := g.unpin c.pool
        guards := c.guards.eraseP fun p => p.1 == a
        unpins := g.serial :: c.unpins
        unsaved := fun f => c.unsaved f || (f = g.page ∧ g.mode = .write) }
      steps := c.steps ++ System.drop c.toSystem a }

omit [PageDisk δ] in
/-- The move constructor. -/
def move (c : Caller δ) (target source : Address) : Caller δ :=
  match c.guards.lookup source with
  | none => c
  | some g => {
      toSystem := { c.toSystem with guards := replace source (target, g) c.guards }
      steps := c.steps ++ System.moveConstruct c.toSystem target source }

omit [PageDisk δ] in
/-- `operator=(T &&)`. -/
def moveAssign (c : Caller δ) (target source : Address) : Caller δ :=
  if target = source then c else (c.drop target).move target source

/-! ## The steps are a run -/

/-- All pages asked for are among `handed`. -/
def Asked (c : Caller δ) (handed : List PageKey) : Prop :=
  ∀ a mode k, .fetch a mode k ∈ c.steps → k ∈ handed

/-- The call, whose objects are at the addresses from `stack` on, has come from `s` by its steps, if
it asked for pages that the pool has handed out. -/
def Runs (stack : Address) (s : System δ) (c : Caller δ) : Prop :=
  (∀ e ∈ c.steps, e.Own stack) ∧ (c.Asked s.handed → System.Run s c.steps c.toSystem)

/-- The call has a guard at `a`, beside the guards in `rest`. -/
def Holding (c : Caller δ) (a : Address) (mode : Mode) (f : FrameId)
    (rest : List (Address × Guard)) : Prop :=
  ∃ g, c.guards = (a, g) :: rest ∧ g.page = f ∧ g.mode = mode ∧ g.phase = .locked

variable {stack a a' : Address} {s : System δ} {c c' : Caller δ} {mode : Mode} {k : PageKey}
  {f : FrameId} {g : Guard} {guards rest : List (Address × Guard)}

theorem lookup_split (h : guards.lookup a = some g) :
    ∃ pre post, guards = pre ++ (a, g) :: post ∧ (∀ p, replace a p guards = pre ++ p :: post) ∧
      guards.eraseP (fun p => p.1 == a) = pre ++ post := by
  induction guards with
  | nil => cases h
  | cons q guards ih =>
      obtain ⟨a', g'⟩ := q
      by_cases ha : a' = a
      · subst ha
        rw [List.lookup_cons_self] at h
        cases h
        exact ⟨[], guards, rfl, fun p => if_pos rfl, List.eraseP_cons_of_pos (by simp)⟩
      · rw [List.lookup_cons, beq_eq_false_iff_ne.mpr (Ne.symm ha)] at h
        obtain ⟨pre, post, rfl, hreplace, herase⟩ := ih h
        refine ⟨(a', g') :: pre, post, rfl, fun p => ?_, ?_⟩
        · rw [replace, if_neg ha, hreplace]
          rfl
        · rw [List.eraseP_cons_of_neg (by simpa using ha), herase]
          rfl

theorem handed_subset {t : System δ} {es : List System.Event} (h : System.Run s es t) :
    s.handed ⊆ t.handed := by
  induction h with
  | nil => exact fun _ => id
  | snoc _ hstep ih =>
      cases hstep with
      | newPage _ _ => exact fun _ hk => List.mem_cons_of_mem _ (ih hk)
      | _ => exact ih

theorem Runs.snoc {e : System.Event} (h : Runs stack s c) (hsteps : c'.steps = c.steps ++ [e])
    (hown : e.Own stack) (hstep : (∀ a mode k, e = .fetch a mode k → k ∈ c.handed) →
      System.Step c.toSystem e c'.toSystem) : Runs stack s c' := by
  constructor
  · intro e' he'
    rw [hsteps] at he'
    rcases List.mem_append.mp he' with he' | he'
    · exact h.1 e' he'
    · exact List.mem_singleton.mp he' ▸ hown
  intro hasked
  have hasked' : c.Asked s.handed := fun a mode k hk =>
    hasked a mode k (by rw [hsteps]; exact List.mem_append_left _ hk)
  rw [hsteps]
  have hrun := h.2 hasked'
  refine .snoc hrun (hstep fun a mode k he => handed_subset hrun (hasked a mode k ?_))
  rw [hsteps, he]
  exact List.mem_append_right _ List.mem_cons_self

omit [PageDisk δ] in
theorem lock_ok (h : c.lock a = .ok c') (hg : c.guards.lookup a = some g) :
    c.LatchFree g ∧ c' = {
      toSystem := { c.toSystem with
        guards := replace a (a, { g with phase := .locked }) c.guards }
      steps := c.steps ++ [.lock a] } := by
  rw [lock, hg] at h
  dsimp only at h
  split at h
  · cases h
    exact ⟨‹_›, rfl⟩
  · cases h

theorem Runs.lock (h : Runs stack s c) (ha : stack ≤ a) (hl : c.lock a = .ok c')
    (hg : c.guards.lookup a = some g) (hphase : g.phase = .fetched) : Runs stack s c' := by
  obtain ⟨hfree, rfl⟩ := lock_ok hl hg
  obtain ⟨pre, post, hguards, hreplace, _⟩ := lookup_split hg
  refine h.snoc rfl ha fun _ => ?_
  dsimp only
  rw [hreplace]
  exact .lock hguards hphase hfree

omit [PageDisk δ] in
theorem access_eq (hg : c.guards.lookup a = some g) (data : PageData) : c.access a data = {
    toSystem := { c.toSystem with pool := c.pool.setData g.page data }
    steps := c.steps ++ [.access a data] } := by
  rw [Caller.access, hg]

theorem Runs.access (h : Runs stack s c) (ha : stack ≤ a) (hg : c.guards.lookup a = some g)
    (hphase : g.phase = .locked) (hmode : g.mode = .write) (data : PageData) :
    Runs stack s (c.access a data) := by
  obtain ⟨pre, post, hguards, _⟩ := lookup_split hg
  rw [access_eq hg]
  exact h.snoc rfl ha fun _ => .access hguards hphase hmode data

omit [PageDisk δ] in
theorem drop_eq (hg : c.guards.lookup a = some g) : c.drop a = {
    toSystem := { c.toSystem with
      pool := g.unpin c.pool
      guards := c.guards.eraseP fun p => p.1 == a
      unpins := g.serial :: c.unpins
      unsaved := fun f => c.unsaved f || (f = g.page ∧ g.mode = .write) }
    steps := c.steps ++ System.drop c.toSystem a } := by
  rw [Caller.drop, hg]

theorem Runs.drop (h : Runs stack s c) (ha : stack ≤ a) (hg : c.guards.lookup a = some g)
    (hphase : g.phase = .locked) : Runs stack s (c.drop a) := by
  obtain ⟨pre, post, hguards, _, herase⟩ := lookup_split hg
  have hevents : System.drop c.toSystem a = [.unlock a, .unpin a] := by
    rw [System.drop, if_pos]
    rw [hguards]
    simp
  have hunlocked : Runs stack s {
      toSystem := { c.toSystem with
        guards := pre ++ (a, { g with phase := .unlocked }) :: post }
      steps := c.steps ++ [.unlock a] } := h.snoc rfl ha fun _ => .unlock hguards hphase
  rw [drop_eq hg]
  refine hunlocked.snoc (e := .unpin a) ?_ ha fun _ => ?_
  · dsimp only
    rw [hevents, List.append_assoc]
    rfl
  · dsimp only
    rw [herase]
    exact .unpin (g := { g with phase := .unlocked }) rfl rfl

theorem Runs.move {target source : Address} (h : Runs stack s c) (hs : stack ≤ source)
    (ht : stack ≤ target) (hg : c.guards.lookup source = some g)
    (hphase : g.phase = .locked) (htarget : target ∉ c.guards.map Prod.fst) :
    Runs stack s (c.move target source) := by
  obtain ⟨pre, post, hguards, hreplace, _⟩ := lookup_split hg
  have hevents : System.moveConstruct c.toSystem target source = [.move source target] := by
    rw [System.moveConstruct, if_pos]
    rw [hguards]
    simp
  rw [Caller.move, hg]
  refine h.snoc (congrArg (c.steps ++ ·) hevents) ⟨hs, ht⟩ fun _ => ?_
  dsimp only
  rw [hreplace]
  exact .move hguards hphase htarget

/-! ## What the steps leave -/

theorem request_none (h : c.request a mode k = .ok (none, c')) (hs : Runs stack s c)
    (hstack : stack ≤ a) :
    Runs stack s c' ∧ c'.guards = c.guards ∧
      c.pool.fetchPage k.fileId k.pageId = .ok (none, c'.pool) := by
  obtain ⟨⟨frame, b⟩, hr, h⟩ := bind_eq_ok.mp h
  cases frame with
  | none =>
      cases h
      exact ⟨hs.snoc rfl hstack fun hk => .fetchFull (hk a mode k rfl) hr, rfl, hr⟩
  | some f =>
      obtain ⟨c₁, _, h⟩ := bind_eq_ok.mp h
      cases h

theorem request_some (h : c.request a mode k = .ok (some f, c')) (hs : Runs stack s c)
    (hstack : stack ≤ a) (ha : a ∉ c.guards.map Prod.fst) :
    Runs stack s c' ∧ c'.Holding a mode f c.guards ∧
      c.pool.fetchPage k.fileId k.pageId = .ok (some f, c'.pool) := by
  obtain ⟨⟨frame, b⟩, hr, h⟩ := bind_eq_ok.mp h
  cases frame with
  | none => cases h
  | some f' =>
      obtain ⟨c₁, hl, h⟩ := bind_eq_ok.mp h
      cases h
      have hfetched : Runs stack s {
          toSystem := (c.setPool b).fetched a mode k f
          steps := c.steps ++ [.fetch a mode k] } :=
        hs.snoc rfl hstack fun hk => .fetch ha (hk a mode k rfl) hr
      have hruns := hfetched.lock hstack hl (List.lookup_cons_self) rfl
      obtain ⟨_, rfl⟩ := lock_ok hl List.lookup_cons_self
      exact ⟨hruns, ⟨_, if_pos rfl, rfl, rfl, rfl⟩, hr⟩

omit [PageDisk δ] in
theorem Holding.lookup (h : c.Holding a mode f rest) : ∃ g, c.guards.lookup a = some g ∧
    g.page = f ∧ g.mode = mode ∧ g.phase = .locked := by
  obtain ⟨g, hguards, hrest⟩ := h
  refine ⟨g, ?_, hrest⟩
  rw [hguards, List.lookup_cons_self]

theorem Holding.access (h : c.Holding a .write f rest) (hs : Runs stack s c)
    (hstack : stack ≤ a) (data : PageData) :
    Runs stack s (c.access a data) ∧ (c.access a data).Holding a .write f rest ∧
      (c.access a data).pool = c.pool.setData f data := by
  obtain ⟨g, hg, rfl, hmode, hphase⟩ := h.lookup
  refine ⟨hs.access hstack hg hphase hmode data, ?_⟩
  rw [access_eq hg]
  exact ⟨h, rfl⟩

/-- The guard is given back. -/
theorem Holding.drop (h : c.Holding a mode f rest) (hs : Runs stack s c) (hstack : stack ≤ a) :
    Runs stack s (c.drop a) ∧ (c.drop a).guards = rest ∧ (c.drop a).pool = mode.unpin c.pool f := by
  obtain ⟨g, hguards, rfl, rfl, hphase⟩ := h
  have hg : c.guards.lookup a = some g := by rw [hguards, List.lookup_cons_self]
  refine ⟨hs.drop hstack hg hphase, ?_⟩
  rw [drop_eq hg]
  refine ⟨?_, g.unpin_eq c.pool⟩
  dsimp only
  rw [hguards, List.eraseP_cons_of_pos (by simp)]

omit [PageDisk δ] in
theorem drop_of_not_mem (ha : a ∉ c.guards.map Prod.fst) : c.drop a = c := by
  cases hg : c.guards.lookup a with
  | none => rw [Caller.drop, hg]
  | some g =>
      obtain ⟨pre, post, hguards, _⟩ := lookup_split hg
      exact absurd (by rw [hguards]; simp) ha

theorem Holding.move (h : c.Holding a mode f rest) (hs : Runs stack s c) (hstack : stack ≤ a)
    (hstack' : stack ≤ a') (ha : a' ∉ c.guards.map Prod.fst) : Runs stack s (c.move a' a) ∧
      (c.move a' a).Holding a' mode f rest ∧ (c.move a' a).pool = c.pool := by
  obtain ⟨g, hguards, hrest⟩ := h
  have hg : c.guards.lookup a = some g := by rw [hguards, List.lookup_cons_self]
  refine ⟨hs.move hstack hstack' hg hrest.2.2 ha, ?_⟩
  rw [Caller.move, hg]
  refine ⟨⟨g, ?_, hrest⟩, rfl⟩
  dsimp only
  rw [hguards, replace, if_pos rfl]

theorem newPage_none {file : FileId} (h : c.newPage a file = .ok (none, c')) (hs : Runs stack s c)
    (hstack : stack ≤ a) :
    Runs stack s c' ∧ c'.guards = c.guards ∧ c.pool.newPage file = .ok (none, c'.pool) := by
  obtain ⟨⟨frame, b⟩, hr, h⟩ := bind_eq_ok.mp h
  cases frame with
  | none =>
      cases h
      exact ⟨hs.snoc rfl hstack fun _ => .newPageFull hr, rfl, hr⟩
  | some f => cases h

theorem newPage_some {file : FileId} {page : PageId}
    (h : c.newPage a file = .ok (some (f, page), c')) (hs : Runs stack s c) (hstack : stack ≤ a)
    (ha : a ∉ c.guards.map Prod.fst) :
    Runs stack s c' ∧ c'.guards = (a, ⟨c.fetches, ⟨file, page⟩, f, .write, .fetched⟩) :: c.guards ∧
      ⟨file, page⟩ ∈ c'.handed ∧ c.pool.newPage file = .ok (some (f, page), c'.pool) := by
  obtain ⟨⟨frame, b⟩, hr, h⟩ := bind_eq_ok.mp h
  cases frame with
  | none => cases h
  | some f' =>
      cases h
      exact ⟨hs.snoc rfl hstack fun _ => .newPage ha hr, rfl, List.mem_cons_self, hr⟩

/-- The constructor of the guard of a new page. -/
theorem lock_fetched (h : c.lock a = .ok c') (hs : Runs stack s c) (hstack : stack ≤ a)
    (hguards : c.guards = (a, g) :: rest) (hphase : g.phase = .fetched) :
    Runs stack s c' ∧ c'.Holding a g.mode g.page rest ∧ c'.pool = c.pool := by
  have hg : c.guards.lookup a = some g := by rw [hguards, List.lookup_cons_self]
  refine ⟨hs.lock hstack h hg hphase, ?_⟩
  obtain ⟨_, rfl⟩ := lock_ok h hg
  refine ⟨⟨{ g with phase := .locked }, ?_, rfl, rfl, rfl⟩, rfl⟩
  dsimp only
  rw [hguards, replace, if_pos rfl]

/-- The guard at `a'` takes the place of the one at `a`, which is given back. -/
theorem Runs.moveAssign {g' : Guard} (hs : Runs stack s c) (hstack : stack ≤ a)
    (hstack' : stack ≤ a') (hne : a' ≠ a) (hguards : c.guards = (a', g') :: (a, g) :: rest)
    (hphase : g.phase = .locked) (hphase' : g'.phase = .locked) (ha : a ∉ rest.map Prod.fst) :
    Runs stack s (c.moveAssign a a') ∧ (c.moveAssign a a').Holding a g'.mode g'.page rest ∧
      (c.moveAssign a a').pool = g.mode.unpin c.pool g.page := by
  have hg : c.guards.lookup a = some g := by
    rw [hguards, List.lookup_cons, beq_eq_false_iff_ne.mpr (Ne.symm hne), List.lookup_cons_self]
  have hguards₁ : (c.drop a).guards = (a', g') :: rest := by
    rw [drop_eq hg]
    dsimp only
    rw [hguards, List.eraseP_cons_of_neg (by simpa using hne), List.eraseP_cons_of_pos (by simp)]
  have hout : a ∉ (c.drop a).guards.map Prod.fst := by
    rw [hguards₁, List.map_cons, List.mem_cons]
    exact fun hmem => hmem.elim (Ne.symm hne) ha
  have hheld : (c.drop a).Holding a' g'.mode g'.page rest := ⟨g', hguards₁, rfl, rfl, hphase'⟩
  obtain ⟨hs', hheld', hpool⟩ := hheld.move (hs.drop hstack hg hphase) hstack' hstack hout
  rw [Caller.moveAssign, if_neg (Ne.symm hne)]
  refine ⟨hs', hheld', ?_⟩
  rw [hpool, drop_eq hg]
  exact g.unpin_eq c.pool

/-- From one page to a new one: the old page is linked to it, the new one wrapped and initialised,
and the guard of the new one takes the place of the other. -/
theorem Holding.next (h : c.Holding a .write f rest) (hs : Runs stack s c) (hstack : stack ≤ a)
    (hstack' : stack ≤ a') (hne : a' ≠ a) (ha' : a' ∉ rest.map Prod.fst)
    (ha : a ∉ rest.map Prod.fst) {file : FileId} {f' : FrameId} {page : PageId} {c₁ c₂ : Caller δ}
    (hnew : c.newPage a' file = .ok (some (f', page), c₁)) (data data' : PageData)
    (hlock : (c₁.access a data).lock a' = .ok c₂) :
    c.pool.newPage file = .ok (some (f', page), c₁.pool) ∧
      (c₁.access a data).pool = c₁.pool.setData f data ∧ c₂.pool = c₁.pool.setData f data ∧
      Runs stack s ((c₂.access a' data').moveAssign a a') ∧
      ((c₂.access a' data').moveAssign a a').Holding a .write f' rest ∧
      ((c₂.access a' data').moveAssign a a').pool =
        WritePageGuard.drop (c₂.pool.setData f' data') f := by
  obtain ⟨g, hguards, rfl, hmode, hphase⟩ := h
  have hout : a' ∉ c.guards.map Prod.fst := by
    rw [hguards, List.map_cons, List.mem_cons]
    exact fun hmem => hmem.elim hne ha'
  obtain ⟨hs₁, hguards₁, _, hr⟩ := newPage_some hnew hs hstack' hout
  rw [hguards] at hguards₁
  have hg₁ : c₁.guards.lookup a = some g := by
    rw [hguards₁, List.lookup_cons, beq_eq_false_iff_ne.mpr (Ne.symm hne), List.lookup_cons_self]
  have hs₂ := hs₁.access hstack hg₁ hphase hmode data
  rw [access_eq hg₁] at hs₂ hlock ⊢
  obtain ⟨hs₃, hheld₃, hpool₃⟩ := lock_fetched hlock hs₂ hstack' hguards₁ rfl
  obtain ⟨hs₄, ⟨g', hguards₄, hpage, hmode', hphase'⟩, hpool₄⟩ := hheld₃.access hs₃ hstack' data'
  obtain ⟨hs₅, hheld₅, hpool₅⟩ := hs₄.moveAssign hstack hstack' hne hguards₄ hphase hphase' ha
  rw [hpage, hmode'] at hheld₅
  rw [hpool₄, hmode] at hpool₅
  exact ⟨hr, rfl, hpool₃, hs₅, hheld₅, hpool₅⟩

end Caller

end TurtleDb.Buffer
