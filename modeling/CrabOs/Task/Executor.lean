import CrabOs.Foundations.BoundedQueue
import CrabOs.Foundations.Runs

/-! The executor for any number of tasks with arbitrary futures. What a future does when it is
polled, and when wakers are used, is left to the environment. -/
namespace CrabOs.Tasks

/-- `future` tells the futures apart: it is the number of tasks created before this one. -/
structure Task where
  id : UInt64
  future : ℕ
  deriving DecidableEq

inductive Poll
  | ready
  | pending
  deriving DecidableEq

def queueSize : ℕ := 100

/-- The waker of a task is known by the id it pushes. -/
structure Executor where
  tasks : UInt64 → Option Task
  taskQueue : BoundedQueue UInt64 queueSize
  wakerCache : UInt64 → Option UInt64

namespace Executor

def new : Executor := ⟨fun _ => none,.empty,fun _ => none⟩

/-- A second task with the id of a live one, or a full queue, panics. -/
def spawn (e : Executor) (task : Task) : Option Executor :=
  if (e.tasks task.id).isSome then none
  else (e.taskQueue.push task.id).map fun queue =>
    { e with tasks := Function.update e.tasks task.id (some task), taskQueue := queue }

/-- `TaskWaker::wake_task`. -/
def wakeTask (e : Executor) (id : UInt64) : Option Executor :=
  (e.taskQueue.push id).map fun queue => { e with taskQueue := queue }

/-- `waker_cache.entry(task_id).or_insert_with(..)`. -/
def cacheWaker (e : Executor) (id : UInt64) : Executor :=
  { e with wakerCache := Function.update e.wakerCache id (some ((e.wakerCache id).getD id)) }

/-- A task that is done is removed with its cached waker. -/
def remove (e : Executor) (id : UInt64) : Executor :=
  { e with
    tasks := Function.update e.tasks id none
    wakerCache := Function.update e.wakerCache id none }

end Executor

/-- Where `run_ready_tasks` is. -/
inductive Point
  | outside
  | popping
  | polling (id : UInt64)
  deriving DecidableEq

/-- What has been seen of a future. -/
inductive Event
  | polled (future : ℕ)
  | ready (future : ℕ)
  deriving DecidableEq

/-- `nextId` is `NEXT_ID`; `created` are the tasks not spawned yet. `nextFuture`, `spawned` and
`log` only record what happened. -/
structure System where
  executor : Executor
  point : Point
  nextId : UInt64
  created : List Task
  nextFuture : ℕ
  spawned : List Task
  log : List Event

/-- `next` goes on to the next poll, and `finish` returns from it. Wakers are used by interrupt
handlers and futures at any time, also for tasks that are done. -/
inductive Move
  | create
  | spawn (task : Task)
  | enter
  | next
  | finish (result : Poll)
  | wake (id : UInt64)

namespace System

def initial : System := ⟨.new,.outside,0,[],0,[],[]⟩

/-- `Task::new` with `TaskId::new`, whose counter wraps. -/
def create (m : System) : System :=
  { m with
    nextId := m.nextId+1
    created := m.created++[⟨m.nextId,m.nextFuture⟩]
    nextFuture := m.nextFuture+1 }

/-- The executor is borrowed while `run_ready_tasks` runs. -/
def spawn (m : System) (task : Task) : Option System :=
  if m.point = .outside ∧ task ∈ m.created then
    (m.executor.spawn task).map fun executor => { m with
      executor := executor
      created := m.created.erase task
      spawned := m.spawned++[task] }
  else none

/-- The head of the loop, up to the poll of the future. -/
def next (m : System) : System :=
  match m.executor.taskQueue.pop with
  | none => { m with point := .outside }
  | some (id,queue) =>
    let executor := { m.executor with taskQueue := queue }
    match executor.tasks id with
    | none => { m with executor := executor }
    | some task => { m with
        executor := executor.cacheWaker id
        point := .polling id
        log := m.log++[.polled task.future] }

/-- The future that is polled returns. -/
def finish (m : System) (id : UInt64) : Poll → System
  | .pending => { m with point := .popping }
  | .ready => { m with
      executor := m.executor.remove id
      point := .popping
      log := m.log++((m.executor.tasks id).map fun task => .ready task.future).toList }

/-- `none` is a move that cannot be made here, or a panic. -/
def step (m : System) : Move → Option System
  | .create => some m.create
  | .spawn task => m.spawn task
  | .enter => if m.point = .outside then some { m with point := .popping } else none
  | .next => if m.point = .popping then some m.next else none
  | .finish result => match m.point with
    | .polling id => some (m.finish id result)
    | _ => none
  | .wake id => (m.executor.wakeTask id).map fun executor => { m with executor := executor }

/-- No future is polled after it returned `Ready`. -/
def NeverRepolled (m : System) : Prop :=
  ∀ future before after, m.log = before++.ready future :: after → .polled future ∉ after

/-- Every spawned task that has not returned `Ready` is still there. -/
def KeepsUnfinished (m : System) : Prop :=
  ∀ task ∈ m.spawned, .ready task.future ∉ m.log → m.executor.tasks task.id = some task

/-- Only tasks that are still there have a cached waker. -/
def CachesLive (m : System) : Prop :=
  ∀ id, (m.executor.wakerCache id).isSome → (m.executor.tasks id).isSome

/-- What the loop relies on: futures are told apart, the stored tasks are exactly the unfinished
ones, and the task that is polled is stored. -/
structure Inv (m : System) : Prop where
  fresh : ∀ task ∈ m.created++m.spawned, task.future < m.nextFuture
  distinct : ((m.created++m.spawned).map Task.future).Nodup
  stored : ∀ id task, m.executor.tasks id = some task →
    task.id = id ∧ task ∈ m.spawned ∧ .ready task.future ∉ m.log
  finished : ∀ future, .ready future ∈ m.log → ∃ task ∈ m.spawned, task.future = future
  polling : ∀ id, m.point = .polling id → (m.executor.tasks id).isSome
  repolled : m.NeverRepolled
  kept : m.KeepsUnfinished
  cached : m.CachesLive

variable {m m' : System}

lemma inv_initial : initial.Inv where
  fresh := by simp [initial]
  distinct := by simp [initial]
  stored := by simp [initial,Executor.new]
  finished := by simp [initial]
  polling := by simp [initial]
  repolled := by simp [NeverRepolled,initial]
  kept := by simp [KeepsUnfinished,initial]
  cached := by simp [CachesLive,initial,Executor.new]

lemma neverRepolled_concat (h : m.NeverRepolled) {event : Event} (hlog : m'.log = m.log++[event])
    (he : ∀ future, event = .polled future → .ready future ∉ m.log) : m'.NeverRepolled := by
  intro future before after hsplit hmem
  rw [hlog] at hsplit
  rcases List.eq_nil_or_concat after with rfl | ⟨after',last,rfl⟩
  · cases hmem
  · rw [List.concat_eq_append,← List.cons_append,← List.append_assoc] at hsplit
    obtain ⟨hinit,hlast⟩ := List.append_inj' hsplit rfl
    rw [List.concat_eq_append,List.mem_append] at hmem
    rcases hmem with hmem | hmem
    · exact h future before after' hinit hmem
    · rw [List.mem_singleton] at hmem
      exact he future ((List.singleton_inj.mp hlast).trans hmem.symm) (by rw [hinit]; simp)

/-- A step that changes only the queue, the place in the loop or the waker of a stored task. -/
lemma Inv.frame (h : m.Inv) (hcreated : m'.created = m.created) (hnext : m'.nextFuture = m.nextFuture)
    (hspawned : m'.spawned = m.spawned) (hlog : m'.log = m.log)
    (htasks : m'.executor.tasks = m.executor.tasks)
    (hpoint : ∀ id, m'.point = .polling id → (m.executor.tasks id).isSome)
    (hcache : ∀ id, (m'.executor.wakerCache id).isSome →
      (m.executor.wakerCache id).isSome ∨ (m.executor.tasks id).isSome) : m'.Inv where
  fresh := by rw [hcreated,hspawned,hnext]; exact h.fresh
  distinct := by rw [hcreated,hspawned]; exact h.distinct
  stored := by rw [htasks,hspawned,hlog]; exact h.stored
  finished := by rw [hlog,hspawned]; exact h.finished
  polling := by rw [htasks]; exact hpoint
  repolled := by
    have hr := h.repolled
    unfold NeverRepolled at hr ⊢
    rwa [hlog]
  kept := by
    have hk := h.kept
    unfold KeepsUnfinished at hk ⊢
    rwa [hspawned,hlog,htasks]
  cached := by
    intro id hid
    rw [htasks]
    exact (hcache id hid).elim (h.cached id) fun hs => hs

lemma Inv.create (h : m.Inv) : m.create.Inv where
  fresh := by
    intro task hmem
    have hold := h.fresh task
    simp only [System.create,List.mem_append,List.mem_singleton] at hmem hold ⊢
    rcases hmem with (hmem | rfl) | hmem
    · exact Nat.lt_succ_of_lt (hold (.inl hmem))
    · exact Nat.lt_succ_self _
    · exact Nat.lt_succ_of_lt (hold (.inr hmem))
  distinct := by
    let task : Task := ⟨m.nextId,m.nextFuture⟩
    have hperm : (m.created++[task]++m.spawned).Perm (task :: (m.created++m.spawned)) := by
      rw [List.append_assoc]
      exact List.perm_middle
    refine ((hperm.map Task.future).nodup_iff).mpr (List.nodup_cons.mpr ⟨?_,h.distinct⟩)
    rw [List.mem_map]
    rintro ⟨task,hmem,hfuture⟩
    exact absurd hfuture (h.fresh task hmem).ne
  stored := h.stored
  finished := h.finished
  polling := h.polling
  repolled := h.repolled
  kept := h.kept
  cached := h.cached

lemma spawn_cases {task : Task} (h : m.spawn task = some m') :
    m.point = .outside ∧ task ∈ m.created ∧ m.executor.tasks task.id = none ∧ ∃ queue,
      m' = { m with
        executor := { m.executor with
          tasks := Function.update m.executor.tasks task.id (some task), taskQueue := queue }
        created := m.created.erase task
        spawned := m.spawned++[task] } := by
  simp only [spawn] at h
  split_ifs at h with hguard
  obtain ⟨executor,he,rfl⟩ := Option.map_eq_some_iff.mp h
  simp only [Executor.spawn] at he
  split_ifs at he with hnew
  obtain ⟨queue,-,rfl⟩ := Option.map_eq_some_iff.mp he
  exact ⟨hguard.1,hguard.2,Option.not_isSome_iff_eq_none.mp hnew,queue,rfl⟩

/-- A task that is not spawned yet has not returned. -/
lemma Inv.unseen (h : m.Inv) {task : Task} (hmem : task ∈ m.created) :
    .ready task.future ∉ m.log := by
  intro hready
  obtain ⟨other,hother,hfuture⟩ := h.finished _ hready
  have hdistinct := h.distinct
  rw [List.map_append,List.nodup_append] at hdistinct
  exact hdistinct.2.2 _ (List.mem_map_of_mem hmem) _ (List.mem_map_of_mem hother) hfuture.symm

lemma Inv.same (h : m.Inv) {a b : Task} (ha : a ∈ m.spawned) (hb : b ∈ m.spawned)
    (hfuture : a.future = b.future) : a = b := by
  have hdistinct := h.distinct
  rw [List.map_append,List.nodup_append] at hdistinct
  exact List.inj_on_of_nodup_map hdistinct.2.1 ha hb hfuture

lemma Inv.spawn (h : m.Inv) {task : Task} (hs : m.spawn task = some m') : m'.Inv := by
  obtain ⟨hpoint,hmem,hfree,queue,rfl⟩ := spawn_cases hs
  have hunseen := h.unseen hmem
  have hperm : (m.created.erase task++(m.spawned++[task])).Perm (m.created++m.spawned) := by
    rw [← List.append_assoc]
    refine List.perm_append_comm.trans ?_
    exact (List.perm_cons_erase hmem).symm.append_right m.spawned
  constructor
  case fresh => exact fun other hother => h.fresh other (hperm.mem_iff.mp hother)
  case distinct => exact ((hperm.map Task.future).nodup_iff).mpr h.distinct
  case stored =>
    intro id other hother
    change Function.update m.executor.tasks task.id (some task) id = some other at hother
    by_cases hid : id = task.id
    · subst hid
      rw [Function.update_self] at hother
      cases hother
      exact ⟨rfl,by simp,hunseen⟩
    · rw [Function.update_of_ne hid] at hother
      obtain ⟨hi,hs,hr⟩ := h.stored id other hother
      exact ⟨hi,List.mem_append_left _ hs,hr⟩
  case finished =>
    intro future hready
    obtain ⟨other,hother,hfuture⟩ := h.finished future hready
    exact ⟨other,List.mem_append_left _ hother,hfuture⟩
  case polling =>
    intro id hid
    rw [hpoint] at hid
    cases hid
  case repolled => exact h.repolled
  case kept =>
    intro other hother hready
    rcases List.mem_append.mp hother with hother | hother
    · have hstored := h.kept other hother hready
      have hne : other.id ≠ task.id := by
        intro hid
        rw [hid,hfree] at hstored
        cases hstored
      exact (Function.update_of_ne hne _ _).trans hstored
    · rw [List.mem_singleton.mp hother]
      exact Function.update_self _ _ _
  case cached =>
    intro id hid
    change (Function.update m.executor.tasks task.id (some task) id).isSome
    by_cases hne : id = task.id
    · subst hne
      rw [Function.update_self]
      rfl
    · rw [Function.update_of_ne hne]
      exact h.cached id hid

lemma Inv.next (h : m.Inv) : m.next.Inv := by
  unfold System.next
  split
  next => exact h.frame rfl rfl rfl rfl rfl (fun id hid => by cases hid) fun _ => .inl
  next id queue hpop =>
    dsimp only
    split
    next => exact h.frame rfl rfl rfl rfl rfl h.polling fun _ => .inl
    next task htask =>
      have hstored := h.stored id task htask
      constructor
      case fresh => exact h.fresh
      case distinct => exact h.distinct
      case stored =>
        intro id' other hother
        obtain ⟨hi,hs,hr⟩ := h.stored id' other hother
        exact ⟨hi,hs,by simpa using hr⟩
      case finished =>
        intro future hready
        exact h.finished future (by simpa using hready)
      case polling =>
        rintro _ ⟨⟩
        exact Option.isSome_iff_exists.mpr ⟨task,htask⟩
      case repolled =>
        refine neverRepolled_concat h.repolled rfl ?_
        rintro future ⟨⟩
        exact hstored.2.2
      case kept =>
        intro other hother hready
        exact h.kept other hother fun hr => hready (by simpa using hr)
      case cached =>
        intro id' hid'
        by_cases hne : id' = id
        · subst hne
          exact Option.isSome_iff_exists.mpr ⟨task,htask⟩
        · simp only [Executor.cacheWaker,Function.update_of_ne hne] at hid'
          exact h.cached id' hid'

lemma Inv.finish (h : m.Inv) {id : UInt64} (hpoint : m.point = .polling id) (result : Poll) :
    (m.finish id result).Inv := by
  cases result with
  | pending => exact h.frame rfl rfl rfl rfl rfl (fun id hid => by cases hid) fun _ => .inl
  | ready =>
    obtain ⟨task,htask⟩ := Option.isSome_iff_exists.mp (h.polling id hpoint)
    obtain ⟨hid,hspawned,hready⟩ := h.stored id task htask
    have hlog : (m.finish id .ready).log = m.log++[.ready task.future] := by
      simp [System.finish,htask]
    constructor
    case fresh => exact h.fresh
    case distinct => exact h.distinct
    case stored =>
      intro id' other hother
      have hne : id' ≠ id := by
        rintro rfl
        simp [System.finish,Executor.remove] at hother
      simp only [System.finish,Executor.remove,Function.update_of_ne hne] at hother
      obtain ⟨hi,hs,hr⟩ := h.stored id' other hother
      refine ⟨hi,hs,?_⟩
      rw [hlog,List.mem_append,List.mem_singleton]
      rintro (hr' | hr')
      · exact hr hr'
      · rw [Event.ready.injEq] at hr'
        rw [h.same hs hspawned hr',hid] at hi
        exact hne hi.symm
    case finished =>
      intro future hr
      rw [hlog,List.mem_append,List.mem_singleton] at hr
      rcases hr with hr | hr
      · exact h.finished future hr
      · cases hr
        exact ⟨task,hspawned,rfl⟩
    case polling => rintro id' ⟨⟩
    case repolled =>
      refine neverRepolled_concat h.repolled hlog ?_
      rintro future ⟨⟩
    case kept =>
      intro other hother hr
      rw [hlog,List.mem_append,List.mem_singleton,not_or] at hr
      have hkept := h.kept other hother hr.1
      have hne : other.id ≠ id := by
        intro heq
        rw [heq,htask] at hkept
        cases hkept
        exact hr.2 rfl
      simp only [System.finish,Executor.remove,Function.update_of_ne hne]
      exact hkept
    case cached =>
      intro id' hid'
      have hne : id' ≠ id := by
        rintro rfl
        simp [System.finish,Executor.remove] at hid'
      simp only [System.finish,Executor.remove,Function.update_of_ne hne] at hid' ⊢
      exact h.cached id' hid'

theorem Inv.step (h : m.Inv) {move : Move} (hs : m.step move = some m') : m'.Inv := by
  cases move with
  | create =>
    cases hs
    exact h.create
  | spawn task => exact h.spawn hs
  | enter =>
    simp only [System.step] at hs
    split_ifs at hs
    cases hs
    exact h.frame rfl rfl rfl rfl rfl (fun id hid => by cases hid) fun _ => .inl
  | next =>
    simp only [System.step] at hs
    split_ifs at hs
    cases hs
    exact h.next
  | finish result =>
    simp only [System.step] at hs
    split at hs
    next id hpoint =>
      cases hs
      exact h.finish hpoint result
    next => cases hs
  | wake id =>
    obtain ⟨executor,he,rfl⟩ := Option.map_eq_some_iff.mp hs
    obtain ⟨queue,-,rfl⟩ := Option.map_eq_some_iff.mp he
    exact h.frame rfl rfl rfl rfl rfl h.polling fun _ => .inl

/-- Whatever is spawned and woken, and whatever the futures return, in every state reached. -/
theorem completed_never_polled (moves : List Move) (h : Runs.run step moves initial = some m) :
    m.NeverRepolled ∧ m.KeepsUnfinished ∧ m.CachesLive := by
  have hinv := Runs.invariant_run (fun _ _ _ hi hs => Inv.step hi hs) inv_initial h
  exact ⟨hinv.repolled,hinv.kept,hinv.cached⟩

/-- A task that wakes itself while it is polled, returns `Ready`, and is woken twice more. -/
theorem completed_never_polled_late_wakes : ∃ m, Runs.run step [.create,.spawn ⟨0,0⟩,.enter,.next,
      .wake 0,.finish .ready,.wake 0,.wake 0,.next,.next,.next,.next] initial = some m ∧
    m.point = .outside ∧ m.log = [.polled 0,.ready 0] ∧ m.NeverRepolled := by
  refine ⟨_,rfl,rfl,rfl,?_⟩
  exact (completed_never_polled [.create,.spawn ⟨0,0⟩,.enter,.next,.wake 0,.finish .ready,.wake 0,
    .wake 0,.next,.next,.next,.next] rfl).1

end System
end CrabOs.Tasks
