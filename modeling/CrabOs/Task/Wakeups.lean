import CrabOs.Task.Kernel

/-! No wake-up is lost: a task with something to do is in the ready queue, is being polled, or
will be woken. -/
namespace CrabOs
open Crabsh

namespace Statics
variable {x y z : Statics} {task : TaskId}

def wakerOf (x : Statics) : TaskId → Option TaskId
  | .shell => x.waker
  | .redraw => x.redrawWaker

/-- There is nothing to do for a task. -/
def Idle (x : Statics) : TaskId → Prop
  | .shell => ∀ queue, x.inputQueue = some queue → queue.items = []
  | .redraw => x.redrawPending = false

/-- The wakers are those of the tasks that register them. -/
def Registered (x : Statics) : Prop := ∀ task id, x.wakerOf task = some id → id = task

/-- The task of a waker is in the ready queue of another state. -/
def Queues (x y : Statics) (task : TaskId) : Prop :=
  ∀ id, x.wakerOf task = some id → id ∈ y.taskQueue.items

/-- What a handler may do: it keeps each waker or puts its task into the ready queue, and it does
the latter when it gives the task something to do. -/
structure Serves (x y : Statics) : Prop where
  grows : ∀ id ∈ x.taskQueue.items, id ∈ y.taskQueue.items
  waker : ∀ task, y.wakerOf task = x.wakerOf task ∨ y.wakerOf task = none ∧ x.Queues y task
  work : ∀ task, (x.Idle task → y.Idle task) ∨ x.Queues y task

lemma Serves.queues (h : x.Serves y) (h' : y.Serves z) (hy : y.Queues z task) :
    x.Queues z task := by
  intro id hid
  rcases h.waker task with he | ⟨-,hx⟩
  · exact hy id (he.trans hid)
  · exact h'.grows id (hx id hid)

lemma Serves.trans (h : x.Serves y) (h' : y.Serves z) : x.Serves z := by
  refine ⟨fun id hid => h'.grows id (h.grows id hid),fun task => ?_,fun task => ?_⟩
  · rcases h'.waker task with he' | ⟨hn,hz⟩
    · rcases h.waker task with he | ⟨hn,hy⟩
      · exact .inl (he'.trans he)
      · exact .inr ⟨he'.trans hn,fun id hid => h'.grows id (hy id hid)⟩
    · exact .inr ⟨hn,h.queues h' hz⟩
  · rcases h'.work task with hi' | hz
    · rcases h.work task with hi | hy
      · exact .inl fun hx => hi' (hi hx)
      · exact .inr fun id hid => h'.grows id (hy id hid)
    · exact .inr (h.queues h' hz)

/-- Nothing a task waits for has changed. -/
lemma serves_of_eq (hq : y.taskQueue = x.taskQueue) (hw : y.waker = x.waker)
    (hr : y.redrawWaker = x.redrawWaker) (hi : y.inputQueue = x.inputQueue)
    (hp : y.redrawPending = x.redrawPending) : x.Serves y := by
  refine ⟨fun id hid => by rw [hq]; exact hid,fun task => .inl ?_,fun task => .inl ?_⟩
  · cases task with
    | shell => exact hw
    | redraw => exact hr
  · cases task with
    | shell => exact fun hx queue hqueue => hx queue (hi.symm.trans hqueue)
    | redraw => exact fun hx => hp.trans hx

/-- Taking a waker and putting its task into the ready queue, whatever else the task is given. -/
lemma serves_of_wake (task : TaskId) (hitems : y.taskQueue.items = x.taskQueue.items++(x.wakerOf task).toList)
    (hown : y.wakerOf task = none)
    (hother : ∀ other ≠ task, y.wakerOf other = x.wakerOf other ∧ (x.Idle other → y.Idle other)) :
    x.Serves y := by
  have hmem : x.Queues y task := by
    intro id hid
    rw [hitems,hid]
    simp
  refine ⟨fun id hid => by rw [hitems]; exact List.mem_append_left _ hid,fun t => ?_,fun t => ?_⟩
  · by_cases ht : t = task
    · subst ht
      exact .inr ⟨hown,hmem⟩
    · exact .inl (hother t ht).1
  · by_cases ht : t = task
    · subst ht
      exact .inr hmem
    · exact .inl (hother t ht).2

lemma serves_wake {x' : Statics} (h : x'.wake = .ok y) (hq : x'.taskQueue = x.taskQueue)
    (hw : x'.waker = x.waker) (hr : x'.redrawWaker = x.redrawWaker)
    (hp : x'.redrawPending = x.redrawPending) : x.Serves y := by
  obtain ⟨taskQueue,hitems,rfl⟩ := wake_ok h
  rw [hq,hw] at hitems
  refine serves_of_wake .shell hitems rfl fun other hne => ?_
  cases other with
  | shell => exact absurd rfl hne
  | redraw => exact ⟨hr,fun hx => hp.trans hx⟩

lemma serves_wakeRedraw {x' : Statics} (h : x'.wakeRedraw = .ok y) (hq : x'.taskQueue = x.taskQueue)
    (hw : x'.waker = x.waker) (hr : x'.redrawWaker = x.redrawWaker)
    (hi : x'.inputQueue = x.inputQueue) : x.Serves y := by
  obtain ⟨taskQueue,hitems,rfl⟩ := wakeRedraw_ok h
  rw [hq,hr] at hitems
  refine serves_of_wake .redraw hitems rfl fun other hne => ?_
  cases other with
  | shell => exact ⟨hw,fun hx queue hqueue => hx queue (hi.symm.trans hqueue)⟩
  | redraw => exact absurd rfl hne

lemma serves_desktopAction {x' : Statics} {event : InputEvent} (h : x'.desktopAction event = .ok y)
    (hq : x'.taskQueue = x.taskQueue) (hw : x'.waker = x.waker)
    (hr : x'.redrawWaker = x.redrawWaker) (hi : x'.inputQueue = x.inputQueue)
    (hp : x'.redrawPending = x.redrawPending) : x.Serves y := by
  unfold desktopAction at h
  split at h
  next => exact serves_wake h hq hw hr hp
  next => cases h; exact serves_of_eq hq hw hr hi hp

theorem serves_handle {i : Interrupt} (h : i.handle x = .ok y) : x.Serves y := by
  cases i with
  | timer => cases h; exact serves_of_eq rfl rfl rfl rfl rfl
  | keyboard code =>
    change x.addScancode code = _ at h
    unfold addScancode at h
    split at h
    next =>
      split at h
      next => exact serves_wake h rfl rfl rfl rfl
      next => exact serves_wake h rfl rfl rfl rfl
    next => cases h; exact serves_of_eq rfl rfl rfl rfl rfl
  | mouse byte =>
    obtain ⟨console,result,x',-,hx',hy⟩ := mouseByte_cases h
    have hfirst : x.Serves x' := by
      rcases hx' with ⟨-,rfl⟩ | ⟨event,-,hd⟩
      · exact serves_of_eq rfl rfl rfl rfl rfl
      · exact serves_desktopAction hd rfl rfl rfl rfl rfl
    rcases hy with ⟨-,rfl⟩ | ⟨-,hr⟩
    · exact hfirst
    · exact hfirst.trans (serves_wakeRedraw hr rfl rfl rfl rfl)

/-- The next wake or the ready queue will get the task polled. -/
def Armed (x : Statics) (task : TaskId) : Prop :=
  x.wakerOf task = some task ∨ task ∈ x.taskQueue.items

/-- The task has nothing to do and will be woken, or it is in the ready queue. -/
def Ready (x : Statics) (task : TaskId) : Prop :=
  x.wakerOf task = some task ∧ x.Idle task ∨ task ∈ x.taskQueue.items

lemma Serves.registered (h : x.Serves y) (hx : x.Registered) : y.Registered := by
  intro task id hid
  rcases h.waker task with he | ⟨he,-⟩
  · exact hx task id (he.symm.trans hid)
  · rw [he] at hid
    cases hid

lemma Serves.armed (h : x.Serves y) (hx : x.Armed task) : y.Armed task := by
  rcases hx with hw | hq
  · rcases h.waker task with he | ⟨-,hm⟩
    · exact .inl (he.trans hw)
    · exact .inr (hm _ hw)
  · exact .inr (h.grows _ hq)

lemma Serves.ready (h : x.Serves y) (hx : x.Ready task) : y.Ready task := by
  rcases hx with ⟨hw,hidle⟩ | hq
  · rcases h.waker task with he | ⟨-,hm⟩
    · rcases h.work task with hi | hm
      · exact .inl ⟨he.trans hw,hi hidle⟩
      · exact .inr (hm _ hw)
    · exact .inr (hm _ hw)
  · exact .inr (h.grows _ hq)

end Statics

/-- The task is spawned and not being polled. -/
def Executor.Owes (task : TaskId) : Executor → Prop
  | .spawnShell => False
  | .spawnRedraw => task = .shell
  | .polling polled => task ≠ polled
  | .panicked _ => False
  | _ => True

/-- The task is not being polled. -/
def Executor.Pauses (task : TaskId) : Executor → Prop
  | .polling polled => task ≠ polled
  | .panicked _ => False
  | _ => True

namespace Kernel
variable {D : Decoder} {m m' : Kernel D} {info : SystemInfo} {env : Environment} {task : TaskId}

/-- The task has registered its waker and looks once more for something to do. -/
def Checking (m : Kernel D) : TaskId → Prop
  | .shell => ∃ locals, m.shell = .popAgain locals
  | .redraw => m.redraw = .swap

/-- Every task that is not being polled is ready, and a task that is about to return is armed. -/
structure Awake (m : Kernel D) : Prop where
  registered : m.statics.Registered
  ready : ∀ task, m.executor.Owes task → m.statics.Ready task
  armed : ∀ task, m.executor = .polling task → m.Checking task → m.statics.Armed task
  paused : ∀ task, m.executor.Pauses task → ¬m.Checking task
  halted : m.executor = .halted → m.statics.taskQueue.items = []

lemma awake_start : (start : Kernel D).Awake where
  registered task id h := by cases task <;> cases h
  ready _ h := h.elim
  armed _ h := by cases h
  paused task _ h := by
    cases task with
    | shell => obtain ⟨_,h⟩ := h; cases h
    | redraw => cases h
  halted h := by cases h

lemma Awake.panic (h : m.Awake) (cause : Panic) : (m.panic cause).Awake where
  registered := h.registered
  ready _ hc := hc.elim
  armed _ hc := by cases hc
  paused _ hc := hc.elim
  halted hc := by cases hc

/-- A step within one poll of a task. -/
lemma Awake.within (h : m.Awake) (he : m.executor = .polling task)
    (he' : m'.executor = .polling task) (hr : m'.statics.Registered)
    (hother : ∀ other ≠ task, m.statics.Ready other → m'.statics.Ready other)
    (hpause : ∀ other ≠ task, m'.Checking other → m.Checking other)
    (harm : m'.Checking task → m'.statics.Armed task) : m'.Awake where
  registered := hr
  ready other ho := by
    rw [he'] at ho
    exact hother other ho (h.ready other (by rw [he]; exact ho))
  armed t ht hc := by
    rw [he'] at ht
    cases ht
    exact harm hc
  paused other ho hc := by
    rw [he'] at ho
    exact h.paused other (by rw [he]; exact ho) (hpause other ho hc)
  halted hc := by rw [he'] at hc; cases hc

/-- A poll that ends. -/
lemma Awake.returns (h : m.Awake) (he : m.executor = .polling task)
    (hready : m.statics.Ready task) (he' : m'.executor = .popTask) (hs : m'.statics = m.statics)
    (hpause : ∀ other ≠ task, m'.Checking other → m.Checking other) (hnot : ¬m'.Checking task) :
    m'.Awake where
  registered := by rw [hs]; exact h.registered
  ready other _ := by
    rw [hs]
    by_cases ht : other = task
    · rw [ht]; exact hready
    · exact h.ready other (by rw [he]; exact ht)
  armed t ht _ := by rw [he'] at ht; cases ht
  paused other _ hc := by
    by_cases ht : other = task
    · rw [ht] at hc; exact hnot hc
    · exact h.paused other (by rw [he]; exact ht) (hpause other ht hc)
  halted hc := by rw [he'] at hc; cases hc

lemma not_called_popAgain {point : ShellPoint D} {locals : Locals D} :
    ¬Called point (.popAgain locals) := by
  intro h
  cases h

lemma Awake.shellStep (h : m.Awake) (he : m.executor = .polling .shell)
    (hstep : ShellStep info env m m') : m'.Awake := by
  have hother : ∀ {x : Statics}, (m.statics.Ready .redraw → x.Ready .redraw) →
      ∀ other ≠ TaskId.shell, m.statics.Ready other → x.Ready other := by
    intro x hx other hne hr
    cases other with
    | shell => exact absurd rfl hne
    | redraw => exact hx hr
  have hpause : ∀ {u : Kernel D}, u.redraw = m.redraw →
      ∀ other ≠ TaskId.shell, u.Checking other → m.Checking other := by
    intro u hu other hne hc
    cases other with
    | shell => exact absurd rfl hne
    | redraw => exact hu.symm.trans hc
  cases hstep with
  | panic => exact h.panic _
  | createQueue | started | sampleDropped | popEvent | popNone | popAgain | lossRead | eventRead |
    drain | handled =>
    exact h.within he he h.registered (hother id) (hpause rfl) (by rintro ⟨_,hc⟩; cases hc)
  | called hp console =>
    refine h.within he he h.registered (hother id) (hpause rfl) ?_
    rintro ⟨_,hc⟩
    dsimp only at hc
    rw [hc] at hp
    exact absurd hp not_called_popAgain
  | register hp =>
    refine h.within he he ?_ (hother id) (hpause rfl) fun _ => .inl rfl
    intro task id hid
    cases task with
    | shell => cases hid; rfl
    | redraw => exact h.registered .redraw id hid
  | pending hp hq hpop =>
    refine h.returns he ?_ rfl rfl (hpause rfl) (by rintro ⟨_,hc⟩; cases hc)
    rcases h.armed .shell he ⟨_,hp⟩ with hw | hm
    · refine .inl ⟨hw,fun queue hqueue => ?_⟩
      rw [hq] at hqueue
      cases hqueue
      exact BoundedQueue.pop_eq_none_iff.mp hpop
    · exact .inr hm
  | takeWaker hp =>
    refine h.within he he ?_ (hother id) (hpause rfl) (by rintro ⟨_,hc⟩; cases hc)
    intro task id hid
    cases task with
    | shell => cases hid
    | redraw => exact h.registered .redraw id hid

lemma Awake.redrawStep (h : m.Awake) (he : m.executor = .polling .redraw)
    (hstep : RedrawStep m m') : m'.Awake := by
  have hother : ∀ {x : Statics}, (m.statics.Ready .shell → x.Ready .shell) →
      ∀ other ≠ TaskId.redraw, m.statics.Ready other → x.Ready other := by
    intro x hx other hne hr
    cases other with
    | shell => exact hx hr
    | redraw => exact absurd rfl hne
  have hpause : ∀ {u : Kernel D}, u.shell = m.shell →
      ∀ other ≠ TaskId.redraw, u.Checking other → m.Checking other := by
    rintro u hu other hne hc
    cases other with
    | shell => exact hc.imp fun locals hl => hu.symm.trans hl
    | redraw => exact absurd rfl hne
  cases hstep with
  | panic => exact h.panic _
  | register hp =>
    refine h.within he he ?_ (hother id) (hpause rfl) fun _ => .inl rfl
    intro task id hid
    cases task with
    | shell => exact h.registered .shell id hid
    | redraw => cases hid; rfl
  | swap | refresh =>
    exact h.within he he h.registered (hother id) (hpause rfl) (fun hc => by cases hc)
  | pending hp hs =>
    refine h.returns he ?_ rfl rfl (hpause rfl) (fun hc => by cases hc)
    rcases h.armed .redraw he hp with hw | hm
    · exact .inl ⟨hw,hs⟩
    · exact .inr hm

/-- A step of the executor outside its polls that keeps the wakers and the ready queue. -/
lemma Awake.outside (h : m.Awake) {next : Executor} (he : ∀ task, m.executor.Owes task)
    (hp : ∀ task, m.executor.Pauses task) (hpoll : ∀ task, next ≠ .polling task)
    (hhalt : next = .halted → m.statics.taskQueue.items = []) :
    Awake { m with executor := next } where
  registered := h.registered
  ready task _ := h.ready task (he task)
  armed task ht _ := absurd ht (hpoll task)
  paused task _ := h.paused task (hp task)
  halted := hhalt

lemma Awake.spawns (h : m.Awake) {taskQueue : BoundedQueue TaskId queueCapacity} {next : Executor}
    (hq : m.statics.taskQueue.push task = some taskQueue) (hpoll : ∀ t, next ≠ .polling t)
    (hhalt : next ≠ .halted) (hnext : ∀ t, next.Owes t → t = task ∨ m.executor.Owes t)
    (hp : ∀ t, m.executor.Pauses t) :
    Awake { m with statics := { m.statics with taskQueue := taskQueue }, executor := next } where
  registered := h.registered
  ready t ht := by
    have hitems := BoundedQueue.items_push hq
    rcases hnext t ht with rfl | ho
    · exact .inr (by rw [hitems]; simp)
    · rcases h.ready t ho with hw | hm
      · exact .inl hw
      · exact .inr (by rw [hitems]; exact List.mem_append_left _ hm)
  armed t ht _ := absurd ht (hpoll t)
  paused t _ := h.paused t (hp t)
  halted hc := absurd hc hhalt

theorem Awake.advances (h : m.Awake) (hstep : Advances info env m m') : m'.Awake := by
  cases hstep with
  | spawnShell he hq =>
    exact h.spawns hq (fun _ hc => by cases hc) (fun hc => by cases hc) (fun t ht => .inl ht)
      (fun _ => by rw [he]; trivial)
  | spawnRedraw he hq =>
    refine h.spawns hq (fun _ hc => by cases hc) (fun hc => by cases hc) (fun t _ => ?_)
      (fun _ => by rw [he]; trivial)
    rw [he]
    cases t with
    | shell => exact .inr rfl
    | redraw => exact .inl rfl
  | spawnFull he hq => exact h.panic _
  | @popTask task taskQueue he hq =>
    have hpaused : ∀ t, ¬m.Checking t := fun t => h.paused t (by rw [he]; trivial)
    refine ⟨h.registered,fun t ht => ?_,fun t _ hc => absurd hc (hpaused t),fun t _ => hpaused t,
      fun hc => by cases hc⟩
    rcases h.ready t (by rw [he]; trivial) with hw | hm
    · exact .inl hw
    · rw [BoundedQueue.items_of_pop hq] at hm
      rcases List.mem_cons.mp hm with rfl | hm
      · exact absurd rfl ht
      · exact .inr hm
  | shell he hs => exact h.shellStep he hs
  | redraw he hs => exact h.redrawStep he hs
  | idle he | disable he | awake he =>
    exact h.outside (fun _ => by rw [he]; trivial) (fun _ => by rw [he]; trivial)
      (fun _ hc => by cases hc) (fun hc => by cases hc)
  | halt he hq =>
    exact h.outside (fun _ => by rw [he]; trivial) (fun _ => by rw [he]; trivial)
      (fun _ hc => by cases hc) fun _ => hq

theorem Awake.interrupts (h : m.Awake) {i : Interrupt} (hstep : m.interrupt i = some m') :
    m'.Awake := by
  obtain ⟨-,⟨cause,-,rfl⟩ | ⟨x,hx,he,rfl⟩ | ⟨x,hx,hhalt,rfl⟩⟩ := interrupt_cases hstep
  · exact h.panic cause
  · have hserves := Statics.serves_handle hx
    exact ⟨hserves.registered h.registered,
      fun t _ => hserves.ready (h.ready t (by rw [he]; trivial)),fun _ ht => (by cases ht),
      fun t _ => h.paused t (by rw [he]; trivial),fun hc => by cases hc⟩
  · have hserves := Statics.serves_handle hx
    exact ⟨hserves.registered h.registered,fun t ht => hserves.ready (h.ready t ht),
      fun t ht hc => hserves.armed (h.armed t ht hc),h.paused,fun hc => absurd hc hhalt⟩

end Kernel

/-- Whenever the executor halts, the input queue is empty and no redraw is pending. -/
theorem halted_idle (D : Decoder) (info : SystemInfo) (moves : List Move) (m : Kernel D)
    (hrun : Kernel.run info moves Kernel.start = some m) (hhalted : m.executor = .halted) :
    (∀ queue, m.statics.inputQueue = some queue → queue.items = []) ∧
      m.statics.redrawPending = false := by
  have hawake : m.Awake := by
    refine (Kernel.meets_true info moves Kernel.start).run ?_ Kernel.awake_start hrun
    rintro u move u' hu - hstep
    cases move with
    | advance env => exact hu.advances (Kernel.advance_cases hstep)
    | interrupt i => exact hu.interrupts hstep
  have hidle : ∀ task, m.statics.Idle task := by
    intro task
    rcases hawake.ready task (by rw [hhalted]; trivial) with ⟨-,hi⟩ | hm
    · exact hi
    · rw [hawake.halted hhalted] at hm
      cases hm
  exact ⟨hidle .shell,hidle .redraw⟩

/-- A key is released while the keyboard task looks for events the second time. -/
theorem halted_idle_late_key :
    ∃ m : Kernel .releases, Kernel.run plainInfo
        (Move.advances 11++Move.release :: Move.advances 17) Kernel.start = some m ∧
      m.executor = .halted ∧ m.statics.redrawPending = false := by
  obtain ⟨m,hm,he⟩ : ∃ m : Kernel .releases, Kernel.run plainInfo
        (Move.advances 11++Move.release :: Move.advances 17) Kernel.start = some m ∧
      m.executor = .halted := ⟨_,rfl,rfl⟩
  exact ⟨m,hm,he,(halted_idle _ _ _ m hm he).2⟩

end CrabOs
