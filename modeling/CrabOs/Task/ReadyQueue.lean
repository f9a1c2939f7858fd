import CrabOs.Task.Wakeups

/-! The ready queue of the executor has room for every wake, unless tasks are woken again and
again during their own poll. -/
namespace CrabOs
open Crabsh

def TaskId.other : TaskId → TaskId
  | .shell => .redraw
  | .redraw => .shell

/-- The interrupt wakes the task. -/
def Interrupt.Wakes (x : Statics) (task : TaskId) : Interrupt → Prop
  | .timer => False
  | .keyboard _ => task = .shell ∧ x.inputQueue.isSome ∧ x.waker.isSome
  | .mouse byte => ∃ console result, x.console.mouseByte byte = some (console,result) ∧
    match task with
    | .shell => result.action.isSome ∧ x.inputQueue.isSome ∧ x.waker.isSome
    | .redraw => result.completed ∧ x.redrawWaker.isSome

namespace Statics
variable {x y : Statics} {task : TaskId}

/-- One if the waker of the task is registered. -/
def standby (x : Statics) (task : TaskId) : ℕ := (x.wakerOf task).toList.length

/-- The ready queue, and the other task if its waker is registered. -/
def pressure (x : Statics) (task : TaskId) : ℕ :=
  x.taskQueue.items.length+x.standby task.other

/-- The ready queue with every task that may still be woken. -/
def load (x : Statics) : ℕ := x.taskQueue.items.length+x.standby .shell+x.standby .redraw

lemma standby_le (x : Statics) (task : TaskId) : x.standby task ≤ 1 := by
  unfold standby
  cases x.wakerOf task <;> simp

lemma load_eq (x : Statics) (task : TaskId) : x.load = x.pressure task+x.standby task := by
  cases task with
  | shell => exact Nat.add_right_comm _ _ _
  | redraw => rfl

lemma load_push (x : Statics) {taskQueue : BoundedQueue TaskId queueCapacity}
    (h : x.taskQueue.push task = some taskQueue) :
    load { x with taskQueue := taskQueue } = x.load+1 := by
  have hlength := BoundedQueue.length_push h
  simp only [load,standby,wakerOf]
  omega

lemma load_wakeTask {waker : Option TaskId} (h : x.wakeTask waker = .ok y) :
    y.load = x.load+waker.toList.length := by
  obtain ⟨taskQueue,hitems,rfl⟩ := wakeTask_ok h
  simp only [load,standby,wakerOf,hitems,List.length_append]
  omega

lemma load_wake (h : x.wake = .ok y) : y.load = x.load := by
  rw [load_wakeTask h]
  exact Nat.add_right_comm _ _ _

lemma load_wakeRedraw (h : x.wakeRedraw = .ok y) : y.load = x.load := by
  rw [load_wakeTask h]
  rfl

lemma load_desktopAction {event : InputEvent} (h : x.desktopAction event = .ok y) :
    y.load = x.load := by
  unfold desktopAction at h
  split at h
  next => exact (load_wake h).trans rfl
  next => cases h; rfl

/-- Interrupts move wakers into the ready queue, one for one. -/
theorem load_handle {i : Interrupt} (h : i.handle x = .ok y) : y.load = x.load := by
  cases i with
  | timer => cases h; rfl
  | keyboard code =>
    change x.addScancode code = _ at h
    unfold addScancode at h
    split at h
    next =>
      split at h
      next => exact (load_wake h).trans rfl
      next => exact (load_wake h).trans rfl
    next => cases h; rfl
  | mouse byte =>
    obtain ⟨console,result,x',-,hx',hy⟩ := mouseByte_cases h
    have hfirst : x'.load = x.load := by
      rcases hx' with ⟨-,rfl⟩ | ⟨event,-,hd⟩
      · rfl
      · exact (load_desktopAction hd).trans rfl
    rcases hy with ⟨-,rfl⟩ | ⟨-,hr⟩
    · exact hfirst
    · exact (load_wakeRedraw hr).trans hfirst

lemma lt_load (task : TaskId) (hfull : x.taskQueue.items.length = queueCapacity)
    (hsome : (x.wakerOf task).isSome) : queueCapacity < x.load := by
  obtain ⟨id,hid⟩ := Option.isSome_iff_exists.mp hsome
  rw [load_eq x task,pressure,standby,standby,hid,Option.toList_some,List.length_singleton]
  omega

lemma full_wake {cause : Panic} (h : x.wake = .error cause) : queueCapacity < x.load :=
  lt_load .shell (wakeTask_error h).1 (wakeTask_error h).2

lemma full_wakeRedraw {cause : Panic} (h : x.wakeRedraw = .error cause) : queueCapacity < x.load :=
  lt_load .redraw (wakeTask_error h).1 (wakeTask_error h).2

lemma full_desktopAction {event : InputEvent} {cause : Panic}
    (h : x.desktopAction event = .error cause) : queueCapacity < x.load := by
  unfold desktopAction at h
  split at h
  next => exact (full_wake h :)
  next => cases h

/-- A wake that finds the ready queue full. -/
theorem full_handle {i : Interrupt} (h : i.handle x = .error .taskQueueFull) :
    queueCapacity < x.load := by
  cases i with
  | timer => cases h
  | keyboard code =>
    change x.addScancode code = _ at h
    unfold addScancode at h
    split at h
    next =>
      split at h
      next => exact (full_wake h :)
      next => exact (full_wake h :)
    next => cases h
  | mouse byte =>
    change x.mouseByte byte = _ at h
    unfold mouseByte at h
    split at h
    next console result _ =>
      -- the action, if there is one, comes before the redraw
      have redraw : ∀ x' : Statics, x'.load = x.load → (if result.completed = true then
          wakeRedraw { x' with redrawPending := true } else pure x' : Except Panic Statics) =
            .error .taskQueueFull → queueCapacity < x.load := by
        intro x' hload hr
        split_ifs at hr
        · rw [← hload]
          exact (full_wakeRedraw hr :)
        · cases hr
      cases ha : result.action with
      | none =>
        simp only [ha] at h
        exact redraw { x with console := console } rfl h
      | some event =>
        simp only [ha] at h
        cases hd : desktopAction { x with console := console } event with
        | error cause => exact (full_desktopAction hd :)
        | ok x' =>
          rw [hd] at h
          exact redraw x' ((load_desktopAction hd).trans rfl) h
    next => cases h

/-- After a wake the waker is gone, if there was one. -/
lemma waker_wake (h : x.wake = .ok y) (hw : ¬x.waker.isSome) : y.waker = x.waker := by
  obtain ⟨taskQueue,-,rfl⟩ := wake_ok h
  exact (Option.not_isSome_iff_eq_none.mp hw).symm

lemma waker_desktopAction {event : InputEvent} (h : x.desktopAction event = .ok y)
    (hw : ¬(x.inputQueue.isSome ∧ x.waker.isSome)) : y.waker = x.waker := by
  unfold desktopAction at h
  split at h
  next queue hq => exact (waker_wake h fun hsome => hw ⟨by rw [hq]; rfl,hsome⟩).trans rfl
  next => cases h; rfl

lemma redrawWaker_desktopAction {event : InputEvent} (h : x.desktopAction event = .ok y) :
    y.redrawWaker = x.redrawWaker := by
  unfold desktopAction at h
  split at h
  next => obtain ⟨taskQueue,-,rfl⟩ := wake_ok h; rfl
  next => cases h; rfl

/-- An interrupt that does not wake a task leaves its waker. -/
theorem wakerOf_handle {i : Interrupt} (h : i.handle x = .ok y) (hw : ¬i.Wakes x task) :
    y.wakerOf task = x.wakerOf task := by
  cases i with
  | timer => cases h; rfl
  | keyboard code =>
    change x.addScancode code = _ at h
    unfold addScancode at h
    split at h
    next queue hq =>
      have hnone : task = .shell → ¬x.waker.isSome := fun ht hsome => hw ⟨ht,by rw [hq]; rfl,hsome⟩
      split at h <;> cases task with
      | shell => exact (waker_wake h (hnone rfl)).trans rfl
      | redraw => obtain ⟨taskQueue,-,rfl⟩ := wake_ok h; rfl
    next => cases h; rfl
  | mouse byte =>
    obtain ⟨console,result,x',hk,hx',hy⟩ := mouseByte_cases h
    cases task with
    | shell =>
      have hfirst : x'.waker = x.waker := by
        rcases hx' with ⟨-,rfl⟩ | ⟨event,ha,hd⟩
        · rfl
        · refine (waker_desktopAction hd fun hsome => ?_).trans rfl
          exact hw ⟨console,result,hk,by rw [ha]; rfl,hsome⟩
      rcases hy with ⟨-,rfl⟩ | ⟨-,hr⟩
      · exact hfirst
      · obtain ⟨taskQueue,-,rfl⟩ := wakeRedraw_ok hr
        exact hfirst
    | redraw =>
      have hfirst : x'.redrawWaker = x.redrawWaker := by
        rcases hx' with ⟨-,rfl⟩ | ⟨event,-,hd⟩
        · rfl
        · exact (redrawWaker_desktopAction hd).trans rfl
      rcases hy with ⟨-,rfl⟩ | ⟨hc,hr⟩
      · exact hfirst
      · obtain ⟨taskQueue,-,rfl⟩ := wakeRedraw_ok hr
        have hnone : ¬x.redrawWaker.isSome := fun hsome => hw ⟨console,result,hk,hc,hsome⟩
        exact (Option.not_isSome_iff_eq_none.mp hnone).symm

end Statics

/-- There is room for every task that may be woken, and for the one being polled. -/
def Executor.HasRoom (x : Statics) : Executor → Prop
  | .spawnShell => x.load+2 ≤ queueCapacity
  | .spawnRedraw => x.load+1 ≤ queueCapacity
  | .polling task => x.pressure task+1 ≤ queueCapacity
  | .panicked cause => cause ≠ .taskQueueFull
  | _ => x.load ≤ queueCapacity

namespace Kernel
variable {D : Decoder} {m m' : Kernel D} {info : SystemInfo} {env : Environment} {task : TaskId}

/-- An interrupt that wakes the task being polled finds room for it, for the other task if its
waker is registered, and for the next time the task itself is woken. -/
def Timely (m : Kernel D) : Move → Prop
  | .advance _ => True
  | .interrupt i => ∀ task, m.executor = .polling task → i.Wakes m.statics task →
    m.statics.pressure task+2 ≤ queueCapacity

def Roomy (m : Kernel D) : Prop := m.executor.HasRoom m.statics

lemma meets_advances (info : SystemInfo) (env : Environment) (n : ℕ) (m : Kernel D) :
    Meets Timely info (List.replicate n (.advance env)) m := by
  induction n generalizing m with
  | zero => trivial
  | succ n ih => exact ⟨trivial,fun m' _ => ih m'⟩

lemma Roomy.load_le (h : m.Roomy) (he : ∀ cause, m.executor ≠ .panicked cause) :
    m.statics.load ≤ queueCapacity := by
  unfold Roomy at h
  cases hm : m.executor with
  | spawnShell => rw [hm] at h; exact le_trans (Nat.le_add_right _ _) h
  | spawnRedraw => rw [hm] at h; exact le_trans (Nat.le_add_right _ _) h
  | polling task =>
    rw [hm] at h
    rw [m.statics.load_eq task]
    exact le_trans (Nat.add_le_add_left (m.statics.standby_le task) _) h
  | panicked cause => exact absurd hm (he cause)
  | _ => rw [hm] at h; exact h

lemma Roomy.polled (h : m.Roomy) (he : m.executor = .polling task) :
    m.statics.pressure task+1 ≤ queueCapacity := by
  unfold Roomy at h
  rw [he] at h
  exact h

lemma roomy_polling (he : m.executor = .polling task)
    (h : m.statics.pressure task+1 ≤ queueCapacity) : m.Roomy := by
  unfold Roomy
  rw [he]
  exact h

lemma Roomy.shellStep (h : m.Roomy) (he : m.executor = .polling .shell)
    (hstep : ShellStep info env m m') : m'.Roomy := by
  have hp := h.polled he
  cases hstep with
  | panic hc => exact hc
  | pending =>
    have hload := m.statics.load_eq .shell
    have hone := m.statics.standby_le .shell
    change m.statics.load ≤ queueCapacity
    omega
  | _ => exact roomy_polling he hp

lemma Roomy.redrawStep (h : m.Roomy) (he : m.executor = .polling .redraw)
    (hstep : RedrawStep m m') : m'.Roomy := by
  have hp := h.polled he
  cases hstep with
  | panic hc => exact hc
  | pending =>
    have hload := m.statics.load_eq .redraw
    have hone := m.statics.standby_le .redraw
    change m.statics.load ≤ queueCapacity
    omega
  | _ => exact roomy_polling he hp

lemma length_le_load (x : Statics) (task : TaskId) :
    x.taskQueue.items.length+x.standby task ≤ x.load := by
  cases task <;> simp only [Statics.load] <;> omega

theorem Roomy.advances (h : m.Roomy) (hstep : Advances info env m m') : m'.Roomy := by
  cases hstep with
  | spawnShell he hq =>
    unfold Roomy at h
    rw [he] at h
    have hload := Statics.load_push m.statics hq
    change Statics.load _+1 ≤ queueCapacity
    rw [hload]
    exact h
  | spawnRedraw he hq =>
    unfold Roomy at h
    rw [he] at h
    have hload := Statics.load_push m.statics hq
    change Statics.load _ ≤ queueCapacity
    rw [hload]
    exact h
  | spawnFull he hq =>
    have hlength := length_le_load m.statics .shell
    unfold Roomy at h
    rcases he with he | he
    · rw [he] at h
      change m.statics.load+2 ≤ queueCapacity at h
      omega
    · rw [he] at h
      change m.statics.load+1 ≤ queueCapacity at h
      omega
  | @popTask task taskQueue he hq =>
    have hlength : m.statics.taskQueue.items.length = taskQueue.items.length+1 := by
      rw [BoundedQueue.items_of_pop hq,List.length_cons]
    have hload := length_le_load m.statics task.other
    have hle := h.load_le fun cause hc => by rw [he] at hc; cases hc
    change taskQueue.items.length+m.statics.standby task.other+1 ≤ queueCapacity
    omega
  | shell he hs => exact h.shellStep he hs
  | redraw he hs => exact h.redrawStep he hs
  | idle he | disable he | awake he | halt he =>
    exact h.load_le fun cause hc => by rw [he] at hc; cases hc

theorem Roomy.interrupts (h : m.Roomy) {i : Interrupt} (ht : m.Timely (.interrupt i))
    (hstep : m.interrupt i = some m') : m'.Roomy := by
  obtain ⟨hpanic,hcases⟩ := interrupt_cases hstep
  have hroom := h.load_le hpanic
  rcases hcases with ⟨cause,hc,rfl⟩ | ⟨x,hx,he,rfl⟩ | ⟨x,hx,hhalt,rfl⟩
  · rintro rfl
    have := Statics.full_handle hc
    omega
  · change x.load ≤ queueCapacity
    rw [Statics.load_handle hx]
    exact hroom
  · have hload := Statics.load_handle hx
    unfold Roomy at h
    change m.executor.HasRoom x
    cases he : m.executor with
    | polling task =>
      have hpolled := Roomy.polled h he
      have hx₀ := m.statics.load_eq task
      have hx₁ := x.load_eq task
      change x.pressure task+1 ≤ queueCapacity
      by_cases hw : i.Wakes m.statics task
      · have hroomy := ht task he hw
        have hone := m.statics.standby_le task
        omega
      · have hsame : x.standby task = m.statics.standby task := by
          unfold Statics.standby
          rw [Statics.wakerOf_handle hx hw]
        omega
    | panicked cause => exact absurd he (hpanic cause)
    | _ =>
      rw [he] at h
      simp only [Executor.HasRoom,hload]
      exact h

end Kernel

/-- In a run of timely interrupts no wake finds the ready queue full. -/
theorem taskQueue_never_full (D : Decoder) (info : SystemInfo) (moves : List Move) (m : Kernel D)
    (htimely : Kernel.Meets Kernel.Timely info moves (Kernel.start : Kernel D))
    (hrun : Kernel.run info moves Kernel.start = some m) :
    m.executor ≠ .panicked .taskQueueFull := by
  have hroomy : m.Roomy := by
    refine htimely.run ?_ (by decide : 0+2 ≤ queueCapacity) hrun
    intro u move u' hu ht hstep
    cases move with
    | advance env => exact hu.advances (Kernel.advance_cases hstep)
    | interrupt i => exact hu.interrupts ht hstep
  intro hc
  unfold Kernel.Roomy at hroomy
  rw [hc] at hroomy
  exact hroomy rfl

/-- One key is released while the keyboard task looks for events the second time. -/
theorem taskQueue_never_full_late_key :
    ∃ m : Kernel .releases, Kernel.run plainInfo
        (Move.advances 11++[Move.release]) Kernel.start = some m ∧ m.statics.taskQueue.items = [.redraw,.shell] ∧
      m.executor ≠ .panicked .taskQueueFull := by
  obtain ⟨u,hu,hpressure⟩ : ∃ u : Kernel .releases,
      Kernel.run plainInfo (Move.advances 11) Kernel.start = some u ∧
        ∀ task, u.statics.pressure task+2 ≤ queueCapacity := by
    refine ⟨_,rfl,fun task => ?_⟩
    cases task <;> decide
  have htimely : Kernel.Meets Kernel.Timely plainInfo (Move.advances 11++[Move.release])
      (Kernel.start : Kernel .releases) := by
    refine Kernel.meets_append (Kernel.meets_advances _ _ _ _) fun u' hu' => ?_
    rw [hu] at hu'
    cases hu'
    exact ⟨fun task _ _ => hpressure task,fun _ _ => trivial⟩
  obtain ⟨m,hm,hitems⟩ : ∃ m : Kernel .releases, Kernel.run plainInfo
        (Move.advances 11++[Move.release]) Kernel.start = some m ∧ m.statics.taskQueue.items = [.redraw,.shell] := ⟨_,rfl,rfl⟩
  exact ⟨m,hm,hitems,taskQueue_never_full _ _ _ m htimely hm⟩

/-! ### A key at every second look -/

namespace Kernel

/-- The keyboard task has registered its waker and is about to look for an event once more; the
queue is empty and no scancode was dropped. -/
structure Late (m : Kernel .releases) : Prop where
  executor : m.executor = .polling .shell
  shell : ∃ shells, m.shell = .popAgain ⟨(),shells,0⟩
  waker : m.statics.waker = some .shell
  input : m.statics.inputQueue = some .empty
  dropped : m.statics.droppedScancodes = 0

/-- A key is released, and the task handles it and gets to its second look again. -/
def lateKey : List Move :=
  .release :: Move.advances 6

lemma Late.again {m : Kernel .releases} (h : m.Late)
    (hroom : m.statics.taskQueue.items.length < queueCapacity) :
    ∃ m', run plainInfo lateKey m = some m' ∧ m'.Late ∧
      m'.statics.taskQueue.items.length = m.statics.taskQueue.items.length+1 := by
  obtain ⟨⟨console,inputQueue,dropped,waker,redrawWaker,pending,taskQueue,arrived⟩,executor,point,
    redraw,lost,fed,earlier⟩ := m
  obtain ⟨rfl,⟨shells,rfl⟩,rfl,rfl,rfl⟩ := h
  obtain ⟨grown,hgrown⟩ := BoundedQueue.exists_push (a := TaskId.shell) hroom
  have hlength := BoundedQueue.length_push hgrown
  have hkey : Statics.addScancode ⟨console,some .empty,0,some .shell,redrawWaker,pending,taskQueue,
      arrived⟩ 0x9e = .ok ⟨console,some ⟨[⟨.scancode 0x9e,arrived.length⟩],(by decide : 1 ≤ 100)⟩,
        0,none,redrawWaker,pending,grown,arrived++[0x9e]⟩ := by
    change Statics.wakeTask _ (some .shell) = _
    simp only [Statics.wakeTask,hgrown]
    rfl
  have hrun : run (D := .releases) plainInfo lateKey ⟨⟨console,some .empty,0,some .shell,redrawWaker,pending,
      taskQueue,arrived⟩,.polling .shell,.popAgain ⟨(),shells,0⟩,redraw,lost,fed,earlier⟩ =
      some ⟨⟨console,some .empty,0,some .shell,redrawWaker,pending,grown,arrived++[0x9e]⟩,
        .polling .shell,.popAgain ⟨(),shells,0⟩,redraw,0,fed++[(0x9e,arrived.length)],earlier⟩ := by
    simp only [lateKey,Move.release,run,step,interrupt,Interrupt.handle,hkey,Option.bind_some]
    rfl
  exact ⟨_,hrun,⟨rfl,⟨shells,rfl⟩,rfl,rfl,rfl⟩,hlength⟩

lemma Late.repeat {m : Kernel .releases} (h : m.Late) (n : ℕ)
    (hroom : m.statics.taskQueue.items.length+n ≤ queueCapacity) :
    ∃ m', run plainInfo (List.replicate n lateKey).flatten m = some m' ∧ m'.Late ∧
      m'.statics.taskQueue.items.length = m.statics.taskQueue.items.length+n := by
  induction n generalizing m with
  | zero => exact ⟨m,rfl,h,rfl⟩
  | succ n ih =>
    obtain ⟨u,hu,hlate,hlength⟩ := h.again (by omega)
    obtain ⟨m',hm',hlate',hlength'⟩ := ih hlate (by omega)
    exact ⟨m',run_trans hu hm',hlate',by omega⟩

lemma Late.full {m : Kernel .releases} (h : m.Late)
    (hfull : m.statics.taskQueue.items.length = queueCapacity) :
    ∃ m', run plainInfo [.release] m = some m' ∧
      m'.executor = .panicked .taskQueueFull := by
  obtain ⟨⟨console,inputQueue,dropped,waker,redrawWaker,pending,taskQueue,arrived⟩,executor,point,
    redraw,lost,fed,earlier⟩ := m
  obtain ⟨rfl,-,rfl,rfl,rfl⟩ := h
  have hpush : taskQueue.push .shell = none := BoundedQueue.push_eq_none_iff.mpr hfull
  have hkey : Statics.addScancode ⟨console,some .empty,0,some .shell,redrawWaker,pending,taskQueue,
      arrived⟩ 0x9e = .error .taskQueueFull := by
    change Statics.wakeTask _ (some .shell) = _
    simp only [Statics.wakeTask,hpush]
  refine ⟨panic ⟨⟨console,some .empty,0,some .shell,redrawWaker,pending,taskQueue,arrived⟩,
    .polling .shell,point,redraw,lost,fed,earlier⟩ .taskQueueFull,?_,rfl⟩
  simp only [Move.release,run,step,interrupt,Interrupt.handle,hkey,Option.bind_some]

end Kernel

/-- The kernel stops in the hundredth interrupt that comes at a second look. -/
theorem late_keys_fill_taskQueue :
    ∃ m : Kernel .releases, Kernel.run plainInfo (Move.advances 11++
      ((List.replicate 99 Kernel.lateKey).flatten++[Move.release])) Kernel.start = some m ∧
        m.executor = .panicked .taskQueueFull := by
  obtain ⟨m₁,h₁,hlate₁,hlength₁⟩ : ∃ m₁ : Kernel .releases,
      Kernel.run plainInfo (Move.advances 11) Kernel.start = some m₁ ∧ m₁.Late ∧ m₁.statics.taskQueue.items.length = 1 :=
    ⟨_,rfl,⟨rfl,⟨_,rfl⟩,rfl,rfl,rfl⟩,rfl⟩
  obtain ⟨m₂,h₂,hlate₂,hlength₂⟩ := hlate₁.repeat 99 (by rw [hlength₁]; decide)
  obtain ⟨m₃,h₃,hpanic⟩ := hlate₂.full (by rw [hlength₂,hlength₁]; rfl)
  exact ⟨m₃,Kernel.run_trans h₁ (Kernel.run_trans h₂ h₃),hpanic⟩

end CrabOs
