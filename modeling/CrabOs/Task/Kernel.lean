import CrabOs.Foundations.BoundedQueue
import CrabOs.Foundations.Runs
import CrabOs.Desktop.Console

/-! The executor with its two tasks, `run_shell` and `run_redraw_worker`, step by step, and the
interrupts that come between any two steps. -/
namespace CrabOs
open Vga Crabsh AtomicProgram

/-- The two tasks the kernel spawns. -/
inductive TaskId
  | shell
  | redraw
  deriving DecidableEq

/-- An entry of the input queue. The code does not know `place`: for a scancode it is the number
of scancodes that arrived before it since the queue was created. -/
structure Entry where
  event : InputEvent
  place : ℕ

/-- The scancode of an entry with its place. -/
def Entry.scancodes (entry : Entry) : List (UInt8 × ℕ) :=
  match entry.event with
  | .scancode code => [(code,entry.place)]
  | _ => []

/-- Why the kernel stopped. -/
inductive Panic
  | taskQueueFull
  | queueExists
  | noQueue
  | console

def queueCapacity : ℕ := 100

/-- What interrupt handlers and tasks share. `droppedScancodes` counts without wrapping; the code
reads it modulo `2^64`. `arrived` is not stored by the code: it lists the scancodes passed to
`add_scancode` since the input queue was created. -/
structure Statics where
  console : Console
  inputQueue : Option (BoundedQueue Entry queueCapacity)
  droppedScancodes : ℕ
  waker : Option TaskId
  redrawWaker : Option TaskId
  redrawPending : Bool
  taskQueue : BoundedQueue TaskId queueCapacity
  arrived : List UInt8

namespace Statics

def initial : Statics := ⟨Console.initial,none,0,none,none,false,.empty,[]⟩

/-- `wake_task` of a waker that was taken, if there was one. -/
def wakeTask (x : Statics) : Option TaskId → Except Panic Statics
  | some id => match x.taskQueue.push id with
    | some taskQueue => .ok { x with taskQueue := taskQueue }
    | none => .error .taskQueueFull
  | none => .ok x

/-- `WAKER.wake()`. -/
def wake (x : Statics) : Except Panic Statics := wakeTask { x with waker := none } x.waker

/-- `REDRAW_WAKER.wake()`. -/
def wakeRedraw (x : Statics) : Except Panic Statics :=
  wakeTask { x with redrawWaker := none } x.redrawWaker

/-- An action that finds the queue full is lost without a trace. -/
def desktopAction (x : Statics) (event : InputEvent) : Except Panic Statics :=
  match x.inputQueue with
  | some queue =>
    wake { x with inputQueue := some ((queue.push ⟨event,x.arrived.length⟩).getD queue) }
  | none => .ok x

def addScancode (x : Statics) (code : UInt8) : Except Panic Statics :=
  match x.inputQueue with
  | some queue => match queue.push ⟨.scancode code,x.arrived.length⟩ with
    | some queue => wake { x with inputQueue := some queue, arrived := x.arrived++[code] }
    | none => wake { x with
        droppedScancodes := x.droppedScancodes+1, arrived := x.arrived++[code] }
  | none => .ok x

def mouseByte (x : Statics) (byte : UInt8) : Except Panic Statics :=
  match x.console.mouseByte byte with
  | some (console,result) => do
    let x := { x with console := console }
    let x ← match result.action with
      | some event => x.desktopAction event
      | none => .ok x
    if result.completed then wakeRedraw { x with redrawPending := true } else return x
  | none => .error .console

variable {x y : Statics}

lemma wakeTask_ok {waker : Option TaskId} (h : x.wakeTask waker = .ok y) :
    ∃ taskQueue, taskQueue.items = x.taskQueue.items++waker.toList ∧
      y = { x with taskQueue := taskQueue } := by
  cases waker with
  | none => cases h; exact ⟨x.taskQueue,by simp,rfl⟩
  | some id =>
    simp only [wakeTask] at h
    split at h
    next hq => cases h; exact ⟨_,BoundedQueue.items_push hq,rfl⟩
    next => cases h

lemma wakeTask_error {waker : Option TaskId} {cause : Panic} (h : x.wakeTask waker = .error cause) :
    x.taskQueue.items.length = queueCapacity ∧ waker.isSome := by
  cases waker with
  | none => cases h
  | some id =>
    simp only [wakeTask] at h
    split at h
    next => cases h
    next hq => exact ⟨BoundedQueue.push_eq_none_iff.mp hq,rfl⟩

lemma wake_ok (h : x.wake = .ok y) :
    ∃ taskQueue, taskQueue.items = x.taskQueue.items++x.waker.toList ∧
      y = { x with waker := none, taskQueue := taskQueue } := wakeTask_ok h

lemma wakeRedraw_ok (h : x.wakeRedraw = .ok y) :
    ∃ taskQueue, taskQueue.items = x.taskQueue.items++x.redrawWaker.toList ∧
      y = { x with redrawWaker := none, taskQueue := taskQueue } := wakeTask_ok h

lemma mouseByte_cases {byte : UInt8} (h : x.mouseByte byte = .ok y) :
    ∃ console result x', x.console.mouseByte byte = some (console,result) ∧
      (result.action = none ∧ x' = { x with console := console } ∨
        ∃ event, result.action = some event ∧
          desktopAction { x with console := console } event = .ok x') ∧
      (result.completed = false ∧ y = x' ∨
        result.completed = true ∧ wakeRedraw { x' with redrawPending := true } = .ok y) := by
  unfold mouseByte at h
  split at h
  next console result hk =>
    cases ha : result.action with
    | none =>
      simp only [ha] at h
      cases hc : result.completed with
      | false => rw [hc] at h; cases h; exact ⟨_,_,_,hk,.inl ⟨ha,rfl⟩,.inl ⟨hc,rfl⟩⟩
      | true => rw [hc] at h; exact ⟨_,_,_,hk,.inl ⟨ha,rfl⟩,.inr ⟨hc,h⟩⟩
    | some event =>
      simp only [ha] at h
      cases hd : desktopAction { x with console := console } event with
      | error cause => rw [hd] at h; cases h
      | ok x' =>
        rw [hd] at h
        cases hc : result.completed with
        | false => rw [hc] at h; cases h; exact ⟨_,_,_,hk,.inr ⟨_,ha,hd⟩,.inl ⟨hc,rfl⟩⟩
        | true => rw [hc] at h; exact ⟨_,_,_,hk,.inr ⟨_,ha,hd⟩,.inr ⟨hc,h⟩⟩
  next => cases h

end Statics

inductive Interrupt
  | timer
  | keyboard (code : UInt8)
  | mouse (byte : UInt8)

def Interrupt.handle (x : Statics) : Interrupt → Except Panic Statics
  | .timer => .ok x
  | .keyboard code => x.addScancode code
  | .mouse byte => x.mouseByte byte

/-- The variables of `run_shell`. -/
structure Locals (D : Decoder) where
  keyboard : D.State
  shells : Shells
  dropped : ℕ

/-- Where `run_shell` continues. `popEvent`, `register`, `popAgain` and `takeWaker` are the steps
of `poll_next`. -/
inductive ShellPoint (D : Decoder)
  | createQueue
  | starting (program : ConsoleProgram Shells)
  | sampleDropped (shells : Shells)
  | popEvent (locals : Locals D)
  | register (locals : Locals D)
  | popAgain (locals : Locals D)
  | takeWaker (locals : Locals D) (entry : Entry)
  | readDropped (locals : Locals D) (entry : Entry)
  | drain (locals : Locals D) (current : ℕ)
  | handling (keyboard : D.State) (dropped : ℕ) (program : ConsoleProgram Shells)

/-- Where `run_redraw_worker` continues. -/
inductive RedrawPoint
  | register
  | swap
  | refresh

/-- Where the executor is. Interrupts are disabled at `isEmpty` only. -/
inductive Executor
  | spawnShell
  | spawnRedraw
  | popTask
  | polling (task : TaskId)
  | disable
  | isEmpty
  | halted
  | panicked (cause : Panic)

/-- The whole kernel between two steps. The last three fields are not part of the code: the
number of dropped scancodes at the last read of their counter, the scancodes fed to the current
decoder, and those fed to each earlier one. -/
structure Kernel (D : Decoder) where
  statics : Statics
  executor : Executor
  shell : ShellPoint D
  redraw : RedrawPoint
  lostAtRead : ℕ
  fed : List (UInt8 × ℕ)
  earlier : List (List (UInt8 × ℕ))

namespace Kernel
variable {D : Decoder}

def start : Kernel D := ⟨Statics.initial,.spawnShell,.createQueue,.register,0,[],[]⟩

def panic (m : Kernel D) (cause : Panic) : Kernel D := { m with executor := .panicked cause }

/-- `dropped_scancodes()`. -/
def droppedScancodes (m : Kernel D) : ℕ := m.statics.droppedScancodes % 2^64

/-- One atomic call of a console program. -/
def call (m : Kernel D) (c : ConsoleCall) (next : c.Answer → ShellPoint D) : Kernel D :=
  match Console.handler c m.statics.console with
  | some (console,r) =>
    { m with statics := { m.statics with console := console }, shell := next r }
  | none => m.panic .console

/-- One step of `run_shell` while it is polled. -/
def pollShell (info : SystemInfo) (env : Environment) (m : Kernel D) : Kernel D :=
  match m.shell with
  | .createQueue => match m.statics.inputQueue with
    | none => { m with
        statics := { m.statics with inputQueue := some .empty }
        shell := .starting startShells }
    | some _ => m.panic .queueExists
  | .starting (.call c next) => m.call c fun r => .starting (next r)
  | .starting .fail => m.panic .console
  | .starting (.ret shells) => { m with shell := .sampleDropped shells }
  | .sampleDropped shells => { m with
      shell := .popEvent ⟨D.new,shells,m.droppedScancodes⟩
      lostAtRead := m.statics.droppedScancodes }
  | .popEvent locals => match m.statics.inputQueue with
    | some queue => match queue.pop with
      | some (entry,queue) => { m with
          statics := { m.statics with inputQueue := some queue }
          shell := .readDropped locals entry }
      | none => { m with shell := .register locals }
    | none => m.panic .noQueue
  | .register locals => { m with
      statics := { m.statics with waker := some .shell }
      shell := .popAgain locals }
  | .popAgain locals => match m.statics.inputQueue with
    | some queue => match queue.pop with
      | some (entry,queue) => { m with
          statics := { m.statics with inputQueue := some queue }
          shell := .takeWaker locals entry }
      | none => { m with shell := .popEvent locals, executor := .popTask }
    | none => m.panic .noQueue
  | .takeWaker locals entry => { m with
      statics := { m.statics with waker := none }
      shell := .readDropped locals entry }
  | .readDropped locals entry =>
    if m.droppedScancodes ≠ locals.dropped then { m with
      shell := .drain locals m.droppedScancodes
      lostAtRead := m.statics.droppedScancodes }
    else
      let (keyboard,key) := D.decode locals.keyboard entry.event
      { m with
        shell := .handling keyboard locals.dropped
          (handleEvent info env locals.shells key entry.event)
        lostAtRead := m.statics.droppedScancodes
        fed := m.fed++entry.scancodes }
  | .drain locals current => { m with
      statics := { m.statics with inputQueue := m.statics.inputQueue.map fun _ => .empty }
      shell := .handling D.new current (handleLoss locals.shells)
      fed := []
      earlier := m.earlier++[m.fed] }
  | .handling keyboard dropped (.call c next) =>
    m.call c fun r => .handling keyboard dropped (next r)
  | .handling _ _ .fail => m.panic .console
  | .handling keyboard dropped (.ret shells) =>
    { m with shell := .popEvent ⟨keyboard,shells,dropped⟩ }

/-- One step of `run_redraw_worker` while it is polled. -/
def pollRedraw (m : Kernel D) : Kernel D :=
  match m.redraw with
  | .register => { m with
      statics := { m.statics with redrawWaker := some .redraw }
      redraw := .swap }
  | .swap =>
    if m.statics.redrawPending then { m with
      statics := { m.statics with redrawPending := false }
      redraw := .refresh }
    else { m with redraw := .register, executor := .popTask }
  | .refresh => match Console.handler (.withWriter none []) m.statics.console with
    | some (console,_) => { m with
        statics := { m.statics with console := console }
        redraw := .register }
    | none => m.panic .console

/-- `Executor::spawn`. -/
def spawn (m : Kernel D) (task : TaskId) (next : Executor) : Kernel D :=
  match m.statics.taskQueue.push task with
  | some taskQueue =>
    { m with statics := { m.statics with taskQueue := taskQueue }, executor := next }
  | none => m.panic .taskQueueFull

/-- One step of the executor, unless it is halted. Both tasks loop forever, so none is ever
removed from the executor. -/
def advance (info : SystemInfo) (env : Environment) (m : Kernel D) : Option (Kernel D) :=
  match m.executor with
  | .spawnShell => some (m.spawn .shell .spawnRedraw)
  | .spawnRedraw => some (m.spawn .redraw .popTask)
  | .popTask => match m.statics.taskQueue.pop with
    | some (task,taskQueue) => some { m with
        statics := { m.statics with taskQueue := taskQueue }
        executor := .polling task }
    | none => some { m with executor := .disable }
  | .polling .shell => some (m.pollShell info env)
  | .polling .redraw => some m.pollRedraw
  | .disable => some { m with executor := .isEmpty }
  | .isEmpty =>
    if m.statics.taskQueue.items = [] then some { m with executor := .halted }
    else some { m with executor := .popTask }
  | .halted => none
  | .panicked _ => none

/-- An interrupt, where interrupts are enabled; it ends a halt. -/
def interrupt (m : Kernel D) (i : Interrupt) : Option (Kernel D) :=
  match m.executor with
  | .isEmpty => none
  | .panicked _ => none
  | executor => some (match i.handle m.statics with
    | .ok statics => { m with
        statics := statics
        executor := match executor with
          | .halted => .popTask
          | executor => executor }
    | .error cause => m.panic cause)

end Kernel

/-- The executor advances, with what a command would read from the rest of the kernel, or an
interrupt comes. -/
inductive Move
  | advance (env : Environment)
  | interrupt (i : Interrupt)

/-- The executor advances right after boot, so many times. -/
def Move.advances (n : ℕ) : List Move := List.replicate n (.advance plainEnvironment)

/-- A key is released. -/
def Move.release : Move := .interrupt (.keyboard 0x9e)

namespace Kernel
variable {D : Decoder}

def step (info : SystemInfo) (m : Kernel D) : Move → Option (Kernel D)
  | .advance env => m.advance info env
  | .interrupt i => m.interrupt i

def run (info : SystemInfo) : List Move → Kernel D → Option (Kernel D)
  | [],m => some m
  | move :: moves,m => (m.step info move).bind (run info moves)

/-! ### What one step can do -/

/-- A console program of `run_shell` made one call. -/
inductive Called : ShellPoint D → ShellPoint D → Prop
  | starting (p p' : ConsoleProgram Shells) : Called (.starting p) (.starting p')
  | handling (keyboard : D.State) (dropped : ℕ) (p p' : ConsoleProgram Shells) :
      Called (.handling keyboard dropped p) (.handling keyboard dropped p')

/-- The steps of `run_shell` while it is polled. -/
inductive ShellStep (info : SystemInfo) (env : Environment) (m : Kernel D) : Kernel D → Prop
  | panic {cause : Panic} (h : cause ≠ .taskQueueFull) : ShellStep info env m (m.panic cause)
  | createQueue (hp : m.shell = .createQueue) (hq : m.statics.inputQueue = none) :
      ShellStep info env m { m with
        statics := { m.statics with inputQueue := some .empty }
        shell := .starting startShells }
  | called {point : ShellPoint D} (hp : Called m.shell point) (console : Console) :
      ShellStep info env m { m with
        statics := { m.statics with console := console }, shell := point }
  | started {shells : Shells} (hp : m.shell = .starting (.ret shells)) :
      ShellStep info env m { m with shell := .sampleDropped shells }
  | sampleDropped {shells : Shells} (hp : m.shell = .sampleDropped shells) :
      ShellStep info env m { m with
        shell := .popEvent ⟨D.new,shells,m.droppedScancodes⟩
        lostAtRead := m.statics.droppedScancodes }
  | popEvent {locals : Locals D} {queue rest : BoundedQueue Entry queueCapacity} {entry : Entry}
      (hp : m.shell = .popEvent locals) (hq : m.statics.inputQueue = some queue)
      (hpop : queue.pop = some (entry,rest)) :
      ShellStep info env m { m with
        statics := { m.statics with inputQueue := some rest }
        shell := .readDropped locals entry }
  | popNone {locals : Locals D} {queue : BoundedQueue Entry queueCapacity}
      (hp : m.shell = .popEvent locals) (hq : m.statics.inputQueue = some queue)
      (hpop : queue.pop = none) : ShellStep info env m { m with shell := .register locals }
  | register {locals : Locals D} (hp : m.shell = .register locals) :
      ShellStep info env m { m with
        statics := { m.statics with waker := some .shell }
        shell := .popAgain locals }
  | popAgain {locals : Locals D} {queue rest : BoundedQueue Entry queueCapacity} {entry : Entry}
      (hp : m.shell = .popAgain locals) (hq : m.statics.inputQueue = some queue)
      (hpop : queue.pop = some (entry,rest)) :
      ShellStep info env m { m with
        statics := { m.statics with inputQueue := some rest }
        shell := .takeWaker locals entry }
  | pending {locals : Locals D} {queue : BoundedQueue Entry queueCapacity}
      (hp : m.shell = .popAgain locals) (hq : m.statics.inputQueue = some queue)
      (hpop : queue.pop = none) :
      ShellStep info env m { m with shell := .popEvent locals, executor := .popTask }
  | takeWaker {locals : Locals D} {entry : Entry} (hp : m.shell = .takeWaker locals entry) :
      ShellStep info env m { m with
        statics := { m.statics with waker := none }
        shell := .readDropped locals entry }
  | lossRead {locals : Locals D} {entry : Entry} (hp : m.shell = .readDropped locals entry)
      (hd : m.droppedScancodes ≠ locals.dropped) :
      ShellStep info env m { m with
        shell := .drain locals m.droppedScancodes
        lostAtRead := m.statics.droppedScancodes }
  | eventRead {locals : Locals D} {entry : Entry} (hp : m.shell = .readDropped locals entry)
      (hd : m.droppedScancodes = locals.dropped) :
      ShellStep info env m { m with
        shell := .handling (D.decode locals.keyboard entry.event).1 locals.dropped
          (handleEvent info env locals.shells (D.decode locals.keyboard entry.event).2 entry.event)
        lostAtRead := m.statics.droppedScancodes
        fed := m.fed++entry.scancodes }
  | drain {locals : Locals D} {current : ℕ} (hp : m.shell = .drain locals current) :
      ShellStep info env m { m with
        statics := { m.statics with inputQueue := m.statics.inputQueue.map fun _ => .empty }
        shell := .handling D.new current (handleLoss locals.shells)
        fed := []
        earlier := m.earlier++[m.fed] }
  | handled {keyboard : D.State} {dropped : ℕ} {shells : Shells}
      (hp : m.shell = .handling keyboard dropped (.ret shells)) :
      ShellStep info env m { m with shell := .popEvent ⟨keyboard,shells,dropped⟩ }

variable {m m' : Kernel D} {info : SystemInfo} {env : Environment}

lemma call_cases {c : ConsoleCall} {next : c.Answer → ShellPoint D}
    (hp : ∀ r, Called m.shell (next r)) : ShellStep info env m (m.call c next) := by
  unfold call
  split
  · exact .called (hp _) _
  · exact .panic (by simp)

theorem pollShell_cases (m : Kernel D) : ShellStep info env m (m.pollShell info env) := by
  unfold pollShell
  split
  next hp =>
    split
    next hq => exact .createQueue hp hq
    next => exact .panic (by simp)
  next c next hp => exact call_cases fun r => by rw [hp]; exact .starting _ _
  next => exact .panic (by simp)
  next hp => exact .started hp
  next hp => exact .sampleDropped hp
  next hp =>
    split
    next hq =>
      split
      next hpop => exact .popEvent hp hq hpop
      next hpop => exact .popNone hp hq hpop
    next => exact .panic (by simp)
  next hp => exact .register hp
  next hp =>
    split
    next hq =>
      split
      next hpop => exact .popAgain hp hq hpop
      next hpop => exact .pending hp hq hpop
    next => exact .panic (by simp)
  next hp => exact .takeWaker hp
  next hp =>
    split_ifs with hd
    · exact .lossRead hp hd
    · exact .eventRead hp (not_not.mp hd)
  next hp => exact .drain hp
  next keyboard dropped c next hp => exact call_cases fun r => by rw [hp]; exact .handling _ _ _ _
  next => exact .panic (by simp)
  next hp => exact .handled hp

/-- The steps of `run_redraw_worker` while it is polled. -/
inductive RedrawStep (m : Kernel D) : Kernel D → Prop
  | panic {cause : Panic} (h : cause ≠ .taskQueueFull) : RedrawStep m (m.panic cause)
  | register (hp : m.redraw = .register) : RedrawStep m { m with
      statics := { m.statics with redrawWaker := some .redraw }
      redraw := .swap }
  | swap (hp : m.redraw = .swap) (hs : m.statics.redrawPending = true) : RedrawStep m { m with
      statics := { m.statics with redrawPending := false }
      redraw := .refresh }
  | pending (hp : m.redraw = .swap) (hs : m.statics.redrawPending = false) :
      RedrawStep m { m with redraw := .register, executor := .popTask }
  | refresh (hp : m.redraw = .refresh) (console : Console) : RedrawStep m { m with
      statics := { m.statics with console := console }
      redraw := .register }

theorem pollRedraw_cases (m : Kernel D) : RedrawStep m m.pollRedraw := by
  unfold pollRedraw
  split
  next hp => exact .register hp
  next hp =>
    split_ifs with hs
    · exact .swap hp hs
    · exact .pending hp (by simpa using hs)
  next hp =>
    split
    · exact .refresh hp _
    · exact .panic (by simp)

/-- The steps of the executor. -/
inductive Advances (info : SystemInfo) (env : Environment) (m : Kernel D) : Kernel D → Prop
  | spawnShell {taskQueue : BoundedQueue TaskId queueCapacity} (he : m.executor = .spawnShell)
      (hq : m.statics.taskQueue.push .shell = some taskQueue) : Advances info env m { m with
        statics := { m.statics with taskQueue := taskQueue }, executor := .spawnRedraw }
  | spawnRedraw {taskQueue : BoundedQueue TaskId queueCapacity} (he : m.executor = .spawnRedraw)
      (hq : m.statics.taskQueue.push .redraw = some taskQueue) : Advances info env m { m with
        statics := { m.statics with taskQueue := taskQueue }, executor := .popTask }
  | spawnFull (he : m.executor = .spawnShell ∨ m.executor = .spawnRedraw)
      (hq : m.statics.taskQueue.items.length = queueCapacity) :
      Advances info env m (m.panic .taskQueueFull)
  | popTask {task : TaskId} {taskQueue : BoundedQueue TaskId queueCapacity}
      (he : m.executor = .popTask) (hq : m.statics.taskQueue.pop = some (task,taskQueue)) :
      Advances info env m { m with
        statics := { m.statics with taskQueue := taskQueue }, executor := .polling task }
  | idle (he : m.executor = .popTask) (hq : m.statics.taskQueue.pop = none) :
      Advances info env m { m with executor := .disable }
  | shell {m' : Kernel D} (he : m.executor = .polling .shell) (h : ShellStep info env m m') :
      Advances info env m m'
  | redraw {m' : Kernel D} (he : m.executor = .polling .redraw) (h : RedrawStep m m') :
      Advances info env m m'
  | disable (he : m.executor = .disable) : Advances info env m { m with executor := .isEmpty }
  | halt (he : m.executor = .isEmpty) (hq : m.statics.taskQueue.items = []) :
      Advances info env m { m with executor := .halted }
  | awake (he : m.executor = .isEmpty) : Advances info env m { m with executor := .popTask }

theorem advance_cases (h : m.advance info env = some m') : Advances info env m m' := by
  unfold advance at h
  split at h
  next he =>
    cases h
    unfold spawn
    split
    next hq => exact .spawnShell he hq
    next hq => exact .spawnFull (.inl he) (BoundedQueue.push_eq_none_iff.mp hq)
  next he =>
    cases h
    unfold spawn
    split
    next hq => exact .spawnRedraw he hq
    next hq => exact .spawnFull (.inr he) (BoundedQueue.push_eq_none_iff.mp hq)
  next he =>
    split at h
    next hq => cases h; exact .popTask he hq
    next hq => cases h; exact .idle he hq
  next he => cases h; exact .shell he (pollShell_cases m)
  next he => cases h; exact .redraw he (pollRedraw_cases m)
  next he => cases h; exact .disable he
  next he =>
    split_ifs at h with hq
    · cases h; exact .halt he hq
    · cases h; exact .awake he
  next => cases h
  next => cases h

/-- What an interrupt leaves of the executor. -/
theorem interrupt_cases {i : Interrupt} (h : m.interrupt i = some m') :
    (∀ cause, m.executor ≠ .panicked cause) ∧
    ((∃ cause, i.handle m.statics = .error cause ∧ m' = m.panic cause) ∨
    (∃ x, i.handle m.statics = .ok x ∧ m.executor = .halted ∧
      m' = { m with statics := x, executor := .popTask }) ∨
    (∃ x, i.handle m.statics = .ok x ∧ m.executor ≠ .halted ∧ m' = { m with statics := x })) := by
  unfold interrupt at h
  split at h
  next => cases h
  next => cases h
  next _ hpanic =>
    refine ⟨hpanic,?_⟩
    cases h
    cases hh : i.handle m.statics with
    | error cause => exact .inl ⟨cause,rfl,rfl⟩
    | ok x =>
      by_cases he : m.executor = .halted
      · exact .inr (.inl ⟨x,rfl,he,by simp [he]⟩)
      · refine .inr (.inr ⟨x,rfl,he,?_⟩)
        dsimp only
        split
        next hc => exact absurd hc he
        next => rfl

/-- Every step of a run meets a condition on the state before it. -/
def Meets (C : Kernel D → Move → Prop) (info : SystemInfo) : List Move → Kernel D → Prop
  | [],_ => True
  | move :: moves,m => C m move ∧ ∀ m', m.step info move = some m' → Meets C info moves m'

lemma run_append (info : SystemInfo) (first second : List Move) (m : Kernel D) :
    run info (first++second) m = (run info first m).bind (run info second) := by
  have hrun : (run info : List Move → Kernel D → _) =
      Runs.run fun m move => m.step info move :=
    Runs.eq_run (fun _ => rfl) fun _ _ _ => rfl
  rw [hrun]
  exact Runs.run_append first second m

lemma run_trans {first second : List Move} {u : Kernel D} (h : run info first m = some u)
    (h' : run info second u = some m') : run info (first++second) m = some m' := by
  rw [run_append,h]
  exact h'

lemma run_cons {move : Move} {moves : List Move} {u : Kernel D} (h : m.step info move = some u)
    (h' : run info moves u = some m') : run info (move :: moves) m = some m' := by
  rw [run,h]
  exact h'

lemma meets_append {C : Kernel D → Move → Prop} {first second : List Move}
    (h : Meets C info first m) (h' : ∀ u, run info first m = some u → Meets C info second u) :
    Meets C info (first++second) m := by
  induction first generalizing m with
  | nil => exact h' m rfl
  | cons move first ih =>
    exact ⟨h.1,fun u hu => ih (h.2 u hu) fun w hw => h' w (by rw [run,hu]; exact hw)⟩

/-- What each step under the condition preserves holds at the end of a run that meets it. -/
theorem Meets.run {C : Kernel D → Move → Prop} {I : Kernel D → Prop} {moves : List Move}
    (hstep : ∀ m move m', I m → C m move → m.step info move = some m' → I m')
    (h : Meets C info moves m) (hm : I m) (hrun : run info moves m = some m') : I m' := by
  induction moves generalizing m with
  | nil => cases hrun; exact hm
  | cons move moves ih =>
    obtain ⟨u,hu,hrun⟩ := Option.bind_eq_some_iff.mp hrun
    exact ih (h.2 u hu) (hstep m move u hm h.1 hu) hrun

lemma meets_true (info : SystemInfo) (moves : List Move) (m : Kernel D) :
    Meets (fun _ _ => True) info moves m := by
  induction moves generalizing m with
  | nil => trivial
  | cons move moves ih => exact ⟨trivial,fun m' _ => ih m'⟩

end Kernel
end CrabOs
