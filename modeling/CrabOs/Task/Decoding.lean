import CrabOs.Task.Kernel

/-! The scancodes fed to one decoder are consecutive arrivals: after a loss the decoder is
replaced before it is fed again. -/
namespace CrabOs
open Crabsh

namespace Statics
variable {x y : Statics}

/-- The scancodes in the input queue. -/
def queued (x : Statics) : List (UInt8 × ℕ) :=
  (x.inputQueue.elim [] BoundedQueue.items).flatMap Entry.scancodes

/-- The scancodes that have arrived, each with its place. -/
def numbered (x : Statics) : List (UInt8 × ℕ) := x.arrived.zipIdx

/-- What an interrupt does to the scancodes. -/
inductive Arrival (x y : Statics) : Prop
  | nothing (hq : y.queued = x.queued) (ha : y.numbered = x.numbered)
      (hd : y.droppedScancodes = x.droppedScancodes)
  | stored {scancode : UInt8 × ℕ} (hq : y.queued = x.queued++[scancode])
      (ha : y.numbered = x.numbered++[scancode]) (hd : y.droppedScancodes = x.droppedScancodes)
  | dropped {scancode : UInt8 × ℕ} (hq : y.queued = x.queued)
      (ha : y.numbered = x.numbered++[scancode]) (hd : y.droppedScancodes = x.droppedScancodes+1)

/-- The two states agree on scancodes. -/
def SameInput (x y : Statics) : Prop :=
  y.queued = x.queued ∧ y.numbered = x.numbered ∧ y.droppedScancodes = x.droppedScancodes

lemma Arrival.congr {x' y' : Statics} (h : x.Arrival y) (hx : x.SameInput x')
    (hy : y.SameInput y') : x'.Arrival y' := by
  obtain ⟨hxq,hxa,hxd⟩ := hx
  obtain ⟨hyq,hya,hyd⟩ := hy
  cases h with
  | nothing hq ha hd => exact .nothing (by rw [hyq,hxq,hq]) (by rw [hya,hxa,ha]) (by rw [hyd,hxd,hd])
  | stored hq ha hd => exact .stored (by rw [hyq,hxq,hq]) (by rw [hya,hxa,ha]) (by rw [hyd,hxd,hd])
  | dropped hq ha hd => exact .dropped (by rw [hyq,hxq,hq]) (by rw [hya,hxa,ha]) (by rw [hyd,hxd,hd])

lemma numbered_append (x : Statics) (code : UInt8) :
    (x.arrived++[code]).zipIdx = x.numbered++[(code,x.arrived.length)] := by
  rw [List.zipIdx_append]
  simp [numbered]

lemma queued_push {queue queue' : BoundedQueue Entry queueCapacity} {entry : Entry}
    (hq : x.inputQueue = some queue) (hp : queue.push entry = some queue') :
    queue'.items.flatMap Entry.scancodes = x.queued++entry.scancodes := by
  rw [BoundedQueue.items_push hp,queued,hq]
  simp

/-- An action is no scancode. -/
lemma arrival_desktopAction {event : InputEvent} (h : x.desktopAction event = .ok y)
    (hevent : ∀ code, event ≠ .scancode code) : x.Arrival y := by
  have hnone : ∀ place, (Entry.mk event place).scancodes = [] := by
    intro place
    cases event with
    | scancode code => exact absurd rfl (hevent code)
    | _ => rfl
  unfold desktopAction at h
  split at h
  next queue hq =>
    obtain ⟨taskQueue,-,rfl⟩ := wake_ok h
    refine .nothing ?_ rfl rfl
    cases hp : queue.push ⟨event,x.arrived.length⟩ with
    | none => simp [queued,hq]
    | some queue' =>
      refine (queued_push hq hp).trans ?_
      rw [hnone,List.append_nil]
  next => cases h; exact .nothing rfl rfl rfl

lemma arrival_addScancode {code : UInt8} (h : x.addScancode code = .ok y) : x.Arrival y := by
  unfold addScancode at h
  split at h
  next queue hq =>
    split at h
    next queue' hp =>
      obtain ⟨taskQueue,-,rfl⟩ := wake_ok h
      exact .stored (queued_push hq hp) (numbered_append x code) rfl
    next hp =>
      obtain ⟨taskQueue,-,rfl⟩ := wake_ok h
      exact .dropped rfl (numbered_append x code) rfl
  next => cases h; exact .nothing rfl rfl rfl

theorem arrival_handle {i : Interrupt} (h : i.handle x = .ok y) : x.Arrival y := by
  cases i with
  | timer => cases h; exact .nothing rfl rfl rfl
  | keyboard code => exact arrival_addScancode h
  | mouse byte =>
    obtain ⟨console,result,x',hk,hx',hy⟩ := mouseByte_cases h
    have hfirst : x.Arrival x' := by
      rcases hx' with ⟨-,rfl⟩ | ⟨event,ha,hd⟩
      · exact .nothing rfl rfl rfl
      · obtain ⟨r,hr,he⟩ := Option.map_eq_some_iff.mp hk
        cases he
        exact (arrival_desktopAction hd fun code => Desktop.mouseByte_action hr ha code).congr
          ⟨rfl,rfl,rfl⟩ ⟨rfl,rfl,rfl⟩
    rcases hy with ⟨-,rfl⟩ | ⟨-,hr⟩
    · exact hfirst
    · obtain ⟨taskQueue,-,rfl⟩ := wakeRedraw_ok hr
      exact hfirst.congr ⟨rfl,rfl,rfl⟩ ⟨rfl,rfl,rfl⟩

end Statics

/-- The variable `dropped`, or the value it is about to get, is the counter as last read. -/
def ShellPoint.Read {D : Decoder} (lost : ℕ) : ShellPoint D → Prop
  | .popEvent locals => locals.dropped = lost % 2^64
  | .register locals => locals.dropped = lost % 2^64
  | .popAgain locals => locals.dropped = lost % 2^64
  | .takeWaker locals _ => locals.dropped = lost % 2^64
  | .readDropped locals _ => locals.dropped = lost % 2^64
  | .drain _ current => current = lost % 2^64
  | .handling _ dropped _ => dropped = lost % 2^64
  | _ => True

/-- The scancode that has left the queue but is not fed yet. -/
def ShellPoint.inFlight {D : Decoder} : ShellPoint D → List (UInt8 × ℕ)
  | .takeWaker _ entry => entry.scancodes
  | .readDropped _ entry => entry.scancodes
  | _ => []

def ShellPoint.Draining {D : Decoder} : ShellPoint D → Prop
  | .drain _ _ => True
  | _ => False

namespace Kernel
variable {D : Decoder} {m m' : Kernel D} {info : SystemInfo} {env : Environment}

/-- No scancode is lost before the counter is first read, and fewer than `2^64` from one read to
the next. -/
def Sampled (m : Kernel D) : Move → Prop
  | .advance _ => m.executor = .polling .shell →
    (∀ shells, m.shell = .sampleDropped shells → m.statics.droppedScancodes = 0) ∧
    ∀ locals entry, m.shell = .readDropped locals entry →
      m.statics.droppedScancodes < m.lostAtRead+2^64
  | .interrupt _ => True

/-- Every decoder was fed a contiguous block. As long as nothing was lost since the last read of
the counter, the current block, the scancode in flight and the queue are the last arrivals. -/
structure Gapless (m : Kernel D) : Prop where
  fed : m.fed <:+: m.statics.numbered
  earlier : ∀ block ∈ m.earlier, block <:+: m.statics.numbered
  lost : m.lostAtRead ≤ m.statics.droppedScancodes
  read : m.shell.Read m.lostAtRead
  whole : ¬m.shell.Draining → m.statics.droppedScancodes = m.lostAtRead →
    m.fed++m.shell.inFlight++m.statics.queued <:+ m.statics.numbered

lemma gapless_start : (start : Kernel D).Gapless :=
  ⟨List.nil_infix,fun _ h => (by cases h),le_rfl,trivial,fun _ _ => List.nil_suffix⟩

/-- A step that neither feeds the decoder nor reads the counter. -/
lemma Gapless.move (h : m.Gapless) (hfed : m'.fed = m.fed) (he : m'.earlier = m.earlier)
    (hl : m'.lostAtRead = m.lostAtRead) (hn : m'.statics.numbered = m.statics.numbered)
    (hd : m'.statics.droppedScancodes = m.statics.droppedScancodes)
    (hread : m'.shell.Read m.lostAtRead) (hdrain : ¬m.shell.Draining)
    (hwhole : m'.shell.inFlight++m'.statics.queued = m.shell.inFlight++m.statics.queued) :
    m'.Gapless where
  fed := by rw [hfed,hn]; exact h.fed
  earlier := by rw [he,hn]; exact h.earlier
  lost := by rw [hl,hd]; exact h.lost
  read := by rw [hl]; exact hread
  whole _ hlost := by
    rw [hl,hd] at hlost
    have hm := h.whole hdrain hlost
    rw [List.append_assoc] at hm ⊢
    rw [hfed,hn,hwhole]
    exact hm

lemma Gapless.panic (h : m.Gapless) (cause : Panic) : (m.panic cause).Gapless :=
  ⟨h.fed,h.earlier,h.lost,h.read,h.whole⟩

lemma queued_pop {x : Statics} {queue rest : BoundedQueue Entry queueCapacity} {entry : Entry}
    (hq : x.inputQueue = some queue) (hp : queue.pop = some (entry,rest)) :
    x.queued = entry.scancodes++rest.items.flatMap Entry.scancodes := by
  rw [Statics.queued,hq]
  change queue.items.flatMap _ = _
  rw [BoundedQueue.items_of_pop hp,List.flatMap_cons]

lemma Called.read {lost : ℕ} {point point' : ShellPoint D} (h : Called point point')
    (hr : point.Read lost) : point'.Read lost ∧ ¬point.Draining ∧ point.inFlight = [] ∧
      point'.inFlight = [] := by
  cases h with
  | starting => exact ⟨trivial,id,rfl,rfl⟩
  | handling => exact ⟨hr,id,rfl,rfl⟩

theorem Gapless.shellStep (h : m.Gapless) (hs : m.Sampled (.advance env))
    (he : m.executor = .polling .shell) (hstep : ShellStep info env m m') : m'.Gapless := by
  have hread := h.read
  cases hstep with
  | panic => exact h.panic _
  | createQueue hp hq =>
    refine h.move rfl rfl rfl rfl rfl trivial (by rw [hp]; exact id) ?_
    rw [hp,Statics.queued,Statics.queued,hq]
    rfl
  | called hp console =>
    obtain ⟨hr,hd,hi,hi'⟩ := hp.read hread
    exact h.move rfl rfl rfl rfl rfl hr hd (by rw [hi,hi']; rfl)
  | started hp =>
    exact h.move rfl rfl rfl rfl rfl trivial (by rw [hp]; exact id) (by rw [hp]; rfl)
  | sampleDropped hp =>
    have hzero := (hs he).1 _ hp
    have hlost : m.lostAtRead = 0 := Nat.le_zero.mp (hzero ▸ h.lost)
    refine ⟨h.fed,h.earlier,le_rfl,rfl,fun _ _ => ?_⟩
    have hm := h.whole (by rw [hp]; exact id) (by rw [hzero,hlost])
    rw [hp] at hm
    exact hm
  | popEvent hp hq hpop =>
    rw [hp] at hread
    refine h.move rfl rfl rfl rfl rfl hread (by rw [hp]; exact id) ?_
    rw [hp,queued_pop hq hpop]
    rfl
  | popNone hp =>
    rw [hp] at hread
    exact h.move rfl rfl rfl rfl rfl hread (by rw [hp]; exact id) (by rw [hp]; rfl)
  | register hp =>
    rw [hp] at hread
    exact h.move rfl rfl rfl rfl rfl hread (by rw [hp]; exact id) (by rw [hp]; rfl)
  | popAgain hp hq hpop =>
    rw [hp] at hread
    refine h.move rfl rfl rfl rfl rfl hread (by rw [hp]; exact id) ?_
    rw [hp,queued_pop hq hpop]
    rfl
  | pending hp =>
    rw [hp] at hread
    exact h.move rfl rfl rfl rfl rfl hread (by rw [hp]; exact id) (by rw [hp]; rfl)
  | takeWaker hp =>
    rw [hp] at hread
    exact h.move rfl rfl rfl rfl rfl hread (by rw [hp]; exact id) (by rw [hp]; rfl)
  | lossRead hp hd => exact ⟨h.fed,h.earlier,le_rfl,rfl,fun hdrain => absurd trivial hdrain⟩
  | @eventRead locals entry hp hd =>
    rw [hp] at hread
    -- equal counters mean that nothing was lost, because fewer than `2^64` were
    have hlost : m.statics.droppedScancodes = m.lostAtRead := by
      have hfew := (hs he).2 _ _ hp
      have hle := h.lost
      have hmod : m.statics.droppedScancodes % 2^64 = m.lostAtRead % 2^64 := hd.trans hread
      omega
    have hm := h.whole (by rw [hp]; exact id) hlost
    rw [hp] at hm
    refine ⟨?_,h.earlier,le_rfl,by rw [hlost]; exact hread,fun _ _ => ?_⟩
    · exact (List.prefix_append _ _).isInfix.trans hm.isInfix
    · change (m.fed++entry.scancodes)++[]++m.statics.queued <:+ _
      rw [List.append_nil]
      exact hm
  | drain hp =>
    rw [hp] at hread
    refine ⟨List.nil_infix,fun block hb => ?_,h.lost,hread,fun _ _ => ?_⟩
    · rcases List.mem_append.mp hb with hb | hb
      · exact h.earlier block hb
      · rw [List.mem_singleton.mp hb]
        exact h.fed
    · have hnone : Statics.queued { m.statics with
          inputQueue := m.statics.inputQueue.map fun _ => .empty } = [] := by
        unfold Statics.queued
        cases m.statics.inputQueue <;> rfl
      change []++[]++_ <:+ _
      rw [hnone]
      exact List.nil_suffix
  | handled hp =>
    rw [hp] at hread
    exact h.move rfl rfl rfl rfl rfl hread (by rw [hp]; exact id) (by rw [hp]; rfl)

lemma Gapless.redrawStep (h : m.Gapless) (hstep : RedrawStep m m') : m'.Gapless := by
  cases hstep with
  | panic => exact h.panic _
  | _ => exact ⟨h.fed,h.earlier,h.lost,h.read,h.whole⟩

theorem Gapless.advances (h : m.Gapless) (hs : m.Sampled (.advance env))
    (hstep : Advances info env m m') : m'.Gapless := by
  cases hstep with
  | shell he hshell => exact h.shellStep hs he hshell
  | redraw he hredraw => exact h.redrawStep hredraw
  | spawnFull => exact h.panic _
  | _ => exact ⟨h.fed,h.earlier,h.lost,h.read,h.whole⟩

theorem Gapless.arrives (h : m.Gapless) {x : Statics} (hx : m.statics.Arrival x)
    (executor : Executor) : Gapless { m with statics := x, executor := executor } := by
  cases hx with
  | nothing hq ha hd =>
    refine ⟨by rw [ha]; exact h.fed,by rw [ha]; exact h.earlier,by rw [hd]; exact h.lost,h.read,?_⟩
    dsimp only
    rw [hd,hq,ha]
    exact h.whole
  | @stored scancode hq ha hd =>
    have hgrow : m.statics.numbered <:+: x.numbered := by rw [ha]; exact (List.prefix_append _ _).isInfix
    refine ⟨h.fed.trans hgrow,fun block hb => (h.earlier block hb).trans hgrow,
      by rw [hd]; exact h.lost,h.read,fun hdrain hlost => ?_⟩
    dsimp only at hlost ⊢
    rw [hd] at hlost
    rw [hq,ha,← List.append_assoc]
    obtain ⟨before,hbefore⟩ := h.whole hdrain hlost
    exact ⟨before,by rw [← List.append_assoc,hbefore]⟩
  | @dropped scancode hq ha hd =>
    have hgrow : m.statics.numbered <:+: x.numbered := by rw [ha]; exact (List.prefix_append _ _).isInfix
    have hlost := h.lost
    refine ⟨h.fed.trans hgrow,fun block hb => (h.earlier block hb).trans hgrow,
      by dsimp only; omega,h.read,fun _ he => ?_⟩
    dsimp only at he
    omega

theorem Gapless.interrupts (h : m.Gapless) {i : Interrupt} (hstep : m.interrupt i = some m') :
    m'.Gapless := by
  obtain ⟨-,⟨cause,-,rfl⟩ | ⟨x,hx,-,rfl⟩ | ⟨x,hx,-,rfl⟩⟩ := interrupt_cases hstep
  · exact h.panic cause
  · exact h.arrives (Statics.arrival_handle hx) _
  · exact h.arrives (Statics.arrival_handle hx) m.executor

end Kernel

/-- If no scancode is lost before the drop counter is first read, and fewer than `2^64` between two
reads of it, every decoder is fed a contiguous block of the scancodes that arrived. -/
theorem decoder_fed_contiguous (D : Decoder) (info : SystemInfo) (moves : List Move) (m : Kernel D)
    (hsampled : Kernel.Meets Kernel.Sampled info moves (Kernel.start : Kernel D))
    (hrun : Kernel.run info moves Kernel.start = some m) :
    ∀ block ∈ m.earlier++[m.fed], block <:+: m.statics.arrived.zipIdx := by
  have hgapless : m.Gapless := by
    refine hsampled.run ?_ Kernel.gapless_start hrun
    intro u move u' hu hs hstep
    cases move with
    | advance env => exact hu.advances hs (Kernel.advance_cases hstep)
    | interrupt i => exact hu.interrupts hstep
  intro block hb
  rcases List.mem_append.mp hb with hb | hb
  · exact hgapless.earlier block hb
  · rw [List.mem_singleton.mp hb]
    exact hgapless.fed

namespace Kernel
variable {D : Decoder} {m m' : Kernel D} {info : SystemInfo}

lemma dropped_le_step {move : Move} (h : m.step info move = some m') :
    m.statics.droppedScancodes ≤ m'.statics.droppedScancodes := by
  cases move with
  | advance env =>
    cases advance_cases h with
    | shell he hs => cases hs <;> exact le_rfl
    | redraw he hs => cases hs <;> exact le_rfl
    | _ => exact le_rfl
  | interrupt i =>
    have harrival : ∀ {x : Statics}, m.statics.Arrival x →
        m.statics.droppedScancodes ≤ x.droppedScancodes := by
      intro x hx
      cases hx with
      | nothing _ _ hd => exact hd.ge
      | stored _ _ hd => exact hd.ge
      | dropped _ _ hd => exact hd ▸ Nat.le_succ _
    obtain ⟨-,⟨cause,-,rfl⟩ | ⟨x,hx,-,rfl⟩ | ⟨x,hx,-,rfl⟩⟩ := interrupt_cases h
    · exact le_rfl
    · exact harrival (Statics.arrival_handle hx)
    · exact harrival (Statics.arrival_handle hx)

/-- A run in which nothing is dropped meets the condition. -/
lemma meets_of_none_dropped {moves : List Move} (h : run info moves m = some m')
    (hm : m'.statics.droppedScancodes = 0) :
    m.statics.droppedScancodes = 0 ∧ Meets Sampled info moves m := by
  induction moves generalizing m with
  | nil => cases h; exact ⟨hm,trivial⟩
  | cons move moves ih =>
    obtain ⟨u,hu,hrun⟩ := Option.bind_eq_some_iff.mp h
    obtain ⟨hzero,hmeets⟩ := ih hrun
    have hm₀ : m.statics.droppedScancodes = 0 := Nat.le_zero.mp (hzero ▸ dropped_le_step hu)
    refine ⟨hm₀,?_,fun u' hu' => ?_⟩
    · cases move with
      | advance env =>
        refine fun _ => ⟨fun _ _ => hm₀,fun _ _ _ => ?_⟩
        rw [hm₀]
        exact Nat.add_pos_right _ (by decide)
      | interrupt i => trivial
    · rw [hu] at hu'
      cases hu'
      exact hmeets

end Kernel

/-- The release of a key is fed to the first decoder. -/
theorem decoder_fed_contiguous_release :
    ∃ m : Kernel .releases, Kernel.run plainInfo
        (Move.advances 9++Move.release :: Move.advances 2) Kernel.start = some m ∧
      m.fed = [(0x9e,0)] ∧ m.fed <:+: m.statics.arrived.zipIdx := by
  obtain ⟨m,hm,hfed,hzero⟩ : ∃ m : Kernel .releases, Kernel.run plainInfo
      (Move.advances 9++Move.release :: Move.advances 2) Kernel.start = some m ∧
        m.fed = [(0x9e,0)] ∧ m.statics.droppedScancodes = 0 :=
    ⟨_,rfl,rfl,rfl⟩
  refine ⟨m,hm,hfed,?_⟩
  exact decoder_fed_contiguous _ _ _ m (Kernel.meets_of_none_dropped hm hzero).2 hm _ (by simp)

/-! ### A loss before the counter is read -/

/-- The release of a key as an entry of the queue. -/
def releaseAt (place : ℕ) : Entry := ⟨.scancode 0x9e,place⟩

namespace Kernel

lemma key_stored {D : Decoder} {m : Kernel D} {queue : BoundedQueue Entry queueCapacity}
    (he : m.executor = .polling .shell) (hq : m.statics.inputQueue = some queue)
    (hw : m.statics.waker = none) (hroom : queue.items.length < queueCapacity) (info : SystemInfo) :
    ∃ queue' : BoundedQueue Entry queueCapacity,
      queue'.items = queue.items++[releaseAt m.statics.arrived.length] ∧
      m.step info .release = some { m with statics := { m.statics with
        inputQueue := some queue', arrived := m.statics.arrived++[0x9e] } } := by
  obtain ⟨⟨console,inputQueue,dropped,waker,redrawWaker,pending,taskQueue,arrived⟩,executor,point,
    redraw,lost,fed,earlier⟩ := m
  obtain rfl : executor = .polling .shell := he
  obtain rfl : inputQueue = some queue := hq
  obtain rfl : waker = none := hw
  obtain ⟨queue',hpush⟩ := BoundedQueue.exists_push (a := releaseAt arrived.length) hroom
  refine ⟨queue',BoundedQueue.items_push hpush,?_⟩
  have hkey : Statics.addScancode ⟨console,some queue,dropped,none,redrawWaker,pending,taskQueue,
      arrived⟩ 0x9e = .ok ⟨console,some queue',dropped,none,redrawWaker,pending,taskQueue,
        arrived++[0x9e]⟩ := by
    simp only [Statics.addScancode]
    rw [show queue.push ⟨.scancode 0x9e,arrived.length⟩ = some queue' from hpush]
    rfl
  simp only [Move.release,step,interrupt,Interrupt.handle,hkey]

lemma key_dropped {D : Decoder} {m : Kernel D} {queue : BoundedQueue Entry queueCapacity}
    (he : m.executor = .polling .shell) (hq : m.statics.inputQueue = some queue)
    (hw : m.statics.waker = none) (hfull : queue.items.length = queueCapacity) (info : SystemInfo) :
    m.step info .release = some { m with statics := { m.statics with
      droppedScancodes := m.statics.droppedScancodes+1
      arrived := m.statics.arrived++[0x9e] } } := by
  obtain ⟨⟨console,inputQueue,dropped,waker,redrawWaker,pending,taskQueue,arrived⟩,executor,point,
    redraw,lost,fed,earlier⟩ := m
  obtain rfl : executor = .polling .shell := he
  obtain rfl : inputQueue = some queue := hq
  obtain rfl : waker = none := hw
  have hpush : queue.push ⟨.scancode 0x9e,arrived.length⟩ = none :=
    BoundedQueue.push_eq_none_iff.mpr hfull
  have hkey : Statics.addScancode ⟨console,some queue,dropped,none,redrawWaker,pending,taskQueue,
      arrived⟩ 0x9e = .ok ⟨console,some queue,dropped+1,none,redrawWaker,pending,taskQueue,
        arrived++[0x9e]⟩ := by
    simp only [Statics.addScancode]
    rw [hpush]
    rfl
  simp only [Move.release,step,interrupt,Interrupt.handle,hkey]

/-- Keys are released until the queue has as many more entries. -/
lemma keys_stored {D : Decoder} {m : Kernel D} {queue : BoundedQueue Entry queueCapacity} {n : ℕ}
    (he : m.executor = .polling .shell) (hq : m.statics.inputQueue = some queue)
    (hw : m.statics.waker = none) (hroom : queue.items.length+n ≤ queueCapacity)
    (info : SystemInfo) :
    ∃ queue' : BoundedQueue Entry queueCapacity,
      queue'.items = queue.items++(List.range' m.statics.arrived.length n).map releaseAt ∧
      run info (List.replicate n .release) m =
        some { m with statics := { m.statics with
          inputQueue := some queue', arrived := m.statics.arrived++List.replicate n 0x9e } } := by
  induction n generalizing m queue with
  | zero =>
    refine ⟨queue,by simp,?_⟩
    rw [← hq]
    simp [run]
  | succ n ih =>
    obtain ⟨queue₁,hitems₁,hstep⟩ := key_stored he hq hw (by omega) info
    obtain ⟨queue₂,hitems₂,hrun⟩ := ih (m := { m with statics := { m.statics with
      inputQueue := some queue₁, arrived := m.statics.arrived++[0x9e] } }) he rfl hw
      (by rw [hitems₁,List.length_append,List.length_singleton]; omega)
    refine ⟨queue₂,?_,?_⟩
    · rw [hitems₂,hitems₁,List.range'_succ]
      simp
    · rw [List.replicate_succ,run,hstep,Option.bind_some,hrun]
      simp [List.replicate_succ]

lemma sample_step {D : Decoder} {m : Kernel D} {shells : Shells} (he : m.executor = .polling .shell)
    (hp : m.shell = .sampleDropped shells) (info : SystemInfo) (env : Environment) :
    m.step info (.advance env) = some { m with
      shell := .popEvent ⟨D.new,shells,m.droppedScancodes⟩
      lostAtRead := m.statics.droppedScancodes } := by
  simp only [step,advance,he,pollShell,hp]

/-- The keyboard task takes releases from the queue, and the counter has not changed since it was
read. -/
structure Feeding (m : Kernel .releases) (places : List ℕ) : Prop where
  executor : m.executor = .polling .shell
  waker : m.statics.waker = none
  shell : ∃ shells, m.shell = .popEvent ⟨(),shells,m.statics.droppedScancodes % 2^64⟩
  input : ∃ queue, m.statics.inputQueue = some queue ∧ queue.items = places.map releaseAt

lemma Feeding.one {m : Kernel .releases} {place : ℕ} {places : List ℕ}
    (h : m.Feeding (place :: places)) :
    ∃ m', run plainInfo (Move.advances 3) m = some m' ∧
      m'.Feeding places ∧ m'.fed = m.fed++[(0x9e,place)] ∧
      m'.statics.arrived = m.statics.arrived := by
  obtain ⟨⟨console,inputQueue,dropped,waker,redrawWaker,pending,taskQueue,arrived⟩,executor,point,
    redraw,lost,fed,earlier⟩ := m
  obtain ⟨rfl,rfl,⟨shells,hpoint⟩,⟨⟨items,hbound⟩,hqueue,hitems⟩⟩ := h
  obtain rfl : point = .popEvent ⟨(),shells,dropped % 2^64⟩ := hpoint
  obtain rfl : inputQueue = some ⟨items,hbound⟩ := hqueue
  obtain rfl : items = (place :: places).map releaseAt := hitems
  have hrun : run (D := .releases) plainInfo (Move.advances 3)
      ⟨⟨console,some ⟨(place :: places).map releaseAt,hbound⟩,dropped,none,redrawWaker,pending,
        taskQueue,arrived⟩,.polling .shell,.popEvent ⟨(),shells,dropped % 2^64⟩,redraw,lost,fed,
        earlier⟩ =
      some ⟨⟨console,some ⟨places.map releaseAt,Nat.le_of_succ_le hbound⟩,dropped,none,redrawWaker,
        pending,taskQueue,arrived⟩,.polling .shell,.popEvent ⟨(),shells,dropped % 2^64⟩,redraw,
        dropped,fed++[(0x9e,place)],earlier⟩ := by
    simp only [Move.advances,List.replicate,run,step,advance,pollShell,List.map_cons,BoundedQueue.pop,
      Option.bind_some,droppedScancodes,ne_eq,not_true_eq_false,if_false]
    rfl
  exact ⟨_,hrun,⟨rfl,rfl,⟨shells,rfl⟩,⟨_,rfl,rfl⟩⟩,rfl,rfl⟩

lemma Feeding.all {m : Kernel .releases} {places : List ℕ} (h : m.Feeding places) :
    ∃ m', run plainInfo (Move.advances (3*places.length)) m = some m' ∧
      m'.fed = m.fed++places.map (fun place => (0x9e,place)) ∧
      m'.statics.arrived = m.statics.arrived := by
  induction places generalizing m with
  | nil => exact ⟨m,rfl,by simp,rfl⟩
  | cons place places ih =>
    obtain ⟨u,hu,hfeeding,hfed,harrived⟩ := h.one
    obtain ⟨m',hm',hfed',harrived'⟩ := ih hfeeding
    refine ⟨m',?_,?_,harrived'.trans harrived⟩
    · rw [List.length_cons,Nat.mul_succ,Nat.add_comm,Move.advances,List.replicate_add]
      exact run_trans hu hm'
    · rw [hfed',hfed]
      simp

end Kernel

/-- The queue is filled and one scancode is lost before the counter is read; then a scancode is
fed and another one stored. -/
lemma Kernel.exists_early_loss {m : Kernel .releases} {shells : Shells} {n : ℕ}
    (hn : n+1 = queueCapacity) (he : m.executor = .polling .shell) (hw : m.statics.waker = none)
    (hp : m.shell = .sampleDropped shells) (hq : m.statics.inputQueue = some .empty)
    (ha : m.statics.arrived = []) (hf : m.fed = []) :
    ∃ m', run plainInfo (List.replicate (n+1) Move.release++Move.release ::
      Move.advance plainEnvironment :: (Move.advances 3++[Move.release])) m = some m' ∧
      m'.Feeding (List.range' 1 n++[n+2]) ∧ m'.fed = [(0x9e,0)] := by
  obtain ⟨queue,hitems,h₂⟩ := keys_stored (n := n+1) he hq hw (by simp [hn]) plainInfo
  rw [ha] at hitems h₂
  have hfull : queue.items.length = queueCapacity := by rw [hitems]; simp [hn]
  have h₃ := key_dropped (m := { m with statics := { m.statics with
    inputQueue := some queue, arrived := []++List.replicate (n+1) 0x9e } }) he rfl hw hfull plainInfo
  have h₄ := sample_step (m := { m with statics := { m.statics with
    inputQueue := some queue
    droppedScancodes := m.statics.droppedScancodes+1
    arrived := []++List.replicate (n+1) 0x9e++[0x9e] } }) he hp plainInfo plainEnvironment
  have hready : Feeding { m with
      statics := { m.statics with
        inputQueue := some queue
        droppedScancodes := m.statics.droppedScancodes+1
        arrived := []++List.replicate (n+1) 0x9e++[0x9e] }
      shell := .popEvent ⟨(),shells,(m.statics.droppedScancodes+1) % 2^64⟩
      lostAtRead := m.statics.droppedScancodes+1 } (0 :: List.range' 1 n) :=
    ⟨he,hw,⟨shells,rfl⟩,⟨queue,rfl,hitems⟩⟩
  obtain ⟨m₅,h₅,hfeeding,hf₅,ha₅⟩ := hready.one
  obtain ⟨queue₅,hq₅,hitems₅⟩ := hfeeding.input
  obtain ⟨queue₆,hitems₆,h₆⟩ := key_stored hfeeding.executor hq₅ hfeeding.waker
    (by rw [hitems₅]; simp [← hn]) plainInfo
  have hplace : m₅.statics.arrived.length = n+2 := by rw [ha₅]; simp
  rw [hplace,hitems₅] at hitems₆
  refine ⟨_,run_trans h₂ (run_cons h₃ (run_cons h₄ (run_trans h₅ (run_cons h₆ rfl)))),
    ⟨hfeeding.executor,hfeeding.waker,hfeeding.shell,⟨queue₆,rfl,by rw [hitems₆]; simp⟩⟩,?_⟩
  exact hf₅.trans (by rw [hf]; rfl)

/-- Neighbours in a block have neighbouring places. -/
lemma place_succ_of_block {codes : List UInt8} {before : List (UInt8 × ℕ)} {a b : UInt8 × ℕ}
    (h : before++[a,b] <:+: codes.zipIdx) : b.2 = a.2+1 := by
  obtain ⟨s,t,he⟩ := h
  have hplace : ∀ k (x : UInt8 × ℕ), codes.zipIdx[k]? = some x → x.2 = k := by
    intro k x hx
    rw [List.getElem?_zipIdx] at hx
    obtain ⟨code,-,rfl⟩ := Option.map_eq_some_iff.mp hx
    exact Nat.zero_add k
  have he : (s++before)++(a :: b :: t) = codes.zipIdx := by rw [← he]; simp
  have ha : a.2 = (s++before).length := by
    refine hplace _ a ?_
    rw [← he,List.getElem?_append_right le_rfl,Nat.sub_self]
    rfl
  have hb : b.2 = (s++before).length+1 := by
    refine hplace _ b ?_
    rw [← he,List.getElem?_append_right (by omega),Nat.add_sub_cancel_left]
    rfl
  rw [ha,hb]

/-- A hundred and one keys are released before the drop counter is read for the first time, and
one more when the queue has room again: the decoder is fed the hundredth and then that one. -/
theorem early_loss_leaves_gap :
    ∃ m : Kernel .releases, Kernel.run plainInfo (Move.advances 8++
      ((List.replicate 100 Move.release++Move.release :: Move.advance plainEnvironment ::
        (Move.advances 3++[Move.release]))++Move.advances 300)) Kernel.start = some m ∧
      ¬m.fed <:+: m.statics.arrived.zipIdx := by
  obtain ⟨m₁,h₁,he,hw,⟨shells,hp⟩,hq,ha,hf⟩ : ∃ m₁ : Kernel .releases,
      Kernel.run plainInfo (Move.advances 8) Kernel.start = some m₁ ∧
        m₁.executor = .polling .shell ∧ m₁.statics.waker = none ∧
        (∃ shells, m₁.shell = .sampleDropped shells) ∧
        m₁.statics.inputQueue = some .empty ∧ m₁.statics.arrived = [] ∧ m₁.fed = [] :=
    ⟨_,rfl,rfl,rfl,⟨_,rfl⟩,rfl,rfl,rfl⟩
  obtain ⟨m₂,h₂,hfeeding,hf₂⟩ := Kernel.exists_early_loss (n := 99) rfl he hw hp hq ha hf
  obtain ⟨m,hm,hfed,-⟩ := hfeeding.all
  refine ⟨m,Kernel.run_trans h₁ (Kernel.run_trans h₂ ?_),fun hinfix => ?_⟩
  · have hlength : 3*(List.range' 1 99++[99+2]).length = 300 := by simp
    rw [hlength] at hm
    exact hm
  · have hlast : List.range' 1 99 = List.range' 1 98++[99] := List.range'_concat
    rw [hfed,hf₂,hlast,List.append_assoc,List.map_append,← List.append_assoc] at hinfix
    exact absurd (place_succ_of_block hinfix) (by decide)

end CrabOs
