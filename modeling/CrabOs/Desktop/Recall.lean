import CrabOs.Desktop.Session
import CrabOs.Shell.Overlong

/-! What the terminals remember: over a whole session the history of a terminal is made of the lines
entered in it, whatever happens to its window in between. -/
namespace CrabOs.Crabsh
open AtomicProgram

/-! ### The history of one shell -/

/-- The ring holds the newest of what a ring of unbounded size would. -/
def History.Remembers (h : History) (texts : List String) : Prop :=
  ∃ kept, h.Holds (History.lastN historySize kept) ∧ (∀ l ∈ kept, l.Valid) ∧
    kept.map Line.text = remembered texts

namespace History.Remembers
variable {h h' : History} {texts : List String}

lemma new : History.new.Remembers [] := ⟨[],holds_new,by simp,rfl⟩

lemma settled (hm : h.Remembers texts) : { h with browsing := none }.Remembers texts := by
  obtain ⟨kept,hh,hv,htexts⟩ := hm
  exact ⟨kept,hh.settled,hv,htexts⟩

lemma previous (hm : h.Remembers texts) (line : Line) : (h.previous line).1.Remembers texts := by
  obtain ⟨kept,hh,hv,htexts⟩ := hm
  exact ⟨kept,hh.previous line,hv,htexts⟩

lemma next (hm : h.Remembers texts) (line : Line) : (h.next line).1.Remembers texts := by
  obtain ⟨kept,hh,hv,htexts⟩ := hm
  exact ⟨kept,hh.next line,hv,htexts⟩

lemma record (hm : h.Remembers texts) {line : Line} (hline : line.Valid)
    (hr : h.record line = some h') : h'.Remembers (texts++[line.text]) := by
  obtain ⟨kept,hh,hv,htexts⟩ := hm
  obtain ⟨g,hg,-,hh'⟩ := hh.record hv hline
  rw [hr] at hg
  cases hg
  refine ⟨_,hh',?_,?_⟩
  · intro l hl
    split_ifs at hl
    · exact hv l hl
    · rcases List.mem_append.mp hl with hl | hl
      · exact hv l hl
      · rw [List.mem_singleton.mp hl]
        exact hline
  · rw [remembered_concat,← htexts]
    split_ifs
    · rfl
    · rw [List.map_append,List.map_singleton]

end History.Remembers

/-- The lines of the `history` command. -/
def numbered (texts : List String) : List Section :=
  texts.mapIdx fun index text => println (padLeft 3 (toString (index+1))++"  "++text)

/-- The command shows what the history remembers. -/
lemma History.Remembers.sections {h : History} {texts : List String} (hm : h.Remembers texts) :
    historySections h = some (numbered (History.lastN 16 (remembered texts))) := by
  obtain ⟨kept,hh,hv,htexts⟩ := hm
  have hnewest : History.lastN 16 (remembered texts) =
      (History.lastN historySize kept).map Line.text := by
    rw [← htexts]
    unfold History.lastN
    rw [List.map_drop,List.length_map]
    rfl
  have hget : ∀ i < h.len, (h.get i).asStr = some (h.get i).text := by
    intro i hi
    exact (hv _ (List.mem_of_mem_drop (List.mem_of_getElem? (hh.entries i hi).symm))).asStr
  have htext : ∀ i, (hi : i < h.len) →
      ((History.lastN historySize kept).map Line.text)[i]? = some (h.get i).text := by
    intro i hi
    rw [List.getElem?_map,← hh.entries i hi,Option.map_some]
  unfold historySections
  rw [mapM_some (g := fun index =>
    println (padLeft 3 (toString (index+1))++"  "++(h.get index).text)),hnewest]
  · refine congrArg some (List.ext_getElem? fun i => ?_)
    rw [numbered,List.getElem?_mapIdx,List.getElem?_map]
    rcases Nat.lt_or_ge i h.len with hi | hi
    · rw [htext i hi,List.getElem?_range hi,Option.map_some,Option.map_some]
    · have hlen := hh.len
      rw [List.getElem?_eq_none (by rwa [List.length_range]),
        List.getElem?_eq_none (by rwa [List.length_map,← hlen])]
      rfl
  · intro i hi
    rw [hget i (List.mem_range.mp hi),Option.map_some]

namespace Shell
variable {s s' : Shell} {texts : List String}

/-- The history after a key. -/
def historyAfter (s : Shell) : KeyAction → Option History
  | .submit =>
    if s.line.overflow then some s.stopBrowsing.history
    else s.history.record s.cursorToEnd.line
  | .cancel => some s.stopBrowsing.history
  | .previous => some (s.history.previous s.line).1
  | .next => some (s.history.next s.line).1
  | _ => some s.history

lemma submit_history {env : Environment} (hr : (s.submit env).Returns s') :
    (if s.line.overflow then some s.stopBrowsing.history else s.history.record s.line) =
      some s'.history := by
  unfold submit at hr
  split_ifs at hr ⊢
  · obtain ⟨-,-,hr⟩ := returns_bind.mp hr
    rw [returns_ret.mp hr]
  · obtain ⟨history,hrecord,hr⟩ := returns_bind.mp hr
    obtain ⟨text,-,hr⟩ := returns_bind.mp hr
    obtain ⟨sections,-,hr⟩ := returns_bind.mp hr
    obtain ⟨-,-,hr⟩ := returns_bind.mp hr
    rw [returns_ret.mp hr]
    exact returns_ofOption.mp hrecord

lemma handleKey_history (hs : s.Sound) {env : Environment} {key : DecodedKey}
    (hr : (s.handleKey env key).Returns s') : s.historyAfter key.action = some s'.history := by
  have hedit : ∀ line, (s.redrawWith line).Returns s' → some s.history = some s'.history :=
    fun _ hr => congrArg some (redrawWith_returns hr).2.symm
  unfold handleKey at hr
  generalize key.action = action at hr ⊢
  cases action with
  | submit =>
    obtain ⟨-,-,hr⟩ := returns_bind.mp hr
    obtain ⟨-,-,hr⟩ := returns_bind.mp hr
    obtain ⟨r,hsubmit,hr⟩ := returns_bind.mp hr
    rw [(freshPrompt_returns hr).2]
    exact submit_history hsubmit
  | cancel =>
    obtain ⟨-,-,hr⟩ := returns_bind.mp hr
    obtain ⟨-,-,hr⟩ := returns_bind.mp hr
    exact congrArg some (freshPrompt_returns hr).2.symm
  | clearScreen =>
    obtain ⟨-,-,hr⟩ := returns_bind.mp hr
    obtain ⟨anchor,-,hr⟩ := returns_bind.mp hr
    obtain ⟨-,-,hr⟩ := returns_bind.mp hr
    rw [returns_ret.mp hr]
    rfl
  | complete => exact congrArg some (complete_returns hs hr).1.symm
  | previous => exact congrArg some (redrawWith_returns hr).2.symm
  | next => exact congrArg some (redrawWith_returns hr).2.symm
  | pageUp =>
    obtain ⟨-,-,hr⟩ := returns_bind.mp hr
    rw [returns_ret.mp hr]
    rfl
  | pageDown =>
    obtain ⟨-,-,hr⟩ := returns_bind.mp hr
    rw [returns_ret.mp hr]
    rfl
  | ignore =>
    rw [returns_ret.mp hr]
    rfl
  | backspace => exact hedit _ hr
  | delete => exact hedit _ hr
  | home => exact hedit _ hr
  | endOfLine => exact hedit _ hr
  | left => exact hedit _ hr
  | right => exact hedit _ hr
  | eraseToStart => exact hedit _ hr
  | eraseToEnd => exact hedit _ hr
  | eraseWord => exact hedit _ hr
  | insert byte => exact hedit _ hr

/-- The line that a key enters. -/
def entry (s : Shell) (action : KeyAction) : List String :=
  if action = .submit ∧ s.line.overflow = false then [s.line.text] else []

/-- A shell that can be handed keys, and what has been entered in it. -/
structure Recalls (s : Shell) (texts : List String) : Prop where
  sound : s.Sound
  history : s.history.Remembers texts

lemma Recalls.handleKey (h : s.Recalls texts) {env : Environment} {key : DecodedKey}
    (hr : (s.handleKey env key).Returns s') : s'.Recalls (texts++s.entry key.action) := by
  refine ⟨((handleKey_edits h.sound env key).of_returns hr).1,?_⟩
  have hafter := handleKey_history h.sound hr
  unfold entry
  cases hkey : key.action with
  | submit =>
    rw [hkey,historyAfter] at hafter
    cases hoverflow : s.line.overflow with
    | true =>
      rw [if_pos hoverflow] at hafter
      rw [if_neg (by simp),List.append_nil,← Option.some.inj hafter]
      exact h.history.settled
    | false =>
      rw [if_neg (by simp [hoverflow])] at hafter
      rw [if_pos ⟨rfl,rfl⟩]
      have hrecord : s'.history.Remembers (texts++[s.cursorToEnd.line.text]) :=
        h.history.record h.sound.cursorToEnd.line hafter
      exact hrecord
  | cancel =>
    rw [hkey] at hafter
    rw [if_neg (by simp),List.append_nil,← Option.some.inj hafter]
    exact h.history.settled
  | previous =>
    rw [hkey] at hafter
    rw [if_neg (by simp),List.append_nil,← Option.some.inj hafter]
    exact h.history.previous s.line
  | next =>
    rw [hkey] at hafter
    rw [if_neg (by simp),List.append_nil,← Option.some.inj hafter]
    exact h.history.next s.line
  | _ =>
    rw [hkey] at hafter
    rw [if_neg (by simp),List.append_nil,← Option.some.inj hafter]
    exact h.history

lemma Recalls.inputLost (h : s.Recalls texts) (hr : s.inputLost.Returns s') :
    s'.Recalls texts := by
  refine ⟨(inputLost_sound h.sound).of_returns hr,?_⟩
  rw [(inputLost_returns hr).2]
  exact h.history.settled

lemma Recalls.resetForResize (h : s.Recalls texts) (hr : s.resetForResize.Returns s') :
    s'.Recalls texts := by
  refine ⟨(resetForResize_sound h.sound).of_returns hr,?_⟩
  rw [(resetForResize_returns hr).2]
  exact h.history

lemma recalls_new {info : SystemInfo} {env : Environment} (hr : (new info env).Returns s) :
    s.Recalls [] := by
  refine ⟨(new_sound info env).of_returns hr,?_⟩
  rw [(new_returns hr).2]
  exact .new

end Shell
end CrabOs.Crabsh

/-! ### The histories of all terminals -/

namespace CrabOs
open Crabsh AtomicProgram

/-- Every shell recalls the lines of its terminal, and without a shell there are none. -/
def Shells.Recall (shells : Shells) (log : Fin 2 → List String) : Prop :=
  ∀ i, (shells i).elim (log i = []) fun s => s.Recalls (log i)

namespace Shells.Recall
variable {shells shells' : Shells} {log : Fin 2 → List String}

lemma shell (h : shells.Recall log) {i : Fin 2} {s : Shell} (hs : shells i = some s) :
    s.Recalls (log i) := by
  have hi := h i
  rwa [hs] at hi

lemma congr {log' : Fin 2 → List String} (h : shells.Recall log) (hlog : ∀ i, log' i = log i) :
    shells.Recall log' := by
  rwa [funext hlog]

lemma update (h : shells.Recall log) {i : Fin 2} {s : Shell} {texts : List String}
    (hs : s.Recalls texts) :
    Shells.Recall (Function.update shells i (some s)) (Function.update log i texts) := by
  intro j
  by_cases hj : j = i
  · subst hj
    rw [Function.update_self,Function.update_self]
    exact hs
  · rw [Function.update_of_ne hj,Function.update_of_ne hj]
    exact h j

lemma replace (h : shells.Recall log) {i : Fin 2} {s : Shell} (hs : s.Recalls (log i)) :
    Shells.Recall (Function.update shells i (some s)) log := by
  have hupdate := h.update (i := i) hs
  rwa [Function.update_eq_self] at hupdate

lemma resizeShell (h : shells.Recall log) {fresh : Option (Fin 2)} {index : Fin 2}
    (hr : (resizeShell fresh shells index).Returns shells') : shells'.Recall log := by
  cases hr with
  | call opened hr =>
    dsimp only at hr
    split_ifs at hr
    · obtain ⟨-,-,hr⟩ := returns_bind.mp hr
      cases hs : shells index with
      | none =>
        rw [hs] at hr
        rw [returns_ret.mp hr]
        exact h
      | some s =>
        rw [hs] at hr
        obtain ⟨s',hs',hr⟩ := returns_bind.mp hr
        rw [returns_ret.mp hr]
        exact h.replace ((h.shell hs).resetForResize hs'.of_mapCalls)
    · rw [returns_ret.mp hr]
      exact h

lemma resizeOpenShells (h : shells.Recall log) {fresh : Option (Fin 2)}
    (hr : (resizeOpenShells shells fresh).Returns shells') : shells'.Recall log := by
  obtain ⟨shells₁,hfirst,hr⟩ := returns_bind.mp hr
  obtain ⟨shells₂,hsecond,hr⟩ := returns_bind.mp hr
  obtain ⟨-,-,hr⟩ := returns_bind.mp hr
  rw [returns_ret.mp hr]
  exact (h.resizeShell hfirst).resizeShell hsecond

lemma handleLoss (h : shells.Recall log) (hr : (handleLoss shells).Returns shells') :
    shells'.Recall log := by
  cases hr with
  | @call _ _ _ active hr =>
    cases hr with
    | call opened hr =>
      dsimp only at hr
      split_ifs at hr
      · cases hs : shells active with
        | none =>
          rw [hs] at hr
          rw [returns_ret.mp hr]
          exact h
        | some s =>
          rw [hs] at hr
          obtain ⟨-,-,hr⟩ := returns_bind.mp hr
          obtain ⟨s',hs',hr⟩ := returns_bind.mp hr
          rw [returns_ret.mp hr]
          exact h.replace ((h.shell hs).inputLost hs'.of_mapCalls)
      · rw [returns_ret.mp hr]
        exact h

lemma closeFocused (h : shells.Recall log) (hr : (closeFocused shells).Returns shells') :
    shells'.Recall log := by
  cases hr with
  | call active hr =>
    cases hr with
    | call opened hr =>
      dsimp only at hr
      split_ifs at hr
      · obtain ⟨-,-,hr⟩ := returns_bind.mp hr
        exact h.resizeOpenShells hr
      · rw [returns_ret.mp hr]
        exact h

lemma openShell (h : shells.Recall log) {info : SystemInfo} {env : Environment}
    (hr : (openShell info env shells).Returns shells') : shells'.Recall log := by
  obtain ⟨opened,-,hr⟩ := returns_bind.mp hr
  cases opened with
  | none =>
    rw [returns_ret.mp hr]
    exact h
  | some index =>
    cases hs : shells index with
    | some s =>
      simp only [hs] at hr
      exact h.resizeOpenShells hr
    | none =>
      simp only [hs] at hr
      obtain ⟨-,-,hr⟩ := returns_bind.mp hr
      obtain ⟨s,hnew,hr⟩ := returns_bind.mp hr
      have hempty : log index = [] := by
        have hi := h index
        rwa [hs] at hi
      have hfresh : s.Recalls (log index) := by
        rw [hempty]
        exact Shell.recalls_new hnew.of_mapCalls
      exact (h.replace hfresh).resizeOpenShells hr

end Shells.Recall

/-- What a key enters in a terminal: the line of its shell, if the window has the focus. -/
def Shells.entry (shells : Shells) (desktop : Desktop) (key : DecodedKey) (i : Fin 2) :
    List String :=
  if desktop.active = i ∧ desktop.isOpen i = true then
    (shells i).elim [] fun s => s.entry key.action
  else []

lemma Shells.entry_of_ne (shells : Shells) (desktop : Desktop) {key : DecodedKey} (i : Fin 2)
    (hkey : key.action ≠ .submit) : shells.entry desktop key i = [] := by
  unfold Shells.entry Shell.entry
  cases shells i <;> simp [hkey]

lemma Shells.Recall.handleFocused {shells shells' : Shells} {log : Fin 2 → List String}
    (h : shells.Recall log) {env : Environment} {key : DecodedKey} {k k' : Console}
    (hrun : (handleFocused env shells key).run Console.handler k = some (k',shells')) :
    shells'.Recall fun i => log i++shells.entry k.desktop key i := by
  change (if k.desktop.isOpen k.desktop.active = true then _ else _ : ConsoleProgram Shells).run
    Console.handler k = _ at hrun
  split_ifs at hrun with hopen
  · have hother : ∀ i, i ≠ k.desktop.active → log i++shells.entry k.desktop key i = log i := by
      intro i hi
      rw [Shells.entry,if_neg fun hfocus => hi hfocus.1.symm,List.append_nil]
    have hr := Returns.of_run hrun
    obtain ⟨-,-,hr⟩ := returns_bind.mp hr
    cases hs : shells k.desktop.active with
    | none =>
      rw [hs] at hr
      rw [returns_ret.mp hr]
      refine h.congr fun i => ?_
      by_cases hi : i = k.desktop.active
      · subst hi
        rw [Shells.entry,if_pos ⟨rfl,hopen⟩,hs]
        exact List.append_nil _
      · exact hother i hi
    | some s =>
      rw [hs] at hr
      obtain ⟨s',hs',hr⟩ := returns_bind.mp hr
      rw [returns_ret.mp hr]
      have hupdate := h.update (i := k.desktop.active) ((h.shell hs).handleKey hs'.of_mapCalls)
      refine hupdate.congr fun i => ?_
      by_cases hi : i = k.desktop.active
      · subst hi
        rw [Function.update_self,Shells.entry,if_pos ⟨rfl,hopen⟩,hs]
        rfl
      · rw [Function.update_of_ne hi]
        exact hother i hi
  · cases hrun
    refine h.congr fun i => ?_
    rw [Shells.entry,if_neg,List.append_nil]
    rintro ⟨rfl,hi⟩
    exact hopen hi

lemma Shells.Recall.dispatchKey {shells shells' : Shells} {log : Fin 2 → List String}
    (h : shells.Recall log) {info : SystemInfo} {env : Environment} {key : DecodedKey}
    {k k' : Console}
    (hrun : (dispatchKey info env shells key).run Console.handler k = some (k',shells')) :
    shells'.Recall fun i => log i++shells.entry k.desktop key i := by
  have hkeep : key.action ≠ .submit → shells'.Recall log →
      shells'.Recall fun i => log i++shells.entry k.desktop key i := by
    intro hkey hkept
    refine hkept.congr fun i => ?_
    rw [shells.entry_of_ne _ i hkey,List.append_nil]
  unfold CrabOs.dispatchKey at hrun
  split_ifs at hrun with hclose hopen
  · exact hkeep (by rw [hclose]; decide) (h.closeFocused (Returns.of_run hrun))
  · exact hkeep (by rw [hopen]; decide) (h.openShell (Returns.of_run hrun))
  · exact h.handleFocused hrun

/-! ### Sessions -/

namespace Session
variable {D : Decoder}

/-- The line that an input enters in a terminal. -/
def entry (x : Session D) (i : Fin 2) : SessionInput → List String
  | .event _ event => (D.decode x.keyboard event).2.elim [] fun key =>
      x.shells.entry x.console.desktop key i
  | _ => []

/-- The lines that have been entered in a terminal over a session. -/
def entered (info : SystemInfo) (i : Fin 2) : List SessionInput → Session D → List String
  | [],_ => []
  | input :: inputs,x => x.entry i input++(x.step info input).elim [] (entered info i inputs)

lemma recall_perform {p : ConsoleProgram Shells} {keyboard : D.State} {k : Console}
    {x : Session D} {log : Fin 2 → List String} (h : perform keyboard p k = some x)
    (hp : ∀ k' shells', p.run Console.handler { k with trace := [] } = some (k',shells') →
      shells'.Recall log) : x.shells.Recall log := by
  obtain ⟨⟨k',shells'⟩,hrun,rfl⟩ := Option.map_eq_some_iff.mp h
  exact hp k' shells' hrun

/-- One input adds what it enters. -/
theorem recall_step {info : SystemInfo} {x x' : Session D} {input : SessionInput}
    {log : Fin 2 → List String} (h : x.shells.Recall log) (hstep : x.step info input = some x') :
    x'.shells.Recall fun i => log i++x.entry i input := by
  have hkeep : (∀ i, x.entry i input = []) → x'.shells.Recall log →
      x'.shells.Recall fun i => log i++x.entry i input := by
    intro hnone hkept
    refine hkept.congr fun i => ?_
    rw [hnone,List.append_nil]
  cases input with
  | event env event =>
    refine recall_perform hstep fun k' shells' hrun => ?_
    cases event with
    | openTerminal =>
      refine (h.dispatchKey hrun).congr fun i => ?_
      rw [Shells.entry_of_ne _ _ i (by decide)]
      rfl
    | closeTerminal index =>
      obtain ⟨-,-,hr⟩ := returns_bind.mp (Returns.of_run hrun)
      exact (h.resizeOpenShells hr).congr fun i => List.append_nil _
    | scancode code =>
      change (handleEvent info env x.shells (D.decode x.keyboard (.scancode code)).2
        (.scancode code)).run _ _ = _ at hrun
      cases hkey : (D.decode x.keyboard (.scancode code)).2 with
      | none =>
        rw [hkey] at hrun
        cases hrun
        refine h.congr fun i => ?_
        rw [entry,hkey]
        exact List.append_nil _
      | some key =>
        rw [hkey] at hrun
        refine (h.dispatchKey hrun).congr fun i => ?_
        rw [entry,hkey]
        rfl
  | inputLost =>
    refine hkeep (fun _ => rfl) (recall_perform hstep fun k' shells' hrun => ?_)
    exact h.handleLoss (Returns.of_run hrun)
  | mouse byte =>
    obtain ⟨⟨k,r⟩,-,rfl⟩ := Option.map_eq_some_iff.mp hstep
    exact hkeep (fun _ => rfl) h

theorem recall_run {info : SystemInfo} {inputs : List SessionInput} {x x' : Session D}
    {log : Fin 2 → List String} (h : x.shells.Recall log)
    (hrun : run info inputs x = some x') :
    x'.shells.Recall fun i => log i++entered info i inputs x := by
  induction inputs generalizing x log with
  | nil =>
    cases hrun
    exact h.congr fun i => List.append_nil _
  | cons input inputs ih =>
    obtain ⟨y,hy,hrun⟩ := Option.bind_eq_some_iff.mp hrun
    refine (ih (recall_step h hy) hrun).congr fun i => ?_
    rw [entered,hy,List.append_assoc]
    rfl

end Session

/-- Whatever happens in a session, the `history` command of a terminal shows the newest of the lines
that have been entered in that terminal, without blank lines and repetitions. -/
theorem session_remembers (D : Decoder) (info : SystemInfo) (inputs : List SessionInput) :
    ∃ x₀ x : Session D, Session.start = some x₀ ∧ Session.run info inputs x₀ = some x ∧
      ∀ i, (x.shells i).elim (Session.entered info i inputs x₀ = []) fun s =>
        historySections s.history =
          some (numbered (History.lastN 16 (remembered (Session.entered info i inputs x₀)))) := by
  obtain ⟨x₀,v,hx₀,hc⟩ := Session.calm_start (D := D)
  obtain ⟨x,v',hx,-⟩ := hc.run info inputs
  refine ⟨x₀,x,hx₀,hx,fun i => ?_⟩
  have hstart : x₀.shells.Recall fun _ => [] := by
    refine Session.recall_perform hx₀ fun k' shells' hrun => ?_
    have hr := Returns.of_run hrun
    obtain ⟨-,-,hr⟩ := returns_bind.mp hr
    obtain ⟨-,-,hr⟩ := returns_bind.mp hr
    obtain ⟨-,-,hr⟩ := returns_bind.mp hr
    rw [returns_ret.mp hr]
    exact fun _ => rfl
  have hi := Session.recall_run hstart hx i
  cases hs : x.shells i with
  | none =>
    rw [hs] at hi
    exact hi
  | some s =>
    rw [hs] at hi
    exact hi.history.sections

end CrabOs
