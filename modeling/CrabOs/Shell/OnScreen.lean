import CrabOs.Foundations.Runs
import CrabOs.Shell.Screen

/-! What is on screen is what will be executed: between two keys the console shows the prompt,
the bytes of the line and nothing else. -/
namespace CrabOs.Crabsh
open CrabOs.Vga AtomicProgram
open Screen (sections)

variable {s : Shell} {t : Terminal}

/-- The cell at a place of the tape of `columns` cells per line. -/
def tapeCell (w : Writer) (k : ℕ) : ScreenChar :=
  ((RingBuffer.read w.lines (k/w.columns))[k % w.columns]?).getD blank

/-- The console shows the prompt of the shell, its line and nothing behind it. -/
structure Presents (w : Writer) (s : Shell) : Prop where
  column : s.anchor.column = promptCells.length
  prompt : ∀ c (h : c < promptCells.length),
    tapeCell w (s.anchor.line*w.columns+c) = promptCells[c]
  text : ∀ i (h : i < s.line.content.length),
    tapeCell w (s.anchor.linear w.columns+i) = ⟨s.line.content[i],Color.lightGray.code⟩
  rest : ∀ k, s.anchor.linear w.columns+s.line.content.length ≤ k →
    k < (w.lastLine+1)*w.columns → tapeCell w k = blank
  cursor : w.cursor = s.anchor.offset s.line.cursor w.columns

lemma tapeCell_eq {w : Writer} (h : Writer.Mirrors w t) {k : ℕ} (hlow : w.firstLine ≤ k/w.columns)
    (hhigh : k/w.columns ≤ w.lastLine) :
    tapeCell w k = t.lines (k/w.columns) (k % w.columns) := by
  have hlt : k % w.columns < bufferWidth := lt_of_lt_of_le (Nat.mod_lt _ h.width_pos) h.width_le
  have hrow := h.rows _ hlow hhigh ⟨k % w.columns,hlt⟩
  rw [← hrow,tapeCell,Vector.getElem?_eq_getElem hlt]
  rfl

/-- A console that mirrors a displayed prompt presents the line. -/
theorem AtPrompt.presents {w : Writer} {screen : Screen} (h : AtPrompt screen s)
    (hw : screen.Shows w) : Presents w s := by
  cases screen with
  | stale n => exact h.2.elim
  | live t =>
    have hm : Writer.Mirrors w t := hw
    have hd : Displays t s.anchor s.line.content s.line.cursor := h.2
    have hpos : 0 < w.columns := hm.width_pos
    have hcols : t.columns = w.columns := hm.columns
    have hfirst : w.firstLine ≤ s.anchor.line := by
      have hnear := hd.near
      have hring := hm.first
      rw [hm.last] at hnear
      simp only [scrollbackLines] at hring
      omega
    have hcell : ∀ k, s.anchor.line*w.columns ≤ k → k < (w.lastLine+1)*w.columns →
        tapeCell w k = t.lines (k/w.columns) (k % w.columns) := by
      intro k hlow hhigh
      apply tapeCell_eq hm
      · exact hfirst.trans ((Nat.le_div_iff_mul_le hpos).mpr hlow)
      · exact Nat.le_of_lt_succ ((Nat.div_lt_iff_lt_mul hpos).mpr hhigh)
    have hsplit : ∀ k, k/w.columns*w.columns+k % w.columns = k := fun k => Nat.div_add_mod' k _
    have hreach : s.anchor.linear w.columns+s.line.content.length ≤ (w.lastLine+1)*w.columns := by
      have hle := Nat.mul_le_mul_right w.columns hd.reach
      have hcol := Position.offset_column_le s.anchor s.line.content.length hpos
      rw [← Position.offset_linear _ _ hpos,Position.linear]
      rw [hm.last,hcols] at hle
      rw [Nat.succ_mul]
      omega
    have hlin : s.anchor.linear w.columns = s.anchor.line*w.columns+promptCells.length :=
      congrArg (s.anchor.line*w.columns+·) hd.column
    constructor
    case column => exact hd.column
    case cursor => rw [← hm.cursor,hd.cursor_eq,hcols]
    case prompt =>
      intro c hc
      rw [hcell _ (Nat.le_add_right _ _) (by omega)]
      have hlt : c < w.columns := by
        have hwide := hd.wide
        have hlen := promptCells_length
        omega
      rw [Nat.mul_comm,Nat.mul_add_div hpos,Nat.div_eq_of_lt hlt,Nat.mul_add_mod,
        Nat.mod_eq_of_lt hlt,Nat.add_zero]
      exact hd.prompt c hc
    case text =>
      intro i hi
      rw [hcell _ (by omega) (by omega)]
      exact hd.shows _ _ i hi (by rw [hcols]; exact Nat.mod_lt _ hpos) (by rw [hcols]; exact hsplit _)
    case rest =>
      intro k hlow hhigh
      rw [hcell k (by omega) hhigh]
      exact hd.rest _ _ (by rw [hcols]; exact Nat.mod_lt _ hpos)
        (by rw [hcols,hsplit]; exact hlow)

/-! ### Sessions of one shell -/

/-- The widths a window lays its terminal out with. -/
inductive Width
  | half | full

def Width.columns : Width → ℕ
  | .half => 36
  | .full => 72

/-- What can happen to a shell between two waits. -/
inductive ShellEvent
  | key (env : Environment) (pressed : DecodedKey)
  | inputLost
  | resize (width : Width)

def ShellEvent.handle : ShellEvent → Writer × Shell → Option (Writer × Shell)
  | .key env pressed,(w,s) => (s.handleKey env pressed).run writerHandler w
  | .inputLost,(w,s) => s.inputLost.run writerHandler w
  | .resize width,(w,s) =>
    (w.setColumns width.columns).bind (s.resetForResize.run writerHandler)

def ShellEvent.handleAll : List ShellEvent → Writer × Shell → Option (Writer × Shell)
  | [],state => some state
  | event :: events,state => (event.handle state).bind (handleAll events)

/-- A shell is created on a console of any contents and handles its events one by one. -/
def shellSession (w : Writer) (width : Width) (info : SystemInfo) (env : Environment)
    (events : List ShellEvent) : Option (Writer × Shell) :=
  ((w.setColumns width.columns).bind ((Shell.new info env).run writerHandler)).bind
    (ShellEvent.handleAll events)

lemma Width.columns_bounds (width : Width) : 36 ≤ width.columns ∧ width.columns ≤ bufferWidth := by
  cases width <;> decide

lemma setColumns_width (w : Writer) (width : Width) :
    ∃ w', w.setColumns width.columns = some w' ∧
      (Screen.stale width.columns w.firstLine w.lastLine).Shows w' := by
  have hbounds := width.columns_bounds
  exact ⟨{ w with columns := width.columns },if_pos ⟨by omega,hbounds.2⟩,
    ⟨rfl,by omega,hbounds.2⟩,rfl,rfl⟩

/-- A waiting shell on its console. -/
def Waiting (state : Writer × Shell) : Prop :=
  ∃ screen : Screen, screen.Shows state.1 ∧ AtPrompt screen state.2

lemma waiting_of_spec {p : ShellProgram Shell} {screen : Screen} {w : Writer}
    (h : p.Spec sections AtPrompt screen) (hw : screen.Shows w) :
    ∃ state, p.run writerHandler w = some state ∧ Waiting state := by
  obtain ⟨w',s',screen',hrun,hs,hp⟩ := Screen.run h hw
  exact ⟨(w',s'),hrun,screen',hs,hp⟩

theorem ShellEvent.handle_waiting (event : ShellEvent) {state : Writer × Shell}
    (h : Waiting state) : ∃ state', event.handle state = some state' ∧ Waiting state' := by
  obtain ⟨w,s⟩ := state
  obtain ⟨screen,hw,hs⟩ := h
  cases screen with
  | stale n => exact hs.2.elim
  | live t =>
    cases event with
    | key env key => exact waiting_of_spec (spec_handleKey hs.1 hs.2 env key) hw
    | inputLost => exact waiting_of_spec (spec_inputLost hs.1 hs.2) hw
    | resize width =>
      obtain ⟨w',hw',hshows⟩ := setColumns_width w width
      have hwide : 36 ≤ (Screen.stale width.columns w.firstLine w.lastLine).columns :=
        width.columns_bounds.1
      obtain ⟨state,hrun,hwait⟩ := waiting_of_spec (spec_resetForResize hs.1 hwide) hshows
      exact ⟨state,by simp only [handle,hw',Option.bind_some]; exact hrun,hwait⟩

theorem ShellEvent.handleAll_waiting (events : List ShellEvent) {state : Writer × Shell}
    (h : Waiting state) : ∃ state', handleAll events state = some state' ∧ Waiting state' := by
  have hrun : handleAll = Runs.run fun state event => event.handle state :=
    Runs.eq_run (fun _ => rfl) fun _ _ _ => rfl
  rw [hrun]
  exact Runs.run_total (fun _ event hwait => event.handle_waiting hwait) h events

/-- After any events the console presents the line that Enter would run. -/
theorem session_presents (w : Writer) (width : Width) (info : SystemInfo) (env : Environment)
    (events : List ShellEvent) :
    ∃ w' s, shellSession w width info env events = some (w',s) ∧ Presents w' s := by
  obtain ⟨u,hu,hshows⟩ := setColumns_width w width
  have hwide : 36 ≤ (Screen.stale width.columns w.firstLine w.lastLine).columns :=
    width.columns_bounds.1
  obtain ⟨state,hrun,hwait⟩ := waiting_of_spec (spec_new info env hwide) hshows
  obtain ⟨⟨w',s⟩,hall,screen,hscreen,hprompt⟩ := ShellEvent.handleAll_waiting events hwait
  refine ⟨w',s,?_,hprompt.presents hscreen⟩
  rw [shellSession,hu,Option.bind_some,hrun]
  exact hall

end CrabOs.Crabsh
