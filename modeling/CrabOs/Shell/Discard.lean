import CrabOs.Shell.Editing

/-! Operations that discard the input. The draft of a history that is not browsing is invisible,
so a discarded line ends browsing exactly when the browsing index is reset. -/
namespace CrabOs.Crabsh
open AtomicProgram

namespace History

/-- The same entries, not browsing, with any draft. -/
def idle (h : History) (draft : Line) : History := { h with browsing := none, draft := draft }

end History

namespace Shell

/-- The same editor with a history that is not browsing. -/
def idle (shell : Shell) (draft : Line) : Shell :=
  { shell with history := shell.history.idle draft }

/-- The keys are handled one after another; every key comes with what its command would find. -/
def handleKeys : List (Environment × DecodedKey) → Shell → ShellProgram Shell
  | [],shell => .ret shell
  | (env,key) :: keys,shell => (shell.handleKey env key).bind (handleKeys keys)

/-- The operations that replace the input with an empty line at a fresh prompt. -/
inductive Discard
  | key (env : Environment) (key : DecodedKey) (h : key.action = .submit ∨ key.action = .cancel)
  | inputLost
  | resetForResize

def Discard.perform (shell : Shell) : Discard → ShellProgram Shell
  | .key env pressed _ => shell.handleKey env pressed
  | .inputLost => shell.inputLost
  | .resetForResize => shell.resetForResize

/-- What a user can see of an editor: its line, where it is shown, and the stored commands. -/
structure LooksLike (s t : Shell) : Prop where
  line : s.line = t.line
  anchor : s.anchor = t.anchor
  lines : s.history.lines = t.history.lines
  start : s.history.start = t.history.start
  len : s.history.len = t.history.len

/-- An empty line, and from now on the behaviour of an editor that is not browsing. -/
structure EndsBrowsing (s : Shell) : Prop where
  line : s.line = Line.new
  behaves : ∀ draft keys, Related LooksLike (handleKeys keys s) (handleKeys keys (s.idle draft))
  recalls : ∀ env, (s.handleKey env (.rawKey .arrowUp)).All fun s' =>
    s'.line = if s.history.len = 0 then Line.new else
      { s.history.get (s.history.len-1) with cursor := (s.history.get (s.history.len-1)).len }
  leaves : ∀ env, (s.handleKey env (.rawKey .arrowDown)).All fun s' => s'.line = Line.new

/-! ### The draft is invisible while not browsing -/

/-- The same shell with another draft. -/
def redraft (s : Shell) (draft : Line) : Shell :=
  { s with history := { s.history with draft := draft } }

/-- Two shells that differ at most in the draft, and only while not browsing. -/
def Alike (s t : Shell) : Prop :=
  ∃ draft, t = s.redraft draft ∧ (s.history.browsing ≠ none → draft = s.history.draft)

variable {s t : Shell}

lemma Alike.refl (s : Shell) : Alike s s := ⟨s.history.draft,rfl,fun _ => rfl⟩

lemma Alike.looksLike (h : Alike s t) : LooksLike s t := by
  obtain ⟨draft,rfl,-⟩ := h
  exact ⟨rfl,rfl,rfl,rfl,rfl⟩

lemma record_redraft (h : History) (draft line : Line) :
    ({ h with draft := draft } : History).record line =
      (h.record line).map fun h' => { h' with draft := draft } := by
  have hpush : ∀ g : History, ({ g with draft := draft } : History).push line =
      (g.push line).map fun h' => { h' with draft := draft } := by
    intro g
    unfold History.push
    split_ifs <;> rfl
  simp only [History.record,Option.bind_eq_bind]
  cases line.asStr with
  | none => rfl
  | some text =>
    simp only [Option.bind_some]
    split_ifs
    · rfl
    · change (({ h with browsing := none } : History).repeatsNewest text).bind _ = _
      cases ({ h with browsing := none } : History).repeatsNewest text with
      | none => rfl
      | some repeated =>
        cases repeated with
        | true => rfl
        | false => exact hpush { h with browsing := none }

section Idle
variable {draft : Line} (hb : s.history.browsing = none)
include hb

lemma alike_redraft : Alike s (s.redraft draft) := ⟨draft,rfl,fun h => absurd hb h⟩

lemma redrawWith_related (line : Option Line) :
    Related Alike (s.redrawWith line) ((s.redraft draft).redrawWith line) := by
  refine Related.bind_same (ofOption line) fun l => ?_
  refine Related.bind_same (redraw { s with line := l } s.line.len) fun _ => .ret ?_
  exact alike_redraft (s := { s with line := l }) hb

lemma freshPrompt_related : Related Alike s.freshPrompt (s.redraft draft).freshPrompt :=
  Related.bind_same prompt fun anchor =>
    .ret (alike_redraft (s := { s with line := Line.new, anchor := anchor }) hb)

omit hb in
lemma submit_related (env : Environment) :
    Related (fun a b => Alike a b ∧ a.history.browsing = none) (s.submit env)
      ((s.redraft draft).submit env) := by
  refine Related.ite (fun _ => ?_) (fun _ => ?_)
  · refine Related.bind_same (performAll _) fun _ => .ret ⟨?_,rfl⟩
    exact alike_redraft (s := s.stopBrowsing) rfl
  · have hredraft : (s.redraft draft).history.record (s.redraft draft).line = _ :=
      record_redraft s.history draft s.line
    rw [hredraft]
    cases hr : s.history.record s.line with
    | none => exact .fail
    | some history =>
      refine Related.bind_same (ofOption s.line.asStr) fun text => ?_
      refine Related.bind_same (ofOption (execute s.info history env text)) fun sections => ?_
      refine Related.bind_same (performAll sections) fun _ => .ret ?_
      have hnone := (History.record_stops hr).2
      exact ⟨alike_redraft (s := { s with history := history }) hnone,hnone⟩

lemma completeFrom_related (first : String) (others : List String) :
    Related Alike (s.completeFrom first others) ((s.redraft draft).completeFrom first others) := by
  unfold completeFrom
  refine Related.bind_same (ofOption _) fun line => ?_
  refine Related.ite (fun _ => ?_) (fun _ => Related.ite (fun _ => ?_) (fun _ => ?_))
  · refine Related.bind_same (ofOption _) fun line => ?_
    refine Related.bind_same (redraw { s with line := line } _) fun _ => .ret ?_
    exact alike_redraft (s := { s with line := line }) hb
  · refine Related.bind_same (redraw (cursorToEnd { s with line := line }) _) fun _ => ?_
    refine Related.bind_same (performAll _) fun _ => ?_
    refine Related.bind_same prompt fun anchor => ?_
    refine Related.bind_same (redraw { cursorToEnd { s with line := line } with
      anchor := anchor } _) fun _ => .ret ?_
    exact alike_redraft (s := { cursorToEnd { s with line := line } with anchor := anchor }) hb
  · refine Related.bind_same (redraw { s with line := line } _) fun _ => .ret ?_
    exact alike_redraft (s := { s with line := line }) hb

lemma complete_related (commands : List (String × String)) :
    Related Alike (s.complete commands) ((s.redraft draft).complete commands) := by
  have hsame : Related Alike (.ret s : ShellProgram Shell) (.ret (s.redraft draft)) :=
    .ret (alike_redraft hb)
  refine Related.ite (fun _ => hsame) (fun _ => ?_)
  refine Related.bind_same (ofOption s.line.asStr) fun text => ?_
  refine Related.ite (fun _ => hsame) (fun _ => ?_)
  cases (commands.map Prod.fst).filter (fun name => startsWith name text) with
  | nil => exact hsame
  | cons first others => exact completeFrom_related hb first others

/-- No key tells the two drafts apart. -/
theorem handleKey_related (env : Environment) (key : DecodedKey) :
    Related Alike (s.handleKey env key) ((s.redraft draft).handleKey env key) := by
  have hsame : Related Alike (.ret s : ShellProgram Shell) (.ret (s.redraft draft)) :=
    .ret (alike_redraft hb)
  unfold handleKey
  cases key.action with
  | submit =>
    refine Related.bind_same (redraw s.cursorToEnd s.line.len) fun _ => ?_
    refine Related.bind_same (performAll _) fun _ => ?_
    refine (submit_related (s := s.cursorToEnd) env).bind ?_
    rintro a _ ⟨⟨d,rfl,-⟩,ha⟩
    exact freshPrompt_related ha
  | cancel =>
    refine Related.bind_same (redraw s.cursorToEnd s.line.len) fun _ => ?_
    refine Related.bind_same (performAll _) fun _ => ?_
    exact freshPrompt_related (s := s.cursorToEnd.stopBrowsing) rfl
  | clearScreen =>
    refine Related.bind_same (performAll _) fun _ => ?_
    refine Related.bind_same prompt fun anchor => ?_
    refine Related.bind_same (redraw { s with anchor := anchor } 0) fun _ => .ret ?_
    exact alike_redraft (s := { s with anchor := anchor }) hb
  | complete => exact complete_related hb commands
  | previous =>
    by_cases hlen : s.history.len = 0
    · have hp : s.history.previous s.line = (s.history,s.line) := by
        simp [History.previous,hlen]
      have hp' : (s.redraft draft).history.previous (s.redraft draft).line =
          ((s.redraft draft).history,s.line) := by
        simp [History.previous,redraft,hlen]
      rw [hp,hp']
      exact redrawWith_related hb _
    · have hp : (s.redraft draft).history.previous (s.redraft draft).line =
          s.history.previous s.line := by
        simp [History.previous,History.get,redraft,hlen,hb]
      rw [hp]
      exact Related.refl Alike.refl _
  | next =>
    have hn : s.history.next s.line = (s.history,s.line) := by simp [History.next,hb]
    have hn' : (s.redraft draft).history.next (s.redraft draft).line =
        ((s.redraft draft).history,s.line) := by
      simp [History.next,redraft,hb]
    rw [hn,hn']
    exact redrawWith_related hb _
  | pageUp => exact Related.bind_same (performAll _) fun _ => hsame
  | pageDown => exact Related.bind_same (performAll _) fun _ => hsame
  | ignore => exact hsame
  | backspace => exact redrawWith_related hb _
  | delete => exact redrawWith_related hb _
  | home => exact redrawWith_related hb _
  | endOfLine => exact redrawWith_related hb _
  | left => exact redrawWith_related hb _
  | right => exact redrawWith_related hb _
  | eraseToStart => exact redrawWith_related hb _
  | eraseToEnd => exact redrawWith_related hb _
  | eraseWord => exact redrawWith_related hb _
  | insert byte => exact redrawWith_related hb _

end Idle

theorem Alike.handleKey (h : Alike s t) (env : Environment) (key : DecodedKey) :
    Related Alike (s.handleKey env key) (t.handleKey env key) := by
  obtain ⟨draft,rfl,hd⟩ := h
  by_cases hb : s.history.browsing = none
  · exact handleKey_related hb env key
  · obtain rfl := hd hb
    exact Related.refl Alike.refl _

theorem Alike.handleKeys (h : Alike s t) (keys : List (Environment × DecodedKey)) :
    Related Alike (handleKeys keys s) (handleKeys keys t) := by
  induction keys generalizing s t with
  | nil => exact .ret h
  | cons pressed keys ih => exact (h.handleKey _ _).bind fun _ _ => ih

/-! ### Discarding operations -/

lemma next_handled (h : s.Sound) (env : Environment) (P : Shell → Prop) :
    (s.handleKey env (.rawKey .arrowDown)).All P ↔
      P { s with history := (s.history.next s.line).1, line := (s.history.next s.line).2 } :=
  redrawWith_all (s := { s with history := (s.history.next s.line).1 }) (h.history.next h.line).2 P

lemma previous_handled (h : s.Sound) (env : Environment) (P : Shell → Prop) :
    (s.handleKey env (.rawKey .arrowUp)).All P ↔
      P { s with history := (s.history.previous s.line).1, line := (s.history.previous s.line).2 } :=
  redrawWith_all (s := { s with history := (s.history.previous s.line).1 })
    (h.history.previous h.line).2 P

/-- An empty line and no browsing index are enough. -/
theorem endsBrowsing_of_idle (h : s.Sound) (hline : s.line = Line.new)
    (hb : s.history.browsing = none) : s.EndsBrowsing where
  line := hline
  behaves draft keys := by
    have hidle : s.idle draft = s.redraft draft := by simp [idle,History.idle,redraft,hb]
    rw [hidle]
    exact ((alike_redraft hb).handleKeys keys).mono fun _ _ => Alike.looksLike
  recalls env := by
    rw [previous_handled h]
    by_cases hlen : s.history.len = 0
    · simp [History.previous,hlen,hline]
    · simp [History.previous,hlen,hb]
  leaves env := by
    rw [next_handled h]
    simpa [History.next,hb] using hline

lemma typed (h : s.Sound) (hline : s.line = Line.new) (env : Environment) {c : Char} {b : UInt8}
    (hc : (DecodedKey.unicode c).action = .insert b) (hb : IsPrintable b) :
    ∃ l : Line, l.Holds [b] [] ∧ l.overflow = false ∧ ({ s with line := l } : Shell).Sound ∧
      ∀ P, (s.handleKey env (.unicode c)).All P ↔ P { s with line := l } := by
  obtain ⟨l,hl,hholds,hover⟩ := Line.holds_new.insert hb (by decide)
  have hkey : s.handleKey env (.unicode c) = s.redrawWith (some l) := by
    rw [handleKey,hc]
    simp only [hline,hl,Option.map_some]
  refine ⟨l,hholds,hover,⟨hholds.valid,h.history⟩,fun P => ?_⟩
  rw [hkey,redrawWith_all hholds.valid]

lemma typed_next (h : s.Sound) (hline : s.line = Line.new) (env : Environment) {c : Char}
    {b : UInt8} (hc : (DecodedKey.unicode c).action = .insert b) (hb : IsPrintable b) :
    (handleKeys [(env,.unicode c),(env,.rawKey .arrowDown)] s).All fun s' =>
      ∃ l : Line, l.Holds [b] [] ∧ s'.line = (s.history.next l).2 := by
  obtain ⟨l,hholds,-,hsound,hkey⟩ := typed h hline env hc hb
  rw [handleKeys,all_bind,hkey,handleKeys,all_bind,next_handled hsound]
  exact ⟨l,hholds,rfl⟩

/-- While the index is set, Down replaces any typed character by one and the same line. -/
theorem not_endsBrowsing_of_browsing (h : s.Sound) (hline : s.line = Line.new) {i : ℕ}
    (hi : s.history.browsing = some i) : ¬s.EndsBrowsing := by
  intro hends
  let env : Environment := ⟨0,0,none,none,fun _ => .error "no initialized Ethernet controller"⟩
  have hidle : (s.idle Line.new).Sound := by
    obtain ⟨kept,hh,hv⟩ := h.history.holds
    exact ⟨h.line,⟨⟨kept,⟨hh.len,hh.bound,hh.start,hh.entries,fun i hi => by cases hi⟩,hv⟩,
      Line.valid_new⟩⟩
  have hconst : ∀ l, (s.history.next l).2 = (s.history.next Line.new).2 := by
    intro l
    simp only [History.next,hi]
  have hshown : ∀ c b, (DecodedKey.unicode c).action = .insert b → IsPrintable b →
      (s.history.next Line.new).2.Holds [b] [] := by
    intro c b hc hb
    obtain ⟨s',hs',l,-,hl⟩ := (typed_next h hline env hc hb).exists_returns
    obtain ⟨t',ht',hlooks⟩ := (hends.behaves Line.new _).returns hs'
    obtain ⟨l',hholds,hl'⟩ := (typed_next hidle hline env hc hb).of_returns ht'
    have hnext : s'.line = l' := hlooks.line.trans hl'
    rw [hl,hconst] at hnext
    rwa [hnext]
  have hx := (hshown 'x' 120 rfl (by decide)).before
  have hy := (hshown 'y' 121 rfl (by decide)).before
  rw [hx] at hy
  exact absurd hy (by decide)

lemma freshPrompt_idle (h : s.Sound) (hb : s.history.browsing = none) :
    s.freshPrompt.All EndsBrowsing :=
  fun _ => endsBrowsing_of_idle ⟨Line.valid_new,h.history⟩ rfl hb

lemma submit_idle (h : s.Sound) (env : Environment) :
    (s.submit env).All fun s' => s'.Sound ∧ s'.history.browsing = none := by
  unfold submit
  split_ifs
  · simp only [bind_eq,all_bind,all_performAll]
    exact ⟨h.stopBrowsing,rfl⟩
  · obtain ⟨history,hr,hsound⟩ := h.history.record h.line
    obtain ⟨sections,he,-⟩ := execute_prints s.info env hsound.readable s.line.text
    simp only [hr,h.line.asStr,he,ofOption_some,bind_eq,ret_bind,all_bind,all_performAll]
    exact ⟨⟨h.line,hsound⟩,(History.record_stops hr).2⟩

lemma inputLost_ends (h : s.Sound) : s.inputLost.All EndsBrowsing := by
  simp only [inputLost,bind_eq,all_bind,all_performAll,redraw_all h.cursorToEnd.line]
  exact freshPrompt_idle h.cursorToEnd.stopBrowsing rfl

lemma handleKey_ends (h : s.Sound) (env : Environment) {key : DecodedKey}
    (hkey : key.action = .submit ∨ key.action = .cancel) :
    (s.handleKey env key).All EndsBrowsing := by
  unfold handleKey
  rcases hkey with hkey | hkey
  · rw [hkey]
    simp only [bind_eq,all_bind,all_performAll,redraw_all h.cursorToEnd.line]
    exact (submit_idle h.cursorToEnd env).mono fun s' hs' => freshPrompt_idle hs'.1 hs'.2
  · rw [hkey]
    simp only [bind_eq,all_bind,all_performAll,redraw_all h.cursorToEnd.line]
    exact freshPrompt_idle h.cursorToEnd.stopBrowsing rfl

/-- A resize keeps the browsing index. -/
lemma resetForResize_keeps (h : s.Sound) : s.resetForResize.All fun s' =>
    s'.Sound ∧ s'.line = Line.new ∧ s'.history = s.history := by
  simp only [resetForResize,bind_eq,all_bind,all_performAll]
  exact fun anchor => ⟨⟨Line.valid_new,h.history⟩,rfl,rfl⟩

lemma Reachable.keys (h : Reachable s) {keys : List (Environment × DecodedKey)}
    (hr : (handleKeys keys s).Returns t) : Reachable t := by
  induction keys generalizing s with
  | nil =>
    cases hr
    exact h
  | cons pressed keys ih =>
    obtain ⟨s',hs',hr⟩ := returns_bind.mp hr
    exact ih (.key h hs') hr

/-- Every discarding operation ends browsing, except a resize of a shell that is browsing. -/
theorem discard_endsBrowsing_iff (h : Reachable s) (operation : Discard) :
    (operation.perform s).All EndsBrowsing ↔
      (operation = .resetForResize → s.history.browsing = none) := by
  have hsound := h.sound
  cases operation with
  | key env key hkey =>
    refine iff_of_true (handleKey_ends hsound env hkey) ?_
    intro hne
    cases hne
  | inputLost =>
    refine iff_of_true (inputLost_ends hsound) ?_
    intro hne
    cases hne
  | resetForResize =>
    constructor
    · intro hends _
      obtain ⟨s',hs',hsound',hline,hhistory⟩ := (resetForResize_keeps hsound).exists_returns
      cases hb : s.history.browsing with
      | none => rfl
      | some i =>
        exact absurd (hends.of_returns hs')
          (not_endsBrowsing_of_browsing hsound' hline (by rw [hhistory,hb]))
    · intro hb
      refine (resetForResize_keeps hsound).mono ?_
      rintro s' ⟨hsound',hline,hhistory⟩
      exact endsBrowsing_of_idle hsound' hline (by rw [hhistory]; exact hb rfl)

/-- A new shell is not browsing, and a resize leaves it so. -/
theorem discard_endsBrowsing_new : ∃ s, Reachable s ∧ s.history.browsing = none ∧
    (Discard.resetForResize.perform s).All EndsBrowsing := by
  let info : SystemInfo := ⟨0,Vector.replicate 12 0,Vector.replicate 48 0,false⟩
  let env : Environment := ⟨0,0,none,none,fun _ => .error "no initialized Ethernet controller"⟩
  have hnew : (Shell.new info env).All fun s => s.history.browsing = none := by
    simp only [new,bind_eq,all_bind,all_performAll]
    exact fun _ => rfl
  obtain ⟨s,hs,hb⟩ := hnew.exists_returns
  have hreach : Reachable s := .new hs
  exact ⟨s,hreach,hb,(discard_endsBrowsing_iff hreach _).mpr fun _ => hb⟩

lemma entered (h : s.Sound) (hend : s.line.cursor = s.line.len) (hover : s.line.overflow = false)
    {history : History} (hr : s.history.record s.line = some history) (hsound : history.Sound)
    (env : Environment) {P : Shell → Prop}
    (hP : ∀ s' : Shell, s'.Sound → s'.line = Line.new → s'.history = history → P s') :
    (s.handleKey env (.unicode '\n')).All P := by
  have hsame : s.cursorToEnd = s :=
    congrArg (fun n => ({ s with line := { s.line with cursor := n } } : Shell)) hend.symm
  obtain ⟨sections,he,-⟩ := execute_prints s.info env hsound.readable s.line.text
  have hkey : (DecodedKey.unicode '\n').action = .submit := rfl
  rw [handleKey,hkey]
  simp only [hsame,submit,hover,hr,h.line.asStr,he,Bool.false_eq_true,if_false,ofOption_some,bind_eq,
    ret_bind,all_bind,all_performAll,redraw_all h.line]
  exact fun anchor => hP ⟨s.info,Line.new,history,anchor⟩ ⟨Line.valid_new,hsound⟩ rfl rfl

lemma browsing_after_previous (h : s.Sound) (hline : s.line = Line.new) (hlen : s.history.len = 1)
    (hb : s.history.browsing = none) (env : Environment) :
    (handleKeys [(env,.unicode 'x'),(env,.rawKey .arrowUp)] s).All fun s' => s'.Sound ∧
      s'.history.browsing = some 0 ∧ s'.history.len = 1 ∧ s'.history.draft.Holds [120] [] := by
  obtain ⟨x,hx,-,hsound,hkey⟩ := typed h hline env (c := 'x') (b := 120) rfl (by decide)
  rw [handleKeys,all_bind,hkey,handleKeys,all_bind,previous_handled hsound]
  have hprevious := h.history.previous hx.valid
  refine ⟨⟨hprevious.2,hprevious.1⟩,?_⟩
  simpa [History.previous,hlen,hb] using hx

/-- After a command is submitted, `x` is typed and Up is pressed, the shell browses with `x` as
its draft. -/
lemma browsing_after_keys (h : s.Sound) (hline : s.line = Line.new) (hnew : s.history = History.new)
    (env : Environment) :
    (handleKeys [(env,.unicode 'a'),(env,.unicode '\n'),(env,.unicode 'x'),(env,.rawKey .arrowUp)]
      s).All fun s' => s'.Sound ∧ s'.history.browsing = some 0 ∧ s'.history.len = 1 ∧
        s'.history.draft.Holds [120] [] := by
  obtain ⟨a,ha,hover,hsa,hkey⟩ := typed h hline env (c := 'a') (b := 97) rfl (by decide)
  have hkept : s.history.Holds (History.lastN historySize []) := by
    rw [hnew]
    exact History.holds_new
  obtain ⟨history,hr,hb,hh⟩ := hkept.record (by simp) ha.valid
  have hlen : history.len = 1 := by
    have htext : a.text = "a" := by rw [Line.text,ha.content]; rfl
    rw [hh.len,htext]
    rfl
  have hsound : history.Sound := by
    obtain ⟨history',hr',hs'⟩ := h.history.record ha.valid
    rw [hr] at hr'
    cases hr'
    exact hs'
  rw [handleKeys,all_bind,hkey,handleKeys,all_bind]
  refine entered hsa (ha.cursor.trans ha.len.symm) hover hr hsound env ?_
  rintro s' hs' hline' rfl
  exact browsing_after_previous hs' hline' hlen hb env

/-- A command, the draft `x`, Up and a resize: Down brings the discarded draft back. -/
theorem resize_brings_back_draft : ∃ s, Reachable s ∧ s.history.browsing = some 0 ∧
    ¬(Discard.resetForResize.perform s).All EndsBrowsing ∧
    (Discard.resetForResize.perform s).All fun s' => s'.line = Line.new ∧
      ∀ env, (s'.handleKey env (.rawKey .arrowDown)).All fun s'' => s''.line.content = [120] := by
  let info : SystemInfo := ⟨0,Vector.replicate 12 0,Vector.replicate 48 0,false⟩
  let env : Environment := ⟨0,0,none,none,fun _ => .error "no initialized Ethernet controller"⟩
  have hnew : (Shell.new info env).All fun s =>
      s.Sound ∧ s.line = Line.new ∧ s.history = History.new := by
    simp only [new,bind_eq,all_bind,all_performAll]
    exact fun anchor => ⟨⟨Line.valid_new,History.sound_new⟩,rfl,rfl⟩
  obtain ⟨s₀,hs₀,hsound₀,hline₀,hhistory₀⟩ := hnew.exists_returns
  obtain ⟨s,hs,hsound,hb,hlen,hdraft⟩ :=
    (browsing_after_keys hsound₀ hline₀ hhistory₀ env).exists_returns
  have hkeeps := resetForResize_keeps hsound
  obtain ⟨s₁,hs₁,hsound₁,hline₁,hhistory₁⟩ := hkeeps.exists_returns
  refine ⟨s,Reachable.keys (.new hs₀) hs,hb,?_,hkeeps.mono ?_⟩
  · intro hends
    exact not_endsBrowsing_of_browsing hsound₁ hline₁ (by rw [hhistory₁,hb]) (hends.of_returns hs₁)
  · rintro s' ⟨hsound',hline',hhistory'⟩
    refine ⟨hline',fun env => ?_⟩
    rw [next_handled hsound',hhistory']
    simpa [History.next,hb,hlen] using hdraft.content

end Shell
end CrabOs.Crabsh
