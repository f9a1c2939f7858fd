import CrabOs.Shell.Display
import CrabOs.Shell.Editing

/-! The sections of a shell run on a console. Each shell function is specified on the
reference terminal, and a console that mirrors it follows without aborting. -/
namespace CrabOs.Crabsh
open CrabOs.Vga AtomicProgram

/-! ### Consoles -/

/-- One locked section; its answer is where it leaves the cursor. -/
def writerHandler : Handler Section (fun _ => Position) Writer :=
  fun ops w => (w.applyAll ops).map fun w => (w,w.position)

/-- The conditions under which a call neither aborts nor leaves the ring. -/
def Legal (t : Terminal) : WriterOp → Prop
  | .replaceInput anchor text cursor oldLen =>
    Printable text ∧ (textBytes text).length ≤ maxInput ∧ cursor ≤ (textBytes text).length ∧
      oldLen ≤ maxInput ∧ 36 ≤ t.columns ∧ anchor.line ≤ t.lastLine ∧
      t.lastLine ≤ anchor.line+8 ∧ anchor.column ≤ t.columns
  | _ => True

def LegalAll : List WriterOp → Terminal → Prop
  | [],_ => True
  | op :: ops,t => Legal t op ∧ LegalAll ops (t.apply op)

lemma legal_output {t : Terminal} {op : WriterOp} (h : IsOutput op) : Legal t op := by
  cases op with
  | replaceInput => exact h.elim
  | _ => trivial

lemma legalAll_output {ops : List WriterOp} (h : ∀ op ∈ ops, IsOutput op) (t : Terminal) :
    LegalAll ops t := by
  induction ops generalizing t with
  | nil => trivial
  | cons op ops ih =>
    exact ⟨legal_output (h op (by simp)),ih (fun op' hop => h op' (by simp [hop])) _⟩

lemma mirrors_legal {w : Writer} {t : Terminal} (h : Writer.Mirrors w t) {op : WriterOp}
    (hop : Legal t op) : ∃ w', w.apply op = some w' ∧ Writer.Mirrors w' (t.apply op) := by
  cases op with
  | writeByte b => exact h.writeByte b
  | writeString text => exact h.writeString text
  | setColor f b => exact ⟨_,rfl,h.setColor f b⟩
  | clear => exact ⟨_,rfl,h.clear⟩
  | scrollUp => exact ⟨_,rfl,h.scrollUp⟩
  | scrollDown => exact ⟨_,rfl,h.scrollDown⟩
  | replaceInput anchor text cursor oldLen =>
    obtain ⟨htext,hlen,hcursor,hold,hwide,hline,hnear,hcolumn⟩ := hop
    have hfirst := h.first
    rw [h.columns] at hwide hcolumn
    rw [h.last] at hline hnear
    exact h.replaceInput htext hlen hcursor hold hwide
      (by simp only [scrollbackLines] at hfirst; omega) hline hcolumn

lemma mirrors_legalAll {ops : List WriterOp} {w : Writer} {t : Terminal} (h : Writer.Mirrors w t)
    (hops : LegalAll ops t) :
    ∃ w', Writer.applyAll ops w = some w' ∧ Writer.Mirrors w' (Terminal.applyAll ops t) := by
  induction ops generalizing w t with
  | nil => exact ⟨w,rfl,h⟩
  | cons op ops ih =>
    obtain ⟨v,hv,hm⟩ := mirrors_legal h hops.1
    obtain ⟨w',hw',hm'⟩ := ih hm hops.2
    exact ⟨w',by rw [Writer.applyAll,hv]; exact hw',hm'⟩

/-- What is known of a console: after a change of width only that width and its range of
lines, until it is cleared; otherwise the terminal it mirrors. -/
inductive Screen
  | stale (columns first last : ℕ)
  | live (t : Terminal)

namespace Screen

def columns : Screen → ℕ
  | .stale n _ _ => n
  | .live t => t.columns

def first : Screen → ℕ
  | .stale _ first _ => first
  | .live t => t.lastLine-(scrollbackLines-1)

def last : Screen → ℕ
  | .stale _ _ last => last
  | .live t => t.lastLine

def resize (screen : Screen) (columns : ℕ) : Screen := .stale columns screen.first screen.last

/-- The terminal after a clear. -/
def cleared (columns : ℕ) : Terminal := (Terminal.new.setColumns columns).clear

def apply (ops : Section) : Screen → Screen
  | .stale n first last => match ops with
    | .clear :: rest => .live (Terminal.applyAll rest (cleared n))
    | _ => .stale n first last
  | .live t => .live (Terminal.applyAll ops t)

def cursor : Screen → Position
  | .stale _ _ _ => ⟨0,0⟩
  | .live t => t.cursor

def guard (ops : Section) : Screen → Prop
  | .stale n _ _ => ∃ rest, ops = .clear :: rest ∧ LegalAll rest (cleared n)
  | .live t => LegalAll ops t

def sections : Guarded Section (fun _ => Position) Screen :=
  ⟨guard,fun ops screen screen' position =>
    screen' = screen.apply ops ∧ position = (screen.apply ops).cursor⟩

/-- The console looks as the screen says. -/
def Shows (w : Writer) : Screen → Prop
  | .stale n first last =>
    (w.columns = n ∧ 0 < n ∧ n ≤ bufferWidth) ∧ w.firstLine = first ∧ w.lastLine = last
  | .live t => Writer.Mirrors w t

lemma Shows.columns {w : Writer} {screen : Screen} (h : screen.Shows w) :
    w.columns = screen.columns := by
  cases screen with
  | stale n => exact h.1.1
  | live t => exact (Writer.Tracks.columns h.toTracks).symm

lemma Shows.first {w : Writer} {screen : Screen} (h : screen.Shows w) :
    w.firstLine = screen.first := by
  cases screen with
  | stale n => exact h.2.1
  | live t =>
    have hm : Writer.Mirrors w t := h
    rw [hm.first,← hm.last]
    rfl

lemma Shows.last {w : Writer} {screen : Screen} (h : screen.Shows w) :
    w.lastLine = screen.last := by
  cases screen with
  | stale n => exact h.2.2
  | live t => exact (Writer.Tracks.last h.toTracks).symm

/-- A change of width keeps the lines and nothing else that is known. -/
lemma Shows.resize {w : Writer} {screen : Screen} (h : screen.Shows w) {n : ℕ} (hpos : 0 < n)
    (hle : n ≤ bufferWidth) :
    ∃ w', w.setColumns n = some w' ∧ (screen.resize n).Shows w' :=
  ⟨{ w with columns := n },if_pos ⟨hpos,hle⟩,⟨rfl,hpos,hle⟩,h.first,h.last⟩

/-- A legal section runs on the console and leaves the screen it should. -/
theorem Shows.apply {w : Writer} {screen : Screen} {ops : Section} (h : screen.Shows w)
    (hops : screen.guard ops) :
    ∃ w', writerHandler ops w = some (w',(screen.apply ops).cursor) ∧
      (screen.apply ops).Shows w' := by
  have key : ∀ {v : Writer} {t : Terminal} {rest : List WriterOp}, Writer.Mirrors v t →
      LegalAll rest t → ∃ w', (Writer.applyAll rest v).map (fun w => (w,w.position)) =
        some (w',(Terminal.applyAll rest t).cursor) ∧
        Writer.Mirrors w' (Terminal.applyAll rest t) := by
    intro v t rest hm hl
    obtain ⟨w',hw',hm'⟩ := mirrors_legalAll hm hl
    exact ⟨w',by rw [hw',hm'.cursor]; rfl,hm'⟩
  cases screen with
  | stale n =>
    obtain ⟨rest,rfl,hrest⟩ := hops
    obtain ⟨⟨hcols,hpos,hle⟩,-⟩ := h
    have hm : Writer.Mirrors w.clear (cleared n) :=
      Writer.mirrors_clear hcols.symm (by omega) (by omega)
    obtain ⟨w',hw',hm'⟩ := key hm hrest
    exact ⟨w',hw',hm'⟩
  | live t => exact key h hops

lemma apply_columns (ops : Section) (screen : Screen) :
    (screen.apply ops).columns = screen.columns := by
  have key : ∀ (ops : List WriterOp) (t : Terminal), (Terminal.applyAll ops t).columns = t.columns := by
    intro ops
    induction ops with
    | nil => exact fun _ => rfl
    | cons op ops ih => exact fun t => (ih (t.apply op)).trans (Terminal.apply_columns t op)
  cases screen with
  | stale n =>
    cases ops with
    | nil => rfl
    | cons op ops =>
      cases op with
      | clear => exact key ops (cleared n)
      | _ => rfl
  | live t => exact key ops t

/-- A property of the terminal a live screen mirrors. -/
def On (P : Terminal → Prop) : Screen → Prop
  | .stale _ _ _ => False
  | .live t => P t

/-- A program that is legal on the screen runs on the console. -/
theorem run {α : Type} {p : ShellProgram α} {Q : Screen → α → Prop} {screen : Screen} {w : Writer}
    (h : p.Spec sections Q screen) (hw : screen.Shows w) :
    ∃ w' a screen', p.run writerHandler w = some (w',a) ∧ screen'.Shows w' ∧ Q screen' a :=
  h.run (fun ops w screen hs hg => by
    obtain ⟨w',hw',hs'⟩ := hs.apply hg
    exact ⟨w',_,_,hw',⟨rfl,rfl⟩,hs'⟩) hw

/-- The rule for one section. -/
lemma spec_section {α : Type} {ops : Section} {next : Position → ShellProgram α}
    {Q : Screen → α → Prop} {screen : Screen} (hg : screen.guard ops)
    (hn : (next (screen.apply ops).cursor).Spec sections Q (screen.apply ops)) :
    (call ops next).Spec sections Q screen :=
  ⟨hg,by rintro _ _ ⟨rfl,rfl⟩; exact hn⟩

end Screen

open Screen (sections On)

/-! ### Shell functions on a screen -/

/-- The shell waits with its line displayed behind its prompt. -/
def AtPrompt (screen : Screen) (s : Shell) : Prop :=
  s.Sound ∧ screen.On fun t => Displays t s.anchor s.line.content s.line.cursor

lemma spec_output {α : Type} {output : List Section} {t : Terminal} {Q : Screen → α → Prop}
    (h : ∀ ops ∈ output, ∀ op ∈ ops, IsOutput op) {next : Unit → ShellProgram α}
    (hn : (next ()).Spec sections Q (.live (Terminal.applyAll output.flatten t))) :
    ((performAll output).bind next).Spec sections Q (.live t) := by
  induction output generalizing t with
  | nil => exact hn
  | cons ops output ih =>
    rw [List.flatten_cons,Terminal.applyAll,List.foldl_append] at hn
    exact Screen.spec_section (legalAll_output (h ops (by simp)) t)
      (ih (fun ops' hops => h ops' (by simp [hops])) hn)

/-- A section that clears makes any screen live again. -/
lemma spec_clear {α : Type} {screen : Screen} {Q : Screen → α → Prop} (rest : List Section)
    {next : Unit → ShellProgram α}
    (hn : ∀ t, t.columns = screen.columns → Fresh t →
      ((performAll rest).bind next).Spec sections Q (.live t)) (hwide : 36 ≤ screen.columns) :
    ((performAll ([.clear] :: rest)).bind next).Spec sections Q screen := by
  cases screen with
  | stale n =>
    exact Screen.spec_section ⟨[],rfl,trivial⟩ (hn (Screen.cleared n) rfl (Clean.clear hwide))
  | live t => exact Screen.spec_section ⟨trivial,trivial⟩ (hn t.clear rfl (Clean.clear hwide))

variable {s : Shell} {t : Terminal}

lemma spec_prompt {α : Type} {Q : Screen → α → Prop} {next : Position → ShellProgram α}
    (h : Fresh t) (hn : ∀ t' anchor, Displays t' anchor [] 0 →
      (next anchor).Spec sections Q (.live t')) :
    (Shell.prompt.bind next).Spec sections Q (.live t) := by
  refine Screen.spec_section (legalAll_output ?_ t) (hn _ _ h.prompt)
  simp only [Shell.promptSection,List.mem_cons,List.not_mem_nil,or_false]
  rintro op (rfl | rfl | rfl | rfl | rfl | rfl | rfl | rfl) <;> trivial

lemma Displays.empty {anchor : Position} (h : Displays t anchor [] 0) :
    Displays t anchor Line.new.content Line.new.cursor := h

lemma spec_freshPrompt (h : s.Sound) (ht : Fresh t) :
    s.freshPrompt.Spec sections AtPrompt (.live t) :=
  spec_prompt ht fun _ _ hd => ⟨⟨Line.valid_new,h.history⟩,hd.empty⟩

lemma textBytes_ofBytes {bs : List UInt8} (h : ∀ b ∈ bs, IsPrintable b) :
    textBytes (AsciiText.ofBytes bs) = bs := by
  rw [textBytes,AsciiText.toList_ofBytes,List.map_map]
  refine (List.map_congr_left fun b hb => ?_).trans (List.map_id bs)
  have hlt : (Char.ofUInt8 b).toNat < 128 := by
    rw [AsciiText.toNat_ofUInt8]
    exact lt_of_le_of_lt (h b hb).2 (by decide)
  rw [Function.comp_apply,charByte,if_pos hlt,AsciiText.toUInt8_ofUInt8,id]

lemma Line.Valid.printable_text {l : Line} (h : l.Valid) : Printable l.text := by
  intro c hc
  rw [Line.text,AsciiText.toList_ofBytes] at hc
  obtain ⟨b,hb,rfl⟩ := List.mem_map.mp hc
  rw [AsciiText.toNat_ofUInt8]
  exact h.printable hb

lemma Line.Valid.textBytes {l : Line} (h : l.Valid) : textBytes l.text = l.content :=
  textBytes_ofBytes fun _ hb => h.printable hb

lemma Line.Valid.content_length {l : Line} (h : l.Valid) : l.content.length = l.len := by
  rw [Line.Holds.content h,List.length_append,Line.Holds.len h]

lemma Line.Valid.cursor_le {l : Line} (h : l.Valid) : l.cursor ≤ l.content.length := by
  rw [Line.Holds.content h,List.length_append,Line.Holds.cursor h]
  exact Nat.le_add_right _ _

/-- A redraw replaces what is displayed at the anchor by the line of the shell. -/
lemma spec_redraw {α : Type} {Q : Screen → α → Prop} {next : Unit → ShellProgram α}
    {old : List UInt8} {k oldLen : ℕ} (h : s.line.Valid) (hd : Displays t s.anchor old k)
    (hold : old.length ≤ oldLen) (hbound : oldLen ≤ maxInput)
    (hn : ∀ t', Displays t' s.anchor s.line.content s.line.cursor →
      (next ()).Spec sections Q (.live t')) :
    ((s.redraw oldLen).bind next).Spec sections Q (.live t) := by
  have htext := h.printable_text
  have hbytes := h.textBytes
  have hlen : (textBytes s.line.text).length ≤ maxInput := by
    rw [hbytes,h.content_length]
    exact Line.Holds.bound h
  have hcursor : s.line.cursor ≤ (textBytes s.line.text).length := by
    rw [hbytes]
    exact h.cursor_le
  have hnew := hd.redraw htext hlen hcursor hold hbound
  rw [hbytes] at hnew
  rw [Shell.redraw_eq h]
  exact Screen.spec_section
    ⟨⟨htext,hlen,hcursor,hbound,hd.wide,hd.line,hd.near,hd.anchor_le⟩,trivial⟩ (hn _ hnew)

theorem spec_new (info : SystemInfo) (env : Environment) {screen : Screen}
    (hwide : 36 ≤ screen.columns) : (Shell.new info env).Spec sections AtPrompt screen := by
  refine spec_clear _ (fun t _ ht => ?_) hwide
  have hprints : Prints [info.fastfetch env,
      println "Welcome to CrabOS. Type 'help' to get started.",
      println "Tab completes commands. Up/Down recalls history. PgUp/PgDn scrolls.\n"] := by
    refine Prints.concat [info.fastfetch env,
      println "Welcome to CrabOS. Type 'help' to get started."] ?_ _
    intro ops hops op hop
    simp only [List.mem_cons,List.not_mem_nil,or_false] at hops
    rcases hops with rfl | rfl
    · exact SystemInfo.fastfetch_output hop
    · exact isOutput_println hop
  refine spec_output hprints.output (spec_prompt ?_ fun _ _ hd => ⟨⟨Line.valid_new,
    History.sound_new⟩,hd.empty⟩)
  exact ht.toClean.ends (fun op hop => by
    obtain ⟨ops,hops,hop⟩ := List.mem_flatten.mp hop
    exact hprints.output ops hops op hop) hprints.ends (fun _ => ht)

theorem spec_resetForResize (h : s.Sound) {screen : Screen} (hwide : 36 ≤ screen.columns) :
    s.resetForResize.Spec sections AtPrompt screen :=
  spec_clear _ (fun _ _ ht => spec_prompt ht fun _ _ hd =>
    ⟨⟨Line.valid_new,h.history⟩,hd.empty⟩) hwide

/-- Output printed from a clean screen that ends a line. -/
lemma spec_prints {α : Type} {Q : Screen → α → Prop} {next : Unit → ShellProgram α}
    {output : List Section} (h : Prints output) (ht : Clean t) (hne : output.flatten = [] → Fresh t)
    (hn : ∀ t', Fresh t' → (next ()).Spec sections Q (.live t')) :
    ((performAll output).bind next).Spec sections Q (.live t) := by
  refine spec_output h.output (hn _ (ht.ends (fun op hop => ?_) h.ends hne))
  obtain ⟨ops,hops,hop⟩ := List.mem_flatten.mp hop
  exact h.output ops hops op hop

lemma spec_println {α : Type} {Q : Screen → α → Prop} {next : Unit → ShellProgram α}
    (text : String) (ht : Clean t) (hn : ∀ t', Fresh t' → (next ()).Spec sections Q (.live t')) :
    ((performAll [println text]).bind next).Spec sections Q (.live t) :=
  spec_prints (Prints.single text) ht (by simp [println]) hn

/-- Redrawing with the cursor at the end leaves a clean screen to print on. -/
lemma spec_redrawEnd {α : Type} {Q : Screen → α → Prop} {next : Unit → ShellProgram α}
    (h : s.Sound) (hd : Displays t s.anchor s.line.content s.line.cursor)
    (hn : ∀ t', Clean t' → (next ()).Spec sections Q (.live t')) :
    ((s.cursorToEnd.redraw s.line.len).bind next).Spec sections Q (.live t) := by
  have hv := h.cursorToEnd.line
  refine spec_redraw (s := s.cursorToEnd) hv hd (le_of_eq h.line.content_length)
    (Line.Holds.bound h.line) fun t' hd' => hn t' ?_
  have hlen : s.cursorToEnd.line.cursor = s.cursorToEnd.line.content.length :=
    h.line.content_length.symm
  rw [hlen] at hd'
  exact hd'.clean

theorem spec_inputLost (h : s.Sound) (hd : Displays t s.anchor s.line.content s.line.cursor) :
    s.inputLost.Spec sections AtPrompt (.live t) := by
  refine spec_redrawEnd h hd fun t' ht' => ?_
  have hprints : Prints [println "^C",
      println "crabsh: keyboard input overflow; line discarded.",
      println "Release modifier keys before typing again."] := by
    apply Prints.lines
    simp
  refine spec_prints hprints ht' (by simp [println]) fun t'' ht'' => ?_
  exact spec_freshPrompt h.cursorToEnd.stopBrowsing ht''

lemma spec_submit {α : Type} {Q : Screen → α → Prop} {next : Shell → ShellProgram α}
    (h : s.Sound) (env : Environment) (ht : Fresh t)
    (hn : ∀ s' t', s'.Sound → Fresh t' → (next s').Spec sections Q (.live t')) :
    ((s.submit env).bind next).Spec sections Q (.live t) := by
  unfold Shell.submit
  rw [spec_bind]
  split_ifs
  · exact spec_println _ ht.toClean fun t' ht' => hn _ t' h.stopBrowsing ht'
  · obtain ⟨history,hr,hsound⟩ := h.history.record h.line
    obtain ⟨output,he,hprints⟩ := execute_prints s.info env hsound.readable s.line.text
    simp only [hr,h.line.asStr,he,ofOption_some,bind_eq,ret_bind]
    exact spec_prints hprints ht.toClean (fun _ => ht) fun t' ht' => hn _ t' ⟨h.line,hsound⟩ ht'

lemma spec_redrawWith (h : s.Sound) (hd : Displays t s.anchor s.line.content s.line.cursor)
    {line : Line} (hl : line.Valid) :
    (s.redrawWith (some line)).Spec sections AtPrompt (.live t) :=
  spec_redraw (s := { s with line := line }) hl hd (le_of_eq h.line.content_length)
    (Line.Holds.bound h.line) fun _ hd' => ⟨⟨hl,h.history⟩,hd'⟩

/-- An edit that cannot panic and gives a valid line. -/
lemma spec_edited (h : s.Sound) (hd : Displays t s.anchor s.line.content s.line.cursor)
    {line : Option Line} (hall : (s.redrawWith line).All Shell.Sound) :
    (s.redrawWith line).Spec sections AtPrompt (.live t) := by
  cases line with
  | none => exact hall.elim
  | some line =>
    refine spec_redrawWith h hd ?_
    obtain ⟨s',hs',hsound⟩ := hall.exists_returns
    cases ha : line.asStr with
    | none => simp [Shell.redrawWith,Shell.redraw,ha,ofOption,All] at hall
    | some text =>
      have hline : (s.redrawWith (some line)).All fun s' => s'.line = line := by
        simp [Shell.redrawWith,Shell.redraw,ha,all_performAll]
      rw [← hline.of_returns hs']
      exact hsound.line

lemma spec_completeFrom (h : s.Sound) (hd : Displays t s.anchor s.line.content s.line.cursor)
    (first : String) (others : List String) :
    (s.completeFrom first others).Spec sections AtPrompt (.live t) := by
  obtain ⟨line,hl,hv⟩ := h.line.insertAll (((AsciiText.bytes first).take (others.foldl
    (fun limit name => Shell.commonLength first name limit)
      (AsciiText.bytes first).length)).drop s.line.len)
  have hbound : s.line.len ≤ maxInput := Line.Holds.bound h.line
  have hlen := h.line.content_length
  simp only [Shell.completeFrom,hl,ofOption_some,bind_eq,ret_bind]
  split_ifs with hone hcommon
  · obtain ⟨line',hl',hv'⟩ := hv.insertAll [32]
    rw [hl']
    exact spec_redraw (s := { s with line := line' }) hv' hd hlen.le hbound
      fun _ hd' => ⟨⟨hv',h.history⟩,hd'⟩
  · have hv' := hv.cursorToEnd
    have hcontent := hv'.content_length
    refine spec_redraw (s := { s with line := line }.cursorToEnd) hv' hd hlen.le hbound
      fun t' hd' => ?_
    have hend : Displays t' s.anchor line.content line.content.length := by
      rw [hv.content_length]
      exact hd'
    have hprints : Prints ([println ""]++(first :: others).map (fun name => print (name++"  "))++
        [println ""]) := by
      refine Prints.concat _ ?_ _
      intro ops hops
      simp only [List.mem_append,List.mem_singleton,List.mem_map] at hops
      rcases hops with rfl | ⟨name,-,rfl⟩
      · exact fun op => isOutput_println
      · exact fun op => isOutput_print
    refine spec_prints hprints hend.clean (by simp [println]) fun t'' ht'' => ?_
    refine spec_prompt ht'' fun t₃ anchor hd₃ => ?_
    refine spec_redraw (s := { { s with line := line }.cursorToEnd with anchor := anchor }) hv' hd₃
      (Nat.zero_le _) hbound fun t₄ hd₄ => ?_
    exact ⟨⟨hv',h.history⟩,hd₄⟩
  · exact spec_redraw (s := { s with line := line }) hv hd hlen.le hbound
      fun _ hd' => ⟨⟨hv,h.history⟩,hd'⟩

lemma spec_complete (h : s.Sound) (hd : Displays t s.anchor s.line.content s.line.cursor)
    (table : List (String × String)) :
    (s.complete table).Spec sections AtPrompt (.live t) := by
  unfold Shell.complete
  split_ifs
  · exact ⟨h,hd⟩
  · simp only [h.line.asStr,ofOption_some,bind_eq,ret_bind]
    split_ifs
    · exact ⟨h,hd⟩
    · split
      · exact ⟨h,hd⟩
      · exact spec_completeFrom h hd _ _

/-- Every key leads from a displayed line to a displayed line. -/
theorem spec_handleKey (h : s.Sound) (hd : Displays t s.anchor s.line.content s.line.cursor)
    (env : Environment) (key : DecodedKey) :
    (s.handleKey env key).Spec sections AtPrompt (.live t) := by
  have hsame : AtPrompt (.live t) s := ⟨h,hd⟩
  have hall := (Shell.handleKey_edits h env key).mono fun s' hs' => hs'.1
  unfold Shell.handleKey at hall ⊢
  generalize key.action = action at hall ⊢
  cases action with
  | submit =>
    refine spec_redrawEnd h hd fun t' ht' => spec_println "" ht' fun t'' ht'' => ?_
    exact spec_submit h.cursorToEnd env ht'' fun s' t₃ hs' ht₃ => spec_freshPrompt hs' ht₃
  | cancel =>
    refine spec_redrawEnd h hd fun t' ht' => spec_println "^C" ht' fun t'' ht'' => ?_
    exact spec_freshPrompt h.cursorToEnd.stopBrowsing ht''
  | clearScreen =>
    refine spec_clear [] (fun t' _ ht' => ?_) hd.wide
    refine spec_prompt ht' fun t'' anchor hd'' => ?_
    exact spec_redraw (s := { s with anchor := anchor }) h.line hd'' (Nat.zero_le _)
      (Nat.zero_le _) fun _ hd₃ => ⟨⟨h.line,h.history⟩,hd₃⟩
  | complete => exact spec_complete h hd commands
  | pageUp => exact Screen.spec_section ⟨trivial,trivial⟩ hsame
  | pageDown => exact Screen.spec_section ⟨trivial,trivial⟩ hsame
  | ignore => exact hsame
  | previous =>
    obtain ⟨hh,hl⟩ := h.history.previous h.line
    exact spec_redrawWith (s := { s with history := (s.history.previous s.line).1 })
      ⟨h.line,hh⟩ hd hl
  | next =>
    obtain ⟨hh,hl⟩ := h.history.next h.line
    exact spec_redrawWith (s := { s with history := (s.history.next s.line).1 })
      ⟨h.line,hh⟩ hd hl
  | _ => exact spec_edited h hd hall

end CrabOs.Crabsh
