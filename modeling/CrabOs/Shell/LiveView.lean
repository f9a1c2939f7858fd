import CrabOs.Shell.Screen

/-! Redrawing returns the view to the live display: of all calls only `scroll_up` leaves it. -/
namespace CrabOs.Vga.Writer

/-- The view is the live display. -/
def Follows (w : Writer) : Prop := w.viewTop = w.liveTop

lemma follows_ensureLine (w : Writer) (n : ℕ) : (w.ensureLine n).Follows := ensureLine_viewTop w n

variable {w w' : Writer}

lemma Follows.putCell (h : w.Follows) {cell : ScreenChar} (hw : w.putCell cell = some w') :
    w'.Follows := by
  unfold Writer.putCell at hw
  split_ifs at hw
  cases hw
  exact h

lemma follows_putByte {b : UInt8} (hw : w.putByte b = some w') : w'.Follows := by
  unfold Writer.putByte at hw
  refine Follows.putCell ?_ hw
  split_ifs
  · exact follows_ensureLine _ _
  · rfl

lemma Follows.putSpaces {n : ℕ} (h : w.Follows) (hw : Writer.putSpaces n w = some w') :
    w'.Follows := by
  induction n generalizing w with
  | zero => cases hw; exact h
  | succ n ih =>
    obtain ⟨u,hu,hw⟩ := Option.bind_eq_some_iff.mp hw
    exact ih (follows_putByte hu) hw

lemma follows_writeByte {b : UInt8} (hw : w.writeByte b = some w') : w'.Follows := by
  unfold Writer.writeByte at hw
  split_ifs at hw
  · cases hw; exact follows_ensureLine _ _
  · cases hw; rfl
  · exact Follows.putSpaces (w := w.followLive) rfl hw
  · exact follows_putByte hw

lemma Follows.writeBytes {bs : List UInt8} (h : w.Follows) (hw : Writer.writeBytes bs w = some w') :
    w'.Follows := by
  induction bs generalizing w with
  | nil => cases hw; exact h
  | cons b bs ih =>
    obtain ⟨u,hu,hw⟩ := Option.bind_eq_some_iff.mp hw
    exact ih (follows_writeByte hu) hw

lemma follows_replaceInput {anchor : Position} {text : String} {cursor oldLen : ℕ}
    (hw : w.replaceInput anchor text cursor oldLen = some w') : w'.Follows := by
  unfold Writer.replaceInput at hw
  split_ifs at hw
  obtain ⟨u,-,hw⟩ := Option.bind_eq_some_iff.mp hw
  obtain ⟨v,-,hw⟩ := Option.bind_eq_some_iff.mp hw
  cases hw
  exact follows_ensureLine _ _

lemma Follows.apply {op : WriterOp} (h : w.Follows) (hop : op ≠ .scrollUp)
    (hw : w.apply op = some w') : w'.Follows := by
  cases op with
  | writeByte b => exact follows_writeByte hw
  | writeString text => exact Follows.writeBytes h hw
  | setColor f b => cases hw; exact h
  | clear => cases hw; rfl
  | scrollUp => exact absurd rfl hop
  | scrollDown =>
    cases hw
    have hv : w.viewTop = w.liveTop := h
    change min (w.viewTop+terminalRows-1) w.liveTop = w.liveTop
    simp only [terminalRows]
    omega
  | replaceInput anchor text cursor oldLen => exact follows_replaceInput hw

/-- Whether calls redraw the input line. -/
def Redraws (ops : List WriterOp) : Prop :=
  ∃ anchor text cursor oldLen, .replaceInput anchor text cursor oldLen ∈ ops

/-- A section that redraws and does not scroll up leaves the live display. -/
theorem follows_applyAll {ops : List WriterOp} (hops : .scrollUp ∉ ops)
    (h : w.Follows ∨ Redraws ops) (hw : applyAll ops w = some w') : w'.Follows := by
  induction ops generalizing w with
  | nil =>
    cases hw
    rcases h with h | ⟨_,_,_,_,h⟩
    · exact h
    · cases h
  | cons op ops ih =>
    obtain ⟨u,hu,hw⟩ := Option.bind_eq_some_iff.mp hw
    obtain ⟨hop,hrest⟩ := not_or.mp (List.mem_cons.not.mp hops)
    refine ih hrest ?_ hw
    rcases h with h | ⟨anchor,text,cursor,oldLen,hmem⟩
    · exact .inl (h.apply (Ne.symm hop) hu)
    · rcases List.mem_cons.mp hmem with rfl | hmem
      · exact .inl (follows_replaceInput hu)
      · exact .inr ⟨anchor,text,cursor,oldLen,hmem⟩

end CrabOs.Vga.Writer

namespace CrabOs.Crabsh
open CrabOs.Vga AtomicProgram

/-- Sections that only print. -/
def OnlyOutput (ops : Section) : Prop := ∀ op ∈ ops, IsOutput op

lemma OnlyOutput.no_scrollUp {ops : Section} (h : OnlyOutput ops) : .scrollUp ∉ ops :=
  fun hmem => h _ hmem

lemma OnlyOutput.no_redraw {ops : Section} (h : OnlyOutput ops) : ¬Writer.Redraws ops :=
  fun ⟨_,_,_,_,hmem⟩ => h _ hmem

namespace Shell
variable {s : Shell}

lemma onlyOutput_prompt : OnlyOutput promptSection := by
  intro op hop
  simp only [promptSection,List.mem_cons,List.not_mem_nil,or_false] at hop
  rcases hop with rfl | rfl | rfl | rfl | rfl | rfl | rfl | rfl <;> trivial

lemma new_makes (info : SystemInfo) (env : Environment) : (new info env).Makes OnlyOutput := by
  refine Makes.bind (makes_performAll ?_) fun _ => ⟨onlyOutput_prompt,fun _ => trivial⟩
  intro ops hops op hop
  simp only [List.mem_cons,List.not_mem_nil,or_false] at hops
  rcases hops with rfl | rfl | rfl | rfl
  · rw [List.mem_singleton.mp hop]; trivial
  · exact SystemInfo.fastfetch_output hop
  · exact isOutput_println hop
  · exact isOutput_println hop

lemma resetForResize_makes (s : Shell) : s.resetForResize.Makes OnlyOutput := by
  refine Makes.bind (makes_performAll ?_) fun _ => ⟨onlyOutput_prompt,fun _ => trivial⟩
  intro ops hops op hop
  rw [List.mem_singleton.mp hops] at hop
  rw [List.mem_singleton.mp hop]
  trivial

/-- The section does not scroll up. -/
def StaysLive (ops : Section) : Prop := .scrollUp ∉ ops

lemma staysLive_println (text : String) : StaysLive (println text) := by simp [StaysLive,println]

lemma redraw_makes (s : Shell) (oldLen : ℕ) : (s.redraw oldLen).Makes StaysLive :=
  Makes.bind (makes_ofOption _) fun _ => makes_performAll (by simp [StaysLive])

lemma prompt_makes : prompt.Makes StaysLive := ⟨onlyOutput_prompt.no_scrollUp,fun _ => trivial⟩

lemma freshPrompt_makes (s : Shell) : s.freshPrompt.Makes StaysLive :=
  Makes.bind prompt_makes fun _ => trivial

lemma redrawWith_makes (s : Shell) (line : Option Line) : (s.redrawWith line).Makes StaysLive :=
  Makes.bind (makes_ofOption _) fun _ => Makes.bind (redraw_makes _ _) fun _ => trivial

lemma inputLost_makes (s : Shell) : s.inputLost.Makes StaysLive := by
  refine Makes.bind (redraw_makes _ _) fun _ => Makes.bind (makes_performAll ?_) fun _ =>
    freshPrompt_makes _
  intro ops hops
  simp only [List.mem_cons,List.not_mem_nil,or_false] at hops
  rcases hops with rfl | rfl | rfl <;> exact staysLive_println _

lemma submit_makes (h : s.Sound) (env : Environment) : (s.submit env).Makes StaysLive := by
  unfold submit
  split_ifs
  · exact Makes.bind (makes_performAll (by simp [staysLive_println])) fun _ => trivial
  · obtain ⟨history,hr,hsound⟩ := h.history.record h.line
    obtain ⟨output,he,hprints⟩ := execute_prints s.info env hsound.readable s.line.text
    simp only [hr,h.line.asStr,he,ofOption_some,bind_eq,ret_bind]
    exact Makes.bind (makes_performAll fun ops hops =>
      OnlyOutput.no_scrollUp (hprints.output ops hops)) fun _ => trivial

lemma completeFrom_makes (s : Shell) (first : String) (others : List String) :
    (s.completeFrom first others).Makes StaysLive := by
  refine Makes.bind (makes_ofOption _) fun line => ?_
  split_ifs
  · exact Makes.bind (makes_ofOption _) fun _ => Makes.bind (redraw_makes _ _) fun _ => trivial
  · refine Makes.bind (redraw_makes _ _) fun _ => Makes.bind (makes_performAll ?_) fun _ =>
      Makes.bind prompt_makes fun _ => Makes.bind (redraw_makes _ _) fun _ => trivial
    intro ops hops
    simp only [List.mem_append,List.mem_singleton,List.mem_map] at hops
    rcases hops with (rfl | ⟨name,-,rfl⟩) | rfl <;> simp [StaysLive,println,print]
  · exact Makes.bind (redraw_makes _ _) fun _ => trivial

lemma complete_makes (s : Shell) (table : List (String × String)) :
    (s.complete table).Makes StaysLive := by
  unfold complete
  split_ifs
  · trivial
  · refine Makes.bind (makes_ofOption _) fun text => ?_
    split_ifs
    · trivial
    · split
      · trivial
      · exact completeFrom_makes _ _ _

/-- Only PageUp scrolls up, and PageUp does not redraw. -/
theorem handleKey_makes (h : s.Sound) (env : Environment) (key : DecodedKey) :
    (s.handleKey env key).Makes StaysLive ∨
      (s.handleKey env key).Makes (fun ops => ¬Writer.Redraws ops) := by
  unfold handleKey
  cases key.action with
  | pageUp => exact .inr (Makes.bind (makes_performAll (by simp [Writer.Redraws])) fun _ => trivial)
  | submit =>
    exact .inl (Makes.bind (redraw_makes _ _) fun _ =>
      Makes.bind (makes_performAll (by simp [staysLive_println])) fun _ =>
      Makes.bind (submit_makes h.cursorToEnd env) fun _ => freshPrompt_makes _)
  | cancel =>
    exact .inl (Makes.bind (redraw_makes _ _) fun _ =>
      Makes.bind (makes_performAll (by simp [staysLive_println])) fun _ => freshPrompt_makes _)
  | clearScreen =>
    exact .inl (Makes.bind (makes_performAll (by simp [StaysLive])) fun _ =>
      Makes.bind prompt_makes fun _ => Makes.bind (redraw_makes _ _) fun _ => trivial)
  | complete => exact .inl (complete_makes _ _)
  | pageDown => exact .inl (Makes.bind (makes_performAll (by simp [StaysLive])) fun _ => trivial)
  | ignore => exact .inl trivial
  | _ => exact .inl (redrawWith_makes _ _)

end Shell
end CrabOs.Crabsh
