import CrabOs.Shell.Editor

/-! The line editor refines a pair of byte lists. Nothing here depends on what the console
answers, so the results hold whatever runs between two writer sections. -/
namespace CrabOs.Crabsh
open CrabOs.Vga AtomicProgram

namespace Line
variable {l : Line} {b a : List UInt8}

theorem Holds.eraseToStart (h : l.Holds b a) :
    ∃ l', l.eraseToStart = some l' ∧ l'.Holds [] a := by
  have hlen := h.len
  have hcursor := h.cursor
  have hbound := h.bound
  obtain ⟨u,hu,hget⟩ := copyWithin_eq l.bytes l.cursor l.len 0 (by omega) hbound (by omega)
  refine ⟨_,by rw [Line.eraseToStart,hu]; rfl,?_⟩
  refine ⟨by simp only [List.length_nil]; omega,rfl,by simp only; omega,?_,?_⟩
  · intro i hi
    change i < l.len-l.cursor at hi
    change u[i]? = _
    rw [hget i (by omega),if_pos ⟨Nat.zero_le _,by omega⟩,Nat.sub_zero,h.bytes _ (by omega),
      hcursor,List.getElem?_append_right (Nat.le_add_right _ _),Nat.add_sub_cancel_left,
      List.nil_append]
  · exact fun x hx => h.printable x (by simp only [List.nil_append] at hx; simp [hx])

theorem Holds.eraseToEnd (h : l.Holds b a) : l.eraseToEnd.Holds b [] := by
  have hlen := h.len
  have hcursor := h.cursor
  have hbound := h.bound
  refine ⟨hcursor,hcursor,by change l.cursor ≤ maxInput; omega,?_,?_⟩
  · intro i hi
    change i < l.cursor at hi
    change l.bytes[i]? = _
    rw [h.bytes i (by omega),List.append_nil,List.getElem?_append_left (by omega)]
  · exact fun x hx => h.printable x (by simp only [List.append_nil] at hx; simp [hx])

/-- Inserting any byte keeps a line valid, whether it is accepted or not. -/
theorem Holds.insert_any (h : l.Holds b a) (x : UInt8) :
    ∃ r, l.insert x = some r ∧
      r.1.Holds (if IsPrintable x ∧ l.len < maxInput then b++[x] else b) a := by
  by_cases hx : IsPrintable x
  · rcases Nat.lt_or_ge l.len maxInput with hroom | hfull
    · obtain ⟨l',hl',hh,-⟩ := h.insert hx hroom
      exact ⟨_,hl',by rwa [if_pos ⟨hx,hroom⟩]⟩
    · have hbound := h.bound
      refine ⟨_,insert_full hx (by omega),?_⟩
      rw [if_neg (by omega)]
      exact ⟨h.len,h.cursor,h.bound,h.bytes,h.printable⟩
  · exact ⟨_,insert_rejected hx,by rwa [if_neg (by tauto)]⟩

lemma Valid.insertAll (h : l.Valid) (bytes : List UInt8) :
    ∃ l', l.insertAll bytes = some l' ∧ l'.Valid := by
  induction bytes generalizing l with
  | nil => exact ⟨l,rfl,h⟩
  | cons x bytes ih =>
    obtain ⟨r,hr,hh⟩ := Holds.insert_any h x
    obtain ⟨l',hl',hv⟩ := ih hh.valid
    exact ⟨l',by rw [Line.insertAll,hr]; exact hl',hv⟩

lemma Valid.cursorToEnd (h : l.Valid) : { l with cursor := l.len }.Valid := by
  have hm := Holds.move h (l.before++l.after) [] (List.append_nil _)
  rw [List.length_append,← Holds.len h] at hm
  exact hm.valid

lemma valid_new : new.Valid := holds_new.valid

end Line

/-- Every line a history can hand out is valid. -/
structure History.Sound (h : History) : Prop where
  holds : ∃ kept, h.Holds (History.lastN historySize kept) ∧ ∀ l ∈ kept, l.Valid
  draft : h.draft.Valid

namespace History
variable {h : History}

lemma sound_new : new.Sound := ⟨⟨[],holds_new,by simp⟩,Line.valid_new⟩

namespace Sound

lemma get (hs : h.Sound) {i : ℕ} (hi : i < h.len) : (h.get i).Valid := by
  obtain ⟨kept,hh,hv⟩ := hs.holds
  exact hv _ (List.mem_of_mem_drop (List.mem_of_getElem? (hh.entries i hi).symm))

lemma readable (hs : h.Sound) : h.Readable := by
  intro i hi
  rw [(hs.get hi).asStr]
  rfl

lemma settled (hs : h.Sound) : { h with browsing := none }.Sound := by
  obtain ⟨kept,hh,hv⟩ := hs.holds
  exact ⟨⟨kept,hh.settled,hv⟩,hs.draft⟩

lemma browsing (hs : h.Sound) {i : ℕ} (hi : h.browsing = some i) : i < h.len := by
  obtain ⟨kept,hh,-⟩ := hs.holds
  exact hh.browsing i hi

end Sound

/-- A recorded line ends browsing; the draft stays. -/
lemma record_stops {h' : History} {line : Line} (hr : h.record line = some h') :
    h'.draft = h.draft ∧ h'.browsing = none := by
  have hpush : ∀ g g' : History, g.push line = some g' →
      g'.draft = g.draft ∧ g'.browsing = g.browsing := by
    intro g g' hg
    unfold push at hg
    split_ifs at hg <;> cases hg <;> exact ⟨rfl,rfl⟩
  simp only [record,Option.bind_eq_bind,Option.bind_eq_some_iff] at hr
  obtain ⟨text,-,hr⟩ := hr
  split_ifs at hr
  · cases hr
    exact ⟨rfl,rfl⟩
  · obtain ⟨repeated,-,hr⟩ := Option.bind_eq_some_iff.mp hr
    split_ifs at hr
    · cases hr
      exact ⟨rfl,rfl⟩
    · exact hpush { h with browsing := none } h' hr

namespace Sound

theorem record (hs : h.Sound) {line : Line} (hline : line.Valid) :
    ∃ h', h.record line = some h' ∧ h'.Sound := by
  obtain ⟨kept,hh,hv⟩ := hs.holds
  obtain ⟨h',hr,-,hh'⟩ := hh.record hv hline
  refine ⟨h',hr,⟨_,hh',?_⟩,by rw [(record_stops hr).1]; exact hs.draft⟩
  intro l hl
  split_ifs at hl
  · exact hv l hl
  · rcases List.mem_append.mp hl with hl | hl
    · exact hv l hl
    · rw [List.mem_singleton.mp hl]; exact hline

theorem previous (hs : h.Sound) {line : Line} (hline : line.Valid) :
    (h.previous line).1.Sound ∧ (h.previous line).2.Valid := by
  obtain ⟨kept,hh,hv⟩ := hs.holds
  have hholds := hh.previous line
  unfold History.previous at hholds ⊢
  split_ifs with hlen
  · exact ⟨hs,hline⟩
  · rw [if_neg hlen] at hholds
    cases hb : h.browsing with
    | none =>
      simp only [hb] at hholds ⊢
      exact ⟨⟨⟨kept,hholds,hv⟩,hline⟩,(hs.get (by omega)).cursorToEnd⟩
    | some i =>
      have hi := hs.browsing hb
      simp only [hb] at hholds ⊢
      exact ⟨⟨⟨kept,hholds,hv⟩,hs.draft⟩,(hs.get (by omega)).cursorToEnd⟩

theorem next (hs : h.Sound) {line : Line} (hline : line.Valid) :
    (h.next line).1.Sound ∧ (h.next line).2.Valid := by
  obtain ⟨kept,hh,hv⟩ := hs.holds
  have hholds := hh.next line
  unfold History.next at hholds ⊢
  cases hb : h.browsing with
  | none => exact ⟨hs,hline⟩
  | some i =>
    simp only [hb] at hholds ⊢
    split_ifs at hholds ⊢ with hi
    · exact ⟨⟨⟨kept,hholds,hv⟩,hs.draft⟩,(hs.get hi).cursorToEnd⟩
    · exact ⟨⟨⟨kept,hholds,hv⟩,hs.draft⟩,hs.draft⟩

end Sound
end History

namespace Shell

/-- The states of a shell between two calls. -/
structure Sound (s : Shell) : Prop where
  line : s.line.Valid
  history : s.history.Sound

variable {s : Shell}

lemma Sound.cursorToEnd (h : s.Sound) : s.cursorToEnd.Sound := ⟨h.line.cursorToEnd,h.history⟩

lemma Sound.stopBrowsing (h : s.Sound) : s.stopBrowsing.Sound := ⟨h.line,h.history.settled⟩

/-- A redraw is one section that replaces the input by the text of the line. -/
lemma redraw_eq (h : s.line.Valid) (oldLen : ℕ) :
    s.redraw oldLen = performAll [[.replaceInput s.anchor s.line.text s.line.cursor oldLen]] := by
  rw [redraw,h.asStr]
  rfl

lemma prompt_all (P : Position → Prop) : prompt.All P ↔ ∀ anchor, P anchor := .rfl

lemma redraw_all (h : s.line.Valid) (oldLen : ℕ) (P : Unit → Prop) :
    (s.redraw oldLen).All P ↔ P () := by
  rw [redraw_eq h,all_performAll]

lemma redrawWith_eq {line : Line} (h : line.Valid) :
    s.redrawWith (some line) =
      (performAll [[.replaceInput s.anchor line.text line.cursor s.line.len]]).bind
        fun _ => .ret { s with line := line } := by
  have hr := redraw_eq (s := { s with line := line }) h s.line.len
  simp only [redrawWith,ofOption_some,bind_eq,ret_bind,pure_eq]
  rw [hr]

lemma redrawWith_all {line : Line} (h : line.Valid) (P : Shell → Prop) :
    (s.redrawWith (some line)).All P ↔ P { s with line := line } := by
  rw [redrawWith_eq h,all_bind,all_performAll]
  exact .rfl

lemma freshPrompt_sound (h : s.Sound) : s.freshPrompt.All Sound := by
  intro anchor
  exact ⟨Line.valid_new,h.history⟩

theorem new_sound (info : SystemInfo) (env : Environment) : (new info env).All Sound := by
  simp only [new,bind_eq,all_bind,all_performAll]
  intro anchor
  exact ⟨Line.valid_new,History.sound_new⟩

theorem resetForResize_sound (h : s.Sound) : s.resetForResize.All Sound := by
  simp only [resetForResize,bind_eq,all_bind,all_performAll]
  intro anchor
  exact ⟨Line.valid_new,h.history⟩

theorem inputLost_sound (h : s.Sound) : s.inputLost.All Sound := by
  simp only [inputLost,bind_eq,all_bind,all_performAll,redraw_all h.cursorToEnd.line]
  exact freshPrompt_sound h.cursorToEnd.stopBrowsing

lemma submit_sound (h : s.Sound) (env : Environment) : (s.submit env).All Sound := by
  unfold submit
  split_ifs
  · simp only [bind_eq,all_bind,all_performAll]
    exact h.stopBrowsing
  · obtain ⟨history,hr,hsound⟩ := h.history.record h.line
    obtain ⟨sections,he,-⟩ := execute_prints s.info env hsound.readable s.line.text
    simp only [hr,h.line.asStr,he,ofOption_some,bind_eq,ret_bind,all_bind,all_performAll]
    exact ⟨h.line,hsound⟩

lemma completeFrom_sound (h : s.Sound) (first : String) (others : List String) :
    (s.completeFrom first others).All Sound := by
  obtain ⟨line,hl,hv⟩ := h.line.insertAll (((AsciiText.bytes first).take (others.foldl
    (fun limit name => commonLength first name limit) (AsciiText.bytes first).length)).drop s.line.len)
  simp only [completeFrom,hl,ofOption_some,bind_eq,ret_bind]
  split_ifs
  · obtain ⟨line',hl',hv'⟩ := hv.insertAll [32]
    rw [hl',ofOption_some,ret_bind,all_bind,redraw_all hv']
    exact ⟨hv',h.history⟩
  · rw [all_bind,redraw_all hv.cursorToEnd,all_bind,all_performAll,all_bind,prompt_all]
    intro anchor
    rw [all_bind,redraw_all hv.cursorToEnd]
    exact ⟨hv.cursorToEnd,h.history⟩
  · rw [all_bind,redraw_all hv]
    exact ⟨hv,h.history⟩

lemma complete_sound (h : s.Sound) (table : List (String × String)) :
    (s.complete table).All Sound := by
  unfold complete
  split_ifs
  · exact h
  · simp only [h.line.asStr,ofOption_some,bind_eq,ret_bind]
    split_ifs
    · exact h
    · split
      · exact h
      · exact completeFrom_sound h _ _

end Shell

/-! ### Keys as list operations -/

/-- What a key does to the bytes before and behind the cursor. Enter, Ctrl+C, Tab and the
history keys replace the line and are not list operations. -/
def editPair : KeyAction → List UInt8 × List UInt8 → Option (List UInt8 × List UInt8)
  | .insert x,(b,a) =>
    some (if IsPrintable x ∧ b.length+a.length < 256 then (b++[x],a) else (b,a))
  | .backspace,(b,a) => some (b.dropLast,a)
  | .delete,(b,a) => some (b,a.tail)
  | .eraseToStart,(_,a) => some ([],a)
  | .eraseToEnd,(b,_) => some (b,[])
  | .eraseWord,(b,a) => some ((b.rdropWhile (fun x => x = 32)).rdropWhile (fun x => x ≠ 32),a)
  | .left,(b,a) => some (b.dropLast,b.getLast?.toList++a)
  | .right,(b,a) => some (b++a.head?.toList,a.tail)
  | .home,(b,a) => some ([],b++a)
  | .endOfLine,(b,a) => some (b++a,[])
  | .clearScreen,p | .pageUp,p | .pageDown,p | .ignore,p => some p
  | .submit,_ | .cancel,_ | .complete,_ | .previous,_ | .next,_ => none

namespace Shell
variable {s : Shell}

/-- The next shell is sound and its line is the edited pair. -/
def Edits (s : Shell) (action : KeyAction) (s' : Shell) : Prop :=
  s'.Sound ∧ ∀ pair, editPair action (s.line.before,s.line.after) = some pair →
    s'.line.Holds pair.1 pair.2

lemma redrawWith_edits (h : s.Sound) {action : KeyAction} {line : Line}
    {pair : List UInt8 × List UInt8}
    (hp : editPair action (s.line.before,s.line.after) = some pair)
    (hl : line.Holds pair.1 pair.2) : (s.redrawWith (some line)).All (s.Edits action) := by
  rw [redrawWith_all hl.valid]
  refine ⟨⟨hl.valid,h.history⟩,fun pair' hp' => ?_⟩
  rw [hp] at hp'
  cases hp'
  exact hl

lemma all_edits {p : ShellProgram Shell} {action : KeyAction} (h : p.All Sound)
    (hp : ∀ pair, editPair action pair = none) : p.All (s.Edits action) :=
  h.mono fun s' hs => ⟨hs,fun pair hpair => by rw [hp] at hpair; cases hpair⟩

/-- Every key keeps the shell sound and acts on the line as its list operation. -/
theorem handleKey_edits (h : s.Sound) (env : Environment) (key : DecodedKey) :
    (s.handleKey env key).All (s.Edits key.action) := by
  have hline : s.line.Holds s.line.before s.line.after := h.line
  have hlen := hline.len
  have hcursor := hline.cursor
  unfold handleKey
  cases key.action with
  | submit =>
    simp only [bind_eq,all_bind,all_performAll,redraw_all h.cursorToEnd.line]
    refine (submit_sound h.cursorToEnd env).mono fun s' hs' => ?_
    exact all_edits (freshPrompt_sound hs') fun _ => rfl
  | cancel =>
    simp only [bind_eq,all_bind,all_performAll,redraw_all h.cursorToEnd.line]
    exact all_edits (freshPrompt_sound h.cursorToEnd.stopBrowsing) fun _ => rfl
  | clearScreen =>
    simp only [bind_eq,all_bind,all_performAll,prompt_all]
    intro anchor
    rw [redraw_all (s := { s with anchor := anchor }) h.line]
    exact ⟨⟨h.line,h.history⟩,fun pair hp => by cases hp; exact hline⟩
  | complete => exact all_edits (complete_sound h commands) fun _ => rfl
  | backspace =>
    rcases List.eq_nil_or_concat' s.line.before with hb | ⟨b,x,hb⟩
    · rw [hb] at hline
      dsimp only
      rw [hline.backspace_start]
      exact redrawWith_edits h rfl (by simpa [hb] using hline)
    · rw [hb] at hline
      obtain ⟨l',hl',hh,-⟩ := hline.backspace
      dsimp only
      rw [hl']
      exact redrawWith_edits h rfl (by simpa [hb] using hh)
  | delete =>
    cases ha : s.line.after with
    | nil =>
      rw [ha] at hline
      dsimp only
      rw [hline.delete_end]
      exact redrawWith_edits h rfl (by simpa [ha] using hline)
    | cons x a =>
      rw [ha] at hline
      obtain ⟨l',hl',hh,-⟩ := hline.delete
      dsimp only
      rw [hl']
      exact redrawWith_edits h rfl (by simpa [ha] using hh)
  | home => exact redrawWith_edits h rfl (hline.move [] _ rfl)
  | endOfLine =>
    have hm := hline.move (s.line.before++s.line.after) [] (List.append_nil _)
    rw [List.length_append,← hlen] at hm
    exact redrawWith_edits h rfl hm
  | left =>
    rcases List.eq_nil_or_concat' s.line.before with hb | ⟨b,x,hb⟩
    · have hm := hline.move [] s.line.after (by rw [hb])
      rw [hb,List.length_nil] at hcursor
      refine redrawWith_edits h rfl ?_
      simpa [hb,hcursor] using hm
    · rw [hb] at hline
      exact redrawWith_edits h rfl (by simpa [hb] using hline.move_left)
  | right =>
    have hm := hline.move (s.line.before++s.line.after.head?.toList) s.line.after.tail
      (by cases s.line.after <;> simp)
    refine redrawWith_edits h rfl ?_
    have he : min (s.line.cursor+1) s.line.len =
        (s.line.before++s.line.after.head?.toList).length := by
      rw [hlen,hcursor]
      cases s.line.after <;> simp
    rw [he]
    exact hm
  | previous =>
    obtain ⟨hh,hl⟩ := h.history.previous h.line
    rw [redrawWith_all hl]
    exact ⟨⟨hl,hh⟩,fun pair hp => by cases hp⟩
  | next =>
    obtain ⟨hh,hl⟩ := h.history.next h.line
    rw [redrawWith_all hl]
    exact ⟨⟨hl,hh⟩,fun pair hp => by cases hp⟩
  | eraseToStart =>
    obtain ⟨l',hl',hh⟩ := hline.eraseToStart
    dsimp only
    rw [hl']
    exact redrawWith_edits h rfl hh
  | eraseToEnd => exact redrawWith_edits h rfl hline.eraseToEnd
  | eraseWord =>
    obtain ⟨l',hl',hh⟩ := hline.deleteWord
    dsimp only
    rw [hl']
    exact redrawWith_edits h rfl hh
  | pageUp =>
    simp only [bind_eq,all_bind,all_performAll]
    exact ⟨h,fun pair hp => by cases hp; exact hline⟩
  | pageDown =>
    simp only [bind_eq,all_bind,all_performAll]
    exact ⟨h,fun pair hp => by cases hp; exact hline⟩
  | insert x =>
    obtain ⟨r,hr,hh⟩ := hline.insert_any x
    dsimp only
    rw [hr,Option.map_some]
    refine redrawWith_edits h rfl ?_
    rw [← hlen]
    change r.1.Holds (if IsPrintable x ∧ s.line.len < maxInput then _ else _ : _ × _).1 _
    split_ifs at hh ⊢ <;> exact hh
  | ignore => exact ⟨h,fun pair hp => by cases hp; exact hline⟩

/-- The shells that keys, lost input and resizes lead to, whatever the console answers. -/
inductive Reachable : Shell → Prop
  | new {info env s} (h : (Shell.new info env).Returns s) : Reachable s
  | key {s s' env key} (hs : Reachable s) (h : (s.handleKey env key).Returns s') : Reachable s'
  | inputLost {s s'} (hs : Reachable s) (h : s.inputLost.Returns s') : Reachable s'
  | resetForResize {s s'} (hs : Reachable s) (h : s.resetForResize.Returns s') : Reachable s'

theorem Reachable.sound (h : Reachable s) : s.Sound := by
  induction h with
  | new h => exact (new_sound _ _).of_returns h
  | key _ h ih => exact ((handleKey_edits ih _ _).of_returns h).1
  | inputLost _ h ih => exact (inputLost_sound ih).of_returns h
  | resetForResize _ h ih => exact (resetForResize_sound ih).of_returns h

/-- In every reachable shell the line is a bounded printable pair of lists, and every key
runs without panicking and edits that pair. -/
theorem line_refines_pair (h : Reachable s) :
    s.line.before++s.line.after = s.line.content ∧ s.line.before.length = s.line.cursor ∧
    s.line.cursor ≤ s.line.len ∧ s.line.len ≤ 256 ∧
    (∀ x ∈ s.line.content, 0x20 ≤ x.toNat ∧ x.toNat ≤ 0x7e) ∧ s.line.asStr.isSome ∧
    ∀ env key, (s.handleKey env key).All fun s' =>
      ∀ pair, editPair key.action (s.line.before,s.line.after) = some pair →
        (s'.line.before,s'.line.after) = pair := by
  have hsound := h.sound
  have hline : s.line.Holds s.line.before s.line.after := hsound.line
  have hlen := hline.len
  have hcursor := hline.cursor
  refine ⟨hline.content.symm,hcursor.symm,by omega,hline.bound,
    fun x hx => hsound.line.printable hx,by rw [hsound.line.asStr]; rfl,?_⟩
  intro env key
  refine (handleKey_edits hsound env key).mono fun s' hs' pair hp => ?_
  have hh := hs'.2 pair hp
  rw [hh.before,hh.after]

/-- A new shell, the key `h`, and Backspace. -/
theorem line_refines_pair_typed : ∃ s : Shell, Reachable s ∧ s.line.before = [104] ∧
    ∀ env, (s.handleKey env (.unicode '\x08')).All fun s' => s'.line.before = [] := by
  let info : SystemInfo := ⟨0,Vector.replicate 12 0,Vector.replicate 48 0,false⟩
  let env : Environment := ⟨0,0,none,none,fun _ => .error "no initialized Ethernet controller"⟩
  have hnew : (Shell.new info env).All fun s => s.Sound ∧ s.line = Line.new := by
    simp only [new,bind_eq,all_bind,all_performAll]
    exact fun anchor => ⟨⟨Line.valid_new,History.sound_new⟩,rfl⟩
  obtain ⟨s₀,hs₀,hsound,hline⟩ := hnew.exists_returns
  obtain ⟨s₁,hs₁,hedits⟩ := (handleKey_edits hsound env (.unicode 'h')).exists_returns
  have hreach : Reachable s₁ := .key (.new hs₀) hs₁
  have hh : s₁.line.Holds [104] [] := hedits.2 ([104],[]) (by rw [hline]; decide)
  refine ⟨s₁,hreach,hh.before,fun env => ?_⟩
  have hkey := (line_refines_pair hreach).2.2.2.2.2.2 env (.unicode '\x08')
  rw [hh.before,hh.after] at hkey
  exact hkey.mono fun s' hs' => congrArg Prod.fst (hs' ([],[]) (by decide))

end Shell
end CrabOs.Crabsh
