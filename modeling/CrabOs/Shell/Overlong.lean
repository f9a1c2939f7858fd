import CrabOs.Shell.Editing

/-! Overlong input: the overflow flag of a line says whether a byte was refused since the line was
last made shorter, also when the line has been put aside as the draft of the history. -/
namespace CrabOs.Crabsh
open CrabOs.Vga AtomicProgram

/-- What happens to a line that matters for its overflow flag. -/
inductive Event
  /-- A printable byte did not fit. -/
  | rejected
  | shortened
  deriving DecidableEq

/-- Some byte was rejected and the line was not shortened since. -/
def Overlong (events : List Event) : Prop :=
  ∃ before after, events = before++.rejected :: after ∧ .shortened ∉ after

section Overlong
variable (events : List Event)

lemma not_overlong_nil : ¬Overlong [] := by
  rintro ⟨before,after,h,-⟩
  simp at h

lemma overlong_rejected : Overlong (events++[.rejected]) := ⟨events,[],rfl,List.not_mem_nil⟩

lemma not_overlong_shortened : ¬Overlong (events++[.shortened]) := by
  rintro ⟨before,after,h,hn⟩
  induction after using List.reverseRecOn with
  | nil =>
    obtain ⟨-,he⟩ := List.append_inj' h rfl
    cases he
  | append_singleton after e =>
    have h' : events++[.shortened] = (before++.rejected :: after)++[e] := by simpa using h
    obtain ⟨-,he⟩ := List.append_inj' h' rfl
    cases he
    exact hn (by simp)

end Overlong

namespace Line

/-- The flag of the line is what its events say, and is only set on a full line. -/
structure Tracks (l : Line) (events : List Event) : Prop where
  flag : l.overflow = true ↔ Overlong events
  full : l.overflow = true → l.len = maxInput

/-- The events of inserting bytes one after the other. -/
def insertEvents : List UInt8 → Line → List Event
  | [],_ => []
  | byte :: bytes,l => (if IsPrintable byte ∧ l.len = maxInput then [.rejected] else [])++
      (l.insert byte).elim [] fun r => insertEvents bytes r.1

/-- The edit removes bytes and clears the flag, or leaves length and flag as they are. -/
structure Shrinks (l l' : Line) : Prop where
  len : l'.len ≤ l.len
  cleared : l'.len < l.len → l'.overflow = false
  kept : l'.len = l.len → l'.overflow = l.overflow

def shrinkEvents (l l' : Line) : List Event := if l'.len < l.len then [.shortened] else []

section Shrinks
variable {l l' l'' : Line}

lemma Shrinks.refl (l : Line) : Shrinks l l :=
  ⟨le_rfl,fun h => absurd h (Nat.lt_irrefl _),fun _ => rfl⟩

lemma Shrinks.trans (h : Shrinks l l') (h' : Shrinks l' l'') : Shrinks l l'' := by
  refine ⟨h'.len.trans h.len,fun hlt => ?_,fun heq => ?_⟩
  · rcases Nat.lt_or_ge l''.len l'.len with hs | hs
    · exact h'.cleared hs
    · have hlen := h'.len
      rw [h'.kept (by omega)]
      exact h.cleared (by omega)
  · have hlen := h.len
    have hlen' := h'.len
    rw [h'.kept (by omega),h.kept (by omega)]

lemma shrinks_move (l : Line) (cursor : ℕ) : Shrinks l { l with cursor := cursor } :=
  ⟨le_rfl,fun h => absurd h (Nat.lt_irrefl _),fun _ => rfl⟩

lemma shrinks_delete (h : l.delete = some l') : Shrinks l l' := by
  unfold delete at h
  split_ifs at h with hc
  · obtain ⟨shifted,-,hs⟩ := Option.bind_eq_some_iff.mp h
    cases hs
    exact ⟨Nat.sub_le _ _,fun _ => rfl,fun he => by simp only at he; omega⟩
  · cases h
    exact .refl l

lemma shrinks_backspace (h : l.backspace = some l') : Shrinks l l' := by
  unfold backspace at h
  split_ifs at h
  · exact (shrinks_move l (l.cursor-1)).trans (shrinks_delete h)
  · cases h
    exact .refl l

lemma shrinks_backspaceWhile (p : UInt8 → Bool) (fuel : ℕ)
    (h : backspaceWhile p fuel l = some l') : Shrinks l l' := by
  induction fuel generalizing l with
  | zero =>
    cases h
    exact .refl _
  | succ fuel ih =>
    unfold backspaceWhile at h
    split_ifs at h
    · obtain ⟨byte,-,h⟩ := Option.bind_eq_some_iff.mp h
      split_ifs at h
      · obtain ⟨m,hm,h⟩ := Option.bind_eq_some_iff.mp h
        exact (shrinks_backspace hm).trans (ih h)
      · cases h
        exact .refl _
    · cases h
      exact .refl _

lemma shrinks_deleteWord (h : l.deleteWord = some l') : Shrinks l l' := by
  obtain ⟨m,hm,h⟩ := Option.bind_eq_some_iff.mp h
  exact (shrinks_backspaceWhile _ _ hm).trans (shrinks_backspaceWhile _ _ h)

lemma shrinks_eraseToStart (h : l.eraseToStart = some l') : Shrinks l l' := by
  obtain ⟨bytes,-,hb⟩ := Option.map_eq_some_iff.mp h
  cases hb
  refine ⟨Nat.sub_le _ _,fun hlt => if_pos hlt,fun he => if_neg ?_⟩
  simp only at he
  omega

lemma shrinks_eraseToEnd (h : l.cursor ≤ l.len) : Shrinks l l.eraseToEnd := by
  refine ⟨h,fun hlt => if_pos hlt,fun he => if_neg ?_⟩
  change l.cursor = l.len at he
  omega

end Shrinks

section Tracks
variable {l l' : Line} {events : List Event}

lemma tracks_new : Tracks new [] :=
  ⟨iff_of_false Bool.false_ne_true not_overlong_nil,fun h => absurd h Bool.false_ne_true⟩

lemma Tracks.of_eq (h : Tracks l events) (hflag : l'.overflow = l.overflow) (hlen : l'.len = l.len) :
    Tracks l' events :=
  ⟨by rw [hflag]; exact h.flag,fun ho => hlen.trans (h.full (hflag.symm.trans ho))⟩

/-- A line with room is not overlong, so accepting a byte changes neither side. -/
lemma Tracks.insert (h : Tracks l events) (hv : l.Valid) (x : UInt8) :
    ∃ r, l.insert x = some r ∧ r.1.Valid ∧ l.len ≤ r.1.len ∧
      Tracks r.1 (events++if IsPrintable x ∧ l.len = maxInput then [.rejected] else []) := by
  obtain ⟨r,hr,hh⟩ := Holds.insert_any hv x
  refine ⟨r,hr,hh.valid,?_⟩
  by_cases hx : IsPrintable x
  · have hbound := Holds.bound hv
    by_cases hfull : l.len = maxInput
    · rw [if_pos ⟨hx,hfull⟩]
      rw [insert_full hx hfull] at hr
      cases hr
      exact ⟨le_rfl,iff_of_true rfl (overlong_rejected events),fun _ => hfull⟩
    · obtain ⟨l',hl',hheld,hflag⟩ := Holds.insert hv hx (by omega)
      rw [hl'] at hr
      cases hr
      have hlen := hheld.len
      have hlen' := Holds.len hv
      rw [List.length_append,List.length_singleton] at hlen
      have hclear : l.overflow ≠ true := fun ho => hfull (h.full ho)
      rw [if_neg (fun hc => hfull hc.2),List.append_nil]
      refine ⟨by simp only; omega,?_,fun ho => absurd (hflag.symm.trans ho) hclear⟩
      rw [hflag]
      exact h.flag
  · rw [if_neg (fun hc => hx hc.1),List.append_nil]
    rw [insert_rejected hx] at hr
    cases hr
    exact ⟨le_rfl,h⟩

lemma Tracks.insertAll (bytes : List UInt8) (h : Tracks l events) (hv : l.Valid) :
    ∃ l', l.insertAll bytes = some l' ∧ l'.Valid ∧ l.len ≤ l'.len ∧
      Tracks l' (events++insertEvents bytes l) := by
  induction bytes generalizing l events with
  | nil => exact ⟨l,rfl,hv,le_rfl,by rwa [insertEvents,List.append_nil]⟩
  | cons x bytes ih =>
    obtain ⟨r,hr,hvalid,hlen,ht⟩ := h.insert hv x
    obtain ⟨l',hl',hvalid',hlen',ht'⟩ := ih ht hvalid
    refine ⟨l',by rw [Line.insertAll,hr]; exact hl',hvalid',hlen.trans hlen',?_⟩
    rw [insertEvents,hr,← List.append_assoc]
    exact ht'

lemma Tracks.shrinks (h : Tracks l events) (hs : Shrinks l l') :
    Tracks l' (events++shrinkEvents l l') := by
  have hlen := hs.len
  by_cases hlt : l'.len < l.len
  · rw [shrinkEvents,if_pos hlt]
    have hclear := hs.cleared hlt
    refine ⟨iff_of_false ?_ (not_overlong_shortened events),fun ho => ?_⟩
    · rw [hclear]
      exact Bool.false_ne_true
    · rw [hclear] at ho
      cases ho
  · have heq : l'.len = l.len := by omega
    rw [shrinkEvents,if_neg hlt,List.append_nil]
    exact h.of_eq (hs.kept heq) heq

lemma insertAll_append (bytes bytes' : List UInt8) :
    l.insertAll (bytes++bytes') = (l.insertAll bytes).bind (insertAll bytes') := by
  induction bytes generalizing l with
  | nil => rfl
  | cons x bytes ih =>
    rw [List.cons_append,Line.insertAll,Line.insertAll,Option.bind_assoc]
    congr 1
    funext r
    exact ih

end Tracks

end Line
namespace History
variable {h h' : History} {line : Line}

/-- No entry carries the overflow flag. -/
def Clean (h : History) : Prop := ∀ i < h.len, (h.get i).overflow = false

lemma clean_new : new.Clean := fun i hi => absurd hi (Nat.not_lt_zero i)

lemma Holds.exists_get {ls : List Line} (hh : h.Holds ls) (hl : line ∈ ls) :
    ∃ j < h.len, h.get j = line := by
  obtain ⟨j,hj⟩ := List.mem_iff_getElem?.mp hl
  have hlt : j < h.len := by
    rw [hh.len]
    exact (List.getElem?_eq_some_iff.mp hj).1
  exact ⟨j,hlt,Option.some_inj.mp ((hh.entries j hlt).trans hj)⟩

/-- The entries behind a recorded line are older entries or that line. -/
lemma record_entries (hs : h.Sound) (hline : line.Valid) (hr : h.record line = some h') {i : ℕ}
    (hi : i < h'.len) : h'.get i = line ∨ ∃ j < h.len, h.get j = h'.get i := by
  obtain ⟨kept,hh,hv⟩ := hs.holds
  obtain ⟨g,hg,-,hh'⟩ := hh.record hv hline
  rw [hr] at hg
  cases hg
  have hmem := List.mem_of_getElem? (hh'.entries i hi).symm
  split_ifs at hmem
  · exact .inr (hh.exists_get hmem)
  · rw [← lastN_concat] at hmem
    rcases List.mem_append.mp (List.mem_of_mem_drop hmem) with hm | hm
    · exact .inr (hh.exists_get hm)
    · exact .inl (List.mem_singleton.mp hm)

lemma Clean.record (hc : h.Clean) (hs : h.Sound) (hline : line.Valid)
    (hflag : line.overflow = false) (hr : h.record line = some h') : h'.Clean := by
  intro i hi
  rcases record_entries hs hline hr hi with he | ⟨j,hj,he⟩
  · rw [he]
    exact hflag
  · rw [← he]
    exact hc j hj

end History

/-! ### Following the line and the draft -/

/-- The events of the line being edited and of the line put aside. -/
structure EventLog where
  line : List Event
  draft : List Event

/-- The bytes offered to the line are rejected or not, then the line may have become shorter. -/
def EventLog.edit (log : EventLog) (bytes : List UInt8) (l l' : Line) : EventLog :=
  { log with line := log.line++l.insertEvents bytes++l.shrinkEvents l' }

namespace Shell

/-- What all the names go on with behind the first `oldLen` bytes, and a space behind a single
name. -/
def continuation (oldLen : ℕ) : List String → List UInt8
  | [] => []
  | first :: others =>
    ((AsciiText.bytes first).take (others.foldl (fun limit name => commonLength first name limit)
      (AsciiText.bytes first).length)).drop oldLen++if others = [] then [32] else []

/-- The bytes that Tab inserts. -/
def completion (commands : List (String × String)) (shell : Shell) : List UInt8 :=
  if shell.line.cursor ≠ shell.line.len ∨ ' ' ∈ shell.line.text.toList then []
  else continuation shell.line.len
    ((commands.map Prod.fst).filter (fun name => startsWith name shell.line.text))

/-- The bytes a key offers to the line. -/
def offered (shell : Shell) : KeyAction → List UInt8
  | .insert byte => [byte]
  | .complete => shell.completion commands
  | _ => []

/-- How a key leads from one log to the next: Enter and Ctrl+C start an empty line, Up puts the
line aside when it starts to browse, Down past the newest entry takes it back, and an entry comes
without events. -/
def follow (action : KeyAction) (s s' : Shell) (log : EventLog) : EventLog :=
  match action with
  | .submit | .cancel => { log with line := [] }
  | .previous =>
    if s.history.len = 0 then log
    else ⟨[],if s.history.browsing = none then log.line else log.draft⟩
  | .next =>
    match s.history.browsing with
    | none => log
    | some index => { log with line := if index+1 < s.history.len then [] else log.draft }
  | action => log.edit (s.offered action) s.line s'.line

/-- The shells of all runs, each with the events of its line and of its draft. -/
inductive Traced : Shell → EventLog → Prop
  | new {info env s} (h : (Shell.new info env).Returns s) : Traced s ⟨[],[]⟩
  | key {s s' env key log} (hs : Traced s log) (h : (s.handleKey env key).Returns s') :
      Traced s' (follow key.action s s' log)
  | inputLost {s s' log} (hs : Traced s log) (h : s.inputLost.Returns s') :
      Traced s' { log with line := [] }
  | resetForResize {s s' log} (hs : Traced s log) (h : s.resetForResize.Returns s') :
      Traced s' { log with line := [] }

variable {s s' : Shell} {log : EventLog}

lemma Traced.reachable (h : Traced s log) : Reachable s := by
  induction h with
  | new h => exact .new h
  | key _ h ih => exact .key ih h
  | inputLost _ h ih => exact .inputLost ih h
  | resetForResize _ h ih => exact .resetForResize ih h

lemma Reachable.traced (h : Reachable s) : ∃ log, Traced s log := by
  induction h with
  | new h => exact ⟨_,.new h⟩
  | key _ h ih =>
    obtain ⟨log,ht⟩ := ih
    exact ⟨_,ht.key h⟩
  | inputLost _ h ih =>
    obtain ⟨log,ht⟩ := ih
    exact ⟨_,ht.inputLost h⟩
  | resetForResize _ h ih =>
    obtain ⟨log,ht⟩ := ih
    exact ⟨_,ht.resetForResize h⟩

/-! ### What a finished call leaves -/

lemma freshPrompt_returns (h : s.freshPrompt.Returns s') :
    s'.line = Line.new ∧ s'.history = s.history := by
  obtain ⟨anchor,-,h⟩ := returns_bind.mp h
  rw [returns_ret.mp h]
  exact ⟨rfl,rfl⟩

lemma new_returns {info : SystemInfo} {env : Environment} (h : (new info env).Returns s) :
    s.line = Line.new ∧ s.history = History.new := by
  obtain ⟨-,-,h⟩ := returns_bind.mp h
  obtain ⟨anchor,-,h⟩ := returns_bind.mp h
  rw [returns_ret.mp h]
  exact ⟨rfl,rfl⟩

lemma resetForResize_returns (h : s.resetForResize.Returns s') :
    s'.line = Line.new ∧ s'.history = s.history := by
  obtain ⟨-,-,h⟩ := returns_bind.mp h
  exact freshPrompt_returns h

lemma inputLost_returns (h : s.inputLost.Returns s') :
    s'.line = Line.new ∧ s'.history = s.stopBrowsing.history := by
  obtain ⟨-,-,h⟩ := returns_bind.mp h
  obtain ⟨-,-,h⟩ := returns_bind.mp h
  exact freshPrompt_returns h

lemma redrawWith_returns {line : Option Line} (h : (s.redrawWith line).Returns s') :
    line = some s'.line ∧ s'.history = s.history := by
  obtain ⟨l,hl,h⟩ := returns_bind.mp h
  obtain ⟨-,-,h⟩ := returns_bind.mp h
  rw [returns_ret.mp h]
  exact ⟨returns_ofOption.mp hl,rfl⟩

/-- The history is kept, or the line without flag has been recorded. -/
lemma submit_returns {env : Environment} (h : (s.submit env).Returns s') :
    s'.history = s.stopBrowsing.history ∨
      s.line.overflow = false ∧ s.history.record s.line = some s'.history := by
  unfold submit at h
  split_ifs at h with ho
  · obtain ⟨-,-,h⟩ := returns_bind.mp h
    rw [returns_ret.mp h]
    exact .inl rfl
  · obtain ⟨history,hr,h⟩ := returns_bind.mp h
    obtain ⟨text,-,h⟩ := returns_bind.mp h
    obtain ⟨sections,-,h⟩ := returns_bind.mp h
    obtain ⟨-,-,h⟩ := returns_bind.mp h
    rw [returns_ret.mp h]
    exact .inr ⟨Bool.eq_false_of_not_eq_true ho,returns_ofOption.mp hr⟩

/-- Up to the cursor, the bytes have been inserted into the line. -/
def Inserts (s : Shell) (bytes : List UInt8) (s' : Shell) : Prop :=
  s'.history = s.history ∧ ∃ l, s.line.insertAll bytes = some l ∧
    s'.line.overflow = l.overflow ∧ s'.line.len = l.len

lemma inserts_nil (s : Shell) : s.Inserts [] s := ⟨rfl,s.line,rfl,rfl,rfl⟩

lemma completeFrom_returns {first : String} {others : List String}
    (h : (s.completeFrom first others).Returns s') :
    s.Inserts (continuation s.line.len (first :: others)) s' := by
  rw [continuation]
  obtain ⟨l,hl,h⟩ := returns_bind.mp h
  have hinsert := returns_ofOption.mp hl
  split_ifs at h with hone hsame
  · obtain ⟨l',hl',h⟩ := returns_bind.mp h
    obtain ⟨-,-,h⟩ := returns_bind.mp h
    rw [returns_ret.mp h,if_pos hone]
    refine ⟨rfl,l',?_,rfl,rfl⟩
    rw [Line.insertAll_append,hinsert]
    exact returns_ofOption.mp hl'
  · obtain ⟨-,-,h⟩ := returns_bind.mp h
    obtain ⟨-,-,h⟩ := returns_bind.mp h
    obtain ⟨anchor,-,h⟩ := returns_bind.mp h
    obtain ⟨-,-,h⟩ := returns_bind.mp h
    rw [returns_ret.mp h,if_neg hone,List.append_nil]
    exact ⟨rfl,l,hinsert,rfl,rfl⟩
  · obtain ⟨-,-,h⟩ := returns_bind.mp h
    rw [returns_ret.mp h,if_neg hone,List.append_nil]
    exact ⟨rfl,l,hinsert,rfl,rfl⟩

lemma complete_returns (hs : s.Sound) {table : List (String × String)}
    (h : (s.complete table).Returns s') : s.Inserts (s.completion table) s' := by
  unfold complete at h
  unfold completion
  split_ifs at h with hcursor
  · rw [returns_ret.mp h,if_pos (.inl hcursor)]
    exact inserts_nil s
  · obtain ⟨text,ht,h⟩ := returns_bind.mp h
    have htext := returns_ofOption.mp ht
    rw [hs.line.asStr] at htext
    cases htext
    split_ifs at h with hspace
    · rw [returns_ret.mp h,if_pos (.inr hspace)]
      exact inserts_nil s
    · rw [if_neg (by tauto)]
      split at h
      · rename_i hnone
        rw [returns_ret.mp h,hnone]
        exact inserts_nil s
      · rename_i first others hsome
        rw [hsome]
        exact completeFrom_returns h

/-! ### The invariant -/

/-- The log says which of the lines are overlong. -/
structure Tracked (s : Shell) (log : EventLog) : Prop where
  line : s.line.Tracks log.line
  draft : s.history.draft.Tracks log.draft
  entries : s.history.Clean

/-- The draft is kept and nothing overlong has been recorded. -/
def KeepsHistory (s s' : Shell) : Prop :=
  s'.history.draft = s.history.draft ∧ s'.history.Clean

lemma Tracked.keeps (h : s.Tracked log) {browsing : Option ℕ}
    (hh : s'.history = { s.history with browsing := browsing }) : KeepsHistory s s' := by
  rw [KeepsHistory,hh]
  exact ⟨rfl,h.entries⟩

lemma Tracked.withLine (h : s.Tracked log) (hk : KeepsHistory s s') {events : List Event}
    (hl : s'.line.Tracks events) : s'.Tracked { log with line := events } := by
  refine ⟨hl,?_,hk.2⟩
  rw [hk.1]
  exact h.draft

lemma Tracked.fresh (h : s.Tracked log) (hk : KeepsHistory s s') (hline : s'.line = Line.new) :
    s'.Tracked { log with line := [] } := by
  apply h.withLine hk
  rw [hline]
  exact Line.tracks_new

/-- A key that offers no byte leaves the line alone or shortens it. -/
lemma Tracked.shrinks (h : s.Tracked log) (hh : s'.history = s.history)
    (hs : s.line.Shrinks s'.line) : s'.Tracked (log.edit [] s.line s'.line) := by
  apply h.withLine (h.keeps hh)
  change s'.line.Tracks (log.line++[]++s.line.shrinkEvents s'.line)
  rw [List.append_nil]
  exact h.line.shrinks hs

lemma Tracked.inserts (h : s.Tracked log) (hs : s.Sound) {bytes : List UInt8}
    (hi : s.Inserts bytes s') : s'.Tracked (log.edit bytes s.line s'.line) := by
  obtain ⟨hh,l,hl,hflag,hlen⟩ := hi
  obtain ⟨l',hl',-,hle,ht⟩ := h.line.insertAll bytes hs.line
  rw [hl] at hl'
  cases hl'
  apply h.withLine (h.keeps hh)
  rw [Line.shrinkEvents,if_neg (by omega),List.append_nil]
  exact ht.of_eq hflag hlen

lemma Tracked.submit (h : s.Tracked log) (hs : s.Sound) {env : Environment}
    (hr : (s.submit env).Returns s') : KeepsHistory s s' := by
  rcases submit_returns hr with hh | ⟨hflag,hrecord⟩
  · exact h.keeps hh
  · exact ⟨(History.record_stops hrecord).1,h.entries.record hs.history hs.line hflag hrecord⟩

lemma entry_tracks (h : s.history.Clean) {i : ℕ} (hi : i < s.history.len) (cursor : ℕ) :
    Line.Tracks { s.history.get i with cursor := cursor } [] := by
  have hflag := h i hi
  refine ⟨iff_of_false ?_ not_overlong_nil,fun ho => absurd (hflag.symm.trans ho) Bool.false_ne_true⟩
  rw [hflag]
  exact Bool.false_ne_true

lemma Tracked.previous (h : s.Tracked log) (hs : s.Sound)
    (hh : s'.history = (s.history.previous s.line).1)
    (hl : s'.line = (s.history.previous s.line).2) :
    s'.Tracked (follow .previous s s' log) := by
  unfold History.previous at hh hl
  unfold follow
  by_cases hlen : s.history.len = 0
  · rw [if_pos hlen] at hh hl ⊢
    exact h.withLine (h.keeps hh) (hl ▸ h.line)
  · rw [if_neg hlen] at hh hl ⊢
    cases hb : s.history.browsing with
    | none =>
      -- the line that is put aside takes its events along
      simp only [hb] at hh hl
      rw [if_pos rfl]
      refine ⟨?_,by rw [hh]; exact h.line,by rw [hh]; exact h.entries⟩
      rw [hl]
      exact entry_tracks h.entries (by omega) _
    | some i =>
      have hi := hs.history.browsing hb
      simp only [hb] at hh hl
      rw [if_neg (Option.some_ne_none i)]
      apply h.withLine (h.keeps hh)
      rw [hl]
      exact entry_tracks h.entries (by omega) _

lemma Tracked.next (h : s.Tracked log) (hh : s'.history = (s.history.next s.line).1)
    (hl : s'.line = (s.history.next s.line).2) : s'.Tracked (follow .next s s' log) := by
  unfold History.next at hh hl
  unfold follow
  cases hb : s.history.browsing with
  | none =>
    simp only [hb] at hh hl
    exact h.withLine (h.keeps hh) (hl ▸ h.line)
  | some i =>
    simp only [hb] at hh hl ⊢
    split_ifs at hh hl ⊢ with hi
    · apply h.withLine (h.keeps hh)
      rw [hl]
      exact entry_tracks h.entries hi _
    · apply h.withLine (h.keeps hh)
      rw [hl]
      exact h.draft

lemma Tracked.redrawWith (h : s.Tracked log) {line : Option Line}
    (hr : (s.redrawWith line).Returns s')
    (hs : ∀ l, line = some l → s.line.Shrinks l) : s'.Tracked (log.edit [] s.line s'.line) := by
  obtain ⟨hl,hh⟩ := redrawWith_returns hr
  exact h.shrinks hh (hs _ hl)

/-- A cursor key changes neither length nor flag. -/
lemma Tracked.move (h : s.Tracked log) {cursor : ℕ}
    (hr : (s.redrawWith (some { s.line with cursor := cursor })).Returns s') :
    s'.Tracked (log.edit [] s.line s'.line) := by
  refine h.redrawWith hr fun l hl => ?_
  cases hl
  exact Line.shrinks_move s.line cursor

theorem Tracked.handleKey (h : s.Tracked log) (hs : s.Sound) {env : Environment}
    {key : DecodedKey} (hr : (s.handleKey env key).Returns s') :
    s'.Tracked (follow key.action s s' log) := by
  have hcursor : s.line.cursor ≤ s.line.len := by
    have hc := Line.Holds.cursor hs.line
    have hlen := Line.Holds.len hs.line
    omega
  unfold Shell.handleKey at hr
  generalize key.action = action at hr ⊢
  cases action with
  | submit =>
    obtain ⟨-,-,hr⟩ := returns_bind.mp hr
    obtain ⟨-,-,hr⟩ := returns_bind.mp hr
    obtain ⟨r,hsubmit,hr⟩ := returns_bind.mp hr
    obtain ⟨hline,hh⟩ := freshPrompt_returns hr
    have hended : s.cursorToEnd.Tracked log := ⟨h.line.of_eq rfl rfl,h.draft,h.entries⟩
    have hk := hended.submit hs.cursorToEnd hsubmit
    rw [KeepsHistory,← hh] at hk
    exact h.fresh hk hline
  | cancel =>
    obtain ⟨-,-,hr⟩ := returns_bind.mp hr
    obtain ⟨-,-,hr⟩ := returns_bind.mp hr
    obtain ⟨hline,hh⟩ := freshPrompt_returns hr
    exact h.fresh (h.keeps hh) hline
  | clearScreen =>
    obtain ⟨-,-,hr⟩ := returns_bind.mp hr
    obtain ⟨anchor,-,hr⟩ := returns_bind.mp hr
    obtain ⟨-,-,hr⟩ := returns_bind.mp hr
    rw [returns_ret.mp hr]
    exact h.shrinks rfl (.refl _)
  | complete => exact h.inserts hs (complete_returns hs hr)
  | backspace => exact h.redrawWith hr fun l => Line.shrinks_backspace
  | delete => exact h.redrawWith hr fun l => Line.shrinks_delete
  | home => exact h.move hr
  | endOfLine => exact h.move hr
  | left => exact h.move hr
  | right => exact h.move hr
  | previous =>
    obtain ⟨hl,hh⟩ := redrawWith_returns hr
    exact h.previous hs hh (Option.some_inj.mp hl).symm
  | next =>
    obtain ⟨hl,hh⟩ := redrawWith_returns hr
    exact h.next hh (Option.some_inj.mp hl).symm
  | eraseToStart => exact h.redrawWith hr fun l => Line.shrinks_eraseToStart
  | eraseToEnd =>
    refine h.redrawWith hr fun l hl => ?_
    cases hl
    exact Line.shrinks_eraseToEnd hcursor
  | eraseWord => exact h.redrawWith hr fun l => Line.shrinks_deleteWord
  | pageUp =>
    obtain ⟨-,-,hr⟩ := returns_bind.mp hr
    rw [returns_ret.mp hr]
    exact h.shrinks rfl (.refl _)
  | pageDown =>
    obtain ⟨-,-,hr⟩ := returns_bind.mp hr
    rw [returns_ret.mp hr]
    exact h.shrinks rfl (.refl _)
  | insert byte =>
    obtain ⟨hl,hh⟩ := redrawWith_returns hr
    refine h.inserts hs ⟨hh,s'.line,?_,rfl,rfl⟩
    rw [← hl,Option.map_eq_bind]
    rfl
  | ignore =>
    rw [returns_ret.mp hr]
    exact h.shrinks rfl (.refl _)

theorem Traced.tracked (h : Traced s log) : s.Tracked log := by
  induction h with
  | new h =>
    obtain ⟨hline,hh⟩ := new_returns h
    exact ⟨by rw [hline]; exact Line.tracks_new,by rw [hh]; exact Line.tracks_new,
      by rw [hh]; exact History.clean_new⟩
  | key hs h ih => exact ih.handleKey hs.reachable.sound h
  | inputLost _ h ih =>
    obtain ⟨hline,hh⟩ := inputLost_returns h
    exact ih.fresh (ih.keeps hh) hline
  | resetForResize _ h ih =>
    obtain ⟨hline,hh⟩ := resetForResize_returns h
    exact ih.fresh (ih.keeps hh) hline

/-! ### Enter -/

/-- `submit`, with the functions that record and execute a line left open. -/
def submitWith (record : History → Line → Option History)
    (run : SystemInfo → History → Environment → String → Option (List Section))
    (env : Environment) (shell : Shell) : ShellProgram Shell :=
  if shell.line.overflow then do
    performAll [println "crabsh: input exceeds 256 bytes; command discarded."]
    return shell.stopBrowsing
  else do
    let history ← ofOption (record shell.history shell.line)
    let text ← ofOption shell.line.asStr
    let sections ← ofOption (run shell.info history env text)
    performAll sections
    return { shell with history := history }

/-- The Enter key around it. -/
def enter (record : History → Line → Option History)
    (run : SystemInfo → History → Environment → String → Option (List Section))
    (env : Environment) (shell : Shell) : ShellProgram Shell := do
  let ended := shell.cursorToEnd
  ended.redraw shell.line.len
  performAll [println ""]
  let shell ← ended.submitWith record run env
  shell.freshPrompt

/-- Enter depends on what the history does with the line. -/
def PassesToRecord (s : Shell) (env : Environment) : Prop :=
  ∃ record : History → Line → Option History,
    (∀ history line, line ≠ s.cursorToEnd.line → record history line = history.record line) ∧
    s.enter record execute env ≠ s.enter History.record execute env

/-- Enter depends on what the text of the line executes to. -/
def PassesToExecute (s : Shell) (env : Environment) : Prop :=
  ∃ run : SystemInfo → History → Environment → String → Option (List Section),
    (∀ info history env' text, text ≠ s.line.text →
      run info history env' text = execute info history env' text) ∧
    s.enter History.record run env ≠ s.enter History.record execute env

section Enter
variable {record : History → Line → Option History}
  {run : SystemInfo → History → Environment → String → Option (List Section)} {env : Environment}

lemma handleKey_submit {key : DecodedKey} (hkey : key.action = .submit) :
    s.handleKey env key = s.enter History.record execute env := by
  unfold Shell.handleKey
  rw [hkey]
  rfl

/-- An overlong line is discarded whatever the two functions are. -/
lemma enter_overflow (ho : s.line.overflow = true) :
    s.enter record run env = s.enter History.record execute env := by
  have hended : s.cursorToEnd.line.overflow = true := ho
  simp only [enter,submitWith,hended,if_true]

/-- Enter uses the two functions at the line and at its text only. -/
lemma enter_answers (ho : s.line.overflow = false) (hs : s.Sound) {history : History}
    {sections : List Section} (hr : record s.history s.cursorToEnd.line = some history)
    (he : run s.info history env s.line.text = some sections) :
    s.enter record run env =
      s.enter (fun _ _ => some history) (fun _ _ _ _ => some sections) env := by
  have hended : s.cursorToEnd.line.overflow = false := ho
  have hrecord : record s.cursorToEnd.history s.cursorToEnd.line = some history := hr
  have hrun : run s.cursorToEnd.info history env s.cursorToEnd.line.text = some sections := he
  simp only [enter,submitWith,hended,Bool.false_eq_true,if_false,hrecord,hs.cursorToEnd.line.asStr,
    hrun,ofOption_some,bind_eq,ret_bind]

/-- Any other line is handed to both, and Enter fails when one of them does. -/
lemma enter_asks (ho : s.line.overflow = false) (hs : s.Sound) {P : Shell → Prop}
    (h : (s.enter record run env).All P) :
    ∃ history, record s.history s.cursorToEnd.line = some history ∧
      ∃ sections, run s.info history env s.line.text = some sections := by
  have hended : s.cursorToEnd.line.overflow = false := ho
  simp only [enter,submitWith,hended,Bool.false_eq_true,if_false,bind_eq,all_bind,all_performAll,
    redraw_all hs.cursorToEnd.line,hs.cursorToEnd.line.asStr,ofOption_some,ret_bind] at h
  change (ofOption (record s.history s.cursorToEnd.line) : ShellProgram History).All _ at h
  cases hr : record s.history s.cursorToEnd.line with
  | none =>
    rw [hr] at h
    exact h.elim
  | some history =>
    refine ⟨history,rfl,?_⟩
    rw [hr,ofOption_some,all_ret] at h
    change (ofOption (run s.info history env s.line.text) : ShellProgram _).All _ at h
    cases he : run s.info history env s.line.text with
    | none =>
      rw [he] at h
      exact h.elim
    | some sections => exact ⟨sections,rfl⟩

lemma enter_sound (hs : s.Sound) (env : Environment) :
    (s.enter History.record execute env).All Sound := by
  have hkey : (DecodedKey.unicode '\n').action = .submit := rfl
  rw [← handleKey_submit hkey]
  exact (handleKey_edits hs env _).mono fun s' h => h.1

lemma passesToRecord_iff (hs : s.Sound) : s.PassesToRecord env ↔ s.line.overflow = false := by
  constructor
  · rintro ⟨record,-,hne⟩
    by_contra ho
    exact hne (enter_overflow (Bool.eq_true_of_not_eq_false ho))
  · intro ho
    refine ⟨fun history line => if line = s.cursorToEnd.line then none else history.record line,
      fun history line hl => if_neg hl,fun he => ?_⟩
    have hall := enter_sound hs env
    rw [← he] at hall
    obtain ⟨history,hr,-⟩ := enter_asks ho hs hall
    rw [if_pos rfl] at hr
    cases hr

lemma passesToExecute_iff (hs : s.Sound) : s.PassesToExecute env ↔ s.line.overflow = false := by
  constructor
  · rintro ⟨run,-,hne⟩
    by_contra ho
    exact hne (enter_overflow (Bool.eq_true_of_not_eq_false ho))
  · intro ho
    refine ⟨fun info history env' text =>
      if text = s.line.text then none else execute info history env' text,
      fun info history env' text ht => if_neg ht,fun he => ?_⟩
    have hall := enter_sound hs env
    rw [← he] at hall
    obtain ⟨history,-,sections,hr⟩ := enter_asks ho hs hall
    rw [if_pos rfl] at hr
    cases hr

end Enter

/-- In every run the flag says whether a byte was rejected since the line was last shortened, only
a full line has it, no entry of the history has it, and Enter records and executes exactly the
lines without it. -/
theorem overlong_never_executed (h : Traced s log) :
    (s.line.overflow = true ↔ Overlong log.line) ∧
    (s.history.draft.overflow = true ↔ Overlong log.draft) ∧
    (s.line.overflow = true → s.line.len = 256) ∧
    (∀ i < s.history.len, (s.history.get i).overflow = false) ∧
    ∀ env key, key.action = .submit →
      s.handleKey env key = s.enter History.record execute env ∧
      (s.PassesToRecord env ↔ s.line.overflow = false) ∧
      (s.PassesToExecute env ↔ s.line.overflow = false) ∧
      (s.line.overflow = false → ∃ history sections,
        s.history.record s.cursorToEnd.line = some history ∧
        execute s.info history env s.line.text = some sections ∧
        s.handleKey env key =
          s.enter (fun _ _ => some history) (fun _ _ _ _ => some sections) env) := by
  have hs := h.reachable.sound
  have ht := h.tracked
  refine ⟨ht.line.flag,ht.draft.flag,ht.line.full,ht.entries,fun env key hkey => ?_⟩
  refine ⟨handleKey_submit hkey,passesToRecord_iff hs,passesToExecute_iff hs,fun ho => ?_⟩
  obtain ⟨history,hr,sections,he⟩ := enter_asks ho hs (enter_sound hs env)
  refine ⟨history,sections,hr,he,?_⟩
  rw [handleKey_submit hkey]
  exact enter_answers ho hs hr he

/-- Keys `a` at a new prompt. -/
lemma typed_traced (n : ℕ) (hn : n ≤ maxInput) :
    ∃ s log, Traced s log ∧ s.line.Holds (List.replicate n 97) [] := by
  let env : Environment := ⟨0,0,none,none,fun _ => .error "no initialized Ethernet controller"⟩
  induction n with
  | zero =>
    let info : SystemInfo := ⟨0,Vector.replicate 12 0,Vector.replicate 48 0,false⟩
    obtain ⟨s,hs,-⟩ := (new_sound info env).exists_returns
    refine ⟨s,_,.new hs,?_⟩
    rw [(new_returns hs).1]
    exact Line.holds_new
  | succ n ih =>
    obtain ⟨s,log,ht,hh⟩ := ih (by omega)
    obtain ⟨s',hs',hedits⟩ :=
      (handleKey_edits ht.reachable.sound env (.unicode 'a')).exists_returns
    refine ⟨s',_,ht.key hs',?_⟩
    have hpair := hedits.2 (List.replicate n 97++[97],[]) (by
      rw [hh.before,hh.after]
      change some (if _ then _ else _) = _
      rw [if_pos ⟨by decide,by simpa [maxInput] using hn⟩]
      rfl)
    rw [List.replicate_succ']
    exact hpair

/-- After 257 keys `a` the byte that did not fit is on record, and Enter discards the line. -/
theorem overlong_never_executed_typed : ∃ s log, Traced s log ∧ s.line.overflow = true ∧
    Overlong log.line ∧ ∀ env, ¬s.PassesToExecute env := by
  let env : Environment := ⟨0,0,none,none,fun _ => .error "no initialized Ethernet controller"⟩
  obtain ⟨s,log,ht,hh⟩ := typed_traced maxInput le_rfl
  have hfull : s.line.len = maxInput := by
    rw [hh.len,List.length_replicate]
    rfl
  obtain ⟨s',hs',-⟩ := (handleKey_edits ht.reachable.sound env (.unicode 'a')).exists_returns
  have hinsert : (s.redrawWith ((s.line.insert 97).map Prod.fst)).Returns s' := hs'
  obtain ⟨hl,-⟩ := redrawWith_returns hinsert
  rw [Line.insert_full ⟨by decide,by decide⟩ hfull] at hl
  have ho : s'.line.overflow = true := by
    rw [← Option.some_inj.mp hl]
  have hresult := overlong_never_executed (ht.key hs')
  refine ⟨s',_,ht.key hs',ho,hresult.1.mp ho,fun env hpass => ?_⟩
  have hfalse := (hresult.2.2.2.2 env (.unicode '\n') rfl).2.2.1.mp hpass
  rw [ho] at hfalse
  cases hfalse

end Shell

end CrabOs.Crabsh
