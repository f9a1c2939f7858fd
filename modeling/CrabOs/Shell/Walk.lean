import CrabOs.Shell.History

/-! Walking up and down the history: a position that stops at both ends, with the line that was
being edited behind the newest entry. -/
namespace CrabOs.Crabsh.History

/-- The keys that browse. -/
inductive Move
  | previous | next
  deriving DecidableEq

/-- A call is given the line that the one before it returned. -/
def move (s : History × Line) : Move → History × Line
  | .previous => s.1.previous s.2
  | .next => s.1.next s.2

def walk (moves : List Move) (s : History × Line) : History × Line := moves.foldl move s

/-- Positions below `len` are entries, oldest first; `len` is the line being edited. -/
def moveTo (len position : ℕ) : Move → ℕ
  | .previous => position-1
  | .next => min (position+1) len

def position (len : ℕ) (moves : List Move) : ℕ := moves.foldl (moveTo len) len

/-- The line shown at a position. -/
def lineAt (h : History) (draft : Line) (position : ℕ) : Line :=
  if position < h.len then { h.get position with cursor := (h.get position).len } else draft

/-- The history after a walk from `h` that has come to a position, and the line it returned. -/
structure WalkedTo (h : History) (draft : Line) (position : ℕ) (s : History × Line) : Prop where
  lines : s.1.lines = h.lines
  start : s.1.start = h.start
  len : s.1.len = h.len
  bound : position ≤ h.len
  browsing : s.1.browsing = if position < h.len then some position else none
  kept : position < h.len → s.1.draft = draft
  line : s.2 = h.lineAt draft position

section Steps
variable {h : History} {draft : Line} {p : ℕ} {s : History × Line}

lemma WalkedTo.get (hw : WalkedTo h draft p s) (index : ℕ) : s.1.get index = h.get index := by
  unfold History.get
  rw [hw.lines,hw.start]

lemma lineAt_of_lt (hp : p < h.len) :
    h.lineAt draft p = { h.get p with cursor := (h.get p).len } := if_pos hp

lemma lineAt_of_le (hp : h.len ≤ p) : h.lineAt draft p = draft := if_neg (Nat.not_lt.mpr hp)

/-- Going up takes the draft from the line being edited, and keeps it from there on. -/
lemma WalkedTo.previous (hw : WalkedTo h draft p s) :
    WalkedTo h draft (p-1) (s.1.previous s.2) := by
  have hlen := hw.len
  have hbound := hw.bound
  unfold History.previous
  by_cases hzero : s.1.len = 0
  · rw [if_pos hzero,show p-1 = p by omega]
    exact hw
  · rw [if_neg hzero]
    have hup : p-1 < h.len := by omega
    have hb := hw.browsing
    by_cases hp : p < h.len
    · rw [if_pos hp] at hb
      simp only [hb]
      refine ⟨hw.lines,hw.start,hlen,hup.le,(if_pos hup).symm,fun _ => hw.kept hp,?_⟩
      rw [lineAt_of_lt hup,hw.get]
    · rw [if_neg hp] at hb
      simp only [hb]
      have hindex : s.1.len-1 = p-1 := by omega
      have hline : s.2 = draft := hw.line.trans (lineAt_of_le (by omega))
      rw [hindex]
      refine ⟨hw.lines,hw.start,hlen,hup.le,(if_pos hup).symm,fun _ => hline,?_⟩
      rw [lineAt_of_lt hup,hw.get]

/-- Going down past the newest entry gives the draft back. -/
lemma WalkedTo.next (hw : WalkedTo h draft p s) :
    WalkedTo h draft (min (p+1) h.len) (s.1.next s.2) := by
  have hlen := hw.len
  have hbound := hw.bound
  have hb := hw.browsing
  unfold History.next
  by_cases hp : p < h.len
  · rw [if_pos hp] at hb
    simp only [hb]
    by_cases hdown : p+1 < h.len
    · rw [if_pos (by omega),show min (p+1) h.len = p+1 by omega]
      refine ⟨hw.lines,hw.start,hlen,hdown.le,(if_pos hdown).symm,fun _ => hw.kept hp,?_⟩
      rw [lineAt_of_lt hdown,hw.get]
    · rw [if_neg (by omega),show min (p+1) h.len = h.len by omega]
      refine ⟨hw.lines,hw.start,hlen,le_rfl,(if_neg (Nat.lt_irrefl _)).symm,
        fun hl => absurd hl (Nat.lt_irrefl _),?_⟩
      rw [lineAt_of_le le_rfl]
      exact hw.kept hp
  · rw [if_neg hp] at hb
    simp only [hb]
    rw [show min (p+1) h.len = p by omega]
    exact hw

lemma WalkedTo.move (hw : WalkedTo h draft p s) (m : Move) :
    WalkedTo h draft (moveTo h.len p m) (History.move s m) := by
  cases m with
  | previous => exact hw.previous
  | next => exact hw.next

lemma WalkedTo.walk (hw : WalkedTo h draft p s) (moves : List Move) :
    WalkedTo h draft (moves.foldl (moveTo h.len) p) (History.walk moves s) := by
  induction moves generalizing p s with
  | nil => exact hw
  | cons m moves ih => exact ih (hw.move m)

end Steps

/-- From a history that is not browsed, any walk returns the entry at its position with the cursor
at the end, and the line it started from behind the newest one. -/
theorem walk_returns {h : History} (hb : h.browsing = none) (draft : Line) (moves : List Move) :
    (walk moves (h,draft)).2 = h.lineAt draft (position h.len moves) := by
  have hstart : WalkedTo h draft h.len (h,draft) :=
    ⟨rfl,rfl,rfl,le_rfl,by rw [if_neg (Nat.lt_irrefl _),hb],fun hl => absurd hl (Nat.lt_irrefl _),
      (lineAt_of_le le_rfl).symm⟩
  exact (hstart.walk moves).line

/-- Up twice and down twice, with one entry recorded, brings the edited line back. -/
theorem walk_returns_draft : ∃ line h, new.record line = some h ∧ h.len = 1 ∧
    ∀ draft, (walk [.previous,.previous,.next,.next] (h,draft)).2 = draft := by
  obtain ⟨line,-,hh,-⟩ := Line.holds_new.insert (x := 120) ⟨by decide,by decide⟩ (by decide)
  have hnew : new.Holds (lastN historySize []) := holds_new
  obtain ⟨h,hrecord,hb,hholds⟩ := hnew.record (by simp) hh.valid
  have hblank : isBlank line.text = false := by
    have htext : line.text = "x" := Option.some_inj.mp (hh.valid.asStr.symm.trans (by
      rw [hh.asStr]
      decide))
    rw [htext]
    decide
  have hlen : h.len = 1 := by
    rw [hholds.len,if_neg (by simp [hblank])]
    rfl
  refine ⟨line,h,hrecord,hlen,fun draft => ?_⟩
  rw [walk_returns hb,hlen]
  exact lineAt_of_le hlen.le

end CrabOs.Crabsh.History
