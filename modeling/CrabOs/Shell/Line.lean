import Mathlib.Data.List.DropRight
import CrabOs.Vga.Writer

/-! The bounded line editor: a byte buffer edited in place around a cursor, and the pair of
byte lists it stands for. -/
namespace CrabOs.Crabsh
open CrabOs.Vga

def maxInput : ℕ := 256

/-- `slice::copy_within` for bytes; an illegal range aborts. -/
def copyWithin {n : ℕ} (v : Vector UInt8 n) (start stop dest : ℕ) : Option (Vector UInt8 n) :=
  if start ≤ stop ∧ stop ≤ n ∧ dest+(stop-start) ≤ n then
    some (Vector.ofFn fun i =>
      if dest ≤ i.val ∧ i.val < dest+(stop-start) then v[start+(i.val-dest)]?.getD 0 else v[i])
  else none

/-- An indexed store; an index past the end aborts. -/
def storeByte {n : ℕ} (v : Vector UInt8 n) (index : ℕ) (byte : UInt8) : Option (Vector UInt8 n) :=
  if h : index < n then some (v.set index byte h) else none

structure Line where
  bytes : Vector UInt8 maxInput
  len : ℕ
  cursor : ℕ
  overflow : Bool
  deriving DecidableEq

namespace Line

def new : Line := ⟨Vector.replicate maxInput 0,0,0,false⟩

/-- The first `len` bytes. -/
def content (l : Line) : List UInt8 := l.bytes.toList.take l.len

/-- The slice `bytes[..len]` must exist and be UTF-8. -/
def asStr (l : Line) : Option String :=
  if l.len ≤ maxInput then AsciiText.fromUtf8 l.content else none

def insert (l : Line) (byte : UInt8) : Option (Line × Bool) :=
  if !(isAsciiGraphic byte || byte = 32) then some (l,false)
  else if l.len = maxInput then some ({ l with overflow := true },false)
  else do
    let shifted ← copyWithin l.bytes l.cursor l.len (l.cursor+1)
    let stored ← storeByte shifted l.cursor byte
    some (⟨stored,l.len+1,l.cursor+1,l.overflow⟩,true)

def delete (l : Line) : Option Line :=
  if l.cursor < l.len then do
    let shifted ← copyWithin l.bytes (l.cursor+1) l.len l.cursor
    some ⟨shifted,l.len-1,l.cursor,false⟩
  else some l

def backspace (l : Line) : Option Line :=
  if 0 < l.cursor then delete { l with cursor := l.cursor-1 } else some l

/-- One loop of `delete_word`; every backspace moves the cursor, so `fuel` is the cursor. -/
def backspaceWhile (p : UInt8 → Bool) : ℕ → Line → Option Line
  | 0,l => some l
  | fuel+1,l =>
    if 0 < l.cursor then
      l.bytes[l.cursor-1]?.bind fun byte =>
        if p byte then l.backspace.bind (backspaceWhile p fuel) else some l
    else some l

def deleteWord (l : Line) : Option Line :=
  (backspaceWhile (fun byte => byte = 32) l.cursor l).bind fun trimmed =>
    backspaceWhile (fun byte => byte ≠ 32) trimmed.cursor trimmed

/-- The bytes before the cursor. -/
def before (l : Line) : List UInt8 := l.content.take l.cursor

/-- The bytes from the cursor on. -/
def after (l : Line) : List UInt8 := l.content.drop l.cursor

end Line

/-- A byte the editor accepts. -/
def IsPrintable (b : UInt8) : Prop := 0x20 ≤ b.toNat ∧ b.toNat ≤ 0x7e

instance (b : UInt8) : Decidable (IsPrintable b) := inferInstanceAs (Decidable (_ ∧ _))

lemma isPrintable_iff (b : UInt8) : (isAsciiGraphic b || b = 32) = true ↔ IsPrintable b := by
  unfold isAsciiGraphic IsPrintable
  simp only [Bool.or_eq_true,Bool.and_eq_true,decide_eq_true_eq,UInt8.le_iff_toNat_le,
    ← UInt8.toNat_inj]
  change (33 ≤ b.toNat ∧ b.toNat ≤ 126) ∨ b.toNat = 32 ↔ _
  omega

lemma IsPrintable.lt {x : UInt8} (h : IsPrintable x) : x < 128 := by
  rw [UInt8.lt_iff_toNat_lt]
  exact Nat.lt_of_le_of_lt h.2 (by decide)

namespace Line

/-- The buffer stands for the text `b ++ a` with its cursor between the two lists. -/
structure Holds (l : Line) (b a : List UInt8) : Prop where
  len : l.len = b.length+a.length
  cursor : l.cursor = b.length
  bound : l.len ≤ maxInput
  bytes : ∀ i < l.len, l.bytes[i]? = (b++a)[i]?
  printable : ∀ x ∈ b++a, IsPrintable x

/-- Reachable lines: bounded, printable, with the cursor inside the text. -/
def Valid (l : Line) : Prop := l.Holds l.before l.after

variable {l : Line} {b a : List UInt8}

lemma Holds.content (h : l.Holds b a) : l.content = b++a := by
  apply List.ext_getElem?
  intro i
  have hlen := h.len
  have hbound := h.bound
  rw [Line.content,List.getElem?_take]
  split_ifs with hi
  · rw [← h.bytes i hi]
    simp
  · rw [List.getElem?_eq_none]
    simp only [List.length_append]
    omega

lemma Holds.before (h : l.Holds b a) : l.before = b := by
  rw [Line.before,h.content,h.cursor,List.take_left]

lemma Holds.after (h : l.Holds b a) : l.after = a := by
  rw [Line.after,h.content,h.cursor,List.drop_left]

lemma Holds.valid (h : l.Holds b a) : l.Valid := by
  unfold Valid
  rwa [h.before,h.after]

theorem holds_new : new.Holds [] [] := ⟨rfl,rfl,Nat.zero_le _,by simp [new],by simp⟩

lemma copyWithin_eq {n : ℕ} (v : Vector UInt8 n) (start stop dest : ℕ) (h1 : start ≤ stop)
    (h2 : stop ≤ n) (h3 : dest+(stop-start) ≤ n) :
    ∃ u, copyWithin v start stop dest = some u ∧ ∀ i < n, u[i]? =
      if dest ≤ i ∧ i < dest+(stop-start) then v[start+(i-dest)]? else v[i]? := by
  refine ⟨_,if_pos ⟨h1,h2,h3⟩,?_⟩
  intro i hi
  simp only [Vector.getElem?_ofFn,hi,dif_pos]
  split_ifs with hr
  · have hs : start+(i-dest) < n := by omega
    simp [hs]
  · simp [hi]

/-- Shift the tail right and store the byte in the gap. -/
theorem Holds.insert (h : l.Holds b a) {x : UInt8} (hx : IsPrintable x) (hroom : l.len < maxInput) :
    ∃ l', l.insert x = some (l',true) ∧ l'.Holds (b++[x]) a ∧ l'.overflow = l.overflow := by
  have hlen := h.len
  have hcursor := h.cursor
  obtain ⟨u,hu,hget⟩ := copyWithin_eq l.bytes l.cursor l.len (l.cursor+1) (by omega) h.bound
    (by omega)
  have hstore : storeByte u l.cursor x = some (u.set l.cursor x (by omega)) :=
    dif_pos (by omega)
  refine ⟨⟨u.set l.cursor x (by omega),l.len+1,l.cursor+1,l.overflow⟩,?_,?_,rfl⟩
  · simp [Line.insert,(isPrintable_iff x).mpr hx,hroom.ne,hu,hstore]
  · refine ⟨by simp only [List.length_append,List.length_singleton]; omega,by simp [hcursor],
      hroom,?_,?_⟩
    · intro i hi
      change i < l.len+1 at hi
      simp only [Vector.getElem?_set,List.append_assoc,List.singleton_append]
      rcases lt_trichotomy i l.cursor with hlt | rfl | hgt
      · rw [if_neg (by omega),hget i (by omega),if_neg (by omega),h.bytes i (by omega),
          List.getElem?_append_left (by omega),List.getElem?_append_left (by omega)]
      · rw [if_pos rfl,hcursor,List.getElem?_append_right le_rfl,Nat.sub_self]
        simp
      · obtain ⟨j,rfl⟩ : ∃ j, i = l.cursor+1+j := ⟨i-(l.cursor+1),by omega⟩
        rw [if_neg (by omega),hget _ (by omega),if_pos ⟨by omega,by omega⟩,h.bytes _ (by omega),
          List.getElem?_append_right (by omega),List.getElem?_append_right (by omega)]
        have e1 : l.cursor+(l.cursor+1+j-(l.cursor+1))-b.length = j := by omega
        have e2 : l.cursor+1+j-b.length = j+1 := by omega
        rw [e1,e2,List.getElem?_cons_succ]
    · intro y hy
      simp only [List.append_assoc,List.singleton_append,List.mem_append,List.mem_cons] at hy
      rcases hy with hy | rfl | hy
      · exact h.printable y (by simp [hy])
      · exact hx
      · exact h.printable y (by simp [hy])

lemma insert_full (hx : IsPrintable x) (hfull : l.len = maxInput) :
    l.insert x = some ({ l with overflow := true },false) := by
  simp [Line.insert,(isPrintable_iff x).mpr hx,hfull]

lemma insert_rejected (hx : ¬IsPrintable x) : l.insert x = some (l,false) := by
  have h : ¬(isAsciiGraphic x || x = 32) = true := fun hh => hx ((isPrintable_iff x).mp hh)
  simp [Line.insert,h]

/-- Shift the tail left over the byte at the cursor. -/
theorem Holds.delete {x : UInt8} (h : l.Holds b (x :: a)) :
    ∃ l', l.delete = some l' ∧ l'.Holds b a ∧ l'.overflow = false := by
  have hlen := h.len
  have hcursor := h.cursor
  rw [List.length_cons] at hlen
  obtain ⟨u,hu,hget⟩ := copyWithin_eq l.bytes (l.cursor+1) l.len l.cursor (by omega) h.bound
    (by have := h.bound; omega)
  refine ⟨⟨u,l.len-1,l.cursor,false⟩,?_,?_,rfl⟩
  · rw [Line.delete,if_pos (by omega),hu]
    rfl
  · have hbound := h.bound
    refine ⟨by simp only; omega,hcursor,by simp only; omega,?_,?_⟩
    · intro i hi
      change i < l.len-1 at hi
      change u[i]? = _
      rw [hget i (by omega)]
      by_cases hlt : i < l.cursor
      · rw [if_neg (by omega),h.bytes i (by omega),List.getElem?_append_left (by omega),
          List.getElem?_append_left (by omega)]
      · obtain ⟨j,rfl⟩ : ∃ j, i = l.cursor+j := ⟨i-l.cursor,by omega⟩
        rw [if_pos ⟨by omega,by omega⟩,h.bytes _ (by omega),
          List.getElem?_append_right (by omega),List.getElem?_append_right (by omega)]
        have e1 : l.cursor+1+(l.cursor+j-l.cursor)-b.length = j+1 := by omega
        have e2 : l.cursor+j-b.length = j := by omega
        rw [e1,e2,List.getElem?_cons_succ]
    · intro y hy
      exact h.printable y (by simp only [List.mem_append,List.mem_cons] at hy ⊢; tauto)

lemma Holds.delete_end (h : l.Holds b []) : l.delete = some l := by
  have hlen := h.len
  have hcursor := h.cursor
  rw [List.length_nil] at hlen
  rw [Line.delete,if_neg (by omega)]

/-- Moving the cursor splits the same text elsewhere. -/
theorem Holds.move (h : l.Holds b a) (b' a' : List UInt8) (he : b'++a' = b++a) :
    { l with cursor := b'.length }.Holds b' a' := by
  have hlen : b'.length+a'.length = b.length+a.length := by
    rw [← List.length_append,← List.length_append,he]
  exact ⟨h.len.trans hlen.symm,rfl,h.bound,fun i hi => he ▸ h.bytes i hi,he ▸ h.printable⟩

lemma Holds.move_left {x : UInt8} (h : l.Holds (b++[x]) a) :
    { l with cursor := l.cursor-1 }.Holds b (x :: a) := by
  have hm := h.move b (x :: a) (by simp)
  have hc := h.cursor
  rw [List.length_append,List.length_singleton] at hc
  rwa [show b.length = l.cursor-1 by omega] at hm

theorem Holds.backspace {x : UInt8} (h : l.Holds (b++[x]) a) :
    ∃ l', l.backspace = some l' ∧ l'.Holds b a ∧ l'.overflow = false := by
  have hc := h.cursor
  rw [List.length_append,List.length_singleton] at hc
  rw [Line.backspace,if_pos (by omega)]
  exact h.move_left.delete

lemma Holds.backspace_start (h : l.Holds [] a) : l.backspace = some l := by
  have hc := h.cursor
  rw [List.length_nil] at hc
  rw [Line.backspace,if_neg (by omega)]

/-- A word loop removes the longest trailing run of matching bytes. -/
theorem Holds.backspaceWhile (p : UInt8 → Bool) (h : l.Holds b a) :
    ∃ l', backspaceWhile p b.length l = some l' ∧ l'.Holds (b.rdropWhile p) a := by
  induction b using List.reverseRecOn generalizing l with
  | nil => exact ⟨l,rfl,by simpa using h⟩
  | append_singleton b x ih =>
    have hc := h.cursor
    have hlen := h.len
    simp only [List.length_append,List.length_singleton] at hc hlen
    have hbyte : l.bytes[l.cursor-1]? = some x := by
      rw [h.bytes _ (by omega),hc]
      simp
    rw [List.length_append,List.length_singleton,Line.backspaceWhile,if_pos (by omega),hbyte]
    by_cases hp : p x
    · obtain ⟨l',hl',hh,-⟩ := h.backspace
      obtain ⟨l'',hl'',hh'⟩ := ih hh
      exact ⟨l'',by simp [hp,hl',hl''],by simpa [List.rdropWhile_concat,hp] using hh'⟩
    · exact ⟨l,by simp [hp],by simpa [List.rdropWhile_concat,hp] using h⟩

theorem Holds.deleteWord (h : l.Holds b a) :
    ∃ l', l.deleteWord = some l' ∧
      l'.Holds ((b.rdropWhile (fun x => x = 32)).rdropWhile (fun x => x ≠ 32)) a := by
  obtain ⟨u,hu,hh⟩ := h.backspaceWhile (fun x => x = 32)
  obtain ⟨v,hv,hh'⟩ := hh.backspaceWhile (fun x => x ≠ 32)
  refine ⟨v,?_,hh'⟩
  rw [Line.deleteWord,h.cursor,hu]
  change Line.backspaceWhile _ u.cursor u = _
  rw [hh.cursor,hv]

/-- The text of a line, read as ASCII. -/
def text (l : Line) : String := AsciiText.ofBytes l.content

/-- A valid line is always a string, with one character per byte. -/
theorem Holds.asStr (h : l.Holds b a) : l.asStr = some (AsciiText.ofBytes (b++a)) := by
  rw [Line.asStr,if_pos h.bound,h.content,
    AsciiText.fromUtf8_ascii (fun x hx => (h.printable x hx).lt)]

lemma Valid.asStr (h : l.Valid) : l.asStr = some l.text := by
  rw [Holds.asStr h,text,Holds.content h]

lemma Valid.printable (h : l.Valid) {x : UInt8} (hx : x ∈ l.content) : IsPrintable x :=
  Holds.printable h x (by rwa [← Holds.content h])

end Line
end CrabOs.Crabsh
