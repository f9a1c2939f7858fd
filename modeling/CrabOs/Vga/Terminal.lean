import CrabOs.Vga.Writer

/-! The reference terminal: the cursor rules of the console over an unbounded array of lines
that never evicts. Printable text is laid out on a tape of `columns` cells per line. -/
namespace CrabOs.Vga

/-- Every line exists from the start and is blank until it is written. -/
structure Terminal where
  lines : ℕ → ℕ → ScreenChar
  cursor : Position
  lastLine : ℕ
  color : UInt8
  columns : ℕ

namespace Terminal

def new : Terminal := ⟨fun _ _ => blank,⟨0,0⟩,0,Color.lightGray.code,bufferWidth⟩

def clear (t : Terminal) : Terminal := ⟨fun _ _ => blank,⟨0,0⟩,0,Color.lightGray.code,t.columns⟩

def setColor (t : Terminal) (foreground background : Color) : Terminal :=
  { t with color := colorCode foreground background }

def setColumns (t : Terminal) (columns : ℕ) : Terminal := { t with columns := columns }

def ensureLine (t : Terminal) (line : ℕ) : Terminal := { t with lastLine := max t.lastLine line }

def moveTo (t : Terminal) (p : Position) : Terminal := { t with cursor := p }

def newline (t : Terminal) : Terminal :=
  (t.moveTo ⟨t.cursor.line+1,0⟩).ensureLine (t.cursor.line+1)

def carriageReturn (t : Terminal) : Terminal := t.moveTo ⟨t.cursor.line,0⟩

def putCell (t : Terminal) (cell : ScreenChar) : Terminal :=
  { t with
    lines := fun l c => if l = t.cursor.line ∧ c = t.cursor.column then cell else t.lines l c
    cursor := ⟨t.cursor.line,t.cursor.column+1⟩ }

def putByte (t : Terminal) (byte : UInt8) : Terminal :=
  let ready := if t.cursor.column = t.columns then t.newline else t
  ready.putCell ⟨glyph byte,ready.color⟩

def putSpaces : ℕ → Terminal → Terminal
  | 0,t => t
  | n+1,t => putSpaces n (t.putByte 32)

def writeByte (t : Terminal) (byte : UInt8) : Terminal :=
  if byte = 10 then t.newline
  else if byte = 13 then t.carriageReturn
  else if byte = 9 then putSpaces (4-t.cursor.column % 4) t
  else t.putByte byte

def writeBytes (bytes : List UInt8) (t : Terminal) : Terminal := bytes.foldl writeByte t

def writeString (t : Terminal) (text : String) : Terminal :=
  t.writeBytes (text.toList.map charByte)

def replaceInput (t : Terminal) (anchor : Position) (text : String) (cursor oldLen : ℕ) :
    Terminal :=
  let erased := putSpaces (oldLen-text.utf8ByteSize) ((t.moveTo anchor).writeString text)
  (erased.moveTo (anchor.offset cursor t.columns)).ensureLine (anchor.offset cursor t.columns).line

/-- Scrolling moves only the view, which the reference terminal does not have. -/
def apply (t : Terminal) : WriterOp → Terminal
  | .writeByte byte => t.writeByte byte
  | .writeString text => t.writeString text
  | .setColor foreground background => t.setColor foreground background
  | .clear => t.clear
  | .scrollUp => t
  | .scrollDown => t
  | .replaceInput anchor text cursor oldLen => t.replaceInput anchor text cursor oldLen

def applyAll (ops : List WriterOp) (t : Terminal) : Terminal := ops.foldl apply t

end Terminal

/-! ### The tape -/

/-- The tape cell a position writes to next. A pending wrap and the start of the following
line are the same cell. -/
def Position.linear (p : Position) (width : ℕ) : ℕ := p.line*width+p.column

namespace Position

lemma offset_linear (p : Position) (n : ℕ) {w : ℕ} (hw : 0 < w) :
    (p.offset n w).linear w = p.linear w+n := by
  have hdiv := Nat.div_add_mod (p.column+n) w
  unfold offset linear
  simp only
  split_ifs with h
  · obtain ⟨hpos,hmod⟩ := h
    have hq : 0 < (p.column+n)/w :=
      Nat.div_pos (Nat.le_of_dvd hpos (Nat.dvd_of_mod_eq_zero hmod)) hw
    obtain ⟨q,hq'⟩ : ∃ q, (p.column+n)/w = q+1 := ⟨_,(Nat.succ_pred_eq_of_pos hq).symm⟩
    rw [hq'] at hdiv ⊢
    have : p.line+(q+1)-1 = p.line+q := by omega
    rw [this]
    nlinarith
  · nlinarith

lemma offset_column_le (p : Position) (n : ℕ) {w : ℕ} (hw : 0 < w) :
    (p.offset n w).column ≤ w := by
  unfold offset
  simp only
  split_ifs
  · exact le_rfl
  · exact (Nat.mod_lt _ hw).le

/-- Only an untouched start of a line has column zero. -/
lemma offset_column_pos (p : Position) {n w : ℕ} (hw : 0 < w) (h : 0 < p.column+n) :
    0 < (p.offset n w).column := by
  unfold offset
  simp only
  split_ifs with hm
  · exact hw
  · exact Nat.pos_of_ne_zero (fun h0 => hm ⟨h,h0⟩)

/-- A position is determined by its tape cell once its wrap is pending. -/
lemma eq_of_linear {p q : Position} {w : ℕ} (hp : p.column ≤ w) (hq : q.column ≤ w)
    (hp0 : 0 < p.column) (hq0 : 0 < q.column) (h : p.linear w = q.linear w) : p = q := by
  unfold linear at h
  have hl : p.line = q.line := by
    rcases lt_trichotomy p.line q.line with hlt | heq | hgt
    · have : (p.line+1)*w ≤ q.line*w := Nat.mul_le_mul_right w hlt
      nlinarith
    · exact heq
    · have : (q.line+1)*w ≤ p.line*w := Nat.mul_le_mul_right w hgt
      nlinarith
  have hc : p.column = q.column := by rw [hl] at h; omega
  cases p; cases q; simp_all

@[simp] theorem offset_zero {p : Position} {w : ℕ} (hp : p.column ≤ w) : p.offset 0 w = p := by
  by_cases h0 : p.column = 0
  · cases p; simp_all [offset]
  · have hw : 0 < w := by omega
    exact eq_of_linear (offset_column_le p 0 hw) hp (offset_column_pos p hw (by omega))
      (by omega) (by simpa using offset_linear p 0 hw)

/-- Moving in two stretches is moving once. -/
theorem offset_offset {p : Position} {w : ℕ} (hp : p.column ≤ w) (hw : 0 < w) (m n : ℕ) :
    (p.offset m w).offset n w = p.offset (m+n) w := by
  by_cases h0 : p.column+m = 0
  · obtain ⟨hc,rfl⟩ : p.column = 0 ∧ m = 0 := by omega
    rw [offset_zero hp,Nat.zero_add]
  · have hpos := offset_column_pos p hw (n := m) (by omega)
    apply eq_of_linear (w := w) (offset_column_le _ _ hw) (offset_column_le _ _ hw)
    · exact offset_column_pos _ hw (by omega)
    · exact offset_column_pos _ hw (by omega)
    · rw [offset_linear _ _ hw,offset_linear _ _ hw,offset_linear _ _ hw,Nat.add_assoc]

lemma line_le_offset (p : Position) (n : ℕ) {w : ℕ} (hw : 0 < w) :
    p.line ≤ (p.offset n w).line := by
  unfold offset
  dsimp only
  split_ifs with h
  · have : 0 < (p.column+n)/w :=
      Nat.div_pos (Nat.le_of_dvd h.1 (Nat.dvd_of_mod_eq_zero h.2)) hw
    change p.line ≤ p.line+(p.column+n)/w-1
    omega
  · exact Nat.le_add_right _ _

lemma offset_line_mono (p : Position) {m n w : ℕ} (hp : p.column ≤ w) (hw : 0 < w)
    (h : m ≤ n) : (p.offset m w).line ≤ (p.offset n w).line := by
  obtain ⟨k,rfl⟩ := Nat.exists_eq_add_of_le h
  rw [← offset_offset hp hw]
  exact line_le_offset _ _ hw

lemma offset_line_le (p : Position) (n w : ℕ) :
    (p.offset n w).line ≤ p.line+(p.column+n)/w := by
  unfold offset
  simp only
  split_ifs <;> simp

end Position

namespace Terminal

/-- Write bytes that are neither newline, return nor tab. -/
def putBytes (bytes : List UInt8) (t : Terminal) : Terminal := bytes.foldl putByte t

@[simp] lemma putBytes_nil (t : Terminal) : putBytes [] t = t := rfl
@[simp] lemma putBytes_cons (b : UInt8) (bs : List UInt8) (t : Terminal) :
    putBytes (b :: bs) t = putBytes bs (t.putByte b) := rfl
lemma putBytes_append (as bs : List UInt8) (t : Terminal) :
    putBytes (as++bs) t = putBytes bs (putBytes as t) := List.foldl_append

theorem putSpaces_eq (n : ℕ) (t : Terminal) : putSpaces n t = putBytes (List.replicate n 32) t := by
  induction n generalizing t with
  | zero => rfl
  | succ n ih => rw [putSpaces,ih,List.replicate_succ,putBytes_cons]

@[simp] lemma newline_lines (t : Terminal) : t.newline.lines = t.lines := rfl
@[simp] lemma newline_cursor (t : Terminal) : t.newline.cursor = ⟨t.cursor.line+1,0⟩ := rfl
@[simp] lemma newline_columns (t : Terminal) : t.newline.columns = t.columns := rfl
@[simp] lemma newline_color (t : Terminal) : t.newline.color = t.color := rfl
@[simp] lemma newline_lastLine (t : Terminal) :
    t.newline.lastLine = max t.lastLine (t.cursor.line+1) := rfl

/-- The position a byte is stored at, after a pending wrap. -/
def landing (t : Terminal) : Position :=
  if t.cursor.column = t.columns then ⟨t.cursor.line+1,0⟩ else t.cursor

lemma putByte_eq (t : Terminal) (b : UInt8) :
    t.putByte b =
      ((t.moveTo t.landing).ensureLine
        (if t.cursor.column = t.columns then t.cursor.line+1 else 0)).putCell
        ⟨glyph b,t.color⟩ := by
  unfold putByte landing
  by_cases h : t.cursor.column = t.columns <;> simp [h,newline,ensureLine,moveTo]

@[simp] lemma putByte_columns (t : Terminal) (b : UInt8) : (t.putByte b).columns = t.columns := by
  rw [putByte_eq]; rfl

@[simp] lemma putByte_color (t : Terminal) (b : UInt8) : (t.putByte b).color = t.color := by
  rw [putByte_eq]; rfl

/-- Line and column of a cell below the width are recovered from its place on the tape. -/
lemma tape_iff {w l c : ℕ} (p : Position) (hp : p.column < w) :
    l = p.line ∧ c = p.column ↔ c < w ∧ l*w+c = p.linear w := by
  unfold Position.linear
  constructor
  · rintro ⟨rfl,rfl⟩
    exact ⟨hp,rfl⟩
  · rintro ⟨hc,he⟩
    have hw : 0 < w := by omega
    have hl : l = p.line := by
      have h1 := Nat.mul_add_div hw l c
      have h2 := Nat.mul_add_div hw p.line p.column
      rw [Nat.mul_comm w l,he,Nat.mul_comm,h2,Nat.div_eq_of_lt hp,Nat.div_eq_of_lt hc] at h1
      omega
    subst hl
    exact ⟨rfl,by omega⟩

section Tape
variable {t : Terminal} (hw : 0 < t.columns) (hc : t.cursor.column ≤ t.columns)
include hw hc

lemma landing_column : t.landing.column < t.columns := by
  unfold landing
  split_ifs
  · exact hw
  · omega

omit hw hc in
lemma landing_linear : t.landing.linear t.columns = t.cursor.linear t.columns := by
  unfold landing Position.linear
  split_ifs with h
  · rw [h]; ring
  · rfl

/-- The closed form of the cursor agrees with one written byte, pending wraps included. -/
theorem putByte_cursor (b : UInt8) : (t.putByte b).cursor = t.cursor.offset 1 t.columns := by
  have hcursor : (t.putByte b).cursor = ⟨t.landing.line,t.landing.column+1⟩ := by
    rw [putByte_eq]; rfl
  have hl := landing_column hw hc
  have hlin := landing_linear (t := t)
  rw [hcursor]
  apply Position.eq_of_linear (p := ⟨t.landing.line,t.landing.column+1⟩) hl
    (Position.offset_column_le _ _ hw)
  · exact Nat.succ_pos _
  · exact Position.offset_column_pos _ hw (by omega)
  · rw [Position.offset_linear _ _ hw,← hlin]
    exact (Nat.add_assoc _ _ _).symm

lemma putByte_lastLine (hl : t.cursor.line ≤ t.lastLine) (b : UInt8) :
    (t.putByte b).lastLine = max t.lastLine (t.cursor.offset 1 t.columns).line := by
  rw [← putByte_cursor hw hc b,putByte_eq]
  unfold landing
  by_cases h : t.cursor.column = t.columns
  · simp [h,putCell,ensureLine,moveTo]
  · simp [h,putCell,ensureLine,moveTo,hl]

/-- One byte writes exactly its tape cell. -/
theorem putByte_lines (b : UInt8) (l c : ℕ) :
    (t.putByte b).lines l c =
      if c < t.columns ∧ l*t.columns+c = t.cursor.linear t.columns then ⟨glyph b,t.color⟩
      else t.lines l c := by
  have hlines : (t.putByte b).lines l c =
      if l = t.landing.line ∧ c = t.landing.column then ⟨glyph b,t.color⟩ else t.lines l c := by
    rw [putByte_eq]; rfl
  rw [hlines]
  simp only [tape_iff t.landing (landing_column hw hc),landing_linear]

lemma putByte_column_le (b : UInt8) : (t.putByte b).cursor.column ≤ t.columns := by
  rw [putByte_cursor hw hc]
  exact Position.offset_column_le _ _ hw

end Tape

@[simp] lemma putBytes_columns (bs : List UInt8) (t : Terminal) :
    (putBytes bs t).columns = t.columns := by
  induction bs generalizing t with
  | nil => rfl
  | cons b bs ih => rw [putBytes_cons,ih,putByte_columns]

@[simp] lemma putBytes_color (bs : List UInt8) (t : Terminal) :
    (putBytes bs t).color = t.color := by
  induction bs generalizing t with
  | nil => rfl
  | cons b bs ih => rw [putBytes_cons,ih,putByte_color]

/-- Writing text moves the cursor by the closed form. -/
theorem putBytes_cursor (bs : List UInt8) (t : Terminal) (hw : 0 < t.columns)
    (hc : t.cursor.column ≤ t.columns) :
    (putBytes bs t).cursor = t.cursor.offset bs.length t.columns := by
  induction bs generalizing t with
  | nil => exact (Position.offset_zero hc).symm
  | cons b bs ih =>
    rw [putBytes_cons,ih _ (by simpa using hw) (by simpa using putByte_column_le hw hc b),
      putByte_columns,putByte_cursor hw hc,Position.offset_offset hc hw,List.length_cons,
      Nat.add_comm 1]

theorem putBytes_lastLine (bs : List UInt8) (t : Terminal) (hw : 0 < t.columns)
    (hc : t.cursor.column ≤ t.columns) (hl : t.cursor.line ≤ t.lastLine) :
    (putBytes bs t).lastLine = max t.lastLine (t.cursor.offset bs.length t.columns).line := by
  induction bs generalizing t with
  | nil => simp [Position.offset_zero hc,hl]
  | cons b bs ih =>
    have hlast := putByte_lastLine hw hc hl b
    rw [putBytes_cons,ih _ (by simpa using hw) (by simpa using putByte_column_le hw hc b)
      (by rw [hlast,putByte_cursor hw hc]; exact le_max_right _ _),hlast,putByte_columns,
      putByte_cursor hw hc,Position.offset_offset hc hw,List.length_cons,Nat.add_comm 1,
      max_assoc,max_eq_right (Position.offset_line_mono _ hc hw (by omega))]

/-- Cells off the written stretch of tape keep their contents. -/
theorem putBytes_lines_outside (bs : List UInt8) (t : Terminal) (hw : 0 < t.columns)
    (hc : t.cursor.column ≤ t.columns) {l c : ℕ}
    (h : c < t.columns → l*t.columns+c < t.cursor.linear t.columns ∨
      t.cursor.linear t.columns+bs.length ≤ l*t.columns+c) :
    (putBytes bs t).lines l c = t.lines l c := by
  induction bs generalizing t with
  | nil => rfl
  | cons b bs ih =>
    have hlin : (t.putByte b).cursor.linear t.columns = t.cursor.linear t.columns+1 := by
      rw [putByte_cursor hw hc,Position.offset_linear _ _ hw]
    rw [List.length_cons] at h
    rw [putBytes_cons,ih _ (by simpa using hw) (by simpa using putByte_column_le hw hc b)]
    · rw [putByte_lines hw hc,if_neg]
      rintro ⟨hlt,he⟩
      rcases h hlt with hh | hh <;> omega
    · rw [putByte_columns,hlin]
      intro hlt
      rcases h hlt with hh | hh <;> omega

/-- The written stretch of tape shows the bytes in order. -/
theorem putBytes_lines_inside (bs : List UInt8) (t : Terminal) (hw : 0 < t.columns)
    (hc : t.cursor.column ≤ t.columns) {l c i : ℕ} (hcol : c < t.columns)
    (hi : i < bs.length) (he : l*t.columns+c = t.cursor.linear t.columns+i) :
    (putBytes bs t).lines l c = ⟨glyph bs[i],t.color⟩ := by
  induction bs generalizing t i with
  | nil => simp at hi
  | cons b bs ih =>
    have hlin : (t.putByte b).cursor.linear t.columns = t.cursor.linear t.columns+1 := by
      rw [putByte_cursor hw hc,Position.offset_linear _ _ hw]
    have hw' : 0 < (t.putByte b).columns := by simpa using hw
    have hc' : (t.putByte b).cursor.column ≤ (t.putByte b).columns := by
      simpa using putByte_column_le hw hc b
    cases i with
    | zero =>
      rw [putBytes_cons,putBytes_lines_outside bs _ hw' hc' (by
        rw [putByte_columns,hlin]; intro _; omega),putByte_lines hw hc,if_pos ⟨hcol,he⟩]
      rfl
    | succ i =>
      have hi' : i < bs.length := by simpa using hi
      have h := ih (t.putByte b) hw' hc' (by simpa using hcol) hi'
        (by rw [putByte_columns,hlin]; omega)
      simpa using h

end Terminal

/-! ### Growth -/

namespace Terminal

@[simp] lemma ensureLine_columns (t : Terminal) (n : ℕ) : (t.ensureLine n).columns = t.columns := rfl
@[simp] lemma moveTo_columns (t : Terminal) (p : Position) : (t.moveTo p).columns = t.columns := rfl

@[simp] lemma putSpaces_columns (n : ℕ) (t : Terminal) : (putSpaces n t).columns = t.columns := by
  rw [putSpaces_eq,putBytes_columns]

@[simp] lemma writeByte_columns (t : Terminal) (b : UInt8) : (t.writeByte b).columns = t.columns := by
  unfold writeByte
  split_ifs <;> simp [carriageReturn]

@[simp] lemma writeBytes_columns (bs : List UInt8) (t : Terminal) :
    (writeBytes bs t).columns = t.columns := by
  induction bs generalizing t with
  | nil => rfl
  | cons b bs ih => exact (ih (t.writeByte b)).trans (writeByte_columns t b)

/-- No writer operation changes the width. -/
@[simp] theorem apply_columns (t : Terminal) (op : WriterOp) : (t.apply op).columns = t.columns := by
  cases op <;> simp [apply,setColor,clear,writeString,replaceInput]

lemma lastLine_le_putByte (t : Terminal) (b : UInt8) : t.lastLine ≤ (t.putByte b).lastLine := by
  rw [putByte_eq]
  exact le_max_left _ _

lemma lastLine_le_putSpaces (n : ℕ) (t : Terminal) : t.lastLine ≤ (putSpaces n t).lastLine := by
  induction n generalizing t with
  | zero => exact le_rfl
  | succ n ih => exact (lastLine_le_putByte t 32).trans (ih _)

lemma lastLine_le_writeByte (t : Terminal) (b : UInt8) : t.lastLine ≤ (t.writeByte b).lastLine := by
  unfold writeByte
  split_ifs
  · exact le_max_left _ _
  · exact le_rfl
  · exact lastLine_le_putSpaces _ _
  · exact lastLine_le_putByte _ _

lemma lastLine_le_writeBytes (bs : List UInt8) (t : Terminal) :
    t.lastLine ≤ (writeBytes bs t).lastLine := by
  induction bs generalizing t with
  | nil => exact le_rfl
  | cons b bs ih => exact (lastLine_le_writeByte t b).trans (ih _)

/-- Lines are only ever given up by clearing. -/
theorem lastLine_le_apply (t : Terminal) {op : WriterOp} (h : op ≠ .clear) :
    t.lastLine ≤ (t.apply op).lastLine := by
  cases op with
  | writeByte b => exact lastLine_le_writeByte t b
  | writeString text => exact lastLine_le_writeBytes _ t
  | setColor f b => exact le_rfl
  | clear => exact absurd rfl h
  | scrollUp => exact le_rfl
  | scrollDown => exact le_rfl
  | replaceInput anchor text cursor oldLen =>
    have hw := lastLine_le_writeBytes (text.toList.map charByte) (t.moveTo anchor)
    exact hw.trans ((lastLine_le_putSpaces _ _).trans (le_max_left _ _))

end Terminal

/-! ### Redrawn input -/

/-- Every character is one of the printable ASCII characters. -/
def Printable (text : String) : Prop := ∀ c ∈ text.toList, 0x20 ≤ c.toNat ∧ c.toNat ≤ 0x7e

instance : DecidablePred Printable := fun text => List.decidableBAll _ text.toList

/-- The bytes a string is written as. -/
def textBytes (text : String) : List UInt8 := text.toList.map charByte

/-- The bytes a redraw writes: the text, then blanks over what the old text left. -/
def inputBytes (text : String) (oldLen : ℕ) : List UInt8 :=
  textBytes text++List.replicate (oldLen-(textBytes text).length) 32

@[simp] lemma inputBytes_length (text : String) (oldLen : ℕ) :
    (inputBytes text oldLen).length = max (textBytes text).length oldLen := by
  simp only [inputBytes,List.length_append,List.length_replicate]
  omega

/-- A byte that `write_byte` stores as a cell. -/
def IsCell (b : UInt8) : Prop := b ≠ 10 ∧ b ≠ 13 ∧ b ≠ 9

lemma charByte_toNat {c : Char} (h : c.toNat < 128) : (charByte c).toNat = c.toNat := by
  have he : c.toUInt8.toNat = c.toNat % 256 := UInt32.toNat_toUInt8 c.val
  rw [charByte,if_pos h,he]
  omega

namespace Printable
variable {text : String} (h : Printable text)
include h

lemma isAscii : Writer.isAscii text = true := by
  rw [Writer.isAscii,List.all_eq_true]
  intro c hc
  have := h c hc
  exact decide_eq_true (by omega)

lemma byteSize : text.utf8ByteSize = (textBytes text).length := by
  rw [AsciiText.utf8ByteSize_eq,AsciiText.bytes_ascii (fun c hc => by have := h c hc; omega)]
  simp [textBytes]

lemma byte_range {b : UInt8} (hb : b ∈ textBytes text) : 0x20 ≤ b.toNat ∧ b.toNat ≤ 0x7e := by
  obtain ⟨c,hc,rfl⟩ := List.mem_map.mp hb
  have := h c hc
  rw [charByte_toNat (by omega)]
  exact this

lemma isCell {b : UInt8} (hb : b ∈ textBytes text) : IsCell b := by
  have := h.byte_range hb
  refine ⟨?_,?_,?_⟩ <;> rintro rfl <;> simp at this

end Printable

namespace Terminal

lemma writeBytes_eq_putBytes {bs : List UInt8} (h : ∀ b ∈ bs, IsCell b) (t : Terminal) :
    writeBytes bs t = putBytes bs t := by
  induction bs generalizing t with
  | nil => rfl
  | cons b bs ih =>
    obtain ⟨h10,h13,h9⟩ := h b (by simp)
    have hb : t.writeByte b = t.putByte b := by simp [writeByte,h10,h13,h9]
    rw [putBytes_cons,← hb]
    exact ih (fun c hc => h c (by simp [hc])) _

theorem replaceInput_eq {text : String} (h : Printable text) (t : Terminal) (anchor : Position)
    (cursor oldLen : ℕ) :
    t.replaceInput anchor text cursor oldLen =
      ((putBytes (inputBytes text oldLen) (t.moveTo anchor)).moveTo
        (anchor.offset cursor t.columns)).ensureLine (anchor.offset cursor t.columns).line := by
  have hw : (t.moveTo anchor).writeString text = putBytes (textBytes text) (t.moveTo anchor) :=
    writeBytes_eq_putBytes (fun _ hb => h.isCell hb) _
  rw [replaceInput,hw,h.byteSize,putSpaces_eq,inputBytes,putBytes_append]

section Replace
variable {t : Terminal} {anchor : Position} {text : String} {cursor oldLen : ℕ}
  (h : Printable text) (hw : 0 < t.columns) (hc : anchor.column ≤ t.columns)
include h

@[simp] lemma replaceInput_cursor :
    (t.replaceInput anchor text cursor oldLen).cursor = anchor.offset cursor t.columns := by
  rw [replaceInput_eq h]; rfl

lemma replaceInput_columns : (t.replaceInput anchor text cursor oldLen).columns = t.columns := by
  rw [replaceInput_eq h]
  exact putBytes_columns _ _

lemma replaceInput_color : (t.replaceInput anchor text cursor oldLen).color = t.color := by
  rw [replaceInput_eq h]
  exact putBytes_color _ _

lemma replaceInput_lines :
    (t.replaceInput anchor text cursor oldLen).lines =
      (putBytes (inputBytes text oldLen) (t.moveTo anchor)).lines := by
  rw [replaceInput_eq h]; rfl

include hw hc

variable (oldLen) in
/-- A redraw grows the terminal exactly to the last cell it writes or blanks. -/
theorem replaceInput_lastLine (hl : anchor.line ≤ t.lastLine)
    (hcursor : cursor ≤ (textBytes text).length) :
    (t.replaceInput anchor text cursor oldLen).lastLine =
      max t.lastLine (anchor.offset (max (textBytes text).length oldLen) t.columns).line := by
  have hput := putBytes_lastLine (inputBytes text oldLen) (t.moveTo anchor) hw hc hl
  have hmono := Position.offset_line_mono anchor hc hw
    (le_trans hcursor (le_max_left _ oldLen))
  rw [replaceInput_eq h]
  change max (putBytes (inputBytes text oldLen) (t.moveTo anchor)).lastLine
    (anchor.offset cursor t.columns).line = _
  rw [hput,inputBytes_length]
  change max (max t.lastLine (anchor.offset (max (textBytes text).length oldLen) t.columns).line)
    (anchor.offset cursor t.columns).line = _
  omega

end Replace
end Terminal
end CrabOs.Vga
