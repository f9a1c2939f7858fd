import CrabOs.Shell.Editor
import CrabOs.Vga.Refinement

/-! What a prompt with an input line looks like on the reference terminal, and how output,
prompts and redraws keep it so. -/
namespace CrabOs.Crabsh
open CrabOs.Vga

/-! ### Output -/

/-- Nothing stands below the line of the cursor. Lines that earlier input grew are blank. -/
structure Clean (t : Terminal) : Prop where
  wide : 36 ≤ t.columns
  column : t.cursor.column ≤ t.columns
  line : t.cursor.line ≤ t.lastLine
  near : t.lastLine ≤ t.cursor.line+8
  below : ∀ l c, t.cursor.line < l → c < t.columns → t.lines l c = blank

/-- The cursor stands at the start of a blank line. -/
structure Fresh (t : Terminal) : Prop extends Clean t where
  start : t.cursor.column = 0
  empty : ∀ c < t.columns, t.lines t.cursor.line c = blank

namespace Clean
variable {t : Terminal}

lemma newline (h : Clean t) : Fresh t.newline := by
  have hline := h.line
  have hnear := h.near
  refine ⟨⟨h.wide,Nat.zero_le _,?_,?_,?_⟩,rfl,?_⟩
  · exact le_max_right _ _
  · change max t.lastLine (t.cursor.line+1) ≤ t.cursor.line+1+8
    omega
  · intro l c hl hc
    change t.cursor.line+1 < l at hl
    exact h.below l c (by omega) hc
  · intro c hc
    exact h.below _ c (Nat.lt_succ_self _) hc

lemma putByte (h : Clean t) (b : UInt8) : Clean (t.putByte b) := by
  have hpos : 0 < t.columns := lt_of_lt_of_le (by decide) h.wide
  have hcursor := Terminal.putByte_cursor hpos h.column b
  have hlast := Terminal.putByte_lastLine hpos h.column h.line b
  have hmono := Position.line_le_offset t.cursor 1 hpos
  have hnear := h.near
  have hline := h.line
  refine ⟨by simpa using h.wide,?_,?_,?_,?_⟩
  · simpa using Terminal.putByte_column_le hpos h.column b
  · rw [hcursor,hlast]; exact le_max_right _ _
  · rw [hcursor,hlast]; omega
  · intro l c hl hc
    rw [hcursor] at hl
    rw [Terminal.putByte_columns] at hc
    rw [Terminal.putByte_lines hpos h.column,if_neg]
    · exact h.below l c (by omega) hc
    · rintro ⟨-,he⟩
      have hlinear := Position.offset_linear t.cursor 1 hpos
      have hle : (t.cursor.offset 1 t.columns).column ≤ t.columns :=
        Position.offset_column_le _ _ hpos
      have hmul : ((t.cursor.offset 1 t.columns).line+1)*t.columns ≤ l*t.columns :=
        Nat.mul_le_mul_right _ hl
      have hlin : (t.cursor.offset 1 t.columns).linear t.columns =
        (t.cursor.offset 1 t.columns).line*t.columns+(t.cursor.offset 1 t.columns).column := rfl
      rw [Nat.succ_mul] at hmul
      omega

lemma putBytes (h : Clean t) (bs : List UInt8) : Clean (Terminal.putBytes bs t) := by
  induction bs generalizing t with
  | nil => exact h
  | cons b bs ih => exact ih (h.putByte b)

lemma writeByte (h : Clean t) (b : UInt8) : Clean (t.writeByte b) := by
  unfold Terminal.writeByte
  split_ifs
  · exact h.newline.toClean
  · exact ⟨h.wide,Nat.zero_le _,h.line,h.near,h.below⟩
  · rw [Terminal.putSpaces_eq]
    exact h.putBytes _
  · exact h.putByte b

lemma writeBytes (h : Clean t) (bs : List UInt8) : Clean (Terminal.writeBytes bs t) := by
  induction bs generalizing t with
  | nil => exact h
  | cons b bs ih => exact ih (h.writeByte b)

lemma clear (h : 36 ≤ t.columns) : Fresh t.clear :=
  ⟨⟨h,Nat.zero_le _,le_rfl,Nat.zero_le _,fun _ _ _ _ => rfl⟩,rfl,fun _ _ => rfl⟩

lemma output (h : Clean t) {op : WriterOp} (hop : IsOutput op) : Clean (t.apply op) := by
  cases op with
  | writeByte b => exact h.writeByte b
  | writeString text => exact h.writeBytes _
  | setColor f b => exact ⟨h.wide,h.column,h.line,h.near,h.below⟩
  | clear => exact (clear h.wide).toClean
  | scrollUp | scrollDown | replaceInput _ _ _ _ => exact hop.elim

lemma outputs (h : Clean t) {ops : List WriterOp} (hops : ∀ op ∈ ops, IsOutput op) :
    Clean (Terminal.applyAll ops t) := by
  induction ops generalizing t with
  | nil => exact h
  | cons op ops ih =>
    exact ih (h.output (hops op (by simp))) (fun op' hop' => hops op' (by simp [hop']))

end Clean

lemma writeString_newline (t : Terminal) (text : String) :
    t.writeString (text++"\n") = (t.writeString text).newline := by
  have hbytes : (text++"\n").toList.map charByte = text.toList.map charByte++[10] := by
    rw [String.toList_append,List.map_append]
    rfl
  rw [Terminal.writeString,hbytes,Terminal.writeBytes,List.foldl_append]
  rfl

/-- Output that ends a line leaves a fresh line, if anything was printed at all. -/
theorem Clean.ends {t : Terminal} (h : Clean t) {ops : List WriterOp}
    (hops : ∀ op ∈ ops, IsOutput op) (hend : EndsLine ops) (hne : ops = [] → Fresh t) :
    Fresh (Terminal.applyAll ops t) := by
  obtain rfl | ⟨init,last,rfl,hlast⟩ := hend
  · exact hne rfl
  have hinit : Clean (Terminal.applyAll init t) :=
    h.outputs (fun op hop => hops op (by simp [hop]))
  rw [Terminal.applyAll,List.foldl_append]
  change Fresh ((Terminal.applyAll init t).apply last)
  obtain rfl | ⟨text,rfl⟩ := hlast
  · exact Clean.clear hinit.wide
  · change Fresh ((Terminal.applyAll init t).writeString (text++"\n"))
    rw [writeString_newline]
    exact (hinit.writeBytes _).newline

/-! ### The prompt and the input -/

/-- The cells of the prompt. -/
def promptCells : List ScreenChar :=
  (AsciiText.bytes "shaolin@crabos").map (⟨·,Color.lightGreen.code⟩)++
  (AsciiText.bytes ":").map (⟨·,Color.lightGray.code⟩)++
  (AsciiText.bytes "~").map (⟨·,Color.lightBlue.code⟩)++
  (AsciiText.bytes "$ ").map (⟨·,Color.lightGray.code⟩)

def promptWidth : ℕ := promptCells.length

/-- A prompt, and behind it the input on an otherwise blank tape. -/
structure Displays (t : Terminal) (anchor : Position) (text : List UInt8) (cursor : ℕ) : Prop where
  wide : 36 ≤ t.columns
  column : anchor.column = promptWidth
  color : t.color = Color.lightGray.code
  cursor_eq : t.cursor = anchor.offset cursor t.columns
  cursor_le : cursor ≤ text.length
  short : text.length ≤ maxInput
  line : anchor.line ≤ t.lastLine
  reach : (anchor.offset text.length t.columns).line ≤ t.lastLine
  near : t.lastLine ≤ anchor.line+8
  prompt : ∀ c (h : c < promptCells.length), t.lines anchor.line c = promptCells[c]
  shows : ∀ l c i (h : i < text.length), c < t.columns →
    l*t.columns+c = anchor.linear t.columns+i → t.lines l c = ⟨text[i],Color.lightGray.code⟩
  rest : ∀ l c, c < t.columns → anchor.linear t.columns+text.length ≤ l*t.columns+c →
    t.lines l c = blank

namespace Displays
variable {t : Terminal} {anchor : Position} {text : List UInt8} {cursor : ℕ}

lemma pos (h : Displays t anchor text cursor) : 0 < t.columns := lt_of_lt_of_le (by decide) h.wide

lemma anchor_le (h : Displays t anchor text cursor) : anchor.column ≤ t.columns := by
  rw [h.column]
  exact le_trans (by decide) h.wide

/-- With the cursor at the end, the screen below it is clean. -/
lemma clean (h : Displays t anchor text text.length) : Clean t := by
  have hpos := h.pos
  have hcursor := h.cursor_eq
  have hmono := Position.line_le_offset anchor text.length hpos
  have hnear := h.near
  refine ⟨h.wide,?_,?_,?_,?_⟩
  · rw [hcursor]; exact Position.offset_column_le _ _ hpos
  · rw [hcursor]; exact h.reach
  · rw [hcursor]; omega
  · intro l c hl hc
    rw [hcursor] at hl
    apply h.rest l c hc
    rw [← Position.offset_linear _ _ hpos]
    have hle : (anchor.offset text.length t.columns).column ≤ t.columns :=
      Position.offset_column_le _ _ hpos
    have hmul : ((anchor.offset text.length t.columns).line+1)*t.columns ≤ l*t.columns :=
      Nat.mul_le_mul_right _ hl
    rw [Nat.succ_mul] at hmul
    unfold Position.linear
    omega

end Displays

/-! ### Redrawing -/

lemma glyph_printable {b : UInt8} (h : IsPrintable b) : glyph b = b := by
  rw [glyph,if_pos ((isPrintable_iff b).mpr h)]

/-- A redraw shows the new text and blanks what the old text left. -/
theorem Displays.redraw {t : Terminal} {anchor : Position} {old : List UInt8} {k : ℕ}
    (h : Displays t anchor old k) {text : String} (htext : Printable text) {cursor oldLen : ℕ}
    (hlen : (textBytes text).length ≤ maxInput) (hcursor : cursor ≤ (textBytes text).length)
    (hold : old.length ≤ oldLen) (hold' : oldLen ≤ maxInput) :
    Displays (t.replaceInput anchor text cursor oldLen) anchor (textBytes text) cursor := by
  have hpos := h.pos
  have hac := h.anchor_le
  have hlast := Terminal.replaceInput_lastLine oldLen htext hpos hac h.line hcursor
  have hlines : (t.replaceInput anchor text cursor oldLen).lines =
      (Terminal.putBytes (inputBytes text oldLen) (t.moveTo anchor)).lines :=
    Terminal.replaceInput_lines htext
  have hcols : (t.replaceInput anchor text cursor oldLen).columns = t.columns :=
    Terminal.replaceInput_columns htext
  have hdiv : (anchor.column+max (textBytes text).length oldLen)/t.columns ≤ 8 := by
    apply Nat.le_of_lt_succ
    rw [Nat.div_lt_iff_lt_mul hpos]
    have := h.wide
    simp only [maxInput] at hlen hold'
    omega
  have hline := Position.offset_line_le anchor (max (textBytes text).length oldLen) t.columns
  have hmono := Position.offset_line_mono anchor hac hpos (le_max_left (textBytes text).length oldLen)
  have hnear := h.near
  have hl := h.line
  constructor
  case wide => rw [hcols]; exact h.wide
  case column => exact h.column
  case color => rw [Terminal.replaceInput_color htext]; exact h.color
  case cursor_eq => rw [hcols]; exact Terminal.replaceInput_cursor htext
  case cursor_le => exact hcursor
  case short => exact hlen
  case line => omega
  case reach => rw [hcols]; omega
  case near => omega
  case prompt =>
    intro c hc
    rw [hlines,Terminal.putBytes_lines_outside _ (t.moveTo anchor) hpos hac]
    · exact h.prompt c hc
    · intro _
      left
      change anchor.line*t.columns+c < anchor.linear t.columns
      have hcol := h.column
      unfold Position.linear promptWidth at *
      omega
  case shows =>
    intro l c i hi hc he
    rw [hcols] at hc he
    have hi' : i < (inputBytes text oldLen).length := by rw [inputBytes_length]; omega
    have hget : (inputBytes text oldLen)[i] = (textBytes text)[i] := by
      simp only [inputBytes]
      exact List.getElem_append_left hi
    rw [hlines,Terminal.putBytes_lines_inside _ (t.moveTo anchor) hpos hac hc hi' he,hget,
      glyph_printable (htext.byte_range (List.getElem_mem hi))]
    exact congrArg _ h.color
  case rest =>
    intro l c hc hge
    rw [hcols] at hc hge
    rw [hlines]
    rcases Nat.lt_or_ge (l*t.columns+c)
      (anchor.linear t.columns+(inputBytes text oldLen).length) with hlt | hout
    · obtain ⟨i,hi⟩ := Nat.exists_eq_add_of_le (le_trans (Nat.le_add_right _ _) hge)
      have hi' : i < (inputBytes text oldLen).length := by omega
      have hget : (inputBytes text oldLen)[i] = 32 := by
        simp only [inputBytes]
        rw [List.getElem_append_right (by omega),List.getElem_replicate]
      rw [Terminal.putBytes_lines_inside _ (t.moveTo anchor) hpos hac hc hi' hi,hget]
      exact congrArg _ h.color
    · rw [Terminal.putBytes_lines_outside _ (t.moveTo anchor) hpos hac (fun _ => .inr hout)]
      rw [inputBytes_length] at hout
      exact h.rest l c hc (by omega)

/-! ### Prompting -/

/-- Between two states a row of cells has been stored from the cursor on, and nothing else. -/
structure Stored (t t' : Terminal) (cells : List ScreenChar) : Prop where
  cursor : t'.cursor = ⟨t.cursor.line,t.cursor.column+cells.length⟩
  columns : t'.columns = t.columns
  last : t'.lastLine = t.lastLine
  inside : ∀ i cell, cells[i]? = some cell → t'.lines t.cursor.line (t.cursor.column+i) = cell
  outside : ∀ l c, c < t.columns →
    l ≠ t.cursor.line ∨ c < t.cursor.column ∨ t.cursor.column+cells.length ≤ c →
    t'.lines l c = t.lines l c

namespace Stored

lemma nil (t : Terminal) (foreground : Color) : Stored t (t.setColor foreground .black) [] :=
  ⟨rfl,rfl,rfl,by simp,fun _ _ _ _ => rfl⟩

lemma append {t t' t'' : Terminal} {cells more : List ScreenChar} (h : Stored t t' cells)
    (h' : Stored t' t'' more) (hfits : t.cursor.column+cells.length ≤ t.columns) :
    Stored t t'' (cells++more) := by
  have hcur := h.cursor
  constructor
  case cursor => rw [h'.cursor,hcur,List.length_append,Nat.add_assoc]
  case columns => exact h'.columns.trans h.columns
  case last => exact h'.last.trans h.last
  case inside =>
    intro i cell hi
    rcases Nat.lt_or_ge i cells.length with hlt | hge
    · rw [List.getElem?_append_left hlt] at hi
      rw [h'.outside _ _ (by rw [h.columns]; omega)
        (.inr (.inl (by rw [hcur]; exact Nat.add_lt_add_left hlt _)))]
      exact h.inside i cell hi
    · obtain ⟨j,rfl⟩ := Nat.exists_eq_add_of_le hge
      rw [List.getElem?_append_right hge,Nat.add_sub_cancel_left] at hi
      have hcell := h'.inside j cell hi
      rw [hcur] at hcell
      rwa [← Nat.add_assoc]
  case outside =>
    intro l c hc ho
    rw [List.length_append] at ho
    rw [h'.outside l c (by rw [h.columns]; exact hc) (by rw [hcur]; dsimp only; omega)]
    exact h.outside l c hc (by omega)

/-- Text that fits on the line. -/
lemma putBytes {t : Terminal} {bs : List UInt8} (hbs : ∀ b ∈ bs, IsPrintable b)
    (hc : t.cursor.line ≤ t.lastLine) (hfits : t.cursor.column+bs.length < t.columns) :
    Stored t (Terminal.putBytes bs t) (bs.map (⟨·,t.color⟩)) := by
  have hpos : 0 < t.columns := by omega
  have hcol : t.cursor.column ≤ t.columns := by omega
  have hoff : t.cursor.offset bs.length t.columns =
      ⟨t.cursor.line,t.cursor.column+bs.length⟩ := by
    unfold Position.offset
    simp only [Nat.mod_eq_of_lt hfits,Nat.div_eq_of_lt hfits]
    rw [if_neg (by omega),Nat.add_zero]
  constructor
  case cursor => rw [Terminal.putBytes_cursor bs t hpos hcol,hoff,List.length_map]
  case columns => exact Terminal.putBytes_columns bs t
  case last =>
    rw [Terminal.putBytes_lastLine bs t hpos hcol hc,hoff]
    exact max_eq_left hc
  case inside =>
    intro i cell hi
    rw [List.getElem?_map,Option.map_eq_some_iff] at hi
    obtain ⟨b,hb,rfl⟩ := hi
    obtain ⟨hlt,rfl⟩ := List.getElem?_eq_some_iff.mp hb
    rw [Terminal.putBytes_lines_inside bs t hpos hcol (by omega) hlt
      (by unfold Position.linear; omega),glyph_printable (hbs _ (List.getElem_mem hlt))]
  case outside =>
    intro l c hlt hout
    rw [List.length_map] at hout
    apply Terminal.putBytes_lines_outside bs t hpos hcol
    intro _
    unfold Position.linear
    rcases lt_trichotomy l t.cursor.line with hl | rfl | hl
    · have hmul : (l+1)*t.columns ≤ t.cursor.line*t.columns := Nat.mul_le_mul_right _ hl
      rw [Nat.succ_mul] at hmul
      omega
    · omega
    · have hmul : (t.cursor.line+1)*t.columns ≤ l*t.columns := Nat.mul_le_mul_right _ hl
      rw [Nat.succ_mul] at hmul
      omega

end Stored

/-- Coloured stretches of text, as the calls that write them. -/
def runOps (runs : List (Color × String)) : List WriterOp :=
  runs.flatMap fun run => [.setColor run.1 .black,.writeString run.2]

def runCells (runs : List (Color × String)) : List ScreenChar :=
  runs.flatMap fun run => (textBytes run.2).map (⟨·,run.1.code⟩)

lemma colorCode_black (color : Color) : colorCode color .black = color.code := by
  cases color <;> decide

/-- Coloured text that fits on the line. -/
lemma stored_runs {t : Terminal} (runs : List (Color × String))
    (hprintable : ∀ run ∈ runs, Printable run.2) (hc : t.cursor.line ≤ t.lastLine)
    (hfits : t.cursor.column+(runCells runs).length < t.columns) :
    Stored t (Terminal.applyAll (runOps runs) t) (runCells runs) := by
  induction runs generalizing t with
  | nil => exact ⟨rfl,rfl,rfl,by simp [runCells],fun _ _ _ _ => rfl⟩
  | cons run runs ih =>
    obtain ⟨color,text⟩ := run
    have hcells : runCells ((color,text) :: runs) =
        (textBytes text).map (⟨·,color.code⟩)++runCells runs := rfl
    have htext : Printable text := hprintable (color,text) (by simp)
    have hwrite : (t.setColor color .black).writeString text =
        Terminal.putBytes (textBytes text) (t.setColor color .black) :=
      Terminal.writeBytes_eq_putBytes (fun _ hb => htext.isCell hb) _
    have hops : Terminal.applyAll (runOps ((color,text) :: runs)) t =
        Terminal.applyAll (runOps runs)
          (Terminal.putBytes (textBytes text) (t.setColor color .black)) := by
      rw [← hwrite]
      rfl
    rw [hcells,List.length_append,List.length_map] at hfits
    have hfirst := Stored.putBytes (t := t.setColor color .black)
      (fun b hb => htext.byte_range hb) hc (by change t.cursor.column+_ < t.columns; omega)
    rw [show (t.setColor color .black).color = color.code from colorCode_black color] at hfirst
    have hstored : Stored t _ _ := (Stored.nil t color).append hfirst
      (by rw [List.length_nil]; omega)
    rw [List.nil_append] at hstored
    rw [hops,hcells]
    refine hstored.append (ih (fun r hr => hprintable r (by simp [hr])) ?_ ?_) ?_
    · rw [hstored.cursor,hstored.last]; exact hc
    · rw [hstored.cursor,hstored.columns,List.length_map]; dsimp only; omega
    · rw [List.length_map]; omega

def promptRuns : List (Color × String) :=
  [(.lightGreen,"shaolin@crabos"),(.lightGray,":"),(.lightBlue,"~"),(.lightGray,"$ ")]

lemma promptSection_eq : Shell.promptSection = runOps promptRuns := rfl

lemma promptCells_eq : promptCells = runCells promptRuns := by decide

lemma promptCells_length : promptCells.length = 18 := by decide

/-- The cells of a prompt on a fresh line display the empty input. -/
lemma Stored.displays {t t' : Terminal} (hs : Stored t t' promptCells) (h : Fresh t)
    (hcolor : t'.color = Color.lightGray.code) : Displays t' t'.cursor [] 0 := by
  obtain ⟨hcur,hcols,hlast,hin,hout⟩ := hs
  have hwide := h.wide
  have hwidth := promptCells_length
  rw [h.start,Nat.zero_add] at hcur hout
  have hzero : (⟨t.cursor.line,promptCells.length⟩ : Position).offset 0 t.columns =
      ⟨t.cursor.line,promptCells.length⟩ :=
    Position.offset_zero (by change promptCells.length ≤ t.columns; omega)
  rw [hcur]
  constructor
  case wide => rw [hcols]; exact hwide
  case column => rfl
  case color => exact hcolor
  case cursor_eq => rw [hcur,hcols,hzero]
  case cursor_le => exact le_rfl
  case short => exact Nat.zero_le _
  case line => rw [hlast]; exact h.line
  case reach => rw [hcols,hlast,List.length_nil,hzero]; exact h.line
  case near => rw [hlast]; exact h.near
  case prompt =>
    intro c hc
    have hcell := hin c _ (List.getElem?_eq_getElem hc)
    rwa [h.start,Nat.zero_add] at hcell
  case shows => exact fun l c i hi => absurd hi (Nat.not_lt_zero i)
  case rest =>
    intro l c hc hge
    rw [hcols] at hc hge
    rw [List.length_nil,Nat.add_zero] at hge
    change t.cursor.line*t.columns+promptCells.length ≤ l*t.columns+c at hge
    rcases lt_trichotomy l t.cursor.line with hl | rfl | hl
    · have hmul : (l+1)*t.columns ≤ t.cursor.line*t.columns := Nat.mul_le_mul_right _ hl
      rw [Nat.succ_mul] at hmul
      omega
    · rw [hout _ c hc (.inr (.inr (by omega)))]
      exact h.empty c hc
    · rw [hout l c hc (.inl (by omega))]
      exact h.below l c hl hc

lemma prompt_color (t : Terminal) :
    (Terminal.applyAll Shell.promptSection t).color = Color.lightGray.code := by
  have htext : Printable "$ " := by decide
  change (Terminal.writeBytes (textBytes "$ ") _).color = _
  rw [Terminal.writeBytes_eq_putBytes (fun _ hb => htext.isCell hb),Terminal.putBytes_color]
  exact colorCode_black .lightGray

/-- A prompt on a fresh line displays the empty input. -/
theorem Fresh.prompt {t : Terminal} (h : Fresh t) :
    Displays (Terminal.applyAll Shell.promptSection t)
      (Terminal.applyAll Shell.promptSection t).cursor [] 0 := by
  have hprintable : ∀ run ∈ promptRuns, Printable run.2 := by decide
  have hwide := h.wide
  have hwidth := promptCells_length
  have hstored := stored_runs promptRuns hprintable h.line
    (by rw [h.start,← promptCells_eq]; omega)
  rw [← promptSection_eq,← promptCells_eq] at hstored
  exact hstored.displays h (prompt_color t)

end CrabOs.Crabsh
