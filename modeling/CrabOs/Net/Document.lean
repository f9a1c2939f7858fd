import CrabOs.Net.HiddenEnd

/-! A page read back: a document that is written as paragraphs, scripts and blanks is shown as the
text of its paragraphs, each on a line of its own, behind the status line of the response. -/
namespace CrabOs.Net
open CrabOs.Vga
open AsciiText (isAsciiWhitespace)

/-! ### Documents -/

/-- A block with words in it. -/
structure Paragraph where
  name : List UInt8
  attributes : List UInt8
  words : List (List UInt8)
  opens : matchesBlock name
  closes : matchesBlock (47 :: name)
  plain : 62 ∉ attributes
  delimited : ∀ byte ∈ attributes.head?, isAsciiWhitespace byte
  graphic : ∀ word ∈ words, word ≠ [] ∧ ∀ byte ∈ word, isAsciiGraphic byte

/-- A script or a style, whose text neither ends it early nor leaves a bracket open. -/
structure Aside where
  element : HiddenElement
  name : List UInt8
  endName : List UInt8
  content : List UInt8
  opens : eqIgnoreAsciiCase name element.name
  closes : eqIgnoreAsciiCase endName (47 :: element.name)
  unended : ∀ e, ¬HasEndTag e content
  tagsEnd : TagsEnd content

inductive Item
  | paragraph (p : Paragraph)
  | aside (a : Aside)
  | blank (byte : UInt8) (h : isAsciiWhitespace byte)

namespace Item

def html : Item → List UInt8
  | .paragraph p => 60 :: (p.name++p.attributes++62 :: (escape ([32].intercalate p.words)++
      60 :: (47 :: p.name++[62])))
  | .aside a => 60 :: (a.name++62 :: (a.content++60 :: (a.endName++[62])))
  | .blank byte _ => [byte]

/-- What is shown of an item. -/
def shown : Item → List Char
  | .paragraph p =>
    if p.words = [] then [] else ([32].intercalate p.words).map Char.ofUInt8++['\n']
  | .aside _ => []
  | .blank _ _ => []

end Item

/-! ### The scan of a document -/

namespace HtmlState

lemma next_block {inner : List UInt8} (hplain : 62 ∉ inner) (h : matchesBlock (tagName inner))
    (rest : List UInt8) (output : List Char) : next ⟨60 :: (inner++62 :: rest),false,output⟩ =
      ⟨rest,false,if output.getLast? = some '\n' then output else output++['\n']⟩ := by
  obtain ⟨hstart,hend⟩ := matchesBlock_plain h
  rw [next_tag hplain,tag_eq,if_neg (by simp [hstart]),if_neg (by simp [hend]),h]
  by_cases hlast : output.getLast? = some '\n'
  · simp [endsWith,hlast]
  · simp [endsWith,hlast]

/-- No newline is among the words. -/
lemma newline_notMem {words : List (List UInt8)}
    (h : ∀ word ∈ words, word ≠ [] ∧ ∀ byte ∈ word, isAsciiGraphic byte) :
    '\n' ∉ ([32].intercalate words).map Char.ofUInt8 := by
  have hbytes : ∀ byte ∈ ([32] : List UInt8).intercalate words, 32 ≤ byte.toNat :=
    Separators.forall_mem_intercalate (by simp) fun word hw byte hb =>
      ((isAsciiGraphic_iff byte).mp ((h word hw).2 byte hb)).1.trans' (by decide)
  intro hm
  obtain ⟨byte,hb,he⟩ := List.mem_map.mp hm
  have hn := congrArg Char.toNat he
  rw [AsciiText.toNat_ofUInt8] at hn
  have hlow := hbytes byte hb
  rw [hn] at hlow
  exact absurd hlow (by decide)

lemma getLast?_text {words : List (List UInt8)} (hne : words ≠ [])
    (h : ∀ word ∈ words, word ≠ [] ∧ ∀ byte ∈ word, isAsciiGraphic byte) (output : List Char) :
    (output++([32].intercalate words).map Char.ofUInt8).getLast? ≠ some '\n' := by
  have htext : ([32].intercalate words).map Char.ofUInt8 ≠ [] := by
    obtain ⟨word,words,rfl⟩ := List.exists_cons_of_ne_nil hne
    have hword := (h word List.mem_cons_self).1
    cases words with
    | nil => simpa using hword
    | cons next words => simp [List.intercalate_cons_cons,hword]
  rw [List.getLast?_append_of_ne_nil _ htext]
  exact fun hlast => newline_notMem h (List.mem_of_getLast? hlast)

/-- At the start of a line, the scan of an item shows it and is at the start of a line again. -/
lemma reaches_item (item : Item) (rest : List UInt8) {output : List Char}
    (hline : output.getLast? = some '\n') :
    Reaches ⟨item.html++rest,false,output⟩ ⟨rest,false,output++item.shown⟩ ∧
      (output++item.shown).getLast? = some '\n' := by
  cases item with
  | paragraph p =>
    have hname : isTagName p.name := by simp [isTagName,p.opens]
    have hend : isTagName (47 :: p.name) := by simp [isTagName,p.closes]
    have hattributes : tagName p.attributes = [] := by
      cases hp : p.attributes with
      | nil => rfl
      | cons byte rest =>
        have hblank := p.delimited byte (by rw [hp]; rfl)
        exact List.takeWhile_cons_of_neg (by simp [hblank])
    have hopens : matchesBlock (tagName (p.name++p.attributes)) := by
      rw [tagName_append (isTagName_plain hname).2,hattributes,List.append_nil]
      exact p.opens
    have hcloses : matchesBlock (tagName (47 :: p.name)) := by
      rw [tagName_eq hend]
      exact p.closes
    have hplain : 62 ∉ p.name++p.attributes :=
      List.not_mem_append (isTagName_plain hname).1 p.plain
    have hhtml : (Item.paragraph p).html++rest = 60 :: (p.name++p.attributes++62 ::
        (escape ([32].intercalate p.words)++60 :: (47 :: p.name++62 :: rest))) := by
      simp [Item.html]
    have hshown : (if (output++([32].intercalate p.words).map Char.ofUInt8).getLast? = some '\n'
        then output++([32].intercalate p.words).map Char.ofUInt8
        else output++([32].intercalate p.words).map Char.ofUInt8++['\n']) =
        output++(Item.paragraph p).shown := by
      rw [Item.shown]
      by_cases hw : p.words = []
      · simp [hw,hline]
      · rw [if_neg (getLast?_text hw p.graphic output),if_neg hw,List.append_assoc]
    constructor
    · rw [hhtml]
      apply Reaches.of_next
      rw [next_block hplain hopens,if_pos hline]
      apply (reaches_text p.graphic _ output).trans
      apply Reaches.of_next
      rw [next_block (isTagName_plain hend).1 hcloses,hshown]
      exact .refl _
    · rw [← hshown]
      split_ifs with hlast
      · exact hlast
      · simp
  | aside a =>
    rw [Item.shown,List.append_nil]
    refine ⟨?_,hline⟩
    have hreach := ((hidden_element_iff rest output a.opens a.closes a.unended).mpr a.tagsEnd).1
    simpa [Item.html] using hreach
  | blank byte h =>
    rw [Item.shown,List.append_nil]
    refine ⟨?_,hline⟩
    have hbyte : byte ≠ 60 ∧ byte ≠ 38 := by
      constructor
      · rintro rfl
        cases h
      · rintro rfl
        cases h
    apply Reaches.of_next
    rw [Item.html,List.singleton_append,next_text hbyte.1 hbyte.2]
    have hkeep : HtmlState.text ⟨rest,false,output⟩ byte = ⟨rest,false,output⟩ := by
      unfold text
      rw [if_pos h]
      simp [endsWith,hline]
    rw [hkeep]
    exact .refl _

lemma reaches_items (items : List Item) {output : List Char} (hline : output.getLast? = some '\n') :
    Reaches ⟨items.flatMap Item.html,false,output⟩ ⟨[],false,output++items.flatMap Item.shown⟩ := by
  induction items generalizing output with
  | nil =>
    rw [List.flatMap_nil,List.flatMap_nil,List.append_nil]
    exact .refl _
  | cons item items ih =>
    obtain ⟨hreach,hline'⟩ := reaches_item item (items.flatMap Item.html) hline
    rw [List.flatMap_cons,List.flatMap_cons,← List.append_assoc]
    exact hreach.trans (ih hline')

end HtmlState

/-! ### Responses -/

/-- A status line, headers and a body, as a server sends them. -/
def response (status : List UInt8) (headers : List (List UInt8)) (body : List UInt8) : List UInt8 :=
  [13,10].intercalate (status :: headers)++([13,10,13,10]++body)

section Framing

lemma findPattern_skip {first : UInt8} {pattern line : List UInt8} (h : first ∉ line)
    (rest : List UInt8) : findPattern (first :: pattern) (line++rest) =
      (findPattern (first :: pattern) rest).map (·+line.length) := by
  induction line with
  | nil => simp
  | cons byte line ih =>
    rw [List.mem_cons,not_or] at h
    rw [List.cons_append,findPattern,if_neg (by simp [h.1]),ih h.2,Option.map_map]
    rfl

lemma intercalate_head {line : List UInt8} (h : line ≠ []) (separator : List UInt8)
    (lines : List (List UInt8)) (rest : List UInt8) :
    (separator.intercalate (line :: lines)++rest).head? = line.head? := by
  obtain ⟨byte,tail,rfl⟩ := List.exists_cons_of_ne_nil h
  cases lines with
  | nil => simp
  | cons next lines => simp [List.intercalate_cons_cons]

/-- A line break with a line behind it is not the end of the headers. -/
lemma findPattern_break {rest : List UInt8} (h : ∀ byte ∈ rest.head?, byte ≠ 13) :
    findPattern [13,10,13,10] ([13,10]++rest) = (findPattern [13,10,13,10] rest).map (·+2) := by
  cases rest with
  | nil => rfl
  | cons byte rest =>
    have hbyte := h byte rfl
    simp only [List.cons_append,List.nil_append]
    rw [findPattern,if_neg (by simp [Ne.symm hbyte]),findPattern,if_neg (by simp),Option.map_map]
    rfl

/-- The headers end at the first empty line. -/
lemma findPattern_headers {lines : List (List UInt8)} (hne : lines ≠ [])
    (h : ∀ line ∈ lines, line ≠ [] ∧ 13 ∉ line) (body : List UInt8) :
    findPattern [13,10,13,10] ([13,10].intercalate lines++([13,10,13,10]++body)) =
      some ([13,10].intercalate lines).length := by
  induction lines with
  | nil => contradiction
  | cons line lines ih =>
    obtain ⟨-,hline⟩ := h line List.mem_cons_self
    cases lines with
    | nil =>
      rw [List.intercalate_singleton,findPattern_skip hline]
      simp [findPattern]
    | cons next lines =>
      have hrest := ih (List.cons_ne_nil _ _) fun l hl => h l (List.mem_cons_of_mem _ hl)
      obtain ⟨hnext,hplain⟩ := h next (List.mem_cons_of_mem _ List.mem_cons_self)
      have hhead : ∀ byte ∈ ([13,10].intercalate (next :: lines)++([13,10,13,10]++body)).head?,
          byte ≠ 13 := by
        rw [intercalate_head hnext]
        rintro byte hbyte rfl
        exact hplain (List.mem_of_mem_head? hbyte)
      rw [List.intercalate_cons_cons,List.append_assoc,List.append_assoc,findPattern_skip hline,
        findPattern_break hhead,hrest]
      simp only [Option.map_some,List.length_append,List.length_cons,List.length_nil]
      exact congrArg some (by omega)

lemma isHtml_headers {lines : List (List UInt8)} (h : ∀ line ∈ lines, 10 ∉ line)
    (hhtml : ∃ line ∈ lines,
      AsciiText.bytes "content-type: text/html" <+: line.map toAsciiLowercase) :
    isHtml ([13,10].intercalate lines) := by
  unfold isHtml
  rw [List.any_eq_true]
  induction lines with
  | nil =>
    obtain ⟨line,hline,-⟩ := hhtml
    cases hline
  | cons line lines ih =>
    have hline : ∀ byte ∈ line, decide (byte = 10) = false := by
      rintro byte hbyte
      rw [decide_eq_false_iff_not]
      rintro rfl
      exact h line List.mem_cons_self hbyte
    obtain ⟨found,hfound,hkind⟩ := hhtml
    rw [List.mem_cons] at hfound
    cases lines with
    | nil =>
      rw [List.intercalate_singleton,List.splitOnP_eq_singleton hline]
      refine ⟨line,List.mem_singleton_self line,List.isPrefixOf_iff_prefix.mpr ?_⟩
      obtain rfl := hfound.resolve_right List.not_mem_nil
      exact hkind
    | cons next lines =>
      have hline' : ∀ byte ∈ line++[13], decide (byte = 10) = false := by
        rw [List.forall_mem_append]
        exact ⟨hline,by simp⟩
      have hsplit : [13,10].intercalate (line :: next :: lines) =
          (line++[13])++10 :: [13,10].intercalate (next :: lines) := by
        rw [List.intercalate_cons_cons]
        simp
      rw [hsplit,List.splitOnP_append_cons_of_forall_mem hline' 10 (by decide)]
      obtain rfl | hfound := hfound
      · refine ⟨found++[13],List.mem_cons_self,List.isPrefixOf_iff_prefix.mpr ?_⟩
        rw [List.map_append]
        exact hkind.trans (List.prefix_append _ _)
      · obtain ⟨piece,hpiece,hstarts⟩ := ih (fun l hl => h l (List.mem_cons_of_mem _ hl))
          ⟨found,hfound,hkind⟩
        exact ⟨piece,List.mem_cons_of_mem _ hpiece,hstarts⟩

end Framing

/-- A document is shown as the text of its paragraphs, each on a line of its own, behind the status
line. -/
theorem render_document {status : List UInt8} {headers : List (List UInt8)}
    (hhttp : AsciiText.bytes "HTTP/" <+: status)
    (hstatus : ∀ byte ∈ status, isAsciiGraphic byte ∨ byte = 32)
    (hheaders : ∀ line ∈ headers, line ≠ [] ∧ 13 ∉ line ∧ 10 ∉ line)
    (hhtml : ∃ line ∈ headers,
      AsciiText.bytes "content-type: text/html" <+: line.map toAsciiLowercase)
    (items : List Item) : render (response status headers (items.flatMap Item.html)) =
      .ok (String.ofList (status.map Char.ofUInt8++ '\n' :: items.flatMap Item.shown)) := by
  have hplain : 13 ∉ status ∧ 10 ∉ status := by
    constructor
    · exact fun hm => absurd (hstatus 13 hm) (by decide)
    · exact fun hm => absurd (hstatus 10 hm) (by decide)
  have hne : status ≠ [] := by
    rintro rfl
    exact absurd (List.prefix_nil.mp hhttp) (by decide)
  have hlines : ∀ line ∈ status :: headers, line ≠ [] ∧ 13 ∉ line ∧ 10 ∉ line :=
    List.forall_mem_cons.mpr ⟨⟨hne,hplain⟩,hheaders⟩
  have hend := findPattern_headers (List.cons_ne_nil status headers)
    (fun line hl => ⟨(hlines line hl).1,(hlines line hl).2.1⟩) (items.flatMap Item.html)
  have hfirst : findPattern [13,10] ([13,10].intercalate (status :: headers)) =
      some status.length := by
    obtain ⟨line,hline,-⟩ := hhtml
    obtain ⟨next,lines,rfl⟩ := List.exists_cons_of_ne_nil (List.ne_nil_of_mem hline)
    rw [List.intercalate_cons_cons,List.append_assoc,findPattern_skip hplain.1]
    simp [findPattern]
  have htext : isHtml ([13,10].intercalate (status :: headers)) := by
    obtain ⟨line,hline,hkind⟩ := hhtml
    exact isHtml_headers (fun l hl => (hlines l hl).2.2) ⟨line,List.mem_cons_of_mem _ hline,hkind⟩
  have htake : ([13,10].intercalate (status :: headers)).take status.length = status := by
    cases headers with
    | nil => rw [List.intercalate_singleton,List.take_length]
    | cons next lines => rw [List.intercalate_cons_cons,List.append_assoc,List.take_left]
  have hkept : status.filter (fun byte => isAsciiGraphic byte || byte = 32) = status :=
    List.filter_eq_self.mpr fun byte hb => by simpa using hstatus byte hb
  have hshown : renderHtml (items.flatMap Item.html) (status.map Char.ofUInt8++['\n']) =
      status.map Char.ofUInt8++['\n']++items.flatMap Item.shown :=
    congrArg HtmlState.output (HtmlState.reaches_items items (by simp)).run_eq
  have hbody : ([13,10].intercalate (status :: headers)++
      ([13,10,13,10]++items.flatMap Item.html)).drop
        (([13,10].intercalate (status :: headers)).length+4) = items.flatMap Item.html := by
    rw [← List.drop_drop,List.drop_left]
    rfl
  unfold render response
  rw [hend]
  dsimp only
  rw [List.take_left,hbody,hfirst,Option.getD_some,htake,htext,statusText,hkept,
    if_neg (not_not.mpr (List.isPrefixOf_iff_prefix.mpr hhttp)),if_pos rfl,hshown,List.append_assoc,
    List.singleton_append]

/-- A heading and a paragraph with a script in between. -/
theorem render_document_example : render (response (AsciiText.bytes "HTTP/1.0 200 OK")
      [AsciiText.bytes "Server: test",AsciiText.bytes "Content-Type: text/html; charset=utf-8"]
      (AsciiText.bytes "<h1>a&amp;b</h1>\n<script>1+2</script><P id=x>c &lt;d&gt;</P>")) =
    .ok "HTTP/1.0 200 OK\na&b\nc <d>\n" := by
  have hheading : ∀ word ∈ [AsciiText.bytes "a&b"],
      word ≠ [] ∧ ∀ byte ∈ word, isAsciiGraphic byte := by
    rw [List.forall_mem_singleton]
    exact ⟨by decide,AsciiText.forall_mem_of_all (by decide)⟩
  have hwords : ∀ word ∈ [AsciiText.bytes "c",AsciiText.bytes "<d>"],
      word ≠ [] ∧ ∀ byte ∈ word, isAsciiGraphic byte := by
    rw [List.forall_mem_cons,List.forall_mem_singleton]
    exact ⟨⟨by decide,AsciiText.forall_mem_of_all (by decide)⟩,by decide,
      AsciiText.forall_mem_of_all (by decide)⟩
  have hdelimited : ∀ byte ∈ (AsciiText.bytes " id=x").head?, isAsciiWhitespace byte := by
    rintro byte ⟨⟩
    rfl
  have hunended : ∀ e, ¬HasEndTag e (AsciiText.bytes "1+2") := by
    rintro (_ | _)
    · decide
    · decide
  have hends : TagsEnd (AsciiText.bytes "1+2") := by
    intro before after h
    have hopen : (60 : UInt8) ∈ AsciiText.bytes "1+2" :=
      h ▸ List.mem_append_right before List.mem_cons_self
    exact absurd hopen (by decide)
  refine (render_document (by decide) (AsciiText.forall_mem_of_all (by decide))
    (AsciiText.forall_mem_of_all (by decide))
    ⟨_,List.mem_cons_of_mem _ List.mem_cons_self,by decide⟩
    [.paragraph ⟨AsciiText.bytes "h1",[],_,by decide,by decide,by decide,nofun,hheading⟩,
      .blank 10 (by decide),
      .aside ⟨.script,AsciiText.bytes "script",AsciiText.bytes "/script",_,by decide,by decide,
        hunended,hends⟩,
      .paragraph ⟨AsciiText.bytes "P",AsciiText.bytes " id=x",_,by decide,by decide,by decide,
        hdelimited,hwords⟩]).trans ?_
  rfl

end CrabOs.Net
