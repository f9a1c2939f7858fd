import CrabOs.Net.Scan

/-! Markup that `render_html` understands: escaped text comes out as it was, and what a tag does
depends on its name. -/
namespace CrabOs.Net
open CrabOs.Vga
open AsciiText (isAsciiWhitespace)

section Escaping

/-- The escape of one byte of text. -/
def escapeByte (byte : UInt8) : List UInt8 :=
  if byte = 38 then AsciiText.bytes "&amp;"
  else if byte = 60 then AsciiText.bytes "&lt;"
  else if byte = 62 then AsciiText.bytes "&gt;"
  else if byte = 34 then AsciiText.bytes "&quot;"
  else [byte]

def escape (text : List UInt8) : List UInt8 := text.flatMap escapeByte

namespace HtmlState

/-- A byte that starts neither a tag nor an entity is text. -/
lemma next_text {byte : UInt8} (h₁ : byte ≠ 60) (h₂ : byte ≠ 38) (tail : List UInt8)
    (output : List Char) :
    next ⟨byte :: tail,false,output⟩ = HtmlState.text ⟨tail,false,output⟩ byte := by
  have hn : entities.find? (fun entity => entity.1.isPrefixOf (byte :: tail)) = none := by
    cases hf : entities.find? (fun entity => entity.1.isPrefixOf (byte :: tail)) with
    | none => rfl
    | some e => exact absurd (byte_of_entity hf) h₂
  exact next_plain (fun h => absurd h h₁) hn output

lemma next_escapeByte {byte : UInt8} (h : isAsciiGraphic byte) (rest : List UInt8)
    (output : List Char) : next ⟨escapeByte byte++rest,false,output⟩ =
      ⟨rest,false,output++[Char.ofUInt8 byte]⟩ := by
  unfold escapeByte
  split_ifs with h₁ h₂ h₃ h₄
  · subst h₁
    rfl
  · subst h₂
    rfl
  · subst h₃
    rfl
  · subst h₄
    rfl
  · rw [List.singleton_append,next_text h₂ h₁]
    unfold text
    rw [if_neg (by rw [not_whitespace_of_graphic h]; decide),if_pos h]

lemma reaches_escape {word : List UInt8} (h : ∀ byte ∈ word, isAsciiGraphic byte)
    (rest : List UInt8) (output : List Char) :
    Reaches ⟨escape word++rest,false,output⟩
      ⟨rest,false,output++word.map Char.ofUInt8⟩ := by
  induction word generalizing output with
  | nil =>
    rw [List.map_nil,List.append_nil]
    exact .refl _
  | cons byte word ih =>
    have hw : ∀ b ∈ word, isAsciiGraphic b := fun b hb => h b (List.mem_cons_of_mem _ hb)
    have hs : escape (byte :: word)++rest = escapeByte byte++(escape word++rest) := by
      simp [escape]
    have ho : output++(byte :: word).map Char.ofUInt8 =
        output++[Char.ofUInt8 byte]++word.map Char.ofUInt8 := by simp
    rw [hs,ho]
    apply Reaches.of_next
    rw [next_escapeByte (h byte List.mem_cons_self)]
    exact ih hw _

/-- A space behind a graphic character is kept. -/
lemma next_space {word : List UInt8} (hn : word ≠ []) (h : ∀ byte ∈ word, isAsciiGraphic byte)
    (tail : List UInt8) (output : List Char) :
    next ⟨32 :: tail,false,output++word.map Char.ofUInt8⟩ =
      ⟨tail,false,output++word.map Char.ofUInt8++[' ']⟩ := by
  have hlast : ∀ c : Char, c.toNat < 33 →
      (⟨tail,false,output++word.map Char.ofUInt8⟩ : HtmlState).endsWith c = false := by
    intro c hc
    have hg := (isAsciiGraphic_iff _).mp (h _ (List.getLast_mem hn))
    unfold endsWith
    rw [decide_eq_false_iff_not]
    dsimp only
    rw [List.getLast?_append_of_ne_nil _ (by simpa using hn),List.getLast?_map,
      List.getLast?_eq_some_getLast hn,Option.map_some,Option.some_inj]
    rintro rfl
    rw [AsciiText.toNat_ofUInt8] at hc
    omega
  rw [next_text (by decide) (by decide)]
  unfold text
  rw [if_pos (by decide),hlast ' ' (by decide),hlast '\n' (by decide)]
  rfl

/-- The words of an escaped text are decoded with anything behind them. -/
lemma reaches_text {words : List (List UInt8)}
    (h : ∀ word ∈ words, word ≠ [] ∧ ∀ byte ∈ word, isAsciiGraphic byte) (rest : List UInt8)
    (output : List Char) : Reaches ⟨escape ([32].intercalate words)++rest,false,output⟩
      ⟨rest,false,output++([32].intercalate words).map Char.ofUInt8⟩ := by
  induction words generalizing output with
  | nil =>
    rw [List.intercalate_nil,List.map_nil,List.append_nil]
    exact .refl _
  | cons word words ih =>
    obtain ⟨hn,hg⟩ := h word List.mem_cons_self
    cases words with
    | nil =>
      rw [List.intercalate_singleton]
      exact reaches_escape hg rest output
    | cons next words =>
      have hs : escape ([32].intercalate (word :: next :: words))++rest =
          escape word++32 :: (escape ([32].intercalate (next :: words))++rest) := by
        rw [List.intercalate_cons_cons]
        simp [escape,escapeByte]
      rw [hs]
      apply (reaches_escape hg _ output).trans
      apply Reaches.of_next
      rw [next_space hn hg,List.intercalate_cons_cons]
      simp only [List.map_append]
      rw [← List.append_assoc,← List.append_assoc]
      exact ih (fun w hw => h w (List.mem_cons_of_mem _ hw)) _

/-- The words of an escaped text are decoded one after the other. -/
lemma reaches_words {words : List (List UInt8)}
    (h : ∀ word ∈ words, word ≠ [] ∧ ∀ byte ∈ word, isAsciiGraphic byte) (output : List Char) :
    Reaches ⟨escape ([32].intercalate words),false,output⟩
      ⟨[],false,output++([32].intercalate words).map Char.ofUInt8⟩ := by
  have hr := reaches_text h [] output
  rwa [List.append_nil] at hr

end HtmlState

end Escaping

/-- Decoding undoes escaping, for text of words with single spaces between them. -/
theorem renderHtml_escape (output : List Char) {words : List (List UInt8)}
    (h : ∀ word ∈ words, word ≠ [] ∧ ∀ byte ∈ word, isAsciiGraphic byte) :
    renderHtml (escape ([32].intercalate words)) output =
      output++([32].intercalate words).map Char.ofUInt8 := by
  exact congrArg HtmlState.output (HtmlState.reaches_words h output).run_eq

theorem renderHtml_escape_example :
    renderHtml (escape ([32].intercalate [AsciiText.bytes "&lt;",AsciiText.bytes "<br>"])) [] =
      []++([32].intercalate [AsciiText.bytes "&lt;",AsciiText.bytes "<br>"]).map Char.ofUInt8 := by
  apply renderHtml_escape
  rw [List.forall_mem_cons,List.forall_mem_singleton]
  exact ⟨⟨by decide,AsciiText.forall_mem_of_all (by decide)⟩,
    ⟨by decide,AsciiText.forall_mem_of_all (by decide)⟩⟩

section TagNames

/-- The names the renderer acts on, in any letter case. -/
def isTagName (name : List UInt8) : Bool :=
  startsHiding name || endsHiding name || matchesBlock name

def tagNames : List (List UInt8) :=
  ["script","style","/script","/style","br","p","/p","div","/div","li","/li","h1","/h1","h2","/h2",
    "title","/title"].map AsciiText.bytes

lemma isTagName_iff (name : List UInt8) :
    isTagName name ↔ name.map toAsciiLowercase ∈ tagNames := by
  have hl : tagNames.map (List.map toAsciiLowercase) = tagNames := by decide
  rw [← hl]
  simp only [isTagName,startsHiding,endsHiding,matchesBlock,eqIgnoreAsciiCase,tagNames,
    List.map_cons,List.map_nil,List.any_cons,List.any_nil,Bool.or_eq_true,decide_eq_true_eq,
    List.mem_cons,List.not_mem_nil,Bool.false_eq_true,or_assoc]

lemma tagNames_plain : ∀ name ∈ tagNames, 62 ∉ name ∧ name.all (!isAsciiWhitespace ·) ∧
    name ≠ [] ∧ 47 ∉ name.tail := by decide

lemma toAsciiLowercase_whitespace {byte : UInt8} (h : isAsciiWhitespace byte) :
    isAsciiWhitespace (toAsciiLowercase byte) := by
  simp only [isAsciiWhitespace,Bool.or_eq_true,decide_eq_true_eq] at h
  rcases h with (((rfl | rfl) | rfl) | rfl) | rfl <;> decide

/-- A tag name has no bracket and no blank in it. -/
lemma isTagName_plain {name : List UInt8} (h : isTagName name) :
    62 ∉ name ∧ ∀ byte ∈ name, !isAsciiWhitespace byte := by
  obtain ⟨hb,hw,-⟩ := tagNames_plain _ ((isTagName_iff name).mp h)
  constructor
  · intro hm
    exact hb (List.mem_map.mpr ⟨62,hm,by decide⟩)
  · intro byte hm
    by_contra hn
    rw [Bool.not_eq_true',Bool.not_eq_false] at hn
    have hl := List.all_eq_true.mp hw _ (List.mem_map_of_mem hm)
    rw [toAsciiLowercase_whitespace hn] at hl
    contradiction

lemma tagName_eq {name : List UInt8} (h : isTagName name) : tagName name = name :=
  List.takeWhile_eq_self_iff.mpr (isTagName_plain h).2

/-- No tag name goes on with a slash. -/
lemma not_isTagName_slash {name : List UInt8} (h : isTagName name) (rest : List UInt8) :
    isTagName (name++47 :: rest) = false := by
  by_contra hn
  rw [Bool.not_eq_false,isTagName_iff,List.map_append,List.map_cons] at hn
  rw [isTagName_iff] at h
  have hne := (tagNames_plain _ h).2.2.1
  apply (tagNames_plain _ hn).2.2.2
  rw [List.tail_append_of_ne_nil hne,List.mem_append]
  exact .inr List.mem_cons_self

namespace HtmlState

/-- The state after the tag `<inner>` that stands in front of the rest. -/
def scanTag (s : HtmlState) (inner : List UInt8) : HtmlState :=
  next { s with rest := 60 :: (inner++62 :: s.rest) }

lemma scanTag_eq {s : HtmlState} {inner : List UInt8} (h : 62 ∉ inner) :
    s.scanTag inner = s.tag (tagName inner) := next_tag h s.rest s.hidden s.output

lemma tag_other {s : HtmlState} {name : List UInt8} (h : isTagName name = false) :
    s.tag name = s := by
  unfold isTagName at h
  rw [Bool.or_eq_false_iff,Bool.or_eq_false_iff] at h
  rw [tag_eq,h.1.1,h.1.2,h.2]
  simp

/-- The tag finds the state already as it would leave it. -/
def Unaffected (s : HtmlState) (name : List UInt8) : Prop :=
  if startsHiding name then s.hidden = true
  else if endsHiding name then s.hidden = false
  else s.hidden = true ∨ s.endsWith '\n'

lemma tag_unaffected_iff {s : HtmlState} {name : List UInt8} (h : isTagName name) :
    ((s.tag name).output = s.output ∧ (s.tag name).hidden = s.hidden) ↔ s.Unaffected name := by
  unfold Unaffected
  rw [tag_eq]
  by_cases hs : startsHiding name
  · rw [if_pos hs,if_pos hs]
    exact ⟨fun h => h.2.symm,fun h => ⟨rfl,h.symm⟩⟩
  · rw [if_neg hs,if_neg hs]
    by_cases he : endsHiding name
    · rw [if_pos he,if_pos he]
      exact ⟨fun h => h.2.symm,fun h => ⟨rfl,h.symm⟩⟩
    · have hb : matchesBlock name := by simpa [isTagName,hs,he] using h
      rw [if_neg he,if_neg he,hb]
      cases hh : s.hidden <;> cases s.endsWith '\n' <;> simp [hh]

lemma tagName_append {name : List UInt8} (hn : ∀ byte ∈ name, !isAsciiWhitespace byte)
    (attributes : List UInt8) : tagName (name++attributes) = name++tagName attributes :=
  List.takeWhile_append_of_pos hn

end HtmlState

end TagNames

/-- A tag with attributes acts as its name says, unless they start with a slash; such a tag is
ignored. -/
theorem scanTag_attributes_iff (s : HtmlState) {name attributes : List UInt8}
    (hn : isTagName name) (ha : 62 ∉ attributes)
    (hd : attributes = [] ∨ ∃ byte rest, attributes = byte :: rest ∧
      (isAsciiWhitespace byte ∨ byte = 47)) :
    ((s.scanTag (name++attributes)).output = (s.scanTag name).output ∧
      (s.scanTag (name++attributes)).hidden = (s.scanTag name).hidden) ↔
      attributes.head? ≠ some 47 ∨ s.Unaffected name := by
  obtain ⟨hb,hw⟩ := isTagName_plain hn
  rw [HtmlState.scanTag_eq (by simp [hb,ha]),HtmlState.scanTag_eq hb,tagName_eq hn,
    HtmlState.tagName_append hw]
  rcases hd with rfl | ⟨byte,rest,rfl,hb | rfl⟩
  · rw [show tagName [] = [] from rfl,List.append_nil]
    simp
  · have hne : byte ≠ 47 := by
      rintro rfl
      contradiction
    rw [show tagName (byte :: rest) = [] from List.takeWhile_cons_of_neg (by simp [hb]),
      List.append_nil]
    simp [hne]
  · rw [show tagName (47 :: rest) = 47 :: tagName rest from rfl,
      HtmlState.tag_other (not_isTagName_slash hn _),← HtmlState.tag_unaffected_iff hn]
    simp [eq_comm]

/-- A line break written as `<br/>` is not one. -/
theorem scanTag_br_slash : ¬((HtmlState.scanTag ⟨[],false,['a']⟩ (AsciiText.bytes "br/")).output =
      (HtmlState.scanTag ⟨[],false,['a']⟩ (AsciiText.bytes "br")).output ∧
    (HtmlState.scanTag ⟨[],false,['a']⟩ (AsciiText.bytes "br/")).hidden =
      (HtmlState.scanTag ⟨[],false,['a']⟩ (AsciiText.bytes "br")).hidden) := by decide

theorem scanTag_attributes_example :
    (HtmlState.scanTag ⟨[],false,['a']⟩ (AsciiText.bytes "BR"++AsciiText.bytes " /")).output =
      (HtmlState.scanTag ⟨[],false,['a']⟩ (AsciiText.bytes "BR")).output ∧
    (HtmlState.scanTag ⟨[],false,['a']⟩ (AsciiText.bytes "BR"++AsciiText.bytes " /")).hidden =
      (HtmlState.scanTag ⟨[],false,['a']⟩ (AsciiText.bytes "BR")).hidden :=
  (scanTag_attributes_iff ⟨[],false,['a']⟩ (by decide) (by decide)
    (.inr ⟨32,[47],by decide,.inl (by decide)⟩)).mpr (.inl (by decide))

end CrabOs.Net
