import CrabOs.Net.Hidden
import CrabOs.Net.Markup

/-! Where the text of a script or a style ends: at its end tag, unless a bracket in the text is left
open. -/
namespace CrabOs.Net

/-- Every bracket that opens in the text has one that closes behind it. -/
def TagsEnd (text : List UInt8) : Prop := ∀ before after, text = before++60 :: after → 62 ∈ after

section TagsEnd

lemma tagsEnd_nil : TagsEnd [] := fun before _ h => absurd h (by simp)

lemma tagsEnd_append_cons {inner after : List UInt8} :
    TagsEnd (inner++62 :: after) ↔ TagsEnd after := by
  constructor
  · intro h before rest hr
    exact h (inner++62 :: before) rest (by rw [hr]; simp)
  · intro h before rest hr
    rcases List.append_eq_append_iff.mp hr with ⟨x,rfl,hx⟩ | ⟨x,rfl,hx⟩
    · cases x with
      | nil => simp at hx
      | cons y x =>
        obtain ⟨-,hx⟩ := List.cons_eq_cons.mp hx
        exact h x rest hx
    · cases x with
      | nil => simp at hx
      | cons y x =>
        obtain ⟨-,rfl⟩ := List.cons_eq_cons.mp hx
        simp

lemma tagsEnd_cons {byte : UInt8} {text : List UInt8} (hb : byte ≠ 60) :
    TagsEnd (byte :: text) ↔ TagsEnd text := by
  constructor
  · intro h before rest hr
    exact h (byte :: before) rest (by rw [hr]; simp)
  · intro h before rest hr
    cases before with
    | nil =>
      cases hr
      contradiction
    | cons y before =>
      obtain ⟨-,hr⟩ := List.cons_eq_cons.mp hr
      exact h before rest hr

end TagsEnd

namespace HtmlState

/-- Inside hidden text only an end tag changes anything. -/
lemma tag_hidden {rest name : List UInt8} {output : List Char} (h : ¬endsHiding name) :
    HtmlState.tag ⟨rest,true,output⟩ name = ⟨rest,true,output⟩ := by
  rw [tag_eq,if_neg h]
  simp

lemma not_endsHiding {c tail inner after : List UInt8} (hc : ∀ e, ¬HasEndTag e (60 :: c))
    (ht : tail = [] ∨ ∃ t, tail = 60 :: t) (hi : c++tail = inner++62 :: after) :
    ¬endsHiding (tagName inner) := by
  rw [endsHiding_iff]
  rintro ⟨e,hn⟩
  exact hc e (endTag_of_name ht hi hn)

/-- The scan of hidden text comes to the end tag, or goes past it inside an open bracket. -/
lemma reaches_end {endName : List UInt8} (he : 62 ∉ endName) (after : List UInt8)
    (output : List Char) (n : ℕ) {content : List UInt8} (hl : content.length ≤ n)
    (hc : ∀ e, ¬HasEndTag e content) :
    (TagsEnd content → Reaches ⟨content++60 :: (endName++62 :: after),true,output⟩
      ⟨60 :: (endName++62 :: after),true,output⟩) ∧
    (¬TagsEnd content → Reaches ⟨content++60 :: (endName++62 :: after),true,output⟩
      ⟨after,true,output⟩) := by
  induction n generalizing content with
  | zero =>
    rw [List.length_eq_zero_iff.mp (Nat.le_zero.mp hl)]
    exact ⟨fun _ => .refl _,fun h => absurd tagsEnd_nil h⟩
  | succ n ih =>
    cases content with
    | nil => exact ⟨fun _ => .refl _,fun h => absurd tagsEnd_nil h⟩
    | cons byte content =>
      rw [List.length_cons] at hl
      have hs : ∀ {c : List UInt8}, c <:+ byte :: content → ∀ e, ¬HasEndTag e c :=
        fun hc' e h => hc e (h.mono hc'.isInfix)
      by_cases hb : byte = 60
      · subst hb
        by_cases hin : 62 ∈ content
        · obtain ⟨inner,rest,rfl,hn⟩ := List.eq_append_cons_of_mem hin
          have hr : 60 :: (inner++62 :: rest)++60 :: (endName++62 :: after) =
              60 :: (inner++62 :: (rest++60 :: (endName++62 :: after))) := by simp
          have hi : inner++62 :: rest++60 :: (endName++62 :: after) =
              inner++62 :: (rest++60 :: (endName++62 :: after)) := by simp
          have hnot := not_endsHiding hc (.inr ⟨_,rfl⟩) hi
          have hnext := next_tag hn (rest++60 :: (endName++62 :: after)) true output
          rw [tag_hidden hnot] at hnext
          rw [List.length_append,List.length_cons] at hl
          have hplain := hs (c := rest) ⟨60 :: (inner++[62]),by simp⟩
          have hrest := ih (by omega) hplain
          rw [← List.cons_append,tagsEnd_append_cons,List.cons_append,hr]
          exact ⟨fun h => .of_next (hnext ▸ hrest.1 h),fun h => .of_next (hnext ▸ hrest.2 h)⟩
        · have hopen : ¬TagsEnd (60 :: content) := fun h => hin (h [] content rfl)
          have hr : 60 :: content++60 :: (endName++62 :: after) =
              60 :: ((content++60 :: endName)++62 :: after) := by simp
          have hn : 62 ∉ content++60 :: endName := by simp [hin,he]
          have hi : content++60 :: (endName++62 :: after) = content++60 :: endName++62 :: after := by
            simp
          have hnot := not_endsHiding hc (.inr ⟨_,rfl⟩) hi
          have hnext := next_tag hn after true output
          rw [tag_hidden hnot] at hnext
          rw [hr]
          exact ⟨fun h => absurd h hopen,fun _ => .of_next (hnext ▸ .refl _)⟩
      · have htag : byte = 60 → 62 ∉ content++60 :: (endName++62 :: after) :=
          fun h => absurd h hb
        have hnext := next_hidden htag output
        have hplain := hs (List.suffix_cons byte content)
        have hrest := ih (by omega) hplain
        rw [tagsEnd_cons hb]
        exact ⟨fun h => .of_next (hnext ▸ hrest.1 h),fun h => .of_next (hnext ▸ hrest.2 h)⟩

end HtmlState

section Element
variable {e : HiddenElement} {name : List UInt8}

lemma startsHiding_of_name (h : eqIgnoreAsciiCase name e.name) : startsHiding name :=
  (startsHiding_iff name).mpr ⟨e,(eqIgnoreAsciiCase_iff (name_lower e)).mp h⟩

lemma endsHiding_of_name (h : eqIgnoreAsciiCase name (47 :: e.name)) : endsHiding name :=
  (endsHiding_iff name).mpr ⟨e,(eqIgnoreAsciiCase_iff (endTag_lower e)).mp h⟩

namespace HtmlState

lemma next_opening (h : eqIgnoreAsciiCase name e.name) (rest : List UInt8) (hidden : Bool)
    (output : List Char) : next ⟨60 :: (name++62 :: rest),hidden,output⟩ = ⟨rest,true,output⟩ := by
  have hs := startsHiding_of_name h
  have ht : isTagName name := by simp [isTagName,hs]
  rw [next_tag (isTagName_plain ht).1,tagName_eq ht,tag_eq,if_pos hs]

lemma next_closing (h : eqIgnoreAsciiCase name (47 :: e.name)) (rest : List UInt8) (hidden : Bool)
    (output : List Char) : next ⟨60 :: (name++62 :: rest),hidden,output⟩ = ⟨rest,false,output⟩ := by
  have hs := endsHiding_of_name h
  have ht : isTagName name := by simp [isTagName,hs]
  have hn : ¬startsHiding name := by
    rw [startsHiding_iff]
    rintro ⟨d,hd⟩
    rw [(eqIgnoreAsciiCase_iff (endTag_lower e)).mp h] at hd
    revert hd
    cases d <;> cases e <;> decide
  rw [next_tag (isTagName_plain ht).1,tagName_eq ht,tag_eq,if_neg hn,if_pos hs]

end HtmlState
end Element

/-- A hidden element leaves no trace exactly when its text leaves no bracket open. -/
theorem hidden_element_iff {e : HiddenElement} {name endName content : List UInt8}
    (after : List UInt8) (output : List Char) (hn : eqIgnoreAsciiCase name e.name)
    (he : eqIgnoreAsciiCase endName (47 :: e.name)) (hc : ∀ d, ¬HasEndTag d content) :
    (HtmlState.Reaches
        ⟨60 :: (name++62 :: (content++60 :: (endName++62 :: after))),false,output⟩
        ⟨after,false,output⟩ ∧
      renderHtml (60 :: (name++62 :: (content++60 :: (endName++62 :: after)))) output =
        renderHtml after output) ↔ TagsEnd content := by
  have ht : isTagName endName := by simp [isTagName,endsHiding_of_name he]
  have hend := HtmlState.reaches_end (isTagName_plain ht).1 after output content.length le_rfl hc
  have hopen := HtmlState.next_opening hn (content++60 :: (endName++62 :: after)) false output
  constructor
  · rintro ⟨h,-⟩
    by_contra hnot
    have hpast := hend.2 hnot
    rw [← hopen] at hpast
    have hsame := h.unique hpast.of_next rfl
    cases hsame
  · intro h
    have hreach := hend.1 h
    rw [← hopen] at hreach
    have hclose : HtmlState.Reaches ⟨60 :: (endName++62 :: after),true,output⟩
        ⟨after,false,output⟩ := by
      apply HtmlState.Reaches.of_next
      rw [HtmlState.next_closing he]
      exact .refl _
    have hall := hreach.of_next.trans hclose
    exact ⟨hall,congrArg HtmlState.output hall.run_eq⟩

theorem hidden_element_example :
    renderHtml (AsciiText.bytes "<script>1<2>3</SCRIPT>x") [] =
      renderHtml (AsciiText.bytes "x") [] := by
  have ht : TagsEnd (AsciiText.bytes "1<2>3") := by
    change TagsEnd ([49,60,50]++62 :: [51])
    rw [tagsEnd_append_cons,tagsEnd_cons (by decide)]
    exact tagsEnd_nil
  have hn : eqIgnoreAsciiCase (AsciiText.bytes "script") HiddenElement.script.name := by decide
  have he : eqIgnoreAsciiCase (AsciiText.bytes "/SCRIPT") (47 :: HiddenElement.script.name) := by
    decide
  have hc : ∀ d, ¬HasEndTag d (AsciiText.bytes "1<2>3") := by rintro (_ | _) <;> decide
  exact ((hidden_element_iff (AsciiText.bytes "x") [] hn he hc).mpr ht).2

/-- A comparison in a script hides the rest of the page. -/
theorem hidden_element_swallows :
    (∀ d, ¬HasEndTag d (AsciiText.bytes "a<b")) ∧
      ¬(HtmlState.Reaches ⟨AsciiText.bytes "<script>a<b</script>x",false,[]⟩
          ⟨AsciiText.bytes "x",false,[]⟩ ∧
        renderHtml (AsciiText.bytes "<script>a<b</script>x") [] =
          renderHtml (AsciiText.bytes "x") []) := by
  refine ⟨by rintro (_ | _) <;> decide,?_⟩
  rintro ⟨-,h⟩
  revert h
  decide

end CrabOs.Net
