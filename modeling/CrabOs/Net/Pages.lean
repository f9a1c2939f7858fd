import CrabOs.Net.Scan

/-! The text of a page: `render` with the bounds that the code checks, and the shape of what it
returns. -/
namespace CrabOs.Net
open CrabOs.Vga
open AsciiText (isAsciiWhitespace)

/-- The slice `bytes[start..stop]`; one out of range is a panic. -/
def slice (bytes : List UInt8) (start stop : ℕ) : Option (List UInt8) :=
  if start ≤ stop ∧ stop ≤ bytes.length then some ((bytes.take stop).drop start) else none

/-- The variables of the loop of `render_html` as the code keeps them. -/
structure Cursor where
  index : ℕ
  hidden : Bool
  output : List Char

namespace Cursor

/-- The body from the index on, as the state of the scan. -/
def state (c : Cursor) (body : List UInt8) : HtmlState := ⟨body.drop c.index,c.hidden,c.output⟩

/-- One iteration on the indices of the body. -/
def iterate (c : Cursor) (body : List UInt8) : Option Cursor := do
  let byte ← body[c.index]?
  let rest ← slice body c.index body.length
  match if byte = 60 then rest.idxOf? 62 else none with
  | some stop =>
    let tag ← slice body (c.index+1) (c.index+stop)
    let name ← slice tag 0 ((tag.findIdx? isAsciiWhitespace).getD tag.length)
    let s := (c.state body).tag name
    some ⟨c.index+(stop+1),s.hidden,s.output⟩
  | none =>
    if c.hidden then some { c with index := c.index+1 }
    else match entities.find? (fun entity => entity.1.isPrefixOf rest) with
      | some (entity,character) =>
        some { c with index := c.index+entity.length, output := c.output++[character] }
      | none => some ⟨c.index+1,c.hidden,((c.state body).text byte).output⟩

/-- The loop; it has no result when it panics or is still running without fuel. -/
def loop (body : List UInt8) : ℕ → Cursor → Option Cursor
  | fuel,c =>
    if c.index < body.length then
      match fuel with
      | 0 => none
      | fuel+1 => (c.iterate body).bind (loop body fuel)
    else some c

end Cursor

/-- `render`; it has no result when it panics. -/
def renderChecked (response : List UInt8) : Option (Except String String) :=
  match findPattern [13,10,13,10] response with
  | none => some (.error "invalid HTTP response")
  | some headerEnd => do
    let header ← slice response 0 headerEnd
    let body ← slice response (headerEnd+4) response.length
    let status ← slice header 0 ((findPattern [13,10] header).getD header.length)
    if ¬(AsciiText.bytes "HTTP/").isPrefixOf status then some (.error "invalid HTTP status")
    else
      let output := statusText status++['\n']
      if isHtml header then do
        let c ← Cursor.loop body body.length ⟨0,false,output⟩
        some (.ok (String.ofList c.output))
      else some (.ok (String.ofList (output++plainText body)))

section Bounds

lemma slice_eq {bytes : List UInt8} {start stop : ℕ} (h : start ≤ stop) (h' : stop ≤ bytes.length) :
    slice bytes start stop = some ((bytes.take stop).drop start) := if_pos ⟨h,h'⟩

lemma slice_from {bytes : List UInt8} {start : ℕ} (h : start ≤ bytes.length) :
    slice bytes start bytes.length = some (bytes.drop start) := by
  rw [slice_eq h le_rfl,List.take_length]

lemma slice_to {bytes : List UInt8} {stop : ℕ} (h : stop ≤ bytes.length) :
    slice bytes 0 stop = some (bytes.take stop) := by
  rw [slice_eq (Nat.zero_le stop) h,List.drop_zero]

/-- The name that is sliced out of a tag. -/
lemma slice_name (tag : List UInt8) :
    slice tag 0 ((tag.findIdx? isAsciiWhitespace).getD tag.length) = some (tagName tag) := by
  rw [← List.findIdx_eq_getD_findIdx?,slice_to List.findIdx_le_length]
  unfold tagName
  rw [List.takeWhile_eq_take_findIdx_not]
  simp only [Bool.not_not]

lemma findPattern_le {pattern bytes : List UInt8} {i : ℕ} (h : findPattern pattern bytes = some i) :
    i+pattern.length ≤ bytes.length := by
  induction bytes generalizing i with
  | nil =>
    simp only [findPattern] at h
    split at h
    · next hp =>
      cases h
      simp [hp]
    · contradiction
  | cons byte bytes ih =>
    simp only [findPattern] at h
    split at h
    · next hp =>
      cases h
      rw [Nat.zero_add]
      exact (List.isPrefixOf_iff_prefix.mp hp).length_le
    · obtain ⟨j,hj,rfl⟩ := Option.map_eq_some_iff.mp h
      have hl := ih hj
      rw [List.length_cons]
      omega

namespace Cursor

lemma iterate_tag {body inner after : List UInt8} {i : ℕ} (h : 62 ∉ inner)
    (hr : body.drop i = 60 :: (inner++62 :: after)) (hidden : Bool) (output : List Char) :
    ∃ c', iterate ⟨i,hidden,output⟩ body = some c' ∧ c'.index = i+(inner.length+2) ∧
      c'.state body = HtmlState.tag ⟨after,hidden,output⟩ (tagName inner) := by
  have hl := congrArg List.length hr
  simp only [List.length_drop,List.length_cons,List.length_append] at hl
  have hget : body[i]? = some 60 := by
    rw [← List.head?_drop,hr]
    rfl
  have hidx : (60 :: (inner++62 :: after)).idxOf? 62 = some (inner.length+1) := by
    rw [List.idxOf?_cons,Separators.idxOf?_append h]
    rfl
  have htag : slice body (i+1) (i+(inner.length+1)) = some inner := by
    have hs : i+(inner.length+1)-(i+1) = inner.length := by omega
    rw [slice_eq (by omega) (by omega),List.drop_take,hs,← List.drop_drop,hr]
    simp
  have hafter : body.drop (i+(inner.length+2)) = after := by
    rw [← List.drop_drop,hr]
    simp
  let s := (state ⟨i,hidden,output⟩ body).tag (tagName inner)
  refine ⟨⟨i+(inner.length+2),s.hidden,s.output⟩,?_,rfl,?_⟩
  · unfold iterate
    dsimp only
    rw [hget,slice_from (by omega),hr]
    simp only [Option.bind_eq_bind,Option.bind_some,if_true]
    rw [hidx]
    simp only [htag,slice_name,Option.bind_some]
    rfl
  · unfold state
    rw [hafter]
    exact HtmlState.tag_with_rest (state ⟨i,hidden,output⟩ body) after (tagName inner)

lemma iterate_byte {body tail : List UInt8} {byte : UInt8} {i : ℕ} (h : byte = 60 → 62 ∉ tail)
    (hr : body.drop i = byte :: tail) (hidden : Bool) (output : List Char) :
    ∃ c', iterate ⟨i,hidden,output⟩ body = some c' ∧ i < c'.index ∧ c'.index ≤ body.length ∧
      c'.state body = HtmlState.next ⟨byte :: tail,hidden,output⟩ := by
  have hl := congrArg List.length hr
  simp only [List.length_drop,List.length_cons] at hl
  have hget : body[i]? = some byte := by
    rw [← List.head?_drop,hr]
    rfl
  have htail : body.drop (i+1) = tail := by
    rw [← List.drop_drop,hr]
    rfl
  unfold iterate
  dsimp only
  rw [hget,slice_from (by omega),hr]
  simp only [Option.bind_eq_bind,Option.bind_some]
  rw [HtmlState.no_tag h]
  cases hidden with
  | true =>
    refine ⟨_,rfl,Nat.lt_succ_self i,by dsimp only; omega,?_⟩
    rw [HtmlState.next_hidden h]
    unfold state
    rw [htail]
  | false =>
    cases hf : entities.find? (fun entity => entity.1.isPrefixOf (byte :: tail)) with
    | none =>
      refine ⟨_,rfl,Nat.lt_succ_self i,by dsimp only; omega,?_⟩
      have ht := HtmlState.text_with_rest (state ⟨i,false,output⟩ body) tail byte
      dsimp only at ht
      rw [HtmlState.text_hidden] at ht
      rw [HtmlState.next_plain h hf]
      unfold state
      rw [htail]
      exact ht
    | some found =>
      obtain ⟨entity,character⟩ := found
      have he := HtmlState.entities_ne_nil (List.mem_of_find?_eq_some hf)
      have hp := List.find?_some hf
      have hle := (List.isPrefixOf_iff_prefix.mp hp).length_le
      have hpos := List.length_pos_iff.mpr he
      dsimp only at hpos hle
      rw [List.length_cons] at hle
      refine ⟨_,rfl,by dsimp only; omega,by dsimp only; omega,?_⟩
      rw [HtmlState.next_entity h hf]
      unfold state
      dsimp only
      rw [← hr,List.drop_drop]

/-- An iteration inside the body stays inside it, moves forward and is the step of the scan. -/
lemma iterate_eq {c : Cursor} {body : List UInt8} (h : c.index < body.length) :
    ∃ c', c.iterate body = some c' ∧ c'.state body = (c.state body).next ∧
      c.index < c'.index ∧ c'.index ≤ body.length := by
  obtain ⟨i,hidden,output⟩ := c
  dsimp only at h
  have hne : body.drop i ≠ [] := by
    rw [Ne,List.drop_eq_nil_iff]
    omega
  rcases HtmlState.front_cases hne with ⟨inner,after,hn,hr⟩ | ⟨byte,tail,hb,hr⟩
  · obtain ⟨c',hc,hi,hs⟩ := iterate_tag hn hr hidden output
    have hl := congrArg List.length hr
    simp only [List.length_drop,List.length_cons,List.length_append] at hl
    refine ⟨c',hc,?_,by dsimp only; omega,by omega⟩
    rw [hs]
    unfold state
    rw [hr,HtmlState.next_tag hn]
  · obtain ⟨c',hc,hlt,hle,hs⟩ := iterate_byte hb hr hidden output
    refine ⟨c',hc,?_,hlt,hle⟩
    rw [hs]
    unfold state
    rw [hr]

/-- The loop ends within as many iterations as the body has bytes left, without a panic. -/
lemma loop_eq (body : List UInt8) (fuel : ℕ) {c : Cursor} (hi : c.index ≤ body.length)
    (hf : body.length-c.index ≤ fuel) :
    ∃ c', loop body fuel c = some c' ∧ c'.state body = HtmlState.run fuel (c.state body) := by
  induction fuel generalizing c with
  | zero =>
    have hn : ¬c.index < body.length := by omega
    exact ⟨c,by rw [loop,if_neg hn],rfl⟩
  | succ fuel ih =>
    rw [loop]
    by_cases h : c.index < body.length
    · obtain ⟨c₁,hc₁,hs₁,hlt,hle⟩ := iterate_eq h
      obtain ⟨c',hc',hs'⟩ := ih hle (by omega)
      refine ⟨c',?_,?_⟩
      · rw [if_pos h,hc₁,Option.bind_some,hc']
      · rw [hs',hs₁,HtmlState.run_succ]
    · have hd : (c.state body).rest = [] := List.drop_eq_nil_of_le (by omega)
      exact ⟨c,if_neg h,(HtmlState.run_nil hd _).symm⟩

lemma loop_renderHtml (body : List UInt8) (output : List Char) :
    ∃ c', loop body body.length ⟨0,false,output⟩ = some c' ∧ c'.output = renderHtml body output := by
  obtain ⟨c',hc,hs⟩ := loop_eq body body.length (c := ⟨0,false,output⟩) (Nat.zero_le _)
    (Nat.sub_le _ _)
  exact ⟨c',hc,congrArg HtmlState.output hs⟩

end Cursor

/-- No response makes `render` panic or run forever. -/
theorem renderChecked_eq (response : List UInt8) :
    renderChecked response = some (render response) := by
  unfold renderChecked render
  cases hf : findPattern [13,10,13,10] response with
  | none => rfl
  | some headerEnd =>
    have hle := findPattern_le hf
    simp only [List.length_cons,List.length_nil] at hle
    have hstatus : ∀ header : List UInt8,
        (findPattern [13,10] header).getD header.length ≤ header.length := by
      intro header
      cases hs : findPattern [13,10] header with
      | none => exact le_rfl
      | some i => exact (Nat.le_add_right _ _).trans (findPattern_le hs)
    dsimp only
    rw [slice_to (by omega),slice_from (by omega)]
    simp only [Option.bind_eq_bind,Option.bind_some]
    rw [slice_to (hstatus _)]
    simp only [Option.bind_some]
    split
    · rfl
    · split
      · obtain ⟨c',hc,ho⟩ := Cursor.loop_renderHtml (response.drop (headerEnd+4))
          (statusText ((response.take headerEnd).take ((findPattern [13,10]
            (response.take headerEnd)).getD (response.take headerEnd).length))++['\n'])
        rw [hc,← ho]
        rfl
      · rfl

end Bounds

section Shape

/-- What an iteration may append to the output of a state. -/
def Appends (s : HtmlState) (c : Char) : Prop :=
  (c = '\n' ∧ ¬s.endsWith '\n') ∨ (c = ' ' ∧ ¬s.endsWith ' ' ∧ ¬s.endsWith '\n') ∨
    (∃ byte, isAsciiGraphic byte ∧ c = Char.ofUInt8 byte) ∨
    (c = ' ' ∧ AsciiText.bytes "&nbsp;" <+: s.rest)

lemma entities_graphic {e : List UInt8 × Char} (h : e ∈ entities) :
    (∃ byte, isAsciiGraphic byte ∧ e.2 = Char.ofUInt8 byte) ∨
      (e.2 = ' ' ∧ e.1 = AsciiText.bytes "&nbsp;") := by
  simp only [entities,List.mem_cons,List.not_mem_nil,or_false] at h
  rcases h with rfl | rfl | rfl | rfl | rfl
  · exact .inl ⟨38,by decide,by decide⟩
  · exact .inl ⟨60,by decide,by decide⟩
  · exact .inl ⟨62,by decide,by decide⟩
  · exact .inl ⟨34,by decide,by decide⟩
  · exact .inr ⟨rfl,rfl⟩

lemma tag_appends (s : HtmlState) (name : List UInt8) :
    (s.tag name).output = s.output ∨
      (s.tag name).output = s.output++['\n'] ∧ ¬s.endsWith '\n' := by
  unfold HtmlState.tag
  split_ifs with h₁ h₂ h₃
  · exact .inl rfl
  · exact .inl rfl
  · rw [Bool.and_eq_true,Bool.not_eq_true'] at h₃
    exact .inr ⟨rfl,by simp [h₃.2]⟩
  · exact .inl rfl

lemma text_appends (s : HtmlState) (byte : UInt8) :
    (s.text byte).output = s.output ∨
      ((s.text byte).output = s.output++[' '] ∧ ¬s.endsWith ' ' ∧ ¬s.endsWith '\n') ∨
      ((s.text byte).output = s.output++[Char.ofUInt8 byte] ∧ isAsciiGraphic byte) := by
  unfold HtmlState.text
  split_ifs with h₁ h₂ h₃
  · simp only [Bool.and_eq_true,Bool.not_eq_true'] at h₂
    exact .inr (.inl ⟨rfl,by simp [h₂.1],by simp [h₂.2]⟩)
  · exact .inl rfl
  · exact .inr (.inr ⟨rfl,h₃⟩)
  · exact .inl rfl

/-- An iteration appends at most one character. -/
lemma iterates_appends {s t : HtmlState} (h : HtmlState.Iterates s t) :
    t.output = s.output ∨ ∃ c, t.output = s.output++[c] ∧ Appends s c := by
  cases h with
  | @tag inner after hidden output h =>
    rcases tag_appends ⟨after,hidden,output⟩ (tagName inner) with ho | ⟨ho,hn⟩
    · exact .inl ho
    · exact .inr ⟨'\n',ho,.inl ⟨rfl,hn⟩⟩
  | hidden h => exact .inl rfl
  | @entity entity after character output h =>
    right
    refine ⟨character,rfl,?_⟩
    rcases entities_graphic h with hg | ⟨hc,he⟩
    · exact .inr (.inr (.inl hg))
    · refine .inr (.inr (.inr ⟨hc,?_⟩))
      rw [← he]
      exact List.prefix_append _ _
  | @text byte tail output h hn =>
    rcases text_appends ⟨tail,false,output⟩ byte with ho | ⟨ho,hs⟩ | ⟨ho,hg⟩
    · exact .inl ho
    · exact .inr ⟨' ',ho,.inr (.inl ⟨rfl,hs⟩)⟩
    · exact .inr ⟨Char.ofUInt8 byte,ho,.inr (.inr (.inl ⟨byte,hg,rfl⟩))⟩

/-- The characters a page may hold: newlines, tabs and printable ASCII. -/
def IsPageChar (c : Char) : Prop := c = '\n' ∨ c = '\t' ∨ (0x20 ≤ c.toNat ∧ c.toNat ≤ 0x7e)

lemma isPageChar_ofUInt8 {byte : UInt8} (h : 32 ≤ byte.toNat ∧ byte.toNat ≤ 126) :
    IsPageChar (Char.ofUInt8 byte) := by
  right
  right
  rw [AsciiText.toNat_ofUInt8]
  exact h

lemma isPageChar_graphic {byte : UInt8} (h : isAsciiGraphic byte) :
    IsPageChar (Char.ofUInt8 byte) := by
  rw [isAsciiGraphic_iff] at h
  exact isPageChar_ofUInt8 ⟨by omega,h.2⟩

lemma Appends.isPageChar {s : HtmlState} {c : Char} (h : Appends s c) : IsPageChar c := by
  rcases h with ⟨rfl,_⟩ | ⟨rfl,_⟩ | ⟨byte,hg,rfl⟩ | ⟨rfl,_⟩
  · exact .inl rfl
  · exact .inr (.inr (by decide))
  · exact isPageChar_graphic hg
  · exact .inr (.inr (by decide))

lemma renderHtml_pageChars {body : List UInt8} {output : List Char}
    (h : ∀ c ∈ output, IsPageChar c) : ∀ c ∈ renderHtml body output, IsPageChar c := by
  apply HtmlState.run_invariant (I := fun s => ∀ c ∈ s.output, IsPageChar c)
  · intro s t hs hst
    rcases iterates_appends hst with ho | ⟨c,ho,hc⟩
    · rwa [ho]
    · rw [ho,List.forall_mem_append]
      exact ⟨hs,by simpa using hc.isPageChar⟩
  · exact h

lemma statusText_pageChars (status : List UInt8) :
    ∀ c ∈ statusText status, IsPageChar c ∧ c ≠ '\n' := by
  intro c hc
  obtain ⟨byte,hb,rfl⟩ := List.mem_map.mp hc
  have hf := (List.mem_filter.mp hb).2
  rw [Bool.or_eq_true,isAsciiGraphic_iff,decide_eq_true_eq,← UInt8.toNat_inj] at hf
  have hr : 32 ≤ byte.toNat ∧ byte.toNat ≤ 126 := by
    change _ ∨ byte.toNat = 32 at hf
    omega
  refine ⟨isPageChar_ofUInt8 hr,fun he => ?_⟩
  have hn := congrArg Char.toNat he
  rw [AsciiText.toNat_ofUInt8] at hn
  change byte.toNat = 10 at hn
  omega

lemma plainText_pageChars (body : List UInt8) : ∀ c ∈ plainText body, IsPageChar c := by
  intro c hc
  obtain ⟨byte,hb,rfl⟩ := List.mem_map.mp hc
  have hf := (List.mem_filter.mp hb).2
  simp only [isAsciiControl,Bool.or_eq_true,Bool.and_eq_true,Bool.not_eq_true',Bool.or_eq_false_iff,
    decide_eq_true_eq,decide_eq_false_iff_not] at hf
  rcases hf with (rfl | rfl) | ⟨hl,hs,hd⟩
  · exact .inl rfl
  · exact .inr (.inl rfl)
  · rw [UInt8.lt_iff_toNat_lt] at hl hs
    rw [← UInt8.toNat_inj] at hd
    change byte.toNat < 128 at hl
    change ¬byte.toNat < 32 at hs
    change ¬byte.toNat = 127 at hd
    exact isPageChar_ofUInt8 ⟨by omega,by omega⟩

/-- The pairs of characters that may stand next to each other in a rendered body. -/
def Follows (a b : Char) : Prop :=
  b ≠ '\t' ∧ ¬(a = '\n' ∧ b = '\n') ∧ ¬(a = ' ' ∧ b = ' ') ∧ ¬(a = '\n' ∧ b = ' ')

lemma Appends.follows {s : HtmlState} {a c : Char} (h : Appends s c)
    (hn : ¬AsciiText.bytes "&nbsp;" <+: s.rest) (ha : s.endsWith a) : Follows a c := by
  have hne : ∀ b, ¬s.endsWith b → a ≠ b := by
    rintro b hb rfl
    exact hb ha
  rcases h with ⟨rfl,h⟩ | ⟨rfl,hs,hl⟩ | ⟨byte,hg,rfl⟩ | ⟨_,h⟩
  · have ha' := hne _ h
    simp [Follows,ha']
  · have hs' := hne _ hs
    have hl' := hne _ hl
    simp [Follows,hs',hl']
  · have hb := (isAsciiGraphic_iff byte).mp hg
    have hc : ∀ d : Char, d.toNat < 33 → Char.ofUInt8 byte ≠ d := by
      rintro d hd rfl
      rw [AsciiText.toNat_ofUInt8] at hd
      omega
    have ht := hc '\t' (by decide)
    have hl := hc '\n' (by decide)
    have hs := hc ' ' (by decide)
    simp [Follows,ht,hl,hs]
  · exact absurd h hn

/-- The loop keeps the text behind a newline free of doubled blanks. -/
lemma renderHtml_follows {body : List UInt8} (hn : ¬AsciiText.bytes "&nbsp;" <:+: body)
    (status : List Char) : ∃ part, renderHtml body (status++['\n']) = status++ '\n' :: part ∧
      List.IsChain Follows ('\n' :: part) := by
  have hI : ∀ s t : HtmlState, (s.rest <:+ body ∧ ∃ part, s.output = status++ '\n' :: part ∧
      List.IsChain Follows ('\n' :: part)) → HtmlState.Iterates s t →
      t.rest <:+ body ∧ ∃ part, t.output = status++ '\n' :: part ∧
        List.IsChain Follows ('\n' :: part) := by
    rintro s t ⟨hr,part,ho,hc⟩ hst
    refine ⟨hst.shorter.1.trans hr,?_⟩
    rcases iterates_appends hst with ht | ⟨c,ht,ha⟩
    · exact ⟨part,ht.trans ho,hc⟩
    · refine ⟨part++[c],by rw [ht,ho,List.append_assoc,List.cons_append],?_⟩
      rw [← List.cons_append,List.isChain_append]
      refine ⟨hc,List.isChain_singleton c,fun a hla d hd => ?_⟩
      cases hd
      apply ha.follows
      · intro hp
        exact hn (hp.isInfix.trans hr.isInfix)
      · unfold HtmlState.endsWith
        rw [ho,List.getLast?_append_cons]
        simpa using hla
  have h := HtmlState.run_invariant hI body.length (s := ⟨body,false,status++['\n']⟩)
    ⟨List.suffix_rfl,[],rfl,List.isChain_singleton _⟩
  exact h.2

/-- Text without tabs, doubled newlines or spaces, or indentation. -/
structure Normalised (part : List Char) : Prop where
  tab : '\t' ∉ part
  newlines : ¬['\n','\n'] <:+: part
  spaces : ¬[' ',' '] <:+: part
  indent : ¬['\n',' '] <:+: part
  head : part.head? ≠ some ' ' ∧ part.head? ≠ some '\n'

lemma normalised_of_follows {part : List Char} (h : List.IsChain Follows ('\n' :: part)) :
    Normalised part := by
  have hpair : ∀ a b, [a,b] <:+: part → Follows a b := by
    intro a b hi
    have hc := List.IsChain.infix h (hi.trans (List.suffix_cons _ _).isInfix)
    exact List.isChain_pair.mp hc
  have hhead : ∀ c, part.head? = some c → Follows '\n' c := by
    intro c hc
    exact (List.isChain_cons.mp h).1 c hc
  refine ⟨?_,fun hi => ?_,fun hi => ?_,fun hi => ?_,fun hc => ?_,fun hc => ?_⟩
  · intro hm
    obtain ⟨before,after,rfl⟩ := List.append_of_mem hm
    rw [← List.cons_append,List.isChain_append] at h
    have hl := List.getLast?_eq_some_getLast (List.cons_ne_nil '\n' before)
    exact (h.2.2 _ hl '\t' rfl).1 rfl
  · exact (hpair _ _ hi).2.1 ⟨rfl,rfl⟩
  · exact (hpair _ _ hi).2.2.1 ⟨rfl,rfl⟩
  · exact (hpair _ _ hi).2.2.2 ⟨rfl,rfl⟩
  · exact (hhead _ hc).2.2.2 ⟨rfl,rfl⟩
  · exact (hhead _ hc).2.1 ⟨rfl,rfl⟩

/-- The text of a page with a given status line. -/
lemma page_text (header status body : List UInt8) :
    let text := if isHtml header then renderHtml body (statusText status++['\n'])
      else statusText status++['\n']++plainText body
    (∀ c ∈ text, IsPageChar c) ∧
      (isHtml header → ¬AsciiText.bytes "&nbsp;" <:+: body →
        ∃ line part, text = line++ '\n' :: part ∧ '\n' ∉ line ∧ Normalised part) := by
  have hstatus := statusText_pageChars status
  have hline : ∀ c ∈ statusText status++['\n'], IsPageChar c := by
    rw [List.forall_mem_append]
    exact ⟨fun c hc => (hstatus c hc).1,by simp [IsPageChar]⟩
  intro text
  constructor
  · unfold text
    split
    · exact renderHtml_pageChars hline
    · rw [List.forall_mem_append]
      exact ⟨hline,plainText_pageChars body⟩
  · intro html hn
    obtain ⟨part,ho,hc⟩ := renderHtml_follows hn (statusText status)
    unfold text
    rw [if_pos html,ho]
    exact ⟨_,part,rfl,fun hm => (hstatus _ hm).2 rfl,normalised_of_follows hc⟩

end Shape

/-- Every response is refused or becomes a page that is safe to print, and the text of an HTML
page is normalised unless it asks for hard spaces. -/
theorem render_page (response : List UInt8) : ∃ result, renderChecked response = some result ∧
    ∀ page, result = .ok page → (∀ c ∈ page.toList, IsPageChar c) ∧
      ∀ headerEnd, findPattern [13,10,13,10] response = some headerEnd →
        isHtml (response.take headerEnd) →
        ¬AsciiText.bytes "&nbsp;" <:+: response.drop (headerEnd+4) →
        ∃ line part, page.toList = line++ '\n' :: part ∧ '\n' ∉ line ∧ Normalised part := by
  refine ⟨render response,renderChecked_eq response,?_⟩
  intro page hp
  unfold render at hp
  cases hf : findPattern [13,10,13,10] response with
  | none =>
    rw [hf] at hp
    contradiction
  | some headerEnd =>
    rw [hf] at hp
    dsimp only at hp
    split at hp
    · contradiction
    · cases hp
      rw [String.toList_ofList]
      have ht := page_text (response.take headerEnd) ((response.take headerEnd).take
        ((findPattern [13,10] (response.take headerEnd)).getD (response.take headerEnd).length))
        (response.drop (headerEnd+4))
      refine ⟨ht.1,?_⟩
      rintro headerEnd' he html hn
      cases he
      exact ht.2 html hn

theorem render_page_example : ∃ page,
    renderChecked (AsciiText.bytes "HTTP/1.0 200\r\ncontent-type: text/html\r\n\r\n<p> a") =
      some (.ok page) ∧ ∃ line part, page.toList = line++ '\n' :: part ∧ Normalised part := by
  obtain ⟨result,hr,h⟩ := render_page
    (AsciiText.bytes "HTTP/1.0 200\r\ncontent-type: text/html\r\n\r\n<p> a")
  have hr' : renderChecked
      (AsciiText.bytes "HTTP/1.0 200\r\ncontent-type: text/html\r\n\r\n<p> a") =
      some (.ok "HTTP/1.0 200\na") := by rfl
  rw [hr'] at hr
  cases hr
  obtain ⟨-,hn⟩ := h _ rfl
  obtain ⟨line,part,hp,-,hpart⟩ := hn 37 (by decide) (by decide) (by decide)
  exact ⟨_,hr',line,part,hp,hpart⟩

end CrabOs.Net
