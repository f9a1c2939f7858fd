import CrabOs.Shell.ArgumentWords

/-! The spans of the arguments lie one behind the other in the byte buffer, and the bytes they cover
are characters of the input. -/
namespace CrabOs.Crabsh

namespace Gather

lemma stored_length_absorbAll (ms : List Mark) (g : Gather) :
    (absorbAll ms g).stored.length ≤ g.stored.length+ms.length := by
  induction ms generalizing g with
  | nil => exact le_rfl
  | cons m ms ih =>
    have hrest := ih (g.absorb m)
    have hfirst := stored_length_absorb g m
    rw [absorbAll_cons,List.length_cons]
    omega

end Gather

lemma Context.length_marks (bytes : List UInt8) (c : Context) :
    (c.marks bytes).length = bytes.length := by
  induction bytes generalizing c with
  | nil => rfl
  | cons byte bytes ih => rw [marks,List.length_cons,ih,List.length_cons]

/-- The words have no more bytes than the input. -/
lemma wordsOf_length (input : List UInt8) : (wordsOf input).flatten.length ≤ input.length := by
  have hstored := Gather.stored_length_absorbAll (Context.outside.marks input) .start
  rw [Context.length_marks] at hstored
  have hall : ∀ g : Gather, g.all.flatten.length = g.stored.length := by
    rintro ⟨done,current⟩
    cases current with
    | none => simp [Gather.all,Gather.stored]
    | some word => simp [Gather.all,Gather.stored]
  rw [wordsOf,Gather.words_eq,hall]
  exact hstored.trans (by simp [Gather.start,Gather.stored])

namespace Arguments

/-- `spans[index]`. -/
def span (args : Arguments) (index : ℕ) : ℕ × ℕ := args.spans[index]?.getD (0,0)

/-- The spans start with the buffer, follow each other without a gap and end within as many bytes as
the input has; the bytes in them are ASCII. -/
structure Tiled (args : Arguments) (inputLength : ℕ) : Prop where
  room : args.len ≤ maxArgs
  first : 0 < args.len → (args.span 0).1 = 0
  ordered : ∀ i < args.len, (args.span i).1 ≤ (args.span i).2
  contiguous : ∀ i, i+1 < args.len → (args.span i).2 = (args.span (i+1)).1
  inside : ∀ i < args.len, (args.span i).2 ≤ inputLength ∧ (args.span i).2 ≤ maxInput
  ascii : ∀ i < args.len, ∀ k < (args.span i).2, ∃ byte, args.bytes[k]? = some byte ∧ byte < 128
  apart : ∀ i j, i < j → j < args.len → (args.span i).2 ≤ (args.span j).1

variable {s : ParseState} {words : List (List UInt8)}

lemma span_eq (h : Gathered s ⟨words,none⟩) {i : ℕ} (hi : i < words.length) :
    s.result.span i = ((words.take i).flatten.length,(words.take (i+1)).flatten.length) := by
  rw [span,h.spans i hi]
  rfl

/-- More words take more bytes. -/
lemma flatten_take_le (words : List (List UInt8)) {i j : ℕ} (h : i ≤ j) :
    (words.take i).flatten.length ≤ (words.take j).flatten.length := by
  have hprefix : words.take i <+: words.take j := List.take_prefix_take_left h
  obtain ⟨rest,hrest⟩ := hprefix
  rw [← hrest,List.flatten_append,List.length_append]
  exact Nat.le_add_right _ _

lemma flatten_take_length (words : List (List UInt8)) (i : ℕ) :
    (words.take i).flatten.length ≤ words.flatten.length := by
  have hle := flatten_take_le words (Nat.le_add_right i words.length)
  rw [List.take_of_length_le (Nat.le_add_left _ _)] at hle
  exact hle

/-- The arguments of an accepted input tile the buffer. -/
lemma tiled_of_gathered {input : List UInt8} (h : Gathered s ⟨wordsOf input,none⟩)
    (hascii : ∀ byte ∈ input, byte < 128) : Tiled s.result input.length := by
  have hlen : s.result.len = (wordsOf input).length := h.len
  have hused : s.used = (wordsOf input).flatten.length := by
    rw [h.used,Gather.stored,Option.getD_none,List.append_nil]
  have hinside : ∀ i < s.result.len, (s.result.span i).2 ≤ s.used := by
    intro i hi
    rw [span_eq h (hlen ▸ hi),hused]
    exact flatten_take_length _ _
  constructor
  case room => exact h.len.trans_le h.room
  case first =>
    intro hpos
    rw [span_eq h (hlen ▸ hpos)]
    rfl
  case ordered =>
    intro i hi
    rw [span_eq h (hlen ▸ hi)]
    exact flatten_take_le _ (Nat.le_succ i)
  case contiguous =>
    intro i hi
    rw [span_eq h (hlen ▸ Nat.lt_of_succ_lt hi),span_eq h (hlen ▸ hi)]
  case inside =>
    intro i hi
    have hlast := hinside i hi
    exact ⟨hlast.trans (hused.trans_le (wordsOf_length input)),hlast.trans h.bound⟩
  case ascii =>
    intro i hi k hk
    have hkused : k < s.used := hk.trans_le (hinside i hi)
    have hbyte := h.bytes k hkused
    rw [Gather.stored,Option.getD_none,List.append_nil] at hbyte
    rw [hused] at hkused
    rw [List.getElem?_eq_getElem hkused] at hbyte
    obtain ⟨word,hword,hmem⟩ := List.mem_flatten.mp (List.getElem_mem hkused)
    exact ⟨_,hbyte,hascii _ (mem_of_mem_word hword hmem)⟩
  case apart =>
    intro i j hij hj
    rw [span_eq h (hlen ▸ hij.trans hj),span_eq h (hlen ▸ hj)]
    exact flatten_take_le _ hij

/-- Parsing never indexes out of range; what it accepts tiles the buffer, so every argument can be
read and no two arguments share a byte. -/
theorem parse_tiles (input : String) : parse input ≠ none ∧
    ∀ args, parse input = some (.ok args) →
      Tiled args (AsciiText.bytes input).length ∧ ∀ i < args.len, ∃ word, args.get i = some word := by
  refine ⟨parse_ne_none input,fun args h => ⟨?_,fun i hi => parse_get h hi⟩⟩
  rcases parse_cases input with ⟨-,e,he⟩ | ⟨hg,s,hs,hgathered⟩
  · rw [he] at h
    cases h
  · rw [hs] at h
    cases h
    exact tiled_of_gathered hgathered hg.ascii

/-- A word, a quoted word and an empty one. -/
theorem parse_tiles_quoted : ∃ args, parse "say 'a b' ''" = some (.ok args) ∧ Tiled args 12 ∧
    ∃ word, args.get 2 = some word := by
  have hbytes : AsciiText.bytes "say 'a b' ''" = [115,97,121,32,39,97,32,98,39,32,39,39] := by decide
  have hg : Grammatical (AsciiText.bytes "say 'a b' ''") := by
    rw [hbytes]
    exact ⟨by decide,AsciiText.forall_mem_of_all (by decide),by decide,by decide,by decide⟩
  rcases parse_cases "say 'a b' ''" with ⟨hn,-⟩ | ⟨-,s,hs,hgathered⟩
  · exact absurd hg hn
  · obtain ⟨-,htiles⟩ := parse_tiles "say 'a b' ''"
    obtain ⟨htiled,hget⟩ := htiles s.result hs
    have hlen : s.result.len = 3 := by
      rw [hgathered.len,hbytes]
      decide
    rw [hbytes] at htiled
    exact ⟨s.result,hs,htiled,hget 2 (by rw [hlen]; decide)⟩

end Arguments
end CrabOs.Crabsh
