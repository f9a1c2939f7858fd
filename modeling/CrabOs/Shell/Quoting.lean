import CrabOs.Foundations.Separators
import CrabOs.Shell.ArgumentWords

/-! Quoting: every list of words can be written so that the argument parser reads it back. -/
namespace CrabOs.Crabsh

/-- A single quote closes the quotes, is escaped, and opens them again; 92 is the backslash. -/
def quoteByte (byte : UInt8) : List UInt8 := if byte = 39 then [39,92,39,39] else [byte]

/-- A word in single quotes. -/
def quote (word : List UInt8) : List UInt8 := 39 :: (word.flatMap quoteByte++[39])

/-- The quoted words with single spaces between them. -/
def quoteAll (words : List String) : String :=
  AsciiText.ofBytes ([32].intercalate (words.map (fun word => quote (AsciiText.bytes word))))

section Reading

/-- Reading the bytes in context `c` leads to context `c'` and gathers `g'` from `g`, and meets no
operator. -/
structure Takes (c : Context) (bs : List UInt8) (c' : Context) (g g' : Gather) : Prop where
  final : c.final bs = c'
  plain : .operator ∉ c.marks bs
  gather : Gather.absorbAll (c.marks bs) g = g'

lemma marks_append (c : Context) (a b : List UInt8) :
    c.marks (a++b) = c.marks a++(c.final a).marks b := by
  induction a generalizing c with
  | nil => rfl
  | cons byte a ih =>
    rw [List.cons_append,Context.marks,Context.marks,ih]
    rfl

lemma Takes.append {c c' c'' : Context} {a b : List UInt8} {g g' g'' : Gather}
    (ha : Takes c a c' g g') (hb : Takes c' b c'' g' g'') : Takes c (a++b) c'' g g'' := by
  obtain ⟨rfl,hpa,rfl⟩ := ha
  obtain ⟨rfl,hpb,rfl⟩ := hb
  refine ⟨List.foldl_append,?_,?_⟩
  · rw [marks_append,List.mem_append,not_or]
    exact ⟨hpa,hpb⟩
  · rw [marks_append]
    exact List.foldl_append

lemma takes_nil (c : Context) (g : Gather) : Takes c [] c g g :=
  ⟨rfl,List.not_mem_nil,rfl⟩

/-- Inside single quotes. -/
def Context.quoted : Context := ⟨some 39,false⟩

variable (done : List (List UInt8)) (word : List UInt8)

lemma takes_quoteByte (byte : UInt8) :
    Takes .quoted (quoteByte byte) .quoted ⟨done,some word⟩ ⟨done,some (word++[byte])⟩ := by
  unfold quoteByte
  split_ifs with h
  · subst h
    exact ⟨rfl,by decide,rfl⟩
  · have hm : Context.quoted.mark byte = .literal byte := by
      simp [Context.mark,Context.quoted,Context.escapes,Ne.symm h]
    have hn : Context.quoted.next byte = .quoted := by
      simp [Context.next,Context.quoted,Context.escapes,Ne.symm h]
    refine ⟨hn,?_,?_⟩
    · simp [Context.marks,hm]
    · rw [Context.marks,hm]
      rfl

lemma takes_quoteBytes (bs : List UInt8) :
    Takes .quoted (bs.flatMap quoteByte) .quoted ⟨done,some word⟩ ⟨done,some (word++bs)⟩ := by
  induction bs generalizing word with
  | nil =>
    rw [List.append_nil]
    exact takes_nil _ _
  | cons byte bs ih =>
    rw [List.flatMap_cons,← List.singleton_append,← List.append_assoc]
    exact (takes_quoteByte done word byte).append (ih _)

/-- A quoted word is read as the word, also when it is empty. -/
lemma takes_quote : Takes .outside (quote word) .outside ⟨done,none⟩ ⟨done,some word⟩ := by
  have hopen : Takes .outside [39] .quoted ⟨done,none⟩ ⟨done,some []⟩ := ⟨rfl,by decide,rfl⟩
  have hclose : Takes .quoted [39] .outside ⟨done,some word⟩ ⟨done,some word⟩ :=
    ⟨rfl,by decide,rfl⟩
  exact hopen.append ((takes_quoteBytes done [] word).append hclose)

lemma takes_space : Takes .outside [32] .outside ⟨done,some word⟩ ⟨done++[word],none⟩ :=
  ⟨rfl,by decide,rfl⟩

lemma takes_words (words : List (List UInt8)) : ∃ g,
    Takes .outside ([32].intercalate (words.map quote)) .outside ⟨done,none⟩ g ∧
      g.all = done++words := by
  induction words generalizing done with
  | nil => exact ⟨_,takes_nil _ _,rfl⟩
  | cons word words ih =>
    cases words with
    | nil =>
      rw [List.map_singleton,List.intercalate_singleton]
      exact ⟨_,takes_quote done word,rfl⟩
    | cons next words =>
      obtain ⟨g,hg,hall⟩ := ih (done++[word])
      rw [List.map_cons,List.map_cons,List.intercalate_cons_cons]
      refine ⟨g,((takes_quote done word).append (takes_space done word)).append hg,?_⟩
      rw [hall]
      simp

end Reading

section RoundTrip

lemma quote_ascii {word : List UInt8} (h : ∀ byte ∈ word, byte < 128) :
    ∀ byte ∈ quote word, byte < 128 := by
  have hbyte : ∀ b < 128, ∀ byte ∈ quoteByte b, byte < 128 := by
    intro b hb
    unfold quoteByte
    split_ifs
    · exact AsciiText.forall_mem_of_all (by decide)
    · simpa using hb
  unfold quote
  rw [List.forall_mem_cons,List.forall_mem_append]
  refine ⟨by decide,fun byte hm => ?_,by simp⟩
  obtain ⟨b,hb,hm⟩ := List.mem_flatMap.mp hm
  exact hbyte b (h b hb) byte hm

variable {words : List String}

lemma quoted_ascii (h : ∀ word ∈ words, ∀ c ∈ word.toList, c.toNat < 128) :
    ∀ byte ∈ [32].intercalate ((words.map AsciiText.bytes).map quote), byte < 128 := by
  refine Separators.forall_mem_intercalate (by simp) fun word hw => ?_
  rw [List.map_map] at hw
  obtain ⟨w,hm,rfl⟩ := List.mem_map.mp hw
  exact quote_ascii (AsciiText.bytes_lt (h w hm))

lemma bytes_quoteAll (h : ∀ word ∈ words, ∀ c ∈ word.toList, c.toNat < 128) :
    AsciiText.bytes (quoteAll words) =
      [32].intercalate ((words.map AsciiText.bytes).map quote) := by
  have hq : quoteAll words =
      AsciiText.ofBytes ([32].intercalate ((words.map AsciiText.bytes).map quote)) := by
    rw [List.map_map]
    rfl
  rw [hq,AsciiText.bytes_ofBytes (quoted_ascii h)]

/-- The parser accepts the quoted words and its arguments are the words. -/
theorem parse_quoteAll (hw : words.length ≤ 32)
    (ha : ∀ word ∈ words, ∀ c ∈ word.toList, c.toNat < 128)
    (hl : (AsciiText.bytes (quoteAll words)).length ≤ 256) :
    ∃ args, Arguments.parse (quoteAll words) = some (.ok args) ∧ args.len = words.length ∧
      ∀ i < args.len, args.get i = words[i]? := by
  have hbytes := bytes_quoteAll ha
  obtain ⟨g,htakes,hall⟩ := takes_words [] (words.map AsciiText.bytes)
  rw [← hbytes] at htakes
  have hwords : wordsOf (AsciiText.bytes (quoteAll words)) = words.map AsciiText.bytes := by
    unfold wordsOf
    rw [Gather.words_eq]
    change (Gather.absorbAll _ ⟨[],none⟩).all = _
    rw [htakes.gather,hall,List.nil_append]
  have hascii : ∀ byte ∈ AsciiText.bytes (quoteAll words), byte < 128 := by
    rw [hbytes]
    exact quoted_ascii ha
  have hg : Grammatical (AsciiText.bytes (quoteAll words)) := by
    refine ⟨hl,hascii,htakes.plain,htakes.final,?_⟩
    rw [hwords,List.length_map]
    exact hw
  rcases Arguments.parse_cases (quoteAll words) with ⟨hn,-⟩ | ⟨-,s,hs,-⟩
  · exact absurd hg hn
  · obtain ⟨-,hlen,hget⟩ := Arguments.parse_words hs
    rw [hwords,List.length_map] at hlen
    refine ⟨s.result,hs,hlen,fun i hi => ?_⟩
    rw [hget i hi,hwords,List.getElem?_map]
    cases hword : words[i]? with
    | none => rfl
    | some word =>
      have hback := AsciiText.ofBytes_bytes (ha word (List.mem_of_getElem? hword))
      rw [Option.map_some,Option.map_some,hback]

/-- Two words, one of them empty and one with a quote, a blank and an operator. -/
theorem parse_quoteAll_example : ∃ args,
    Arguments.parse (quoteAll ["","a' |"]) = some (.ok args) ∧ args.len = 2 ∧
      args.get 1 = some "a' |" := by
  have ha : ∀ word ∈ ["","a' |"], ∀ c ∈ word.toList, c.toNat < 128 := by
    rw [List.forall_mem_cons,List.forall_mem_singleton]
    exact ⟨AsciiText.forall_mem_of_all (by decide),AsciiText.forall_mem_of_all (by decide)⟩
  obtain ⟨args,hargs,hlen,hget⟩ := parse_quoteAll (by decide) ha (by rw [bytes_quoteAll ha]; decide)
  exact ⟨args,hargs,hlen,hget 1 (by rw [hlen]; decide)⟩

end RoundTrip

end CrabOs.Crabsh
