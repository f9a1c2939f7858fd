import CrabOs.Shell.Arguments

/-! The argument parser finds the words of its input: after every byte its buffers hold the
words read so far, one behind the other. -/
namespace CrabOs.Crabsh
open AsciiText (isAsciiWhitespace)

/-- Words read so far, and the word being read. -/
structure Gather where
  done : List (List UInt8)
  current : Option (List UInt8)

namespace Gather

def start : Gather := ⟨[],none⟩

def absorb (g : Gather) : Mark → Gather
  | .space => ⟨g.done++g.current.toList,none⟩
  | .literal byte => ⟨g.done,some (g.current.getD []++[byte])⟩
  | .quoting => ⟨g.done,some (g.current.getD [])⟩
  | .operator => ⟨g.done,some (g.current.getD [])⟩

def absorbAll (marks : List Mark) (g : Gather) : Gather := marks.foldl absorb g

def all (g : Gather) : List (List UInt8) := g.done++g.current.toList

@[simp] lemma absorbAll_nil (g : Gather) : absorbAll [] g = g := rfl
@[simp] lemma absorbAll_cons (m : Mark) (ms : List Mark) (g : Gather) :
    absorbAll (m :: ms) g = absorbAll ms (g.absorb m) := rfl

/-- The word read so far in a stretch of marks, kept newest first. -/
def ofRun (done : List (List UInt8)) (run : List Mark) : Gather :=
  ⟨done,if run = [] then none else some (Mark.value run.reverse)⟩

lemma absorb_ofRun (done : List (List UInt8)) (run : List Mark) {m : Mark} (h : m ≠ .space) :
    (ofRun done run).absorb m = ofRun done (m :: run) := by
  have hcurrent : (ofRun done run).current.getD [] = Mark.value run.reverse := by
    by_cases hr : run = [] <;> simp [ofRun,hr,Mark.value]
  have hvalue : Mark.value (m :: run).reverse = Mark.value run.reverse++m.byte?.toList := by
    cases m <;> simp [Mark.value,List.filterMap_append,Mark.byte?]
  have hrun : ofRun done (m :: run) = ⟨done,some (Mark.value run.reverse++m.byte?.toList)⟩ := by
    rw [ofRun,if_neg (by simp),hvalue]
  rw [hrun,← hcurrent]
  cases m with
  | space => exact absurd rfl h
  | quoting => simp [absorb,ofRun,Mark.byte?]
  | operator => simp [absorb,ofRun,Mark.byte?]
  | literal byte => simp [absorb,ofRun,Mark.byte?]

/-- Reading marks one at a time finds the maximal stretches between spaces. -/
theorem all_absorbAll (ms : List Mark) (done : List (List UInt8)) (run : List Mark) :
    (absorbAll ms (ofRun done run)).all =
      done++((ms.splitOnPPrepend (· = .space) run).filter (· ≠ [])).map Mark.value := by
  induction ms generalizing done run with
  | nil => by_cases h : run = [] <;> simp [all,ofRun,h]
  | cons m ms ih =>
    by_cases hm : m = .space
    · subst hm
      have habsorb : (ofRun done run).absorb .space = ofRun (ofRun done run).all [] := rfl
      rw [absorbAll_cons,habsorb,ih,List.splitOnPPrepend_cons_pos (by simp)]
      by_cases h : run = [] <;> simp [all,ofRun,h]
    · rw [absorbAll_cons,absorb_ofRun done run hm,ih,
        List.splitOnPPrepend_cons_neg (by simpa using hm)]

theorem words_eq (ms : List Mark) : Mark.words ms = (absorbAll ms start).all := by
  have h := all_absorbAll ms [] []
  simpa [Mark.words,ofRun,start] using h.symm

lemma done_length_le_absorb (g : Gather) (m : Mark) : g.done.length ≤ (g.absorb m).done.length := by
  cases m <;> simp [absorb]

lemma done_length_le_absorbAll (ms : List Mark) (g : Gather) :
    g.done.length ≤ (absorbAll ms g).done.length := by
  induction ms generalizing g with
  | nil => exact le_rfl
  | cons m ms ih => exact (done_length_le_absorb g m).trans (ih _)

/-- All bytes of the words, in the order they are stored. -/
def stored (g : Gather) : List UInt8 := g.done.flatten++g.current.getD []

lemma stored_length_absorb (g : Gather) (m : Mark) :
    (g.absorb m).stored.length ≤ g.stored.length+1 := by
  cases m <;> cases hc : g.current <;> simp [stored,absorb,hc,Nat.add_assoc]

lemma mem_stored_absorb {g : Gather} {m : Mark} {x : UInt8} (h : x ∈ (g.absorb m).stored) :
    x ∈ g.stored ∨ m = .literal x := by
  cases m with
  | space => exact .inl (by cases hc : g.current <;> simpa [stored,absorb,hc] using h)
  | quoting => exact .inl (by simpa [stored,absorb] using h)
  | operator => exact .inl (by simpa [stored,absorb] using h)
  | literal byte =>
    have hstored : (g.absorb (.literal byte)).stored = g.stored++[byte] := by
      simp [stored,absorb]
    rw [hstored,List.mem_append,List.mem_singleton] at h
    exact h.imp id (fun hx => by rw [hx])

lemma mem_stored_absorbAll {ms : List Mark} {g : Gather} {x : UInt8}
    (h : x ∈ (absorbAll ms g).stored) : x ∈ g.stored ∨ Mark.literal x ∈ ms := by
  induction ms generalizing g with
  | nil => exact .inl h
  | cons m ms ih =>
    rcases ih h with hx | hx
    · rcases mem_stored_absorb hx with hx | rfl
      · exact .inl hx
      · exact .inr (by simp)
    · exact .inr (by simp [hx])

end Gather

/-- The parser has stored the gathered words one behind the other. -/
structure Gathered (s : ParseState) (g : Gather) : Prop where
  len : s.result.len = g.done.length
  room : g.done.length ≤ maxArgs
  used : s.used = g.stored.length
  bound : s.used ≤ maxInput
  bytes : ∀ i < s.used, s.result.bytes[i]? = g.stored[i]?
  spans : ∀ i < g.done.length, s.result.spans[i]? =
    some ((g.done.take i).flatten.length,(g.done.take (i+1)).flatten.length)
  start : s.start = g.current.map (fun _ => g.done.flatten.length)
  inside : s.escaped = true ∨ s.quote.isSome → g.current.isSome

def ParseState.context (s : ParseState) : Context := ⟨s.quote,s.escaped⟩

namespace Gathered
variable {s : ParseState} {g : Gather}

lemma begin (h : Gathered s g) : Gathered s.begin ⟨g.done,some (g.current.getD [])⟩ := by
  have hused := h.used
  have hstart := h.start
  refine ⟨h.len,h.room,by cases g; exact hused,h.bound,h.bytes,h.spans,?_,by simp⟩
  cases hc : g.current with
  | none =>
    simp only [hc,Option.map_none] at hstart
    simp [ParseState.begin,hstart,hused,Gather.stored,hc]
  | some w =>
    simp only [hc,Option.map_some] at hstart
    simp [ParseState.begin,hstart]

lemma store (h : Gathered s g) {w : List UInt8} (hw : g.current = some w)
    (hroom : s.used < maxInput) (byte : UInt8) :
    ∃ s', s.store byte = some (.ok s') ∧ Gathered s' ⟨g.done,some (w++[byte])⟩ ∧
      s'.quote = s.quote ∧ s'.escaped = s.escaped := by
  have hused := h.used
  have hstored : (⟨g.done,some (w++[byte])⟩ : Gather).stored = g.stored++[byte] := by
    simp [Gather.stored,hw]
  refine ⟨{ s with
      result := { s.result with bytes := s.result.bytes.set s.used byte hroom }
      used := s.used+1 },by rw [ParseState.store,storeByte,dif_pos hroom]; rfl,?_,rfl,rfl⟩
  refine ⟨h.len,h.room,by simp [hstored,hused],hroom,?_,h.spans,by simpa [hw] using h.start,
    by simp⟩
  intro i hi
  change i < s.used+1 at hi
  rw [hstored]
  simp only [Vector.getElem?_set]
  rcases Nat.lt_or_ge i s.used with hlt | hge
  · rw [if_neg (by omega),h.bytes i hlt,List.getElem?_append_left (by omega)]
  · obtain rfl : i = s.used := by omega
    rw [if_pos rfl,hused,List.getElem?_append_right le_rfl,Nat.sub_self]
    rfl

lemma finish_idle (h : Gathered s g) (hc : g.current = none) : s.finish = some (.ok s) := by
  have hstart := h.start
  rw [hc,Option.map_none] at hstart
  rw [ParseState.finish,hstart]

lemma finish_full (h : Gathered s g) {w : List UInt8} (hc : g.current = some w)
    (hfull : g.done.length = maxArgs) :
    s.finish = some (.error "too many arguments (maximum 32)") := by
  have hstart := h.start
  rw [hc,Option.map_some] at hstart
  rw [ParseState.finish,hstart]
  simp [Arguments.push,h.len,hfull,Fallible.andThen]

lemma finish (h : Gathered s g) {w : List UInt8} (hc : g.current = some w)
    (hroom : g.done.length < maxArgs) :
    ∃ s', s.finish = some (.ok s') ∧ s'.quote = s.quote ∧ s'.escaped = s.escaped ∧
      (s.escaped = false → s.quote = none → Gathered s' ⟨g.done++[w],none⟩) := by
  have hstart := h.start
  have hlen := h.len
  rw [hc,Option.map_some] at hstart
  have hstored : (⟨g.done++[w],none⟩ : Gather).stored = g.stored := by
    simp [Gather.stored,hc]
  have hused := h.used
  refine ⟨{ s with
      result := { s.result with
        spans := s.result.spans.set s.result.len (g.done.flatten.length,s.used) (by omega)
        len := s.result.len+1 }
      start := none },?_,rfl,rfl,?_⟩
  · rw [ParseState.finish,hstart]
    simp [Arguments.push,hlen,hroom.ne,hroom,Fallible.andThen]
  · intro hesc hq
    refine ⟨by simp [hlen],by simpa using hroom,by rw [hstored]; exact hused,h.bound,
      by rw [hstored]; exact h.bytes,?_,rfl,by simp [hesc,hq]⟩
    intro i hi
    rw [List.length_append,List.length_singleton] at hi
    simp only [Vector.getElem?_set,hlen]
    rcases Nat.lt_or_ge i g.done.length with hlt | hge
    · rw [if_neg (by omega),h.spans i hlt,List.take_append_of_le_length (by omega),
        List.take_append_of_le_length (by omega)]
    · obtain rfl : i = g.done.length := by omega
      rw [if_pos rfl,List.take_left,List.take_of_length_le (by simp),hused]
      simp [Gather.stored,hc]

/-- How a result of the parser answers the reference: an error when the reference has no
further state, the state of the reference otherwise. -/
def Answers (r : Fallible ParseState) (accepted : Prop) (g : Gather) (c : Context) : Prop :=
  (¬accepted → ∃ e, r = some (.error e)) ∧
    (accepted → ∃ s, r = some (.ok s) ∧ Gathered s g ∧ s.context = c)

lemma Answers.ok {r : Fallible ParseState} {accepted : Prop} {c : Context} (s : ParseState)
    (hr : r = some (.ok s)) (hs : Gathered s g) (hc : s.context = c) (ha : accepted) :
    Answers r accepted g c :=
  ⟨fun hn => absurd ha hn,fun _ => ⟨s,hr,hs,hc⟩⟩

lemma finish_answers (h : Gathered s g) (hesc : s.escaped = false) (hq : s.quote = none) :
    Answers s.finish ((g.absorb .space).done.length ≤ maxArgs) (g.absorb .space) s.context := by
  have hroom := h.room
  cases hc : g.current with
  | none =>
    refine Answers.ok s (h.finish_idle hc) ?_ rfl ?_
    · have hg : g.absorb .space = g := by cases g; simp_all [Gather.absorb]
      rwa [hg]
    · simpa [Gather.absorb,hc] using hroom
  | some w =>
    rcases Nat.lt_or_ge g.done.length maxArgs with hlt | hge
    · obtain ⟨s',hs',hquote,hescaped,hg⟩ := h.finish hc hlt
      refine Answers.ok s' hs' ?_ ?_ ?_
      · simpa [Gather.absorb,hc] using hg hesc hq
      · simp [ParseState.context,hquote,hescaped]
      · simpa [Gather.absorb,hc] using hlt
    · refine ⟨fun _ => ⟨_,h.finish_full hc (by omega)⟩,?_⟩
      intro hle
      simp only [Gather.absorb,hc,Option.toList_some,List.length_append,List.length_singleton] at hle
      omega

/-- One byte: the parser branches exactly as the reference marks it. -/
theorem step_answers (h : Gathered s g) (hroom : s.used < maxInput) (byte : UInt8) :
    Answers (s.step byte) (s.context.mark byte ≠ .operator ∧
      (g.absorb (s.context.mark byte)).done.length ≤ maxArgs)
      (g.absorb (s.context.mark byte)) (s.context.next byte) := by
  have hdone := h.room
  have hbegin := h.begin
  unfold ParseState.step
  by_cases hesc : s.escaped = true
  · obtain ⟨w,hw⟩ := Option.isSome_iff_exists.mp (h.inside (.inl hesc))
    have h' : Gathered { s with escaped := false } g :=
      ⟨h.len,h.room,h.used,h.bound,h.bytes,h.spans,h.start,fun _ => by simp [hw]⟩
    obtain ⟨s',hs',hg,hq,he⟩ := h'.store hw hroom byte
    have hmark : s.context.mark byte = .literal byte := by
      simp [Context.mark,ParseState.context,hesc]
    rw [if_pos hesc,hmark]
    refine Answers.ok s' hs' (by simpa [Gather.absorb,hw] using hg) ?_ ⟨by simp,hdone⟩
    simp only [ParseState.context,Context.next,hesc,if_true] at *
    rw [hq,he]
  rw [if_neg hesc]
  have hesc' : s.escaped = false := by simpa using hesc
  by_cases hback : byte = 92 ∧ s.quote ≠ some 39
  · have hmark : s.context.mark byte = .quoting := by
      simp [Context.mark,Context.escapes,ParseState.context,hesc',hback]
    rw [if_pos hback,hmark]
    refine Answers.ok _ rfl ?_ ?_ ⟨by simp,hdone⟩
    · exact ⟨hbegin.len,hbegin.room,hbegin.used,hbegin.bound,hbegin.bytes,hbegin.spans,
        hbegin.start,by simp [Gather.absorb]⟩
    · simp [ParseState.context,ParseState.begin,Context.next,Context.escapes,hesc',hback]
  rw [if_neg hback]
  by_cases hclose : s.quote = some byte
  · obtain ⟨w,hw⟩ := Option.isSome_iff_exists.mp (h.inside (.inr (by simp [hclose])))
    have hmark : s.context.mark byte = .quoting := by
      simp [Context.mark,ParseState.context,hesc',hclose]
    rw [if_pos hclose,hmark]
    refine Answers.ok _ rfl ?_ ?_ ⟨by simp,hdone⟩
    · have hg : g.absorb .quoting = g := by cases g; simp_all [Gather.absorb]
      rw [hg]
      exact ⟨h.len,h.room,h.used,h.bound,h.bytes,h.spans,h.start,fun _ => by simp [hw]⟩
    · have hne : ¬Context.escapes s.context byte := hback
      simp only [Context.next,hne,if_false]
      simp [ParseState.context,hesc',hclose,Context.outside]
  rw [if_neg hclose]
  by_cases hopen : s.quote = none ∧ (byte = 39 ∨ byte = 34)
  · have hne : byte ≠ 92 := by rcases hopen.2 with rfl | rfl <;> decide
    have hmark : s.context.mark byte = .quoting := by
      simp [Context.mark,Context.escapes,ParseState.context,hesc',hopen,hne]
    rw [if_pos hopen,hmark]
    refine Answers.ok _ rfl ?_ ?_ ⟨by simp,hdone⟩
    · exact ⟨hbegin.len,hbegin.room,hbegin.used,hbegin.bound,hbegin.bytes,hbegin.spans,
        hbegin.start,by simp [Gather.absorb]⟩
    · simp [ParseState.context,ParseState.begin,Context.next,Context.escapes,hesc',hopen,hne]
  rw [if_neg hopen]
  have hnext : s.context.next byte = s.context := by
    have hne : ¬Context.escapes s.context byte := hback
    simp only [Context.next,hne,if_false]
    simp [ParseState.context,hesc',hclose,hopen]
  rw [hnext]
  by_cases hspace : s.quote = none ∧ isAsciiWhitespace byte
  · have hne : ¬Context.escapes s.context byte := hback
    have hmark : s.context.mark byte = .space := by
      simp only [Context.mark,hne]
      simp_all [ParseState.context]
    rw [if_pos hspace,hmark]
    have hf := h.finish_answers hesc' hspace.1
    exact ⟨fun hn => hf.1 (fun hle => hn ⟨by simp,hle⟩),fun ha => hf.2 ha.2⟩
  rw [if_neg hspace]
  by_cases hoper : s.quote = none ∧ isOperator byte
  · have hne : ¬Context.escapes s.context byte := hback
    have hmark : s.context.mark byte = .operator := by
      simp only [Context.mark,hne]
      simp_all [ParseState.context]
    rw [if_pos hoper,hmark]
    exact ⟨fun _ => ⟨_,rfl⟩,fun ha => absurd rfl ha.1⟩
  rw [if_neg hoper]
  have hne : ¬Context.escapes s.context byte := hback
  have hmark : s.context.mark byte = .literal byte := by
    simp only [Context.mark,hne]
    cases hq : s.quote <;> simp_all [ParseState.context]
  obtain ⟨s',hs',hg,hq,he⟩ := hbegin.store rfl hroom byte
  rw [hmark]
  refine Answers.ok s' hs' hg ?_ ⟨by simp,hdone⟩
  simp [ParseState.context,hq,he,ParseState.begin]

/-- The whole loop answers the reference. -/
theorem steps_answers (bs : List UInt8) (h : Gathered s g) (hroom : s.used+bs.length ≤ maxInput) :
    Answers (ParseState.steps bs s)
      (.operator ∉ s.context.marks bs ∧
        (Gather.absorbAll (s.context.marks bs) g).done.length ≤ maxArgs)
      (Gather.absorbAll (s.context.marks bs) g) (s.context.final bs) := by
  induction bs generalizing s g with
  | nil => exact Answers.ok s rfl h rfl ⟨by simp [Context.marks],h.room⟩
  | cons byte bs ih =>
    rw [List.length_cons] at hroom
    obtain ⟨hreject,haccept⟩ := h.step_answers (by omega) byte
    simp only [ParseState.steps,Context.marks,Gather.absorbAll_cons,List.mem_cons,not_or]
    change Answers _ _ _ ((s.context.next byte).final bs)
    by_cases hacc : s.context.mark byte ≠ .operator ∧
        (g.absorb (s.context.mark byte)).done.length ≤ maxArgs
    · obtain ⟨s',hs',hg,hc⟩ := haccept hacc
      have hused : s'.used ≤ s.used+1 := by
        rw [hg.used,h.used]
        have := Gather.stored_length_absorb g (s.context.mark byte)
        omega
      rw [hs',← hc]
      obtain ⟨hr,ha⟩ := ih hg (by omega)
      exact ⟨fun hn => hr (fun hh => hn ⟨⟨fun he => hacc.1 he.symm,hh.1⟩,hh.2⟩),
        fun hh => ha ⟨hh.1.2,hh.2⟩⟩
    · obtain ⟨e,he⟩ := hreject hacc
      refine ⟨fun _ => ⟨e,by rw [he]; rfl⟩,fun hh => absurd ?_ hacc⟩
      exact ⟨fun hop => hh.1.1 hop.symm,
        (Gather.done_length_le_absorbAll _ _).trans hh.2⟩

/-- The bytes of a stored word lie where its span says. -/
lemma slice (h : Gathered s g) {i : ℕ} {w : List UInt8} (hw : g.done[i]? = some w) :
    ∃ first stop, s.result.spans[i]? = some (first,stop) ∧ first ≤ stop ∧ stop ≤ maxInput ∧
      (s.result.bytes.toList.take stop).drop first = w := by
  obtain ⟨hi,hget⟩ := List.getElem?_eq_some_iff.mp hw
  have htake : g.done.take (i+1) = g.done.take i++[w] := by rw [List.take_add_one,hw]; rfl
  have hsplit : g.stored = (g.done.take i).flatten++(w++((g.done.drop (i+1)).flatten++
      g.current.getD [])) := by
    conv_lhs => rw [Gather.stored,← List.take_append_drop (i+1) g.done,htake]
    simp
  have hused := h.used
  have hbound := h.bound
  refine ⟨_,_,h.spans i hi,by rw [htake]; simp,?_,?_⟩
  · rw [htake,List.flatten_append,List.length_append]
    rw [hsplit] at hused
    simp only [List.length_append,List.flatten_cons,List.flatten_nil,List.append_nil] at hused ⊢
    omega
  · have hstored : s.result.bytes.toList.take s.used = g.stored := by
      refine List.ext_getElem? fun j => ?_
      rw [List.getElem?_take]
      split
      · rw [← h.bytes j ‹_›,Vector.getElem?_toList]
      · rw [List.getElem?_eq_none (by omega)]
    have hstop : (g.done.take (i+1)).flatten.length ≤ s.used := by
      rw [hused,hsplit,htake]
      simp
    rw [← min_eq_left hstop,← List.take_take,hstored,htake,hsplit]
    simp [List.take_append]

end Gathered

lemma Context.mem_of_literal {bs : List UInt8} {c : Context} {x : UInt8}
    (h : .literal x ∈ c.marks bs) : x ∈ bs := by
  induction bs generalizing c with
  | nil => simp [marks] at h
  | cons byte bs ih =>
    rw [marks,List.mem_cons] at h
    rcases h with h | h
    · refine List.mem_cons.mpr (.inl ?_)
      unfold mark at h
      split_ifs at h <;> simp_all
    · exact List.mem_cons_of_mem _ (ih h)

lemma mem_of_mem_word {input w : List UInt8} {x : UInt8} (hw : w ∈ wordsOf input) (hx : x ∈ w) :
    x ∈ input := by
  have hall : x ∈ (wordsOf input).flatten := List.mem_flatten.mpr ⟨w,hw,hx⟩
  rw [wordsOf,Gather.words_eq] at hall
  have hmem : x ∈ (Gather.absorbAll (Context.outside.marks input) .start).stored := by
    rw [Gather.all,List.flatten_append,List.mem_append] at hall
    rw [Gather.stored,List.mem_append]
    refine hall.imp id ?_
    cases (Gather.absorbAll (Context.outside.marks input) .start).current <;> simp
  rcases Gather.mem_stored_absorbAll hmem with hnil | hlit
  · simp [Gather.start,Gather.stored] at hnil
  · exact Context.mem_of_literal hlit

/-- The inputs the parser accepts. -/
structure Grammatical (input : List UInt8) : Prop where
  short : input.length ≤ maxInput
  ascii : ∀ byte ∈ input, byte < 128
  plain : .operator ∉ Context.outside.marks input
  closed : Context.outside.final input = .outside
  few : (wordsOf input).length ≤ maxArgs

lemma Gathered.conclude {s : ParseState} {g : Gather} (h : Gathered s g) :
    (¬(s.context = .outside ∧ g.all.length ≤ maxArgs) → ∃ e, s.conclude = some (.error e)) ∧
    (s.context = .outside ∧ g.all.length ≤ maxArgs → ∃ s',
      s.conclude = some (.ok s'.result) ∧ Gathered s' ⟨g.all,none⟩) := by
  unfold ParseState.conclude
  by_cases hesc : s.escaped = true
  · rw [if_pos hesc]
    exact ⟨fun _ => ⟨_,rfl⟩,fun ha => by simp [ParseState.context,Context.outside,hesc] at ha⟩
  rw [if_neg hesc]
  by_cases hquote : s.quote.isSome = true
  · rw [if_pos hquote]
    refine ⟨fun _ => ⟨_,rfl⟩,fun ha => ?_⟩
    have hnone : s.quote = none := congrArg Context.quote ha.1
    simp [hnone] at hquote
  rw [if_neg hquote]
  have hescaped : s.escaped = false := by simpa using hesc
  have hnone : s.quote = none := by simpa using hquote
  have hcontext : s.context = .outside := by simp [ParseState.context,Context.outside,hescaped,hnone]
  obtain ⟨hreject,haccept⟩ := h.finish_answers hescaped hnone
  constructor
  · intro hn
    obtain ⟨e,he⟩ := hreject (fun hle => hn ⟨hcontext,hle⟩)
    exact ⟨e,by rw [he]; rfl⟩
  · rintro ⟨-,hle⟩
    obtain ⟨s',hs',hg,-⟩ := haccept hle
    exact ⟨s',by rw [hs']; rfl,hg⟩

lemma gathered_empty : Gathered ⟨Arguments.empty,0,none,none,false⟩ .start :=
  ⟨rfl,by decide,rfl,by decide,by simp,by simp [Gather.start],rfl,by simp⟩

namespace Arguments

/-- A parse is an error, or holds the words of a grammatical input. -/
lemma parse_cases (input : String) :
    (¬Grammatical (AsciiText.bytes input) ∧ ∃ e, parse input = some (.error e)) ∨
    (Grammatical (AsciiText.bytes input) ∧ ∃ s, parse input = some (.ok s.result) ∧
      Gathered s ⟨wordsOf (AsciiText.bytes input),none⟩) := by
  set bytes := AsciiText.bytes input with hbytes
  unfold parse
  rw [← hbytes]
  by_cases hlong : maxInput < bytes.length ∨ ¬bytes.all (fun byte => byte < 128)
  · refine .inl ⟨fun hg => ?_,_,if_pos hlong⟩
    rcases hlong with hlong | hlong
    · exact absurd hg.short (by omega)
    · exact hlong (by simpa using hg.ascii)
  rw [if_neg hlong]
  obtain ⟨hshort,hascii⟩ := not_or.mp hlong
  have hwords : (Gather.absorbAll (Context.outside.marks bytes) .start).all = wordsOf bytes :=
    (Gather.words_eq _).symm
  have hdone : (Gather.absorbAll (Context.outside.marks bytes) .start).done.length ≤
      (wordsOf bytes).length := by
    rw [← hwords,Gather.all,List.length_append]
    omega
  obtain ⟨hreject,haccept⟩ := gathered_empty.steps_answers bytes (by simpa using hshort)
  by_cases hacc : .operator ∉ Context.outside.marks bytes ∧
      (Gather.absorbAll (Context.outside.marks bytes) .start).done.length ≤ maxArgs
  · obtain ⟨s,hs,hg,hc⟩ := haccept hacc
    change Gathered s (Gather.absorbAll (Context.outside.marks bytes) .start) at hg
    change s.context = Context.outside.final bytes at hc
    obtain ⟨hr,ha⟩ := hg.conclude
    rw [hwords,hc] at hr ha
    rw [hs]
    by_cases hfin : Context.outside.final bytes = .outside ∧ (wordsOf bytes).length ≤ maxArgs
    · refine .inr ⟨⟨by omega,by simpa using hascii,hacc.1,hfin.1,hfin.2⟩,?_⟩
      exact ha hfin
    · exact .inl ⟨fun hg => hfin ⟨hg.closed,hg.few⟩,hr hfin⟩
  · obtain ⟨e,he⟩ := hreject hacc
    refine .inl ⟨fun hg => hacc ⟨hg.plain,hdone.trans hg.few⟩,e,?_⟩
    rw [he]
    rfl

lemma parse_ne_none (input : String) : parse input ≠ none := by
  rcases parse_cases input with ⟨-,e,he⟩ | ⟨-,s,hs,-⟩ <;> simp [*]

/-- Accepted arguments are the words, and each of them can be read. -/
lemma parse_words {input : String} {args : Arguments} (h : parse input = some (.ok args)) :
    Grammatical (AsciiText.bytes input) ∧
    args.len = (wordsOf (AsciiText.bytes input)).length ∧
    ∀ i < args.len, args.get i = (wordsOf (AsciiText.bytes input))[i]?.map AsciiText.ofBytes := by
  rcases parse_cases input with ⟨-,e,he⟩ | ⟨hg,s,hs,hgathered⟩
  · rw [he] at h
    cases h
  obtain rfl : s.result = args := by rw [hs] at h; cases h; rfl
  refine ⟨hg,hgathered.len,fun i hi => ?_⟩
  obtain ⟨w,hw⟩ : ∃ w, (wordsOf (AsciiText.bytes input))[i]? = some w :=
    ⟨_,List.getElem?_eq_getElem (hgathered.len ▸ hi)⟩
  obtain ⟨first,stop,hspan,hle,hstop,hslice⟩ := hgathered.slice hw
  have hlow : ∀ byte ∈ w, byte < 128 := fun byte hbyte =>
    hg.ascii byte (mem_of_mem_word (List.mem_of_getElem? hw) hbyte)
  rw [get,if_pos hi,hspan,hw,Option.bind_some,if_pos ⟨hle,hstop⟩,hslice,Option.map_some]
  exact AsciiText.fromUtf8_ascii hlow

lemma parse_get {input : String} {args : Arguments} (h : parse input = some (.ok args)) {i : ℕ}
    (hi : i < args.len) : ∃ word, args.get i = some word := by
  obtain ⟨-,hlen,hget⟩ := parse_words h
  exact ⟨_,by rw [hget i hi,List.getElem?_eq_getElem (hlen ▸ hi)]; rfl⟩

/-- The parser accepts exactly the grammatical inputs, and its arguments are their words. -/
theorem parse_accepts_grammar (input : String) :
    parse input ≠ none ∧
    ((∃ args, parse input = some (.ok args)) ↔ Grammatical (AsciiText.bytes input)) ∧
    ∀ args, parse input = some (.ok args) →
      args.len = (wordsOf (AsciiText.bytes input)).length ∧
      ∀ i < args.len, args.get i = (wordsOf (AsciiText.bytes input))[i]?.map AsciiText.ofBytes := by
  refine ⟨parse_ne_none input,⟨fun ⟨args,h⟩ => (parse_words h).1,fun hg => ?_⟩,
    fun args h => (parse_words h).2⟩
  rcases parse_cases input with ⟨hng,-⟩ | ⟨-,s,hs,-⟩
  · exact absurd hg hng
  · exact ⟨_,hs⟩

-- The input  a'b c'"" ''  has a word of four bytes and an empty word.
example : wordsOf [97,39,98,32,99,39,34,34,32,39,39] = [[97,98,32,99],[]] := by decide

end Arguments

end CrabOs.Crabsh
