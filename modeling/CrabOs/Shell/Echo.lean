import CrabOs.Shell.Completion
import CrabOs.Shell.Discard
import CrabOs.Shell.Display
import CrabOs.Shell.Quoting

/-! From the keyboard to the screen: words that are typed in quotes behind `echo` are printed. -/
namespace CrabOs.Crabsh
open CrabOs.Vga AtomicProgram

/-! ### Typing -/

lemma action_printable {c : Char} (hc : 0x20 ≤ c.toNat ∧ c.toNat ≤ 0x7e) :
    (DecodedKey.unicode c).action = .insert c.toUInt8 := by
  have hne : ∀ d : Char, ¬(0x20 ≤ d.toNat ∧ d.toNat ≤ 0x7e) → c ≠ d := by
    rintro d hd rfl
    exact hd hc
  have hlt : c.toNat < 128 := by omega
  simp only [DecodedKey.action,hne '\n' (by decide),hne '\r' (by decide),hne '\x03' (by decide),
    hne '\x0c' (by decide),hne '\t' (by decide),hne '\x08' (by decide),hne '\x7f' (by decide),
    hne '\x04' (by decide),hne '\x01' (by decide),hne '\x05' (by decide),hne '\x02' (by decide),
    hne '\x06' (by decide),hne '\x10' (by decide),hne '\x0e' (by decide),hne '\x15' (by decide),
    hne '\x0b' (by decide),hne '\x17' (by decide),hlt,or_self,if_false,if_true]

lemma isPrintable_toUInt8 {c : Char} (hc : 0x20 ≤ c.toNat ∧ c.toNat ≤ 0x7e) :
    IsPrintable c.toUInt8 := by
  have hbyte : c.toUInt8.toNat = c.toNat := Nat.mod_eq_of_lt (hc.2.trans_lt (by decide))
  exact ⟨by rw [hbyte]; exact hc.1,by rw [hbyte]; exact hc.2⟩

namespace Shell
variable {s : Shell}

/-- The shell after keys that have only been typed. -/
structure Typed (s : Shell) (typed : List UInt8) (s' : Shell) : Prop where
  sound : s'.Sound
  line : s'.line.Holds typed []
  kept : s'.line.overflow = false
  history : s'.history = s.history
  info : s'.info = s.info

/-- Printable keys are inserted one by one, each with a redraw. -/
theorem type_performs (h : s.Sound) {typed : List UInt8} (hline : s.line.Holds typed [])
    (hflag : s.line.overflow = false) {keys : List (Environment × DecodedKey)} {text : List Char}
    (hkeys : keys.map Prod.snd = text.map .unicode)
    (htext : ∀ c ∈ text, 0x20 ≤ c.toNat ∧ c.toNat ≤ 0x7e)
    (hfits : typed.length+text.length ≤ maxInput) :
    (handleKeys keys s).Performs fun calls s' =>
      (∀ ops ∈ calls, IsRedraw ops) ∧ s.Typed (typed++text.map Char.toUInt8) s' := by
  induction keys generalizing s typed text with
  | nil =>
    obtain rfl := List.map_eq_nil_iff.mp hkeys.symm
    rw [List.map_nil,List.append_nil]
    exact ⟨by simp,h,hline,hflag,rfl,rfl⟩
  | cons pressed keys ih =>
    obtain ⟨c,text,rfl,hkey,hkeys⟩ := List.map_eq_cons_iff.mp hkeys.symm
    rw [List.forall_mem_cons] at htext
    rw [List.length_cons] at hfits
    have hlen : s.line.len = typed.length := by
      rw [hline.len,List.length_nil,Nat.add_zero]
    obtain ⟨l,hl,hholds,hover⟩ := hline.insert (isPrintable_toUInt8 htext.1) (by omega)
    have hpress : s.handleKey pressed.1 pressed.2 = s.redrawWith (some l) := by
      rw [← hkey,handleKey,action_printable htext.1]
      dsimp only
      rw [hl,Option.map_some]
    have hsound : ({ s with line := l } : Shell).Sound := ⟨hholds.valid,h.history⟩
    have hrest := ih hsound hholds (hover.trans hflag) hkeys.symm htext.2
      (by rw [List.length_append,List.length_singleton]; omega)
    rw [List.append_assoc] at hrest
    rw [handleKeys,hpress,redrawWith_eq hholds.valid,performs_bind,performs_bind,performs_performAll]
    refine hrest.mono fun calls s' hs' => ⟨?_,hs'.2.sound,hs'.2.line,hs'.2.kept,hs'.2.history,
      hs'.2.info⟩
    intro ops hops
    rcases List.mem_cons.mp hops with rfl | hops
    · exact ⟨_,_,_,_,rfl⟩
    · exact hs'.1 ops hops

/-- Enter prints what the line executes to, between the echoed line and the next prompt. -/
lemma enter_performs (h : s.Sound) (hflag : s.line.overflow = false) {history : History}
    {sections : List Section} {env : Environment}
    (hr : s.history.record s.cursorToEnd.line = some history)
    (he : execute s.info history env s.line.text = some sections) {P : List Section → Shell → Prop}
    (hP : ∀ redraw anchor, IsRedraw redraw →
      P ([redraw,println ""]++sections++[promptSection]) ⟨s.info,Line.new,history,anchor⟩) :
    (s.handleKey env (.unicode '\n')).Performs P := by
  have hkey : (DecodedKey.unicode '\n').action = .submit := rfl
  have hended : s.cursorToEnd.line.overflow = false := hflag
  have hrecord : s.cursorToEnd.history.record s.cursorToEnd.line = some history := hr
  have hrun : execute s.cursorToEnd.info history env s.cursorToEnd.line.text = some sections := he
  rw [handleKey,hkey]
  simp only [submit,hended,hrecord,hrun,h.cursorToEnd.line.asStr,Bool.false_eq_true,if_false,
    ofOption_some,bind_eq,ret_bind]
  rw [performs_bind,redraw_performs h.cursorToEnd.line,performs_bind,performs_performAll,
    performs_bind,performs_bind,performs_performAll]
  intro anchor
  have hcalls := hP [.replaceInput s.cursorToEnd.anchor s.cursorToEnd.line.text
    s.cursorToEnd.line.cursor s.line.len] anchor ⟨_,_,_,_,rfl⟩
  change P _ _
  rw [List.append_nil]
  rw [List.append_assoc] at hcalls
  exact hcalls

end Shell

/-! ### Printing -/

/-- Sections that print pieces of text one after the other. -/
def Writes (sections : List Section) (text : String) : Prop :=
  ∀ t, Terminal.applyAll sections.flatten t = t.writeString text

lemma writeString_append (t : Terminal) (a b : String) :
    t.writeString (a++b) = (t.writeString a).writeString b := by
  unfold Terminal.writeString Terminal.writeBytes
  rw [String.toList_append,List.map_append,List.foldl_append]

lemma Writes.append {a b : List Section} {x y : String} (ha : Writes a x) (hb : Writes b y) :
    Writes (a++b) (x++y) := by
  intro t
  have hfirst := ha t
  have hsecond := hb (t.writeString x)
  unfold Terminal.applyAll at *
  rw [List.flatten_append,List.foldl_append,hfirst,hsecond,writeString_append]

lemma writes_print (text : String) : Writes [print text] text := fun _ => rfl

/-- The words behind the first one come with a blank before each. -/
lemma writes_others (words : List String) (n : ℕ) : Writes
    ((words.zipIdx (n+1)).flatMap fun word =>
      (if 0 < word.2 then [print " "] else [])++[print word.1])
    (String.join (words.map fun word => " "++word)) := by
  induction words generalizing n with
  | nil => exact fun _ => rfl
  | cons word words ih =>
    rw [List.zipIdx_cons,List.flatMap_cons,List.map_cons,String.join_cons]
    exact ((writes_print " ").append (writes_print word)).append (ih (n+1))

lemma intercalate_space (word : String) (words : List String) :
    String.intercalate " " (word :: words) = word++String.join (words.map fun w => " "++w) := by
  induction words generalizing word with
  | nil => simp
  | cons next words ih =>
    rw [String.intercalate_cons_cons,ih,List.map_cons,String.join_cons]
    simp only [String.append_assoc]

/-- `echo` prints its arguments with single blanks between them. -/
theorem writes_echo (words : List String) :
    Writes (echoSections words) (String.intercalate " " words++"\n") := by
  have hend : Writes [println ""] "\n" := fun _ => rfl
  refine Writes.append ?_ hend
  cases words with
  | nil => exact fun _ => rfl
  | cons word words =>
    rw [intercalate_space,List.zipIdx_cons,List.flatMap_cons]
    exact (writes_print word).append (writes_others words 0)

/-! ### From the line to the words -/

lemma execute_echo (info : SystemInfo) (history : History) (env : Environment)
    {words : List String} (hhelp : words ≠ ["--help"]) (hcount : words.length < 32)
    (hascii : ∀ word ∈ words, ∀ c ∈ word.toList, c.toNat < 128)
    (hfits : (AsciiText.bytes (quoteAll ("echo" :: words))).length ≤ 256) :
    execute info history env (quoteAll ("echo" :: words)) = some (echoSections words) := by
  have hall : ∀ word ∈ "echo" :: words, ∀ c ∈ word.toList, c.toNat < 128 := by
    rw [List.forall_mem_cons]
    exact ⟨AsciiText.forall_mem_of_all (by decide),hascii⟩
  obtain ⟨args,hparse,hlen,hget⟩ :=
    parse_quoteAll (by rw [List.length_cons]; exact hcount) hall hfits
  rw [List.length_cons] at hlen
  have hwords : (List.range (args.len-1)).mapM (fun index => args.get (index+1)) = some words := by
    rw [mapM_some (g := fun index => words[index]?.getD ""),hlen,Nat.add_sub_cancel]
    · refine congrArg some (List.ext_getElem? fun i => ?_)
      rw [List.getElem?_map]
      rcases Nat.lt_or_ge i words.length with hi | hi
      · rw [List.getElem?_range hi,Option.map_some,List.getElem?_eq_getElem hi]
        rfl
      · rw [List.getElem?_eq_none hi,List.getElem?_eq_none (by rwa [List.length_range])]
        rfl
    · intro index hindex
      rw [List.mem_range,hlen] at hindex
      rw [hget (index+1) (by omega),List.getElem?_cons_succ,
        List.getElem?_eq_getElem (show index < words.length by omega)]
      rfl
  have hecho : args.get 0 = some "echo" := hget 0 (by omega)
  have hargument : (if args.len = 2 then words[0]? else none) ≠ some "--help" := by
    split_ifs with htwo
    · intro hfirst
      obtain ⟨word,rfl⟩ := List.length_eq_one_iff.mp (show words.length = 1 by omega)
      cases hfirst
      exact hhelp rfl
    · simp
  unfold execute
  rw [hparse]
  simp only [Option.bind_eq_bind,Option.bind_some,hecho,hwords]
  rw [if_neg (by omega),dispatch,if_neg hargument]
  rfl

lemma printable_quoteAll {words : List String} (h : ∀ word ∈ words, Printable word) :
    Printable (quoteAll words) := by
  have hascii : ∀ word ∈ words, ∀ c ∈ word.toList, c.toNat < 128 :=
    fun word hw c hc => (h word hw c hc).2.trans_lt (by decide)
  have hbyte : ∀ byte ∈ [32].intercalate ((words.map AsciiText.bytes).map quote),
      IsPrintable byte := by
    refine Separators.forall_mem_intercalate (by simp [IsPrintable]) fun quoted hquoted => ?_
    obtain ⟨bytes,hbytes,rfl⟩ := List.mem_map.mp hquoted
    obtain ⟨word,hw,rfl⟩ := List.mem_map.mp hbytes
    have hword : ∀ byte ∈ AsciiText.bytes word, IsPrintable byte := by
      intro byte hmem
      rw [AsciiText.bytes_ascii (hascii word hw)] at hmem
      obtain ⟨c,hc,rfl⟩ := List.mem_map.mp hmem
      exact isPrintable_toUInt8 (h word hw c hc)
    unfold quote
    rw [List.forall_mem_cons,List.forall_mem_append]
    refine ⟨by decide,fun byte hmem => ?_,AsciiText.forall_mem_of_all (by decide)⟩
    obtain ⟨b,hb,hmem⟩ := List.mem_flatMap.mp hmem
    unfold quoteByte at hmem
    split_ifs at hmem
    · have hescape : ∀ byte ∈ ([39,92,39,39] : List UInt8), IsPrintable byte :=
        AsciiText.forall_mem_of_all (by decide)
      exact hescape byte hmem
    · rw [List.mem_singleton.mp hmem]
      exact hword b hb
  intro c hc
  rw [AsciiText.toList_eq (fun b hb => by
    rw [bytes_quoteAll hascii] at hb
    exact quoted_ascii hascii b hb),bytes_quoteAll hascii] at hc
  obtain ⟨b,hb,rfl⟩ := List.mem_map.mp hc
  rw [AsciiText.toNat_ofUInt8]
  exact hbyte b hb

lemma Shell.handleKeys_append (keys more : List (Environment × DecodedKey)) (s : Shell) :
    handleKeys (keys++more) s = (handleKeys keys s).bind (handleKeys more) := by
  induction keys generalizing s with
  | nil => rfl
  | cons pressed keys ih =>
    rw [List.cons_append,handleKeys,handleKeys,bind_assoc]
    exact congrArg _ (funext ih)

/-- Whatever is pressed into an empty line as the quoted words of an `echo`, and then Enter: the
console gets redraws of the line, a newline, the words with blanks between them on a line of
their own, and the next prompt. -/
theorem typed_echo_prints {s : Shell} (h : s.Sound) (hline : s.line = Line.new)
    {words : List String} (hhelp : words ≠ ["--help"]) (hcount : words.length < 32)
    (hprintable : ∀ word ∈ words, Printable word)
    (hfits : (quoteAll ("echo" :: words)).utf8ByteSize ≤ 256)
    {keys : List (Environment × DecodedKey)}
    (hkeys : keys.map Prod.snd = (quoteAll ("echo" :: words)).toList.map .unicode)
    (env : Environment) :
    (Shell.handleKeys (keys++[(env,.unicode '\n')]) s).Performs fun calls s' =>
      ∃ echoed output, calls = echoed++[println ""]++output++[Shell.promptSection] ∧
        (∀ ops ∈ echoed, Shell.IsRedraw ops) ∧
        Writes output (String.intercalate " " words++"\n") ∧ s'.line = Line.new := by
  have hecho : ∀ word ∈ "echo" :: words, Printable word := by
    rw [List.forall_mem_cons]
    exact ⟨AsciiText.forall_mem_of_all (by decide),hprintable⟩
  have htext := printable_quoteAll hecho
  have hascii : ∀ c ∈ (quoteAll ("echo" :: words)).toList, c.toNat < 128 :=
    fun c hc => (htext c hc).2.trans_lt (by decide)
  have hbytes := AsciiText.bytes_ascii hascii
  rw [AsciiText.utf8ByteSize_eq] at hfits
  have hempty : s.line.Holds [] [] := hline ▸ Line.holds_new
  have hflag : s.line.overflow = false := by
    rw [hline]
    rfl
  rw [hbytes,List.length_map] at hfits
  have htyped := Shell.type_performs h hempty hflag hkeys htext
    (by rw [List.length_nil,Nat.zero_add]; exact hfits)
  rw [Shell.handleKeys_append,performs_bind]
  refine htyped.mono fun typing s₁ hs₁ => ?_
  obtain ⟨hredraws,hs₁⟩ := hs₁
  rw [List.nil_append,← hbytes] at hs₁
  have hline₁ : s₁.line.text = quoteAll ("echo" :: words) := by
    rw [Line.text,hs₁.line.content,List.append_nil,AsciiText.ofBytes_bytes hascii]
  obtain ⟨history,hr,-⟩ := hs₁.sound.history.record hs₁.sound.cursorToEnd.line
  have he : execute s₁.info history env s₁.line.text = some (echoSections words) := by
    rw [hline₁]
    refine execute_echo s₁.info history env hhelp hcount ?_ ?_
    · exact fun word hw c hc => (hprintable word hw c hc).2.trans_lt (by decide)
    · rw [hbytes,List.length_map]
      exact hfits
  rw [Shell.handleKeys,performs_bind]
  refine Shell.enter_performs hs₁.sound hs₁.kept hr he fun redraw anchor hredraw => ?_
  refine ⟨typing++[redraw],echoSections words,?_,?_,writes_echo words,rfl⟩
  · simp
  · rw [List.forall_mem_append,List.forall_mem_singleton]
    exact ⟨hredraws,hredraw⟩

/-- An operator, a quote and an empty word, typed at a new prompt. -/
theorem typed_echo_prints_quoted : ∃ s : Shell, s.Sound ∧ ∀ env : Environment,
    (Shell.handleKeys ((quoteAll ["echo","a|b","","it's"]).toList.map (fun c => (env,.unicode c))++
        [(env,.unicode '\n')]) s).Performs fun calls s' =>
      ∃ echoed output, calls = echoed++[println ""]++output++[Shell.promptSection] ∧
        (∀ ops ∈ echoed, Shell.IsRedraw ops) ∧ Writes output "a|b  it's\n" ∧
        s'.line = Line.new := by
  let info : SystemInfo := ⟨0,Vector.replicate 12 0,Vector.replicate 48 0,false⟩
  let boot : Environment := ⟨0,0,none,none,fun _ => .error "no initialized Ethernet controller"⟩
  have hnew : (Shell.new info boot).All fun s => s.Sound ∧ s.line = Line.new := by
    simp only [Shell.new,bind_eq,all_bind,all_performAll]
    exact fun anchor => ⟨⟨Line.valid_new,History.sound_new⟩,rfl⟩
  obtain ⟨s,-,hsound,hline⟩ := hnew.exists_returns
  refine ⟨s,hsound,fun env => ?_⟩
  have hprintable : ∀ word ∈ ["echo","a|b","","it's"], Printable word :=
    AsciiText.forall_mem_of_all (by decide)
  have hascii : ∀ word ∈ ["echo","a|b","","it's"], ∀ c ∈ word.toList, c.toNat < 128 :=
    fun word hw c hc => (hprintable word hw c hc).2.trans_lt (by decide)
  exact typed_echo_prints hsound hline (show ["a|b","","it's"] ≠ ["--help"] by decide)
    (by decide) (List.forall_mem_cons.mp hprintable).2
    (by rw [AsciiText.utf8ByteSize_eq,bytes_quoteAll hascii]; decide)
    (by rw [List.map_map]; rfl) env

end CrabOs.Crabsh
