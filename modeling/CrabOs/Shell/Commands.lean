import CrabOs.Net.Web
import CrabOs.Shell.ArgumentWords
import CrabOs.Shell.History

/-! The built-in commands. No command reads anything back from the console, so a command is
the list of writer sections it makes, in order. -/
namespace CrabOs.Crabsh
open CrabOs.Vga CrabOs.Net

/-- The calls made on the writer while it is locked once. -/
abbrev Section := List WriterOp

def print (text : String) : Section := [.writeString text]

def println (text : String) : Section := [.writeString (text++"\n")]

def version : String := "0.1.0"

/-- `allocator::HEAP_SIZE`. -/
def heapSize : ℕ := 100*1024

structure SystemInfo where
  usableMemory : ℕ
  vendor : Vector UInt8 12
  brand : Vector UInt8 48
  virtualized : Bool

structure PciAddress where
  bus : ℕ
  device : ℕ
  function : ℕ

/-- What a command reads from the rest of the kernel while it runs. -/
structure Environment where
  uptimeSeconds : ℕ
  requestedBytes : ℕ
  findI225V : Option PciAddress
  netStatus : Option (Vector UInt8 6 × Bool)
  fetch : Url → Except String (List UInt8)

/-! ### Formatting -/

/-- `{:<width}`. -/
def padRight (width : ℕ) (text : String) : String :=
  text++String.ofList (List.replicate (width-text.length) ' ')

/-- `{:>width}`. -/
def padLeft (width : ℕ) (text : String) : String :=
  String.ofList (List.replicate (width-text.length) ' ')++text

/-- `{:02x}`. -/
def hexByte (n : ℕ) : String :=
  let digits := Nat.toDigits 16 n
  String.ofList (List.replicate (2-digits.length) '0'++digits)

def clock (seconds : ℕ) : String :=
  toString (seconds/3600)++"h "++toString (seconds/60 % 60)++"m "++toString (seconds % 60)++"s"

/-- `str::trim_matches` for a set of characters. -/
def trimMatches (p : Char → Bool) (text : List Char) : List Char :=
  (text.dropWhile p).rdropWhile p

namespace SystemInfo

def cpuName (info : SystemInfo) : String :=
  let brand := (AsciiText.fromUtf8 info.brand.toList).getD ""
  let name := trimMatches isWhitespace (trimMatches (· = '\x00') brand.toList)
  if name = [] then (AsciiText.fromUtf8 info.vendor.toList).getD "Unknown x86_64 CPU"
  else String.ofList name

def logo : List String :=
  ["                    ",
    "     _     _        ",
    "    (v)   (v)       ",
    "     \\_____ /       ",
    "   __/ o o \\__      ",
    "  / _\\_____/ _\\     ",
    "  \\ \\|     |/ /     ",
    "   \\_|_____|_/      ",
    "    / /   \\ \\       ",
    "   /_/     \\_\\      ",
    "                    ",
    "      C R A B       "]

def label : ℕ → String
  | 0 => "shaolin@crabos"
  | 1 => "------------"
  | 2 => "OS"
  | 3 => "Kernel"
  | 4 => "CPU"
  | 5 => "Platform"
  | 6 => "Uptime"
  | 7 => "RAM (boot usable)"
  | 8 => "Heap (payload)"
  | 9 => "Shell"
  | 10 => "Terminal"
  | _ => ""

def palette : List WriterOp :=
  [Color.red,.green,.brown,.blue,.magenta,.cyan,.lightGray,.white].flatMap
    fun color => [.setColor color color,.writeString "   "]

def value (info : SystemInfo) (env : Environment) : ℕ → List WriterOp
  | 2 => print ("CrabOS "++version++" x86_64")
  | 3 => print "CrabOS-kern"
  | 4 => print (String.ofList (info.cpuName.toList.take 48))
  | 5 => print (if info.virtualized then "Virtual machine" else "PC")
  | 6 => print (clock env.uptimeSeconds)
  | 7 => print (toString (info.usableMemory/1024/1024)++" MiB")
  | 8 => print (toString env.requestedBytes++" B / "++toString (heapSize/1024)++" KiB")
  | 9 => print "crabsh (built-in)"
  | 10 => print "VGA 80x25 / PS/2"
  | 11 => palette
  | _ => []

def fastfetchLine (info : SystemInfo) (env : Environment) (logo : String) (index : ℕ) : Section :=
  [.setColor .lightRed .black,.writeString (logo++"  "),.setColor .lightCyan .black,
    .writeString (label index)]++
  (if 2 ≤ index ∧ index ≤ 10 then [.setColor .lightGray .black,.writeString ": "] else [])++
  info.value env index++
  [.setColor .lightGray .black,.writeString "\n"]

def fastfetch (info : SystemInfo) (env : Environment) : Section :=
  logo.zipIdx.flatMap (fun line => info.fastfetchLine env line.1 line.2)++[.writeString "\n"]

end SystemInfo

/-! ### Commands -/

def commands : List (String × String) :=
  [("help","Show commands and keyboard shortcuts"),
    ("fastfetch","Show the CrabOS logo and live system information"),
    ("clear","Clear the screen and scrollback"),
    ("echo","Print arguments (quotes and backslash escapes supported)"),
    ("uname","Show kernel name; -a for version and architecture"),
    ("uptime","Show time since kernel initialization"),
    ("mem","Show boot memory and current heap allocation payloads"),
    ("history","Show the last 16 commands"),
    ("whoami","Show the console user"),
    ("hostname","Show the system name"),
    ("lspci","Find the supported Intel I225-V Ethernet controller"),
    ("net","Show Ethernet controller and link status"),
    ("browse","Open a plain HTTP page in the terminal")]

def helpSections : List Section :=
  commands.map (fun command => println ("  "++padRight 10 command.1++" "++command.2))++
  [println "\nEditing: Left/Right, Home/End, Backspace/Delete, Tab completion",
    println "History: Up/Down or Ctrl+P/N; scrollback: PageUp/PageDown",
    println "Ctrl+A/E: start/end; Ctrl+U/K: erase to start/end; Ctrl+W: word",
    println "Ctrl+C: close terminal; Ctrl+Q: open terminal",
    println "Ctrl+L: clear and redraw; Ctrl+D: delete at cursor",
    println "US keyboard, ASCII input, 256 bytes/line, 16 history entries.",
    println "Built-in commands only; no filesystem or external programs yet."]

/-- `echo`: one section per word and per blank between words. -/
def echoSections (words : List String) : List Section :=
  words.zipIdx.flatMap (fun word =>
    (if 0 < word.2 then [print " "] else [])++[print word.1])++[println ""]

def browseSections (env : Environment) (argument : Option String) : List Section :=
  match argument with
  | none => [println "usage: browse http://host/path"]
  | some text => match Url.parse text with
    | .error error => [println ("browse: "++error)]
    | .ok url => [println ("Loading "++text),
        match (env.fetch url).bind render with
        | .ok page => println page
        | .error error => println ("browse: "++error)]

def memSections (info : SystemInfo) (env : Environment) : List Section :=
  [println ("Boot-usable physical RAM: "++toString (info.usableMemory/1024)++" KiB"),
    println ("Kernel heap capacity:     "++toString (heapSize/1024)++" KiB"),
    println ("Live allocation payload:  "++toString env.requestedBytes++" bytes"),
    println "Payload excludes allocator metadata, rounding and cached blocks.",
    println "Boot-usable RAM is not a measurement of current free memory."]

def historySections (history : History) : Option (List Section) :=
  (List.range history.len).mapM fun index =>
    (history.get index).asStr.map fun text =>
      println (padLeft 3 (toString (index+1))++"  "++text)

def lspciSection (env : Environment) : Section :=
  match env.findI225V with
  | some address => println (hexByte address.bus++":"++hexByte address.device++"."++
      toString address.function++" Intel I225-V Ethernet [8086:15f3]")
  | none => println "Intel I225-V Ethernet [8086:15f3] not found"

def netSection (env : Environment) : Section :=
  match env.netStatus with
  | some (mac,link) => println ("QEMU e1000 "++
      String.intercalate ":" (mac.toList.map (fun byte => hexByte byte.toNat))++" link "++
      (if link then "up" else "down"))
  | none => println "No initialized Ethernet controller"

/-- The arms of `execute` below the argument count check: commands without arguments. -/
def bareCommand (info : SystemInfo) (history : History) (env : Environment) (command : String) :
    Option (List Section) :=
  if command = "help" then some helpSections
  else if command = "fastfetch" then some [info.fastfetch env]
  else if command = "clear" then some [[.clear]]
  else if command = "uptime" then some [println ("up "++clock env.uptimeSeconds)]
  else if command = "mem" then some (memSections info env)
  else if command = "history" then historySections history
  else if command = "whoami" then some [println "shaolin"]
  else if command = "hostname" then some [println "crabos"]
  else if command = "lspci" then some [lspciSection env]
  else if command = "net" then some [netSection env]
  else none

/-- `execute` on arguments: `argument` is the second word of exactly two. -/
def dispatch (info : SystemInfo) (history : History) (env : Environment) (command : String)
    (count : ℕ) (words : List String) (argument : Option String) : Option (List Section) :=
  match if argument = some "--help" then commands.find? (·.1 = command) else none with
  | some (name,description) => some [println (name++": "++description)]
  | none =>
    if command = "echo" then some (echoSections words)
    else if command = "uname" then
      if count = 1 then some [println "CrabOS"]
      else if argument = some "-a" then some [println ("CrabOS crabos "++version++" x86_64")]
      else some [println "usage: uname [-a]"]
    else if command = "fastfetch" ∧ argument = some "--version" then
      some [println ("CrabOS native fastfetch "++version++" (not the upstream program)")]
    else if command = "browse" then some (browseSections env argument)
    else if ¬commands.any (·.1 = command) then
      some [println ("crabsh: "++command++": command not found. Try 'help'.")]
    else if 1 < count then some [println ("usage: "++command++" (no arguments)")]
    else bareCommand info history env command

/-- The sections of one command line; `none` is a panic. -/
def execute (info : SystemInfo) (history : History) (env : Environment) (input : String) :
    Option (List Section) := do
  match ← Arguments.parse input with
  | .error error => some [println ("crabsh: "++error)]
  | .ok args =>
    if args.len = 0 then some []
    else
      let command ← args.get 0
      let words ← (List.range (args.len-1)).mapM (fun index => args.get (index+1))
      dispatch info history env command args.len words
        (if args.len = 2 then words[0]? else none)

/-! ### What a command prints -/

/-- A call that prints, sets a colour or clears. -/
def IsOutput : WriterOp → Prop
  | .writeByte _ | .writeString _ | .setColor _ _ | .clear => True
  | .scrollUp | .scrollDown | .replaceInput _ _ _ _ => False

/-- Calls that leave the cursor at the start of a fresh line, if they did not start there. -/
def EndsLine (ops : List WriterOp) : Prop :=
  ops = [] ∨ ∃ init last, ops = init++[last] ∧ (last = .clear ∨ ∃ text, last = .writeString (text++"\n"))

/-- The sections of a command only print, and end at the start of a line. -/
structure Prints (sections : List Section) : Prop where
  output : ∀ ops ∈ sections, ∀ op ∈ ops, IsOutput op
  ends : EndsLine sections.flatten

lemma isOutput_print {text : String} {op : WriterOp} (h : op ∈ print text) : IsOutput op := by
  rw [List.mem_singleton.mp h]
  trivial

lemma isOutput_println {text : String} {op : WriterOp} (h : op ∈ println text) : IsOutput op := by
  rw [List.mem_singleton.mp h]
  trivial

namespace Prints

lemma nil : Prints [] := ⟨by simp,.inl rfl⟩

lemma concat (sections : List Section) (h : ∀ ops ∈ sections, ∀ op ∈ ops, IsOutput op)
    (text : String) : Prints (sections++[println text]) := by
  refine ⟨?_,.inr ⟨sections.flatten,.writeString (text++"\n"),?_,.inr ⟨text,rfl⟩⟩⟩
  · intro ops hops
    rcases List.mem_append.mp hops with hops | hops
    · exact h ops hops
    · rw [List.mem_singleton.mp hops]
      exact fun op => isOutput_println
  · rw [List.flatten_append,List.flatten_singleton]
    rfl

lemma single (text : String) : Prints [println text] :=
  concat [] (fun _ h => absurd h List.not_mem_nil) text

/-- A list of printed lines. -/
lemma lines {sections : List Section} (h : ∀ ops ∈ sections, ∃ text, ops = println text) :
    Prints sections := by
  induction sections using List.reverseRecOn with
  | nil => exact nil
  | append_singleton sections last ih =>
    obtain ⟨text,rfl⟩ := h last (by simp)
    refine concat _ (fun ops hops op hop => ?_) text
    obtain ⟨text',rfl⟩ := h ops (by simp [hops])
    exact isOutput_println hop

/-- The arms of a chain of commands are checked one by one. -/
lemma ite {p : Prop} [Decidable p] {x y : Option (List Section)}
    (hx : p → ∃ sections, x = some sections ∧ Prints sections)
    (hy : ¬p → ∃ sections, y = some sections ∧ Prints sections) :
    ∃ sections, (if p then x else y) = some sections ∧ Prints sections := by
  by_cases h : p
  · rw [if_pos h]
    exact hx h
  · rw [if_neg h]
    exact hy h

end Prints

lemma SystemInfo.fastfetch_output {info : SystemInfo} {env : Environment} {op : WriterOp}
    (h : op ∈ info.fastfetch env) : IsOutput op := by
  have hvalue : ∀ index, ∀ op ∈ info.value env index, IsOutput op := by
    intro index op hop
    unfold value at hop
    split at hop
    case h_10 =>
      obtain ⟨color,-,hop⟩ := List.mem_flatMap.mp hop
      rcases List.mem_cons.mp hop with rfl | hop
      · trivial
      · exact isOutput_print hop
    case h_11 => simp at hop
    all_goals exact isOutput_print hop
  rcases List.mem_append.mp h with h | h
  · obtain ⟨⟨logo,index⟩,-,h⟩ := List.mem_flatMap.mp h
    simp only [fastfetchLine,List.mem_append] at h
    rcases h with ((h | h) | h) | h
    · simp only [List.mem_cons,List.not_mem_nil,or_false] at h
      rcases h with rfl | rfl | rfl | rfl <;> trivial
    · split_ifs at h
      · simp only [List.mem_cons,List.not_mem_nil,or_false] at h
        rcases h with rfl | rfl <;> trivial
      · simp at h
    · exact hvalue _ op h
    · simp only [List.mem_cons,List.not_mem_nil,or_false] at h
      rcases h with rfl | rfl <;> trivial
  · rw [List.mem_singleton.mp h]
    trivial

lemma SystemInfo.fastfetch_prints (info : SystemInfo) (env : Environment) :
    Prints [info.fastfetch env] := by
  refine ⟨?_,?_⟩
  · intro ops hops
    rw [List.mem_singleton.mp hops]
    exact fun op => fastfetch_output
  · rw [List.flatten_singleton]
    exact .inr ⟨_,_,rfl,.inr ⟨"",rfl⟩⟩

lemma echoSections_prints (words : List String) : Prints (echoSections words) := by
  refine Prints.concat _ ?_ ""
  intro ops hops
  obtain ⟨word,-,hops⟩ := List.mem_flatMap.mp hops
  rcases List.mem_append.mp hops with hops | hops
  · split_ifs at hops
    · rw [List.mem_singleton.mp hops]
      exact fun op => isOutput_print
    · simp at hops
  · rw [List.mem_singleton.mp hops]
    exact fun op => isOutput_print

lemma browseSections_prints (env : Environment) (argument : Option String) :
    Prints (browseSections env argument) := by
  apply Prints.lines
  unfold browseSections
  split
  · simp
  · split
    · simp
    · intro ops hops
      simp only [List.mem_cons,List.not_mem_nil,or_false] at hops
      rcases hops with rfl | rfl
      · exact ⟨_,rfl⟩
      · split <;> exact ⟨_,rfl⟩

/-- Every line of a history can be read as a string. -/
def History.Readable (h : History) : Prop := ∀ i < h.len, (h.get i).asStr.isSome

lemma mapM_total {α β : Type} {f : α → Option β} {l : List α} (h : ∀ a ∈ l, ∃ b, f a = some b) :
    ∃ bs, l.mapM f = some bs ∧ ∀ b ∈ bs, ∃ a ∈ l, f a = some b := by
  induction l with
  | nil => exact ⟨[],rfl,by simp⟩
  | cons a l ih =>
    obtain ⟨b,hb⟩ := h a (by simp)
    obtain ⟨bs,hbs,hmem⟩ := ih (fun x hx => h x (by simp [hx]))
    refine ⟨b :: bs,by simp [List.mapM_cons,hb,hbs],?_⟩
    intro y hy
    rcases List.mem_cons.mp hy with rfl | hy
    · exact ⟨a,by simp,hb⟩
    · obtain ⟨x,hx,hf⟩ := hmem y hy
      exact ⟨x,by simp [hx],hf⟩

lemma mapM_some {α β : Type} {f : α → Option β} {g : α → β} {l : List α}
    (h : ∀ a ∈ l, f a = some (g a)) : l.mapM f = some (l.map g) := by
  induction l with
  | nil => rfl
  | cons a l ih =>
    rw [List.mapM_cons,h a List.mem_cons_self,ih fun b hb => h b (List.mem_cons_of_mem a hb)]
    rfl

lemma historySections_prints {history : History} (h : history.Readable) :
    ∃ sections, historySections history = some sections ∧ Prints sections := by
  obtain ⟨sections,hs,hmem⟩ := mapM_total (l := List.range history.len)
    (f := fun index => (history.get index).asStr.map fun text =>
      println (padLeft 3 (toString (index+1))++"  "++text)) (by
    intro i hi
    obtain ⟨text,htext⟩ := Option.isSome_iff_exists.mp (h i (List.mem_range.mp hi))
    exact ⟨_,by rw [htext]; rfl⟩)
  refine ⟨sections,hs,Prints.lines ?_⟩
  intro ops hops
  obtain ⟨i,-,hi⟩ := hmem ops hops
  obtain ⟨text,-,rfl⟩ := Option.map_eq_some_iff.mp hi
  exact ⟨_,rfl⟩

lemma bareCommand_prints (info : SystemInfo) {history : History} (env : Environment)
    (h : history.Readable) {command : String}
    (hknown : commands.any (·.1 = command)) (hecho : command ≠ "echo") (huname : command ≠ "uname")
    (hbrowse : command ≠ "browse") :
    ∃ sections, bareCommand info history env command = some sections ∧ Prints sections := by
  unfold bareCommand
  refine Prints.ite (fun _ => ?help) fun h1 => Prints.ite (fun _ => ?fastfetch) fun h2 =>
    Prints.ite (fun _ => ?clear) fun h3 => Prints.ite (fun _ => ?uptime) fun h4 =>
    Prints.ite (fun _ => ?mem) fun h5 => Prints.ite (fun _ => ?history) fun h6 =>
    Prints.ite (fun _ => ?whoami) fun h7 => Prints.ite (fun _ => ?hostname) fun h8 =>
    Prints.ite (fun _ => ?lspci) fun h9 => Prints.ite (fun _ => ?net) fun h10 => ?unknown
  case help =>
    refine ⟨_,rfl,Prints.lines ?_⟩
    intro ops hops
    rcases List.mem_append.mp hops with hops | hops
    · obtain ⟨command,-,rfl⟩ := List.mem_map.mp hops
      exact ⟨_,rfl⟩
    · simp only [List.mem_cons,List.not_mem_nil,or_false] at hops
      rcases hops with rfl | rfl | rfl | rfl | rfl | rfl | rfl <;> exact ⟨_,rfl⟩
  case fastfetch => exact ⟨_,rfl,info.fastfetch_prints env⟩
  case clear => exact ⟨_,rfl,by simp [IsOutput],.inr ⟨[],.clear,rfl,.inl rfl⟩⟩
  case uptime => exact ⟨_,rfl,Prints.single _⟩
  case mem =>
    refine ⟨_,rfl,Prints.lines ?_⟩
    intro ops hops
    simp only [memSections,List.mem_cons,List.not_mem_nil,or_false] at hops
    rcases hops with rfl | rfl | rfl | rfl | rfl <;> exact ⟨_,rfl⟩
  case history => exact historySections_prints h
  case whoami => exact ⟨_,rfl,Prints.single _⟩
  case hostname => exact ⟨_,rfl,Prints.single _⟩
  case lspci =>
    refine ⟨_,rfl,Prints.lines ?_⟩
    unfold lspciSection
    split <;> simp
  case net =>
    refine ⟨_,rfl,Prints.lines ?_⟩
    unfold netSection
    split <;> simp
  case unknown =>
    -- The table holds no other name.
    simp only [commands,List.any_cons,List.any_nil,Bool.or_false,Bool.or_eq_true,
      decide_eq_true_eq] at hknown
    grind

lemma dispatch_prints (info : SystemInfo) {history : History} (env : Environment)
    (h : history.Readable) (command : String) (count : ℕ) (words : List String)
    (argument : Option String) :
    ∃ sections, dispatch info history env command count words argument = some sections ∧
      Prints sections := by
  unfold dispatch
  split
  · exact ⟨_,rfl,Prints.single _⟩
  · refine Prints.ite (fun _ => ?echo) fun hecho => Prints.ite (fun _ => ?uname) fun huname =>
      Prints.ite (fun _ => ?version) fun _ => Prints.ite (fun _ => ?browse) fun hbrowse =>
      Prints.ite (fun _ => ?unknown) fun hknown => Prints.ite (fun _ => ?usage) fun _ => ?bare
    case echo => exact ⟨_,rfl,echoSections_prints words⟩
    case uname =>
      exact Prints.ite (fun _ => ⟨_,rfl,Prints.single _⟩) fun _ =>
        Prints.ite (fun _ => ⟨_,rfl,Prints.single _⟩) fun _ => ⟨_,rfl,Prints.single _⟩
    case version => exact ⟨_,rfl,Prints.single _⟩
    case browse => exact ⟨_,rfl,browseSections_prints env argument⟩
    case unknown => exact ⟨_,rfl,Prints.single _⟩
    case usage => exact ⟨_,rfl,Prints.single _⟩
    case bare => exact bareCommand_prints info env h (not_not.mp hknown) hecho huname hbrowse

/-- No command line panics, whatever it says, and its output ends at the start of a line. -/
theorem execute_prints (info : SystemInfo) {history : History} (env : Environment)
    (h : history.Readable) (input : String) :
    ∃ sections, execute info history env input = some sections ∧ Prints sections := by
  unfold execute
  cases hparse : Arguments.parse input with
  | none => exact absurd hparse (Arguments.parse_ne_none input)
  | some result =>
    cases result with
    | error e => exact ⟨_,rfl,Prints.single _⟩
    | ok args =>
      simp only [Option.bind_eq_bind,Option.bind_some]
      by_cases hlen : args.len = 0
      · exact ⟨_,if_pos hlen,Prints.nil⟩
      · rw [if_neg hlen]
        obtain ⟨command,hcommand⟩ := Arguments.parse_get hparse (Nat.pos_of_ne_zero hlen)
        obtain ⟨words,hwords,-⟩ := mapM_total (l := List.range (args.len-1))
          (f := fun index => args.get (index+1))
          (fun i hi => Arguments.parse_get hparse (by rw [List.mem_range] at hi; omega))
        rw [hcommand,hwords]
        exact dispatch_prints info env h command args.len words _

end CrabOs.Crabsh
