import CrabOs.Shell.Line

/-! The argument parser: one pass over the input that fills a byte buffer and a table of
spans, and the words it should find. -/
namespace CrabOs.Crabsh
open AsciiText (isAsciiWhitespace)

def maxArgs : ℕ := 32

/-- A fallible computation that may also abort: `none` is a panic of the source. -/
abbrev Fallible (α : Type) := Option (Except String α)

def Fallible.andThen {α β : Type} (x : Fallible α) (f : α → Fallible β) : Fallible β :=
  match x with
  | some (.ok a) => f a
  | some (.error e) => some (.error e)
  | none => none

structure Arguments where
  bytes : Vector UInt8 maxInput
  spans : Vector (ℕ × ℕ) maxArgs
  len : ℕ

/-- The variables of the loop of `Arguments::parse`. -/
structure ParseState where
  result : Arguments
  used : ℕ
  start : Option ℕ
  quote : Option UInt8
  escaped : Bool

/-- The bytes `|`, `>`, `<`, `;` and `&`. -/
def isOperator (byte : UInt8) : Bool :=
  byte = 124 || byte = 62 || byte = 60 || byte = 59 || byte = 38

namespace Arguments

def empty : Arguments := ⟨Vector.replicate maxInput 0,Vector.replicate maxArgs (0,0),0⟩

def push (args : Arguments) (start stop : ℕ) : Fallible Arguments :=
  if args.len = maxArgs then some (.error "too many arguments (maximum 32)")
  else if h : args.len < maxArgs then
    some (.ok { args with spans := args.spans.set args.len (start,stop) h, len := args.len+1 })
  else none

/-- The slice of an argument must exist and be UTF-8. -/
def get (args : Arguments) (index : ℕ) : Option String :=
  if index < args.len then
    args.spans[index]?.bind fun span =>
      if span.1 ≤ span.2 ∧ span.2 ≤ maxInput then
        AsciiText.fromUtf8 ((args.bytes.toList.take span.2).drop span.1)
      else none
  else none

end Arguments

namespace ParseState

/-- `start.get_or_insert(used)`. -/
def begin (s : ParseState) : ParseState := { s with start := some (s.start.getD s.used) }

/-- `result.bytes[used] = byte; used += 1`. -/
def store (s : ParseState) (byte : UInt8) : Fallible ParseState :=
  (storeByte s.result.bytes s.used byte).map fun bytes =>
    .ok { s with result := { s.result with bytes := bytes }, used := s.used+1 }

/-- `result.push(begin, used)?` for a word that has started. -/
def finish (s : ParseState) : Fallible ParseState :=
  match s.start with
  | some first => (s.result.push first s.used).andThen fun result =>
      some (.ok { s with result := result, start := none })
  | none => some (.ok s)

/-- One iteration of the loop. 92 is the backslash, 39 and 34 are the quotes. -/
def step (s : ParseState) (byte : UInt8) : Fallible ParseState :=
  if s.escaped then { s with escaped := false }.store byte
  else if byte = 92 ∧ s.quote ≠ some 39 then some (.ok { s.begin with escaped := true })
  else if s.quote = some byte then some (.ok { s with quote := none })
  else if s.quote = none ∧ (byte = 39 ∨ byte = 34) then
    some (.ok { s.begin with quote := some byte })
  else if s.quote = none ∧ isAsciiWhitespace byte then s.finish
  else if s.quote = none ∧ isOperator byte then
    some (.error "pipes, redirection and command chaining are not available")
  else s.begin.store byte

def steps : List UInt8 → ParseState → Fallible ParseState
  | [],s => some (.ok s)
  | byte :: rest,s => (s.step byte).andThen (steps rest)

/-- The checks after the loop. -/
def conclude (s : ParseState) : Fallible Arguments :=
  if s.escaped then some (.error "unfinished backslash escape")
  else if s.quote.isSome then some (.error "unclosed quote")
  else s.finish.andThen fun s => some (.ok s.result)

end ParseState

def Arguments.parse (input : String) : Fallible Arguments :=
  let bytes := AsciiText.bytes input
  if maxInput < bytes.length ∨ ¬bytes.all (fun byte => byte < 128) then
    some (.error "input must be at most 256 ASCII bytes")
  else (ParseState.steps bytes ⟨Arguments.empty,0,none,none,false⟩).andThen ParseState.conclude

/-! ### The reference -/

/-- What a byte of the input is to the reader. -/
inductive Mark
  /-- An opening or closing quote, or an escaping backslash. -/
  | quoting
  | literal (byte : UInt8)
  | space
  | operator
  deriving DecidableEq

/-- The quote a position is inside of, and whether a backslash has just escaped it. -/
structure Context where
  quote : Option UInt8
  escaped : Bool
  deriving DecidableEq

namespace Context

def outside : Context := ⟨none,false⟩

/-- A backslash escapes everywhere but inside single quotes. -/
def escapes (c : Context) (byte : UInt8) : Prop := byte = 92 ∧ c.quote ≠ some 39

instance (c : Context) (byte : UInt8) : Decidable (c.escapes byte) := inferInstanceAs (Decidable (_ ∧ _))

def mark (c : Context) (byte : UInt8) : Mark :=
  if c.escaped then .literal byte
  else if c.escapes byte ∨ c.quote = some byte then .quoting
  else if c.quote.isSome then .literal byte
  else if byte = 39 ∨ byte = 34 then .quoting
  else if isAsciiWhitespace byte then .space
  else if isOperator byte then .operator
  else .literal byte

def next (c : Context) (byte : UInt8) : Context :=
  if c.escaped then ⟨c.quote,false⟩
  else if c.escapes byte then ⟨c.quote,true⟩
  else if c.quote = some byte then outside
  else if c.quote = none ∧ (byte = 39 ∨ byte = 34) then ⟨some byte,false⟩
  else c

/-- The marks of an input read from a context. -/
def marks (c : Context) : List UInt8 → List Mark
  | [] => []
  | byte :: rest => c.mark byte :: (c.next byte).marks rest

/-- The context behind an input. -/
def final (c : Context) (bytes : List UInt8) : Context := bytes.foldl next c

end Context

namespace Mark

def byte? : Mark → Option UInt8
  | .literal byte => some byte
  | _ => none

/-- The bytes of a word: quotes and escaping backslashes are removed. -/
def value (word : List Mark) : List UInt8 := word.filterMap byte?

/-- The maximal stretches without unquoted whitespace. A stretch of quotes alone is kept
as an empty word. -/
def words (marks : List Mark) : List (List UInt8) :=
  ((marks.splitOnP (· = .space)).filter (· ≠ [])).map value

end Mark

/-- The words of an input. -/
def wordsOf (input : List UInt8) : List (List UInt8) := Mark.words (Context.outside.marks input)

end CrabOs.Crabsh
