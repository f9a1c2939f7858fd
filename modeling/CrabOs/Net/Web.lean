import Mathlib.Data.List.DropRight
import CrabOs.Vga.Writer

/-! Plain HTTP pages: the URL accepted by `browse`, and the text shown for a response. -/
namespace CrabOs.Net
open CrabOs.Vga
open AsciiText (isAsciiWhitespace)

structure Url where
  host : String
  port : ℕ
  path : String

def isAsciiDigit (byte : UInt8) : Bool := 48 ≤ byte && byte ≤ 57

def isAsciiAlphanumeric (byte : UInt8) : Bool :=
  isAsciiDigit byte || (65 ≤ byte && byte ≤ 90) || (97 ≤ byte && byte ≤ 122)

/-- `str::rsplit_once`: the parts around the last separator. -/
def rsplitOnce (separator : Char) (text : List Char) : Option (List Char × List Char) :=
  if separator ∈ text then
    some ((text.rdropWhile (· ≠ separator)).dropLast,text.rtakeWhile (· ≠ separator))
  else none

/-- `str::parse` at `u16`: decimal digits behind an optional plus sign. -/
def parseU16 (text : List Char) : Option ℕ :=
  let digits := match text with
    | '+' :: rest => rest
    | other => other
  if digits ≠ [] ∧ digits.all (fun c => '0' ≤ c && c ≤ '9') then
    let value := digits.foldl (fun n c => 10*n+(c.toNat - '0'.toNat)) 0
    if value < 65536 then some value else none
  else none

namespace Url

/-- The authority, and the path that starts at the first slash. -/
def splitPath (rest : List Char) : List Char × List Char :=
  if '/' ∈ rest then (rest.takeWhile (· ≠ '/'),rest.dropWhile (· ≠ '/')) else (rest,['/'])

def parsePort (authority : List Char) : Except String (List Char × ℕ) :=
  match rsplitOnce ':' authority with
  | some (host,port) => match parseU16 port with
    | some port => .ok (host,port)
    | none => .error "invalid HTTP port"
  | none => .ok (authority,80)

def isHostByte (byte : UInt8) : Bool := isAsciiAlphanumeric byte || byte = 46 || byte = 45

def isPathByte (byte : UInt8) : Bool := isAsciiGraphic byte && byte ≠ 35

def parse (input : String) : Except String Url :=
  match "http://".toList.isPrefixOf? input.toList with
  | none => .error "use an http:// URL"
  | some rest =>
    let (authority,path) := splitPath rest
    match parsePort authority with
    | .error error => .error error
    | .ok (host,port) =>
      let url : Url := ⟨String.ofList host,port,String.ofList path⟩
      if host = [] ∨ ¬(AsciiText.bytes url.host).all isHostByte ∨ port = 0 ∨
          ¬(AsciiText.bytes url.path).all isPathByte then .error "invalid HTTP URL"
      else .ok url

end Url

/-- The index of the first occurrence of a pattern. -/
def findPattern (pattern : List UInt8) : List UInt8 → Option ℕ
  | [] => if pattern = [] then some 0 else none
  | byte :: rest =>
    if pattern.isPrefixOf (byte :: rest) then some 0
    else (findPattern pattern rest).map (·+1)

def toAsciiLowercase (byte : UInt8) : UInt8 := if 65 ≤ byte && byte ≤ 90 then byte+32 else byte

def eqIgnoreAsciiCase (a b : List UInt8) : Bool :=
  a.map toAsciiLowercase = b.map toAsciiLowercase

def isAsciiControl (byte : UInt8) : Bool := byte < 32 || byte = 127

def matchesBlock (name : List UInt8) : Bool :=
  ["br","p","/p","div","/div","li","/li","h1","/h1","h2","/h2","title","/title"].any
    fun candidate => eqIgnoreAsciiCase name (AsciiText.bytes candidate)

def entities : List (List UInt8 × Char) :=
  [(AsciiText.bytes "&amp;",'&'),(AsciiText.bytes "&lt;",'<'),(AsciiText.bytes "&gt;",'>'),
    (AsciiText.bytes "&quot;",'"'),(AsciiText.bytes "&nbsp;",' ')]

/-- The variables of the loop of `render_html`; `rest` is `body[index..]`. -/
structure HtmlState where
  rest : List UInt8
  hidden : Bool
  output : List Char

namespace HtmlState

def endsWith (s : HtmlState) (c : Char) : Bool := s.output.getLast? = some c

/-- The effect of a tag named `name`. -/
def tag (s : HtmlState) (name : List UInt8) : HtmlState :=
  if eqIgnoreAsciiCase name (AsciiText.bytes "script") ||
      eqIgnoreAsciiCase name (AsciiText.bytes "style") then { s with hidden := true }
  else if eqIgnoreAsciiCase name (AsciiText.bytes "/script") ||
      eqIgnoreAsciiCase name (AsciiText.bytes "/style") then { s with hidden := false }
  else if !s.hidden && matchesBlock name && !s.endsWith '\n' then
    { s with output := s.output++['\n'] }
  else s

/-- A byte that starts neither a tag nor an entity. -/
def text (s : HtmlState) (byte : UInt8) : HtmlState :=
  if isAsciiWhitespace byte then
    if !s.endsWith ' ' && !s.endsWith '\n' then { s with output := s.output++[' '] } else s
  else if isAsciiGraphic byte then { s with output := s.output++[Char.ofUInt8 byte] }
  else s

/-- One iteration of the loop on a body that is not at its end. -/
def step (s : HtmlState) (byte : UInt8) (tail : List UInt8) : HtmlState :=
  match if byte = 60 then s.rest.idxOf? 62 else none with
  | some stop =>
    let tag := (s.rest.take stop).drop 1
    { s.tag (tag.takeWhile (fun b => !isAsciiWhitespace b)) with rest := s.rest.drop (stop+1) }
  | none =>
    if s.hidden then { s with rest := tail }
    else match entities.find? (fun entity => entity.1.isPrefixOf s.rest) with
      | some (entity,character) =>
        { s with output := s.output++[character], rest := s.rest.drop entity.length }
      | none => { s.text byte with rest := tail }

/-- Every iteration drops a byte, so `fuel` is the length of the body. -/
def run : ℕ → HtmlState → HtmlState
  | 0,s => s
  | fuel+1,s => match s.rest with
    | [] => s
    | byte :: tail => run fuel (s.step byte tail)

end HtmlState

def renderHtml (body : List UInt8) (output : List Char) : List Char :=
  (HtmlState.run body.length ⟨body,false,output⟩).output

def statusText (status : List UInt8) : List Char :=
  (status.filter (fun byte => isAsciiGraphic byte || byte = 32)).map Char.ofUInt8

def plainText (body : List UInt8) : List Char :=
  (body.filter (fun byte => byte = 10 || byte = 9 || (byte < 128 && !isAsciiControl byte))).map
    Char.ofUInt8

def isHtml (header : List UInt8) : Bool :=
  (header.splitOnP (· = 10)).any fun line =>
    (AsciiText.bytes "content-type: text/html").isPrefixOf (line.map toAsciiLowercase)

def render (response : List UInt8) : Except String String :=
  match findPattern [13,10,13,10] response with
  | none => .error "invalid HTTP response"
  | some headerEnd =>
    let header := response.take headerEnd
    let body := response.drop (headerEnd+4)
    let status := header.take ((findPattern [13,10] header).getD header.length)
    if ¬(AsciiText.bytes "HTTP/").isPrefixOf status then .error "invalid HTTP status"
    else
      let output := statusText status++['\n']
      .ok (String.ofList
        (if isHtml header then renderHtml body output else output++plainText body))

end CrabOs.Net
