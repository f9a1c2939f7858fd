import Mathlib.Data.Nat.Digits.Defs
import CrabOs.Foundations.Separators
import CrabOs.Net.Web

/-! The inputs that `Url::parse` accepts, as a grammar over their characters. -/
namespace CrabOs.Net
open CrabOs.Vga

section Splitting

lemma rsplitOnce_append {separator : Char} {before after : List Char} (h : separator ∉ after) :
    rsplitOnce separator (before++separator :: after) = some (before,after) := by
  have hr : (before++separator :: after).reverse =
      after.reverse++separator :: before.reverse := by simp
  have hn : separator ∉ after.reverse := by rwa [List.mem_reverse]
  unfold rsplitOnce List.rdropWhile List.rtakeWhile
  rw [if_pos (by simp),hr,Separators.takeWhile_ne_append hn,Separators.dropWhile_ne_append hn]
  simp

/-- The last separator is the one with none behind it. -/
lemma rsplitOnce_eq_some {separator : Char} {text before after : List Char} :
    rsplitOnce separator text = some (before,after) ↔
      text = before++separator :: after ∧ separator ∉ after := by
  constructor
  · intro h
    have hm : separator ∈ text := by
      by_contra hn
      simp [rsplitOnce,hn] at h
    obtain ⟨a,b,ht,hn⟩ := List.eq_append_cons_of_mem (List.mem_reverse.mpr hm)
    have ht' : text = b.reverse++separator :: a.reverse := by
      rw [← List.reverse_reverse text,ht]
      simp
    have ha : separator ∉ a.reverse := by rwa [List.mem_reverse]
    rw [ht',rsplitOnce_append ha] at h
    cases h
    exact ⟨ht',ha⟩
  · rintro ⟨rfl,h⟩
    exact rsplitOnce_append h

lemma rsplitOnce_eq_none {separator : Char} {text : List Char} :
    rsplitOnce separator text = none ↔ separator ∉ text := by
  unfold rsplitOnce
  split
  · simpa
  · simpa

end Splitting

namespace Url

/-- ASCII letters, digits, dots and hyphens. -/
def IsHostChar (c : Char) : Prop :=
  ('a' ≤ c ∧ c ≤ 'z') ∨ ('A' ≤ c ∧ c ≤ 'Z') ∨ ('0' ≤ c ∧ c ≤ '9') ∨ c = '.' ∨ c = '-'

/-- Graphic ASCII characters other than the mark of a fragment. -/
def IsPathChar (c : Char) : Prop := '!' ≤ c ∧ c ≤ '~' ∧ c ≠ '#'

instance : DecidablePred IsHostChar := fun _ => inferInstanceAs (Decidable (_ ∨ _))
instance : DecidablePred IsPathChar := fun _ => inferInstanceAs (Decidable (_ ∧ _))

def IsHost (host : List Char) : Prop := host ≠ [] ∧ ∀ c ∈ host, IsHostChar c

/-- A path is empty or starts with a slash. -/
def IsPath (path : List Char) : Prop :=
  path = [] ∨ ∃ tail, path = '/' :: tail ∧ ∀ c ∈ tail, IsPathChar c

/-- The number a decimal numeral denotes. -/
def decimal (digits : List Char) : ℕ :=
  Nat.ofDigits 10 (digits.map (fun c => c.toNat - '0'.toNat)).reverse

/-- One or more digits for a number that is a port. -/
def IsPort (digits : List Char) (port : ℕ) : Prop :=
  digits ≠ [] ∧ (∀ c ∈ digits, c.isDigit) ∧ decimal digits = port ∧ 1 ≤ port ∧ port ≤ 65535

def IsPortPart (part : List Char) (port : ℕ) : Prop :=
  (part = [] ∧ port = 80) ∨ ∃ digits, part = ':' :: digits ∧ IsPort digits port

/-- What the parser takes for a port part: the numeral may carry a plus sign. -/
def IsSignedPortPart (part : List Char) (port : ℕ) : Prop :=
  ∃ digits, part = ':' :: '+' :: digits ∧ IsPort digits port

/-- `input` is a URL of the grammar whose port part is in `Part`, and `url` is what it says. -/
def Reads (Part : List Char → ℕ → Prop) (input : String) (url : Url) : Prop :=
  ∃ host part path, input.toList = "http://".toList++host++part++path ∧
    IsHost host ∧ Part part url.port ∧ IsPath path ∧ url.host = String.ofList host ∧
    url.path = if path = [] then "/" else String.ofList path

lemma Reads.mono {P Q : List Char → ℕ → Prop} {input : String} {url : Url}
    (h : Reads P input url) (hPQ : ∀ part port, P part port → Q part port) : Reads Q input url := by
  obtain ⟨host,part,path,hi,hh,hpart,hrest⟩ := h
  exact ⟨host,part,path,hi,hh,hPQ part url.port hpart,hrest⟩

/-- The grammar of plain HTTP URLs, and what each of them names. -/
def Denotes : String → Url → Prop := Reads IsPortPart

/-- The input is a URL but for a plus sign before the digits of its port. -/
def SignedPort (input : String) : Prop := ∃ url, Reads IsSignedPortPart input url

section Characters

lemma isAscii_of_le {c d : Char} (h : c ≤ d) (hd : d.toNat < 128) : c.toNat < 128 :=
  Nat.lt_of_le_of_lt (UInt32.le_iff_toNat_le.mp h) hd

lemma isAscii_of_isHostChar {c : Char} (h : IsHostChar c) : c.toNat < 128 := by
  rcases h with h | h | h | rfl | rfl
  · exact isAscii_of_le h.2 (by decide)
  · exact isAscii_of_le h.2 (by decide)
  · exact isAscii_of_le h.2 (by decide)
  · decide
  · decide

lemma isAscii_of_isPathChar {c : Char} (h : IsPathChar c) : c.toNat < 128 :=
  isAscii_of_le h.2.1 (by decide)

lemma isHostByte_ascii (b : UInt8) (h : isHostByte b) : b < 128 := by
  simp only [isHostByte,isAsciiAlphanumeric,isAsciiDigit,Bool.or_eq_true,Bool.and_eq_true,
    decide_eq_true_eq,UInt8.le_iff_toNat_le,UInt8.lt_iff_toNat_lt,← UInt8.toNat_inj] at h ⊢
  simp at h ⊢
  omega

lemma isPathByte_ascii (b : UInt8) (h : isPathByte b) : b < 128 := by
  simp only [isPathByte,isAsciiGraphic,Bool.and_eq_true,decide_eq_true_eq,
    UInt8.le_iff_toNat_le,UInt8.lt_iff_toNat_lt] at h ⊢
  simp at h ⊢
  omega

/-- A test of the bytes that agrees with a class of ASCII characters on those tests the text for
the class. -/
lemma all_bytes_iff {p : UInt8 → Bool} {P : Char → Prop} (hp : ∀ b, p b → b < 128)
    (hP : ∀ c, P c → c.toNat < 128)
    (hd : ∀ n < 128, p (Char.ofNat n).toUInt8 ↔ P (Char.ofNat n)) (text : List Char) :
    (AsciiText.bytes (String.ofList text)).all p ↔ ∀ c ∈ text, P c := by
  have hc : ∀ c : Char, c.toNat < 128 → (p c.toUInt8 ↔ P c) := by
    intro c hc
    have hn := hd c.toNat hc
    rwa [Char.ofNat_toNat] at hn
  rw [AsciiText.all_bytes hp,String.toList_ofList]
  apply forall₂_congr
  intro c _
  constructor
  · intro h
    exact (hc c h.1).mp h.2
  · intro h
    exact ⟨hP c h,(hc c (hP c h)).mpr h⟩

lemma all_hostBytes (host : List Char) :
    (AsciiText.bytes (String.ofList host)).all isHostByte ↔ ∀ c ∈ host, IsHostChar c :=
  all_bytes_iff isHostByte_ascii (fun _ => isAscii_of_isHostChar) (by decide) host

lemma all_pathBytes (path : List Char) :
    (AsciiText.bytes (String.ofList path)).all isPathByte ↔ ∀ c ∈ path, IsPathChar c :=
  all_bytes_iff isPathByte_ascii (fun _ => isAscii_of_isPathChar) (by decide) path

end Characters

section Numerals

lemma foldl_decimal (digits : List Char) :
    digits.foldl (fun n c => 10*n+(c.toNat - '0'.toNat)) 0 = decimal digits := by
  induction digits using List.reverseRecOn with
  | nil => rfl
  | append_singleton digits c ih =>
    rw [List.foldl_append,ih]
    simp only [decimal,List.map_append,List.map_singleton,List.reverse_append,
      List.reverse_singleton,List.singleton_append,List.foldl_cons,List.foldl_nil]
    rw [Nat.ofDigits_cons]
    exact Nat.add_comm _ _

lemma isDigit_iff (c : Char) : ('0' ≤ c && c ≤ '9') = c.isDigit := rfl

/-- The digits of `parseU16`, with its sign taken off. -/
def numeral : List Char → List Char
  | '+' :: rest => rest
  | other => other

lemma numeral_eq {text : List Char} (h : ∀ c ∈ text, c.isDigit) : numeral text = text := by
  unfold numeral
  split
  · have hp := h '+' List.mem_cons_self
    contradiction
  · rfl

lemma eq_or_plus_numeral (text : List Char) : text = numeral text ∨ text = '+' :: numeral text := by
  unfold numeral
  split
  · exact .inr rfl
  · exact .inl rfl

lemma parseU16_numeral {text : List Char} {n : ℕ} : parseU16 text = some n ↔
    numeral text ≠ [] ∧ (∀ c ∈ numeral text, c.isDigit) ∧ decimal (numeral text) = n ∧
      n ≤ 65535 := by
  change (if numeral text ≠ [] ∧ (numeral text).all (fun c => '0' ≤ c && c ≤ '9') then
    let value := (numeral text).foldl (fun n c => 10*n+(c.toNat - '0'.toNat)) 0
    if value < 65536 then some value else none else none) = some n ↔ _
  rw [foldl_decimal]
  simp only [isDigit_iff,List.all_eq_true]
  constructor
  · intro h
    split at h
    · next hd =>
      split at h
      · next hv =>
        cases h
        exact ⟨hd.1,hd.2,rfl,Nat.le_of_lt_succ hv⟩
      · contradiction
    · contradiction
  · rintro ⟨hn,hd,rfl,hv⟩
    rw [if_pos ⟨hn,hd⟩,if_pos (Nat.lt_succ_of_le hv)]

/-- The library's parser skips one plus sign. -/
lemma parseU16_eq_some {text : List Char} {n : ℕ} :
    parseU16 text = some n ↔ ∃ digits, (text = digits ∨ text = '+' :: digits) ∧
      digits ≠ [] ∧ (∀ c ∈ digits, c.isDigit) ∧ decimal digits = n ∧ n ≤ 65535 := by
  rw [parseU16_numeral]
  constructor
  · intro h
    exact ⟨numeral text,eq_or_plus_numeral text,h⟩
  · rintro ⟨digits,rfl | rfl,h⟩
    · rwa [numeral_eq h.2.1]
    · exact h

end Numerals

section Parsing

/-- The path a request asks for; an empty one is the root. -/
def pathOrRoot (path : List Char) : List Char := if path = [] then ['/'] else path

lemma splitPath_append {authority path : List Char} (ha : '/' ∉ authority)
    (hp : path = [] ∨ ∃ tail, path = '/' :: tail) :
    splitPath (authority++path) = (authority,pathOrRoot path) := by
  unfold splitPath
  rcases hp with rfl | ⟨tail,rfl⟩
  · rw [List.append_nil,if_neg ha]
    rfl
  · rw [if_pos (by simp),Separators.takeWhile_ne_append ha,Separators.dropWhile_ne_append ha]
    rfl

lemma splitPath_cases (rest : List Char) : ∃ authority path, rest = authority++path ∧
    '/' ∉ authority ∧ (path = [] ∨ ∃ tail, path = '/' :: tail) := by
  by_cases h : '/' ∈ rest
  · obtain ⟨authority,tail,hr,hn⟩ := List.eq_append_cons_of_mem h
    exact ⟨authority,'/' :: tail,hr,hn,.inr ⟨tail,rfl⟩⟩
  · exact ⟨rest,[],(List.append_nil rest).symm,h,.inl rfl⟩

lemma parsePort_eq_ok {authority host : List Char} {port : ℕ} :
    parsePort authority = .ok (host,port) ↔
      (':' ∉ authority ∧ authority = host ∧ port = 80) ∨
        ∃ text, authority = host++ ':' :: text ∧ ':' ∉ text ∧ parseU16 text = some port := by
  unfold parsePort
  cases hs : rsplitOnce ':' authority with
  | none =>
    have hn := rsplitOnce_eq_none.mp hs
    constructor
    · intro h
      cases h
      exact .inl ⟨hn,rfl,rfl⟩
    · rintro (⟨_,rfl,rfl⟩ | ⟨text,rfl,_⟩)
      · rfl
      · simp at hn
  | some parts =>
    obtain ⟨before,after⟩ := parts
    obtain ⟨rfl,hn⟩ := rsplitOnce_eq_some.mp hs
    constructor
    · intro h
      right
      cases hp : parseU16 after with
      | none => simp [hp] at h
      | some value =>
        simp only [hp] at h
        cases h
        exact ⟨after,rfl,hn,hp⟩
    · rintro (⟨hm,_⟩ | ⟨text,ht,hm,hp⟩)
      · simp at hm
      · rw [ht,rsplitOnce_append hm] at hs
        cases hs
        simp [hp]

/-- The port parts that `parsePort` takes behind a host. -/
def AcceptedPortPart (part : List Char) (port : ℕ) : Prop :=
  IsPortPart part port ∨ IsSignedPortPart part port

lemma not_mem_of_forall {P : Char → Prop} {text : List Char} {c : Char} (h : ∀ d ∈ text, P d)
    (hc : ¬P c) : c ∉ text := fun hm => hc (h c hm)

lemma parsePort_iff {authority host : List Char} {port : ℕ} (hh : ∀ c ∈ host, IsHostChar c) :
    (parsePort authority = .ok (host,port) ∧ port ≠ 0) ↔
      ∃ part, authority = host++part ∧ AcceptedPortPart part port := by
  rw [parsePort_eq_ok]
  constructor
  · rintro ⟨⟨_,rfl,rfl⟩ | ⟨text,rfl,_,hp⟩,h0⟩
    · exact ⟨[],(List.append_nil _).symm,.inl (.inl ⟨rfl,rfl⟩)⟩
    · obtain ⟨digits,ht,hn,hd,hv,hl⟩ := parseU16_eq_some.mp hp
      have hport : IsPort digits port := ⟨hn,hd,hv,Nat.one_le_iff_ne_zero.mpr h0,hl⟩
      refine ⟨_,rfl,?_⟩
      rcases ht with rfl | rfl
      · exact .inl (.inr ⟨_,rfl,hport⟩)
      · exact .inr ⟨_,rfl,hport⟩
  · rintro ⟨part,rfl,(⟨rfl,rfl⟩ | ⟨digits,rfl,hn,hd,hv,h1,hl⟩) | ⟨digits,rfl,hn,hd,hv,h1,hl⟩⟩
    · refine ⟨.inl ⟨?_,List.append_nil _,rfl⟩,by decide⟩
      rw [List.append_nil]
      exact not_mem_of_forall hh (by decide)
    · have hc := not_mem_of_forall hd (c := ':') (by decide)
      exact ⟨.inr ⟨digits,rfl,hc,parseU16_eq_some.mpr ⟨digits,.inl rfl,hn,hd,hv,hl⟩⟩,
        Nat.one_le_iff_ne_zero.mp h1⟩
    · have hc := not_mem_of_forall hd (c := ':') (by decide)
      refine ⟨.inr ⟨'+' :: digits,rfl,?_,parseU16_eq_some.mpr ⟨digits,.inr rfl,hn,hd,hv,hl⟩⟩,
        Nat.one_le_iff_ne_zero.mp h1⟩
      simpa using hc

lemma ofList_pathOrRoot (path : List Char) :
    String.ofList (pathOrRoot path) = if path = [] then "/" else String.ofList path := by
  unfold pathOrRoot
  split <;> rfl

lemma isPath_iff {path : List Char} (hp : path = [] ∨ ∃ tail, path = '/' :: tail) :
    (∀ c ∈ pathOrRoot path, IsPathChar c) ↔ IsPath path := by
  unfold pathOrRoot
  rcases hp with rfl | ⟨tail,rfl⟩
  · simp only [if_pos,List.mem_singleton,forall_eq]
    exact ⟨fun _ => .inl rfl,fun _ => by decide⟩
  · rw [if_neg (by simp),List.forall_mem_cons]
    constructor
    · intro h
      exact .inr ⟨tail,rfl,h.2⟩
    · rintro (h | ⟨_,h,ht⟩)
      · contradiction
      · cases h
        exact ⟨by decide,ht⟩

/-- The checks of `parse`, on an input that is already cut. -/
lemma parse_split {input : String} {authority path : List Char} {url : Url}
    (hi : input.toList = "http://".toList++(authority++path)) (ha : '/' ∉ authority)
    (hp : path = [] ∨ ∃ tail, path = '/' :: tail) :
    parse input = .ok url ↔ ∃ host port, parsePort authority = .ok (host,port) ∧ port ≠ 0 ∧
      IsHost host ∧ IsPath path ∧
        url = ⟨String.ofList host,port,String.ofList (pathOrRoot path)⟩ := by
  unfold parse
  rw [List.isPrefixOf?_eq_some_iff_append_eq.mpr hi.symm]
  dsimp only
  rw [splitPath_append ha hp]
  dsimp only
  cases hq : parsePort authority with
  | error e => simp
  | ok parts =>
    obtain ⟨host,port⟩ := parts
    constructor
    · intro h
      dsimp only at h
      split at h
      · contradiction
      · next hn =>
        push Not at hn
        cases h
        exact ⟨host,port,rfl,hn.2.2.1,⟨hn.1,(all_hostBytes host).mp hn.2.1⟩,
          (isPath_iff hp).mp ((all_pathBytes _).mp hn.2.2.2),rfl⟩
    · rintro ⟨host',port',hok,h0,hh,hpath',rfl⟩
      cases hok
      dsimp only
      rw [if_neg]
      push Not
      exact ⟨hh.1,(all_hostBytes host).mpr hh.2,h0,
        (all_pathBytes _).mpr ((isPath_iff hp).mpr hpath')⟩

lemma not_mem_part {part : List Char} {port : ℕ} (h : AcceptedPortPart part port) :
    '/' ∉ part := by
  rcases h with (⟨rfl,_⟩ | ⟨digits,rfl,hp⟩) | ⟨digits,rfl,hp⟩
  · exact List.not_mem_nil
  · have hd := not_mem_of_forall hp.2.1 (c := '/') (by decide)
    simpa using hd
  · have hd := not_mem_of_forall hp.2.1 (c := '/') (by decide)
    simpa using hd

/-- What `parse` accepts: the grammar, with a plus sign allowed before the port. -/
lemma parse_iff (input : String) (url : Url) :
    parse input = .ok url ↔ Reads AcceptedPortPart input url := by
  constructor
  · intro h
    cases hr : "http://".toList.isPrefixOf? input.toList with
    | none =>
      unfold parse at h
      rw [hr] at h
      contradiction
    | some rest =>
      obtain ⟨authority,path,rfl,ha,hp⟩ := splitPath_cases rest
      have hi := (List.isPrefixOf?_eq_some_iff_append_eq.mp hr).symm
      obtain ⟨host,port,hport,h0,hh,hpath,rfl⟩ := (parse_split hi ha hp).mp h
      obtain ⟨part,rfl,hpart⟩ := (parsePort_iff hh.2).mp ⟨hport,h0⟩
      refine ⟨host,part,path,?_,hh,hpart,hpath,rfl,ofList_pathOrRoot path⟩
      rw [hi]
      simp
  · rintro ⟨host,part,path,hi,hh,hpart,hpath,hhost,hp⟩
    obtain ⟨hport,h0⟩ := (parsePort_iff hh.2).mpr ⟨part,rfl,hpart⟩
    have ha : '/' ∉ host++part := by
      rw [List.mem_append,not_or]
      exact ⟨not_mem_of_forall hh.2 (by decide),not_mem_part hpart⟩
    have hi' : input.toList = "http://".toList++((host++part)++path) := by simpa using hi
    rw [parse_split hi' ha (hpath.imp_right fun ⟨t,ht,_⟩ => ⟨t,ht⟩)]
    refine ⟨host,url.port,hport,h0,hh,hpath,?_⟩
    rw [ofList_pathOrRoot,← hhost,← hp]

/-- The port part lies between the first colon and the first slash. -/
lemma part_eq {host part path : List Char} {port : ℕ} (hh : IsHost host)
    (hpart : AcceptedPortPart part port) (hpath : IsPath path) :
    part = ((host++part++path).takeWhile (· ≠ '/')).dropWhile (· ≠ ':') := by
  have ha : '/' ∉ host++part := by
    rw [List.mem_append,not_or]
    exact ⟨not_mem_of_forall hh.2 (by decide),not_mem_part hpart⟩
  have hc : ':' ∉ host := not_mem_of_forall hh.2 (by decide)
  have ht : (host++part++path).takeWhile (· ≠ '/') = host++part := by
    rcases hpath with rfl | ⟨tail,rfl,_⟩
    · rw [List.append_nil,Separators.takeWhile_ne ha]
    · exact Separators.takeWhile_ne_append ha
  rw [ht]
  rcases hpart with (⟨rfl,_⟩ | ⟨digits,rfl,_⟩) | ⟨digits,rfl,_⟩
  · rw [List.append_nil,Separators.dropWhile_ne hc]
  · rw [Separators.dropWhile_ne_append hc]
  · rw [Separators.dropWhile_ne_append hc]

/-- No input is read both with and without a sign. -/
lemma not_signed_of_denotes {input : String} {url : Url} (h : Denotes input url) :
    ¬SignedPort input := by
  obtain ⟨host,part,path,hi,hh,hpart,hpath,_⟩ := h
  rintro ⟨url',host',part',path',hi',hh',hpart',hpath',_⟩
  have hp := part_eq hh (.inl hpart) hpath
  have hp' := part_eq hh' (.inr hpart') hpath'
  have he : host++part++path = host'++part'++path' := by
    rw [hi] at hi'
    simpa using hi'
  rw [he,← hp'] at hp
  obtain ⟨digits',rfl,_⟩ := hpart'
  rcases hpart with ⟨rfl,_⟩ | ⟨digits,rfl,hd⟩
  · contradiction
  · cases hp
    have hplus := hd.2.1 '+' List.mem_cons_self
    contradiction

end Parsing

/-- `parse` accepts exactly its grammar on every input without a sign before the port. -/
theorem parse_denotes_iff (input : String) :
    (∀ url, parse input = .ok url ↔ Denotes input url) ↔ ¬SignedPort input := by
  constructor
  · rintro h ⟨url,hs⟩
    have hr : Reads AcceptedPortPart _ _ := hs.mono fun _ _ => .inr
    exact not_signed_of_denotes ((h url).mp ((parse_iff input url).mpr hr)) ⟨url,hs⟩
  · intro hn url
    rw [parse_iff]
    constructor
    · rintro ⟨host,part,path,hi,hh,hpart | hpart,hrest⟩
      · exact ⟨host,part,path,hi,hh,hpart,hrest⟩
      · exact absurd ⟨url,host,part,path,hi,hh,hpart,hrest⟩ hn
    · intro h
      exact h.mono fun _ _ => .inl

/-- The port `+80` is accepted. -/
theorem parse_signed_port :
    ¬∀ url, parse "http://a:+80/" = .ok url ↔ Denotes "http://a:+80/" url := by
  intro h
  have hport : IsPort ['8','0'] 80 := by
    exact ⟨by decide,AsciiText.forall_mem_of_all (by decide),by decide,by decide,by decide⟩
  have hs : Reads IsSignedPortPart "http://a:+80/" ⟨"a",80,"/"⟩ :=
    ⟨['a'],[':','+','8','0'],['/'],by decide,
      ⟨by decide,AsciiText.forall_mem_of_all (by decide)⟩,⟨_,rfl,hport⟩,
      .inr ⟨[],rfl,AsciiText.forall_mem_of_all (by decide)⟩,rfl,rfl⟩
  have hr : Reads AcceptedPortPart _ _ := hs.mono fun _ _ => .inr
  exact not_signed_of_denotes ((h _).mp ((parse_iff _ _).mpr hr)) ⟨_,hs⟩

end Url
end CrabOs.Net
