import CrabOs.Net.UrlGrammar

/-! The request that `fetch` sends for a URL, and how a server reads it. -/
namespace CrabOs.Net
open AsciiText (bytes)

/-- The bytes `fetch` concatenates. -/
def request (url : Url) : List UInt8 :=
  bytes "GET "++bytes url.path++bytes " HTTP/1.0\r\nHost: "++bytes url.host++
    bytes "\r\nConnection: close\r\nAccept: text/html,text/plain\r\n\r\n"

section Lines

/-- The parts between the line ends of a byte string. -/
def splitCrlf : List UInt8 → List (List UInt8)
  | [] => [[]]
  | 13 :: 10 :: rest => [] :: splitCrlf rest
  | byte :: rest => match splitCrlf rest with
    | [] => [[byte]]
    | line :: lines => (byte :: line) :: lines

lemma splitCrlf_cons {byte : UInt8} {rest line : List UInt8} {lines : List (List UInt8)}
    (hb : byte ≠ 13) (h : splitCrlf rest = line :: lines) :
    splitCrlf (byte :: rest) = (byte :: line) :: lines := by
  rw [splitCrlf,h]
  rintro tail rfl
  contradiction

lemma splitCrlf_line {line : List UInt8} (h : 13 ∉ line) : splitCrlf line = [line] := by
  induction line with
  | nil => rfl
  | cons byte line ih =>
    rw [List.mem_cons,not_or] at h
    exact splitCrlf_cons (Ne.symm h.1) (ih h.2)

lemma splitCrlf_append {line : List UInt8} (h : 13 ∉ line) (rest : List UInt8) :
    splitCrlf (line++13 :: 10 :: rest) = line :: splitCrlf rest := by
  induction line with
  | nil => rfl
  | cons byte line ih =>
    rw [List.mem_cons,not_or] at h
    exact splitCrlf_cons (Ne.symm h.1) (ih h.2)

/-- Lines without a carriage return are read back as they were joined. -/
lemma splitCrlf_intercalate {lines : List (List UInt8)} (hn : lines ≠ [])
    (h : ∀ line ∈ lines, 13 ∉ line) : splitCrlf ([13,10].intercalate lines) = lines := by
  induction lines with
  | nil => contradiction
  | cons line lines ih =>
    have hl := h line List.mem_cons_self
    cases lines with
    | nil =>
      rw [List.intercalate_singleton]
      exact splitCrlf_line hl
    | cons next lines =>
      have ht := ih (List.cons_ne_nil _ _) fun l hm => h l (List.mem_cons_of_mem _ hm)
      rw [List.intercalate_cons_cons,List.append_assoc,List.cons_append,List.cons_append,
        List.nil_append,splitCrlf_append hl,ht]

end Lines

section Framing

def requestLine (url : Url) : List UInt8 := bytes "GET "++bytes url.path++bytes " HTTP/1.0"
def hostLine (url : Url) : List UInt8 := bytes "Host: "++bytes url.host

/-- The lines of a request; the two empty ones end the head and say that nothing follows it. -/
def requestLines (url : Url) : List (List UInt8) :=
  [requestLine url,hostLine url,bytes "Connection: close",bytes "Accept: text/html,text/plain",
    [],[]]

lemma request_eq (url : Url) : request url = [13,10].intercalate (requestLines url) := by
  have hh : bytes " HTTP/1.0\r\nHost: " = bytes " HTTP/1.0"++[13,10]++bytes "Host: " := by decide
  have ht : bytes "\r\nConnection: close\r\nAccept: text/html,text/plain\r\n\r\n" =
      [13,10]++bytes "Connection: close"++[13,10]++bytes "Accept: text/html,text/plain"++
        [13,10,13,10] := by decide
  unfold request requestLines requestLine hostLine
  rw [hh,ht]
  simp [List.intercalate_cons_cons,List.intercalate_singleton]

namespace Url

lemma parse_bytes {input : String} {url : Url} (h : parse input = .ok url) :
    (∀ b ∈ bytes url.host, isHostByte b) ∧ (∀ b ∈ bytes url.path, isPathByte b) ∧
      url.path.toList.head? = some '/' := by
  obtain ⟨host,part,path,_,hh,_,hpath,hhost,hp⟩ := (parse_iff input url).mp h
  have hslash : path = [] ∨ ∃ tail, path = '/' :: tail :=
    hpath.imp_right fun ⟨tail,ht,_⟩ => ⟨tail,ht⟩
  rw [← ofList_pathOrRoot] at hp
  refine ⟨?_,?_,?_⟩
  · rw [hhost]
    exact List.all_eq_true.mp ((all_hostBytes host).mpr hh.2)
  · rw [hp]
    exact List.all_eq_true.mp ((all_pathBytes _).mpr ((isPath_iff hslash).mpr hpath))
  · rw [hp,String.toList_ofList]
    rcases hslash with rfl | ⟨tail,rfl⟩ <;> rfl

lemma isHostByte_plain {b : UInt8} (h : isHostByte b) : b ≠ 13 ∧ b ≠ 10 := by
  constructor <;> (rintro rfl; contradiction)

lemma isPathByte_plain {b : UInt8} (h : isPathByte b) : b ≠ 13 ∧ b ≠ 10 ∧ b ≠ 32 := by
  refine ⟨?_,?_,?_⟩ <;> (rintro rfl; contradiction)

end Url

/-- The parsed parts bring no line end into a line of the request. -/
lemma requestLines_plain {input : String} {url : Url} (h : Url.parse input = .ok url) :
    ∀ line ∈ requestLines url, ∀ b ∈ line, b ≠ 13 ∧ b ≠ 10 := by
  obtain ⟨hhost,hpath,_⟩ := Url.parse_bytes h
  have hline : ∀ b ∈ requestLine url, b ≠ 13 ∧ b ≠ 10 := by
    unfold requestLine
    rw [List.forall_mem_append,List.forall_mem_append]
    refine ⟨⟨AsciiText.forall_mem_of_all (by decide),fun b hb => ?_⟩,
      AsciiText.forall_mem_of_all (by decide)⟩
    have hp := Url.isPathByte_plain (hpath b hb)
    exact ⟨hp.1,hp.2.1⟩
  have hhostLine : ∀ b ∈ hostLine url, b ≠ 13 ∧ b ≠ 10 := by
    unfold hostLine
    rw [List.forall_mem_append]
    exact ⟨AsciiText.forall_mem_of_all (by decide),fun b hb => Url.isHostByte_plain (hhost b hb)⟩
  have hrest : ∀ line ∈ [bytes "Connection: close",bytes "Accept: text/html,text/plain",[],[]],
      ∀ b ∈ line, b ≠ 13 ∧ b ≠ 10 := by
    simp only [List.forall_mem_cons]
    refine ⟨AsciiText.forall_mem_of_all (by decide),AsciiText.forall_mem_of_all (by decide),?_⟩
    simp
  exact List.forall_mem_cons.mpr ⟨hline,List.forall_mem_cons.mpr ⟨hhostLine,hrest⟩⟩

lemma requestLine_tokens {input : String} {url : Url} (h : Url.parse input = .ok url) :
    (requestLine url).splitOn 32 = [bytes "GET",bytes url.path,bytes "HTTP/1.0"] := by
  have hp : 32 ∉ bytes url.path := fun hm =>
    (Url.isPathByte_plain ((Url.parse_bytes h).2.1 32 hm)).2.2 rfl
  have he : requestLine url = [32].intercalate [bytes "GET",bytes url.path,bytes "HTTP/1.0"] := by
    have hg : bytes "GET " = bytes "GET"++[32] := by decide
    have hv : bytes " HTTP/1.0" = [32]++bytes "HTTP/1.0" := by decide
    unfold requestLine
    rw [hg,hv]
    simp [List.intercalate_cons_cons,List.intercalate_singleton]
  rw [he,List.splitOn_intercalate]
  · intro token ht
    simp only [List.mem_cons,List.not_mem_nil,or_false] at ht
    rcases ht with rfl | rfl | rfl
    · decide
    · exact hp
    · decide
  · exact List.cons_ne_nil _ _

end Framing

/-- No accepted URL adds to the request: it has its four lines, a request line of three tokens and
the host it was given. -/
theorem request_framing {input : String} {url : Url} (h : Url.parse input = .ok url) :
    splitCrlf (request url) = [requestLine url,bytes "Host: "++bytes url.host,
        bytes "Connection: close",bytes "Accept: text/html,text/plain",[],[]] ∧
      (∀ line ∈ splitCrlf (request url), 13 ∉ line ∧ 10 ∉ line) ∧
      (requestLine url).splitOn 32 = [bytes "GET",bytes url.path,bytes "HTTP/1.0"] ∧
      url.path.toList.head? = some '/' := by
  have hl := requestLines_plain h
  have hs : splitCrlf (request url) = requestLines url := by
    rw [request_eq]
    exact splitCrlf_intercalate (List.cons_ne_nil _ _) fun line hm h13 => (hl line hm 13 h13).1 rfl
  refine ⟨hs,?_,requestLine_tokens h,(Url.parse_bytes h).2.2⟩
  rw [hs]
  intro line hm
  exact ⟨fun h13 => (hl line hm 13 h13).1 rfl,fun h10 => (hl line hm 10 h10).2 rfl⟩

theorem request_framing_example :
    splitCrlf (request ⟨"a.b",8080,"/x?y"⟩) = [requestLine ⟨"a.b",8080,"/x?y"⟩,
      bytes "Host: "++bytes "a.b",bytes "Connection: close",bytes "Accept: text/html,text/plain",
      [],[]] := by
  have hp : Url.IsPort ['8','0','8','0'] 8080 := by
    exact ⟨by decide,AsciiText.forall_mem_of_all (by decide),by decide,by decide,by decide⟩
  have h : Url.parse "http://a.b:8080/x?y" = .ok ⟨"a.b",8080,"/x?y"⟩ := by
    rw [Url.parse_iff]
    exact ⟨['a','.','b'],[':','8','0','8','0'],['/','x','?','y'],by decide,
      ⟨by decide,AsciiText.forall_mem_of_all (by decide)⟩,.inl (.inr ⟨_,rfl,hp⟩),
      .inr ⟨_,rfl,AsciiText.forall_mem_of_all (by decide)⟩,rfl,rfl⟩
  exact (request_framing h).1

end CrabOs.Net
