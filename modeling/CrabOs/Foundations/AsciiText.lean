import Mathlib.Tactic

/-! Strings whose UTF-8 encoding has one byte per character. -/
namespace AsciiText

/-- The UTF-8 bytes of a string. -/
def bytes (s : String) : List UInt8 := s.toByteArray.data.toList

/-- Decode bytes as UTF-8, if they are valid. -/
def fromUtf8 (bs : List UInt8) : Option String := String.fromUTF8? ⟨bs.toArray⟩

/-- The string with one character for each byte. -/
def ofBytes (bs : List UInt8) : String := String.ofList (bs.map Char.ofUInt8)

/-- `u8::is_ascii_whitespace`: space, tab, newline, form feed, carriage return. -/
def isAsciiWhitespace (byte : UInt8) : Bool :=
  byte = 32 || byte = 9 || byte = 10 || byte = 12 || byte = 13

/-- A property of every element of a list that is there to be computed. -/
lemma forall_mem_of_all {α : Type*} {P : α → Prop} [DecidablePred P] {l : List α}
    (h : l.all (fun a => decide (P a)) = true) : ∀ a ∈ l, P a := by
  simpa using h

@[simp] theorem toList_ofBytes (bs : List UInt8) : (ofBytes bs).toList = bs.map Char.ofUInt8 := by
  simp [ofBytes]

@[simp] lemma toUInt8_ofUInt8 (b : UInt8) : (Char.ofUInt8 b).toUInt8 = b := by
  change b.toUInt32.toUInt8 = b
  exact UInt8.toUInt8_toUInt32 b

@[simp] lemma toNat_ofUInt8 (b : UInt8) : (Char.ofUInt8 b).toNat = b.toNat := by
  change b.toUInt32.toNat = b.toNat
  exact UInt8.toNat_toUInt32 b

theorem utf8ByteSize_eq (s : String) : s.utf8ByteSize = (bytes s).length := rfl

lemma bytes_eq (s : String) : bytes s = s.toList.flatMap String.utf8EncodeChar := by
  have hs : s.toByteArray = s.toList.utf8Encode := by
    rw [← String.toByteArray_ofList,String.ofList_toList]
  unfold bytes
  rw [hs]
  simp [List.utf8Encode]

/-- Each ASCII character is its own single byte. -/
theorem bytes_ascii {s : String} (h : ∀ c ∈ s.toList, c.toNat < 128) :
    bytes s = s.toList.map Char.toUInt8 := by
  have key : ∀ l : List Char, (∀ c ∈ l, c.toNat < 128) →
      l.flatMap String.utf8EncodeChar = l.map Char.toUInt8 := by
    intro l
    induction l with
    | nil => intro _; rfl
    | cons c l ih =>
      intro hl
      have hc : c.val ≤ 127 := UInt32.le_iff_toNat_le.mpr (Nat.le_of_lt_succ (hl c (by simp)))
      have he := String.utf8EncodeChar_eq_singleton (Char.utf8Size_eq_one_iff.mpr hc)
      have ht := ih (fun d hd => hl d (by simp [hd]))
      simp [he,ht]
  rw [bytes_eq,key s.toList h]

/-- The bytes of any other character are not ASCII; the first of them shows it. -/
lemma exists_byte_large {c : Char} (h : ¬c.toNat < 128) :
    ∃ b ∈ String.utf8EncodeChar c, ¬b < 128 := by
  have hv : ¬c.val.toNat ≤ 127 := fun hv => h (Nat.lt_succ_of_le hv)
  fun_cases String.utf8EncodeChar c <;>
    first
    | contradiction
    | refine ⟨_,List.mem_cons_self,?_⟩
      rw [UInt8.lt_iff_toNat_lt,UInt8.toNat_ofNat']
      change ¬_ < 128
      omega

/-- A test that only ASCII bytes pass is a test of the characters. -/
theorem all_bytes {p : UInt8 → Bool} (hp : ∀ b, p b → b < 128) (s : String) :
    (bytes s).all p ↔ ∀ c ∈ s.toList, c.toNat < 128 ∧ p c.toUInt8 := by
  rw [List.all_eq_true]
  constructor
  · intro h c hc
    have he : ∀ b ∈ String.utf8EncodeChar c, p b := by
      intro b hb
      apply h
      rw [bytes_eq]
      exact List.mem_flatMap.mpr ⟨c,hc,hb⟩
    have hc128 : c.toNat < 128 := by
      by_contra hn
      obtain ⟨b,hb,hl⟩ := exists_byte_large hn
      exact hl (hp b (he b hb))
    have hv : c.val ≤ 127 := UInt32.le_iff_toNat_le.mpr (Nat.le_of_lt_succ hc128)
    rw [String.utf8EncodeChar_eq_singleton (Char.utf8Size_eq_one_iff.mpr hv)] at he
    exact ⟨hc128,he _ (List.mem_singleton.mpr rfl)⟩
  · intro h b hb
    rw [bytes_ascii fun c hc => (h c hc).1] at hb
    obtain ⟨c,hc,rfl⟩ := List.mem_map.mp hb
    exact (h c hc).2

theorem bytes_ofBytes {bs : List UInt8} (h : ∀ b ∈ bs, b < 128) : bytes (ofBytes bs) = bs := by
  rw [bytes_ascii]
  · simp [Function.comp_def]
  · intro c hc
    rw [toList_ofBytes] at hc
    obtain ⟨b,hb,rfl⟩ := List.mem_map.mp hc
    simpa using UInt8.lt_iff_toNat_lt.mp (h b hb)

lemma bytes_lt {s : String} (h : ∀ c ∈ s.toList, c.toNat < 128) : ∀ b ∈ bytes s, b < 128 := by
  intro b hb
  rw [bytes_ascii h] at hb
  obtain ⟨c,hc,rfl⟩ := List.mem_map.mp hb
  rw [UInt8.lt_iff_toNat_lt]
  exact (Nat.mod_le _ _).trans_lt (h c hc)

theorem ofBytes_bytes {s : String} (h : ∀ c ∈ s.toList, c.toNat < 128) : ofBytes (bytes s) = s := by
  have hc : ∀ c ∈ s.toList, (Char.ofUInt8 ∘ Char.toUInt8) c = id c := by
    intro c hm
    rw [← Char.toNat_inj]
    change (Char.ofUInt8 c.toUInt8).toNat = c.toNat
    rw [toNat_ofUInt8]
    exact Nat.mod_eq_of_lt ((h c hm).trans (by decide))
  unfold ofBytes
  rw [bytes_ascii h,List.map_map,List.map_congr_left hc,List.map_id,String.ofList_toList]

/-- ASCII bytes always decode, to one character each. -/
theorem fromUtf8_ascii {bs : List UInt8} (h : ∀ b ∈ bs, b < 128) :
    fromUtf8 bs = some (ofBytes bs) := by
  have he : (⟨bs.toArray⟩ : ByteArray) = (ofBytes bs).toByteArray := by
    apply ByteArray.ext
    apply Array.toList_inj.mp
    exact (bytes_ofBytes h).symm
  unfold fromUtf8 String.fromUTF8?
  rw [dif_pos (he ▸ (ofBytes bs).isValidUTF8)]
  congr 1
  exact String.toByteArray_inj.mp he

lemma bytes_append (s t : String) : bytes (s++t) = bytes s++bytes t := by
  rw [bytes_eq,bytes_eq s,bytes_eq t,String.toList_append,List.flatMap_append]

/-- Bytes that decode are the encoding of what they decode to. -/
lemma bytes_of_fromUtf8 {bs : List UInt8} {s : String} (h : fromUtf8 bs = some s) :
    bytes s = bs := by
  unfold fromUtf8 String.fromUTF8? at h
  split_ifs at h
  cases h
  rfl

lemma ascii_of_bytes {s : String} (h : ∀ b ∈ bytes s, b < 128) : ∀ c ∈ s.toList, c.toNat < 128 := by
  have hall : (bytes s).all (fun b => decide (b < 128)) := List.all_eq_true.mpr (by simpa using h)
  intro c hc
  exact ((all_bytes (fun b hb => of_decide_eq_true hb) s).mp hall c hc).1

lemma toList_eq {s : String} (h : ∀ b ∈ bytes s, b < 128) :
    s.toList = (bytes s).map Char.ofUInt8 := by
  rw [← toList_ofBytes,ofBytes_bytes (ascii_of_bytes h)]

/-- An ASCII string starts with the same strings, read as characters or as bytes. -/
theorem toList_prefix_iff {s t : String} (h : ∀ b ∈ bytes t, b < 128) :
    s.toList <+: t.toList ↔ bytes s <+: bytes t := by
  constructor
  · rintro ⟨rest,hr⟩
    rw [bytes_eq s,bytes_eq t,← hr,List.flatMap_append]
    exact List.prefix_append _ _
  · intro hp
    rw [toList_eq fun b hb => h b (hp.subset hb),toList_eq h]
    exact hp.map _

end AsciiText
