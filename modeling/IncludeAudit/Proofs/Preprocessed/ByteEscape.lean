import IncludeAudit.Glob.Expression
import IncludeAudit.Proofs.Preprocessed.Line

/-! # Names that are written byte by byte

A compiler writes a file name byte by byte: tabs and line feeds as letters, and what is no visible
character of ASCII as three octal digits.  Such a name ends at the quote behind it
(`quoted?_escapeBytes`), but a letter is read as itself and three digits as a character of their
own, so that each byte becomes one character (`unescape_escapeBytes`).  The name that is read is
therefore the one that was written only if it consists of ASCII without tabs and line feeds
(`map_readByte_eq_iff`), in a whole marker as well (`classify_byteMarker`).
-/
namespace IncludeAudit.Preprocessed

open Glob (bytes)
open Text (isBlank isDecimalDigit EndsVisibly)

namespace FileName

/-! ## Writing and reading bytes -/

/-- The octal digit of a number below eight. -/
def octalDigit (n : Nat) : Char := Char.ofNat (48 + n)

/-- How a compiler writes one byte of a name. -/
def escapeByte (b : UInt8) : List Char :=
  if b = 0x5C ∨ b = 0x22 then ['\\', Char.ofNat b.toNat]
  else if b = 9 then ['\\', 't']
  else if b = 10 then ['\\', 'n']
  else if 0x20 ≤ b ∧ b ≤ 0x7E then [Char.ofNat b.toNat]
  else ['\\', octalDigit (b.toNat / 64), octalDigit (b.toNat / 8 % 8), octalDigit (b.toNat % 8)]

/-- How a compiler writes a name. -/
def escapeBytes (name : List Char) : List Char := (bytes name).flatMap escapeByte

/-- What is read where a byte was written. -/
def readByte (b : UInt8) : Char := if b = 9 then 't' else if b = 10 then 'n' else Char.ofNat b.toNat

/-- A digit has the value for which it was written. -/
theorem octalValue?_octalDigit : ∀ {n : Nat}, n < 8 → Text.octalValue? (octalDigit n) = some n
  | 0, _ | 1, _ | 2, _ | 3, _ | 4, _ | 5, _ | 6, _ | 7, _ => rfl
  | _ + 8, h => absurd h (by omega)

theorem octalDigit_ne : ∀ {n : Nat}, n < 8 →
    octalDigit n ≠ '"' ∧ octalDigit n ≠ '\\' ∧ octalDigit n ≠ '\n'
  | 0, _ | 1, _ | 2, _ | 3, _ | 4, _ | 5, _ | 6, _ | 7, _ => by decide
  | _ + 8, h => absurd h (by omega)

/-- A byte is no surrogate, so a character has its number. -/
theorem toNat_charOfByte (b : UInt8) : (Char.ofNat b.toNat).toNat = b.toNat := by
  have hvalid : b.toNat.isValidChar := Or.inl (Nat.lt_trans b.toNat_lt (by decide))
  rw [Char.ofNat, dif_pos hvalid]
  rfl

/-- Bytes are told apart by their characters. -/
theorem charOfByte_inj {b c : UInt8} (h : Char.ofNat b.toNat = Char.ofNat c.toNat) : b = c := by
  have hnat := congrArg Char.toNat h
  rw [toNat_charOfByte, toNat_charOfByte] at hnat
  exact UInt8.toNat_inj.1 hnat

/-- A byte is written as what is read for it, with or without a backslash before it, or as the
octal digits of what is read for it. -/
theorem escapeByte_cases (b : UInt8) :
    (escapeByte b = [readByte b] ∧ readByte b ≠ '"' ∧ readByte b ≠ '\\') ∨
    (escapeByte b = ['\\', readByte b] ∧ Text.octalValue? (readByte b) = none ∧
      readByte b ≠ '\n') ∨
    ∃ i j k, i < 8 ∧ j < 8 ∧ k < 8 ∧
      escapeByte b = ['\\', octalDigit i, octalDigit j, octalDigit k] ∧
      readByte b = Char.ofNat (64 * i + 8 * j + k) := by
  by_cases hspecial : b = 0x5C ∨ b = 0x22
  · refine Or.inr (Or.inl ?_)
    rcases hspecial with rfl | rfl <;> decide
  by_cases htab : b = 9
  · subst htab
    exact Or.inr (Or.inl (by decide))
  by_cases hfeed : b = 10
  · subst hfeed
    exact Or.inr (Or.inl (by decide))
  have hread : readByte b = Char.ofNat b.toNat := by rw [readByte, if_neg htab, if_neg hfeed]
  rw [escapeByte, if_neg hspecial, if_neg htab, if_neg hfeed, hread]
  by_cases hvisible : 0x20 ≤ b ∧ b ≤ 0x7E
  · rw [if_pos hvisible]
    exact Or.inl ⟨rfl, fun h => hspecial (Or.inr (charOfByte_inj (c := 0x22) h)),
      fun h => hspecial (Or.inl (charOfByte_inj (c := 0x5C) h))⟩
  · rw [if_neg hvisible]
    have hb := b.toNat_lt
    have hvalue : b.toNat = 64 * (b.toNat / 64) + 8 * (b.toNat / 8 % 8) + b.toNat % 8 := by omega
    exact Or.inr (Or.inr ⟨_, _, _, by omega, by omega, by omega, rfl, congrArg Char.ofNat hvalue⟩)

/-- Whatever follows, one character is read where a byte was written. -/
theorem unescape_escapeByte_append (b : UInt8) (rest : List Char) :
    unescape (escapeByte b ++ rest) = readByte b :: unescape rest := by
  rcases escapeByte_cases b with ⟨hb, _, hplain⟩ | ⟨hb, hdigit, _⟩ | ⟨i, j, k, hi, hj, hk, hb, hread⟩
  · rw [hb]
    exact unescape_cons hplain rest
  · rw [hb]
    exact unescape_backslash hdigit rest
  · rw [hb, hread]
    exact unescape_octal (octalValue?_octalDigit hi) (octalValue?_octalDigit hj)
      (octalValue?_octalDigit hk) rest

/-- **Of a name that is written byte by byte each byte is read as a character.** -/
theorem unescape_escapeBytes (name : List Char) :
    unescape (escapeBytes name) = (bytes name).map readByte := by
  rw [escapeBytes]
  induction bytes name with
  | nil => rw [List.flatMap_nil, unescape, List.map_nil]
  | cons b bs ih => rw [List.flatMap_cons, unescape_escapeByte_append, ih, List.map_cons]

/-- No byte is written with a quote that would end the name. -/
theorem quoted?_escapeByte_append (b : UInt8) (rest : List Char) :
    quoted? (escapeByte b ++ rest) = (quoted? rest).map fun p => (escapeByte b ++ p.1, p.2) := by
  rcases escapeByte_cases b with ⟨hb, hquote, hplain⟩ | ⟨hb, _, hfeed⟩ | ⟨i, j, k, hi, hj, hk, hb, _⟩
  · rw [hb]
    exact quoted?_cons hquote hplain rest
  · rw [hb]
    exact quoted?_backslash hfeed rest
  · rw [hb]
    -- the digits after the first one are read as plain characters
    show quoted? ('\\' :: octalDigit i :: octalDigit j :: octalDigit k :: rest) = _
    rw [quoted?_backslash (octalDigit_ne hi).2.2,
      quoted?_cons (octalDigit_ne hj).1 (octalDigit_ne hj).2.1,
      quoted?_cons (octalDigit_ne hk).1 (octalDigit_ne hk).2.1, Option.map_map, Option.map_map]
    rfl

/-- What is written for a name byte by byte ends at the quote behind it. -/
theorem quoted?_escapeBytes (name after : List Char) :
    quoted? (escapeBytes name ++ '"' :: after) = some (escapeBytes name, after) := by
  rw [escapeBytes]
  induction bytes name with
  | nil => rfl
  | cons b bs ih =>
    rw [List.flatMap_cons, List.append_assoc, quoted?_escapeByte_append, ih]
    rfl

/-! ## Names that are read back -/

/-- A character that is read back when it is written byte by byte. -/
def IsPlain (c : Char) : Prop := c.toNat < 0x80 ∧ c ≠ '\t' ∧ c ≠ '\n'

/-- The characters of one byte are those of ASCII. -/
theorem utf8Size_eq_one_iff {c : Char} : c.utf8Size = 1 ↔ c.toNat < 0x80 := by
  rw [Char.utf8Size_eq_one_iff, UInt32.le_iff_toNat_le]
  show c.toNat ≤ 127 ↔ _
  omega

theorem utf8EncodeChar_of_lt {c : Char} (h : c.toNat < 0x80) :
    String.utf8EncodeChar c = [c.toUInt8] := by
  rw [String.utf8EncodeChar_eq_singleton (utf8Size_eq_one_iff.2 h), Char.toUInt8_val]

/-- A character of ASCII is read back unless a letter is written for it. -/
theorem readByte_toUInt8_eq_iff {c : Char} (h : c.toNat < 0x80) :
    readByte c.toUInt8 = c ↔ c ≠ '\t' ∧ c ≠ '\n' := by
  have hchar : Char.ofNat c.toUInt8.toNat = c := by
    have hbyte : c.toUInt8.toNat = c.toNat := by
      show c.toNat % 256 = c.toNat
      omega
    rw [hbyte, Char.ofNat_toNat]
  by_cases htab : c = '\t'
  · subst htab
    decide
  by_cases hfeed : c = '\n'
  · subst hfeed
    decide
  have hnot_tab : c.toUInt8 ≠ 9 := by
    intro heq
    rw [heq] at hchar
    exact htab hchar.symm
  have hnot_feed : c.toUInt8 ≠ 10 := by
    intro heq
    rw [heq] at hchar
    exact hfeed hchar.symm
  rw [readByte, if_neg hnot_tab, if_neg hnot_feed, hchar]
  exact iff_of_true rfl ⟨htab, hfeed⟩

/-- Each character has at least one byte. -/
theorem length_le_length_bytes (name : List Char) : name.length ≤ (bytes name).length := by
  induction name with
  | nil => exact Nat.le_refl _
  | cons c name ih =>
    have hpos := c.utf8Size_pos
    rw [bytes, List.flatMap_cons, List.length_append, String.length_utf8EncodeChar,
      List.length_cons]
    rw [bytes] at ih
    omega

/-- **The bytes of a name are read as the name just if it consists of ASCII without tabs and line
feeds.** -/
theorem map_readByte_eq_iff (name : List Char) :
    (bytes name).map readByte = name ↔ ∀ c ∈ name, IsPlain c := by
  induction name with
  | nil => exact iff_of_true rfl nofun
  | cons c name ih =>
    have hbytes : bytes (c :: name) = String.utf8EncodeChar c ++ bytes name := List.flatMap_cons
    rw [List.forall_mem_cons, ← ih, hbytes, List.map_append]
    constructor
    · intro h
      -- a character of several bytes would be read as several ones, and none is lost behind it
      have hascii : c.toNat < 0x80 := by
        have hlength := congrArg List.length h
        rw [List.length_append, List.length_map, List.length_map, String.length_utf8EncodeChar,
          List.length_cons] at hlength
        have hrest := length_le_length_bytes name
        have hpos := c.utf8Size_pos
        exact utf8Size_eq_one_iff.1 (by omega)
      rw [utf8EncodeChar_of_lt hascii] at h
      obtain ⟨hc, hname⟩ := List.cons.inj h
      exact ⟨⟨hascii, (readByte_toUInt8_eq_iff hascii).1 hc⟩, hname⟩
    · rintro ⟨⟨hascii, hne⟩, hname⟩
      rw [utf8EncodeChar_of_lt hascii, List.map_singleton, (readByte_toUInt8_eq_iff hascii).2 hne,
        hname]
      rfl

/-- The name that is read where a name was written byte by byte. -/
def readBack (name : String) : String := String.ofList ((bytes name.toList).map readByte)

/-- The same of strings. -/
theorem readBack_eq_iff (name : String) :
    readBack name = name ↔ ∀ c ∈ name.toList, IsPlain c := by
  rw [← map_readByte_eq_iff, readBack]
  constructor
  · intro h
    have hlist := congrArg String.toList h
    rwa [String.toList_ofList] at hlist
  · intro h
    rw [h, String.ofList_toList]

end FileName

namespace Line

/-! ## Markers -/

/-- Numbers as the flags of a marker. -/
def writeNumbers (flags : List Nat) : List Char := Text.unwords (flags.map digits)

/-- A marker whose name is written byte by byte. -/
def byteMarker (line : Nat) (name : String) (flags : List Nat) : List Char :=
  '#' :: ' ' :: (digits line ++
    ' ' :: '"' :: (FileName.escapeBytes name.toList ++ '"' :: writeNumbers flags))

theorem digits_inj {m n : Nat} (h : digits m = digits n) : m = n := by
  have hvalue := congrArg Text.decimalValue? h
  rw [decimalValue?_digits, decimalValue?_digits] at hvalue
  exact Option.some.inj hvalue

/-- Numbers are found again among the written ones. -/
theorem contains_map_digits (flags : List Nat) (n : Nat) :
    (flags.map digits).contains (digits n) = flags.contains n := by
  rw [Bool.eq_iff_iff, List.contains_iff_mem, List.contains_iff_mem, List.mem_map]
  constructor
  · rintro ⟨m, hm, heq⟩
    exact digits_inj heq ▸ hm
  · intro hn
    exact ⟨n, hn, rfl⟩

/-- Flags are read as they were written, number by number. -/
theorem flags?_writeNumbers (flags : List Nat) :
    flags? (writeNumbers flags) = some (flags.map digits) := by
  have hwords : Text.words (writeNumbers flags) = flags.map digits := by
    apply Text.words_unwords
    · intro w hw
      obtain ⟨n, _, rfl⟩ := List.mem_map.1 hw
      exact digits_ne_nil n
    · intro w hw c hc
      obtain ⟨n, _, rfl⟩ := List.mem_map.1 hw
      exact isBlank_of_mem_digits hc
  have hchars : ((writeNumbers flags).all fun c => isBlank c || isDecimalDigit c) = true := by
    refine List.all_eq_true.2 fun c hc => ?_
    obtain ⟨w, hw, hc⟩ := List.mem_flatMap.1 hc
    obtain ⟨n, _, rfl⟩ := List.mem_map.1 hw
    rcases List.mem_cons.1 hc with rfl | hc
    · rfl
    · rw [Text.isDecimalDigit_of_isDigit (isDigit_of_mem_digits hc), Bool.or_true]
  have hhead : (writeNumbers flags).head?.all isBlank = true := by
    cases flags <;> rfl
  rw [flags?, hchars, hhead, hwords]
  rfl

/-- A marker ends in its last flag, or in the quote if it has none, so nothing is trimmed from
it. -/
theorem endsVisibly_quote_writeNumbers (flags : List Nat) :
    EndsVisibly ('"' :: writeNumbers flags) := by
  rcases List.eq_nil_or_concat flags with rfl | ⟨flags, n, rfl⟩
  · exact ⟨'"', rfl, rfl⟩
  · have hnumber : EndsVisibly (digits n) :=
      ⟨_, List.getLast?_eq_some_getLast (digits_ne_nil n),
        isBlank_of_mem_digits (List.getLast_mem (digits_ne_nil n))⟩
    have hsplit : '"' :: writeNumbers (flags ++ [n]) =
        ('"' :: writeNumbers flags ++ [' ']) ++ digits n := by
      simp [writeNumbers, Text.unwords]
    rw [List.concat_eq_append, hsplit]
    exact Text.endsVisibly_append hnumber _

/-- **What is read from a marker whose name is written byte by byte.**  Its number and flags count
as in any marker, the name that is read has a character for each byte that was written, and it is
the name that was written just if that consists of ASCII without tabs and line feeds. -/
theorem classify_byteMarker (line : Nat) (name : String) (flags : List Nat) :
    FileName.unescape (FileName.escapeBytes name.toList) =
      (FileName.readBack name).toList ∧
    classify (byteMarker line name flags) =
      .marker (lineNumber (digits line)) (FileName.readBack name) (flags.contains 1)
        (flags.contains 2) ∧
    (FileName.readBack name = name ↔ ∀ c ∈ name.toList, FileName.IsPlain c) := by
  have hunescape : FileName.unescape (FileName.escapeBytes name.toList) =
      (FileName.readBack name).toList := by
    rw [FileName.unescape_escapeBytes, FileName.readBack, String.toList_ofList]
  refine ⟨hunescape, ?_, FileName.readBack_eq_iff name⟩
  have hone : (flags.map digits).contains ['1'] = flags.contains 1 := contains_map_digits flags 1
  have htwo : (flags.map digits).contains ['2'] = flags.contains 2 := contains_map_digits flags 2
  have hend : EndsVisibly (byteMarker line name flags) := by
    have happend := Text.endsVisibly_append (endsVisibly_quote_writeNumbers flags)
      ('#' :: ' ' :: (digits line ++ ' ' :: '"' :: FileName.escapeBytes name.toList))
    simpa [byteMarker] using happend
  rw [byteMarker, classify_hash hend, marker?_number, FileName.quoted?_escapeBytes,
    Option.bind_some, flags?_writeNumbers, Option.bind_some, hone, htwo, hunescape,
    String.ofList_toList]
  rfl

/-- A letter beyond ASCII is not read back, and neither is a tab. -/
theorem not_forall_classify_byteMarker :
    (¬ ∀ name : List Char, FileName.unescape (FileName.escapeBytes name) = name) ∧
    classify (byteMarker 1 "é.h" [1]) = .marker 1 "Ã©.h" true false ∧
    classify (byteMarker 1 "a\tb.h" [1]) = .marker 1 "atb.h" true false := by
  refine ⟨fun h => ?_, ?_, ?_⟩
  · have hplain := (FileName.map_readByte_eq_iff ['é']).1
      ((FileName.unescape_escapeBytes ['é']).symm.trans (h ['é']))
    exact absurd (hplain 'é' (List.mem_cons_self ..)).1 (by decide)
  · decide +kernel
  · decide +kernel

end Line

end IncludeAudit.Preprocessed
