import IncludeAudit.Preprocessed.Line
import IncludeAudit.Proofs.Preprocessed.FileName
import IncludeAudit.Proofs.Text.Lines

/-! # Writing lines

Each kind of line has a plain form (`Line.write`).  Where the form can hold what the line says
(`Line.Writable`), the line is read back from it (`classify_write`), and the form ends visibly and
holds no line feed, so that lines written one below the other stay apart.
-/
namespace IncludeAudit.Preprocessed

open Text (isBlank isDecimalDigit EndsVisibly)

/-! ## Pieces of lines -/

/-- A run of characters is taken as a whole up to the first one that does not belong to it. -/
theorem takeWhile_append_of_neg {α : Type} {p : α → Bool} {xs : List α} (h : ∀ x ∈ xs, p x = true)
    {y : α} (hy : p y = false) (ys : List α) : (xs ++ y :: ys).takeWhile p = xs := by
  rw [List.takeWhile_append_of_pos h, List.takeWhile_cons_of_neg (by simp [hy]), List.append_nil]

/-- What is behind a run of characters starts with the first one that does not belong to it. -/
theorem dropWhile_append_of_neg {α : Type} {p : α → Bool} {xs : List α} (h : ∀ x ∈ xs, p x = true)
    {y : α} (hy : p y = false) (ys : List α) : (xs ++ y :: ys).dropWhile p = y :: ys := by
  rw [List.dropWhile_append_of_pos h, List.dropWhile_cons_of_neg (by simp [hy])]

/-- A visible character of ASCII. -/
theorem isBlank_eq_false {c : Char} (h₁ : 0x21 ≤ c.toNat) (h₂ : c.toNat ≤ 0x7E) :
    isBlank c = false := by
  simp only [isBlank, Bool.or_eq_false_iff, Bool.and_eq_false_iff, decide_eq_false_iff_not]
  omega

/-- The digits of a number. -/
def digits (n : Nat) : List Char := (toString n).toList

theorem digits_eq (n : Nat) : digits n = Nat.toDigits 10 n := by
  rw [digits, Nat.toString_eq_ofList_toDigits, String.toList_ofList]

theorem isDigit_of_mem_digits {n : Nat} {c : Char} (h : c ∈ digits n) : c.isDigit = true :=
  Nat.isDigit_of_mem_toDigits (by decide) (Nat.le_refl 10) (digits_eq n ▸ h)

theorem digits_ne_nil (n : Nat) : digits n ≠ [] := by
  rw [digits_eq]
  exact Nat.toDigits_ne_nil

theorem isBlank_of_isDigit {c : Char} (h : c.isDigit = true) : isBlank c = false := by
  simp only [Char.isDigit, Bool.and_eq_true, decide_eq_true_eq] at h
  have h₁ : 0x30 ≤ c.toNat := h.1
  have h₂ : c.toNat ≤ 0x39 := h.2
  exact isBlank_eq_false (by omega) (by omega)

theorem isBlank_of_mem_digits {n : Nat} {c : Char} (h : c ∈ digits n) : isBlank c = false :=
  isBlank_of_isDigit (isDigit_of_mem_digits h)

/-- The digits of a number are read as the number. -/
theorem decimalValue?_digits (n : Nat) : Text.decimalValue? (digits n) = some n := by
  have hempty : (digits n).isEmpty = false := List.isEmpty_eq_false_iff.2 (digits_ne_nil n)
  have hall : (digits n).all Char.isDigit = true :=
    List.all_eq_true.2 fun c hc => isDigit_of_mem_digits hc
  have hvalue : (digits n).foldl (fun n c => 10 * n + (c.toNat - 48)) 0 = n := by
    rw [digits_eq]
    exact Nat.ofDigitChars_eq_foldl.symm.trans Nat.ofDigitChars_ten_toDigits
  rw [Text.decimalValue?, hempty, hall, hvalue]
  rfl

namespace Line

/-- Numbers below the bound are not capped. -/
theorem lineNumber_digits {n : Nat} (h : n < 1 <<< 32) : lineNumber (digits n) = n := by
  simp only [lineNumber, decimalValue?_digits]
  exact if_pos h

/-- What starts like a word other than `line` is no marker. -/
theorem marker?_of_head {c : Char} (hl : c ≠ 'l') (hb : isBlank c = false)
    (hd : isDecimalDigit c = false) (rest : List Char) : marker? (c :: rest) = none := by
  have hline : "line".toList.isPrefixOf (c :: rest) = false := by
    simp [List.isPrefixOf, Ne.symm hl]
  have hdigits : ((c :: rest).dropWhile isBlank).takeWhile isDecimalDigit = [] := by
    rw [List.dropWhile_cons_of_neg (by simp [hb]), List.takeWhile_cons_of_neg (by simp [hd])]
  simp only [marker?, hline, Bool.false_eq_true, if_false, hdigits, List.isEmpty_nil, Bool.true_or,
    if_true]

/-- A word, one blank and something visible are read as the word and the rest. -/
theorem directive_append {name : List Char} (hname : (name.all fun c => !isBlank c) = true)
    (hne : name ≠ []) {c : Char} (hc : isBlank c = false) (rest : List Char) :
    directive (name ++ ' ' :: c :: rest) = (name, c :: rest) := by
  obtain ⟨d, more, rfl⟩ := List.exists_cons_of_ne_nil hne
  have hword : ∀ e ∈ d :: more, (!isBlank e) = true := List.all_eq_true.1 hname
  have hfirst : isBlank d = false := by simpa using hword d (List.mem_cons_self ..)
  have hstart : ((d :: more) ++ ' ' :: c :: rest).dropWhile isBlank =
      (d :: more) ++ ' ' :: c :: rest :=
    List.dropWhile_cons_of_neg (by simp [hfirst])
  have hrest : (' ' :: c :: rest).dropWhile isBlank = c :: rest := by
    rw [List.dropWhile_cons_of_pos (by decide), List.dropWhile_cons_of_neg (by simp [hc])]
  have hsplit : (!isBlank ' ') = false := by decide
  have htake := takeWhile_append_of_neg hword hsplit (c :: rest)
  have hdrop := dropWhile_append_of_neg hword hsplit (c :: rest)
  simp only [directive, hstart]
  rw [htake, hdrop, hrest]

/-- What comes before the closing character is read if that does not occur in it. -/
theorem upTo?_append {close : Char} {cs : List Char} (h : close ∉ cs) (rest : List Char) :
    upTo? close (cs ++ close :: rest) = some (String.ofList cs) := by
  have hcs : ∀ c ∈ cs, (c != close) = true := fun c hc => by
    rw [bne_iff_ne]
    exact fun heq => h (heq ▸ hc)
  rw [upTo?, if_pos (by simp), takeWhile_append_of_neg hcs (by simp)]

/-! ## Lines -/

/-- The characters around the spelling of a directive. -/
def delimiters (angled : Bool) : Char × Char := if angled then ('<', '>') else ('"', '"')

/-- The flags of a marker. -/
def writeFlags (enters leaves : Bool) : List Char :=
  (if enters then [' ', '1'] else []) ++ if leaves then [' ', '2'] else []

/-- A marker behind its `#`. -/
def writeMarker (line : Nat) (file : String) (enters leaves : Bool) : List Char :=
  ' ' :: digits line ++ ' ' :: '"' :: FileName.escape file.toList ++ '"' :: writeFlags enters leaves

/-- An inclusion directive behind its `#`. -/
def writeInclusion (keyword : Keyword) (spelling : String) (angled : Bool) : List Char :=
  keyword.text.toList ++ ' ' :: (delimiters angled).1 :: spelling.toList ++ [(delimiters angled).2]

/-- A macro definition behind its `#`. -/
def writeDefine (name : String) : List Char := "define".toList ++ ' ' :: name.toList

theorem writeDefine_eq (name : String) :
    writeDefine name = "define".toList ++ ' ' :: name.toList := rfl

/-- The plain form of a line. -/
def write : Line → List Char
  | .marker line file enters leaves => '#' :: writeMarker line file enters leaves
  | .inclusion keyword spelling angled => '#' :: writeInclusion keyword spelling angled
  | .define name => '#' :: writeDefine name
  | .blank => []
  | .text => ['x']

/-- A name of the C language. -/
def IsIdentifier (name : String) : Prop :=
  ∃ first rest, name.toList = first :: rest ∧ isIdentifierStart first = true ∧
    ∀ c ∈ rest, isIdentifierRest c = true

/-- The plain form of a line can hold what the line says. -/
def Writable : Line → Prop
  | .marker line .. => line < 1 <<< 32
  | .inclusion _ spelling angled =>
    '\n' ∉ spelling.toList ∧ (delimiters angled).2 ∉ spelling.toList
  | .define name => IsIdentifier name
  | .blank | .text => True

theorem isIdentifierRest_of_isIdentifierStart {c : Char} (h : isIdentifierStart c = true) :
    isIdentifierRest c = true := by
  simp only [isIdentifierStart, isIdentifierRest, Char.isAlphanum, Bool.or_eq_true] at h ⊢
  rcases h with h | h
  · exact Or.inl (Or.inl h)
  · exact Or.inr h

/-- Each kind of character of an identifier lies in the visible range of ASCII. -/
theorem isBlank_of_isIdentifierRest {c : Char} (h : isIdentifierRest c = true) :
    isBlank c = false := by
  have hkinds : (((c.isUpper || c.isLower) || c.isDigit) || decide (c = '_')) = true := h
  have hrange (m n : UInt32) (hm : 0x21 ≤ m.toNat) (hn : n.toNat ≤ 0x7E)
      (hc : m ≤ c.val ∧ c.val ≤ n) : isBlank c = false := by
    have h₁ : m.toNat ≤ c.toNat := hc.1
    have h₂ : c.toNat ≤ n.toNat := hc.2
    exact isBlank_eq_false (by omega) (by omega)
  simp only [Bool.or_eq_true, decide_eq_true_eq] at hkinds
  rcases hkinds with ((hupper | hlower) | hdigit) | hunderscore
  · exact hrange 'A'.val 'Z'.val (by decide) (by decide) (of_decide_eq_true hupper)
  · exact hrange 'a'.val 'z'.val (by decide) (by decide)
      ((Bool.and_eq_true_iff.1 hlower).imp of_decide_eq_true of_decide_eq_true)
  · exact isBlank_of_isDigit hdigit
  · rw [hunderscore]
    rfl

/-- The flags of a marker say whether it enters and whether it leaves. -/
theorem flags?_writeFlags (enters leaves : Bool) :
    ∃ flags, flags? (writeFlags enters leaves) = some flags ∧
      flags.contains ['1'] = enters ∧ flags.contains ['2'] = leaves := by
  cases enters <;> cases leaves <;> exact ⟨_, rfl, rfl, rfl⟩

/-- A marker gives its number, and the rest of it is a name in quotes and flags. -/
theorem marker?_number (line : Nat) (body : List Char) :
    marker? (' ' :: (digits line ++ ' ' :: '"' :: body)) =
      (FileName.quoted? body).bind fun p => (flags? p.2).bind fun flags =>
        some (.marker (lineNumber (digits line)) (String.ofList (FileName.unescape p.1))
          (flags.contains ['1']) (flags.contains ['2'])) := by
  obtain ⟨d, ds, hds⟩ := List.exists_cons_of_ne_nil (digits_ne_nil line)
  have hvisible : isBlank d = false :=
    isBlank_of_mem_digits (n := line) (hds ▸ List.mem_cons_self ..)
  have hdecimal : ∀ c ∈ digits line, isDecimalDigit c = true :=
    fun c hc => Text.isDecimalDigit_of_isDigit (isDigit_of_mem_digits hc)
  have hsplit : isDecimalDigit ' ' = false := by decide
  have hline : "line".toList.isPrefixOf (' ' :: (digits line ++ ' ' :: '"' :: body)) = false := rfl
  have hstart : (' ' :: (digits line ++ ' ' :: '"' :: body)).dropWhile isBlank =
      digits line ++ ' ' :: '"' :: body := by
    rw [List.dropWhile_cons_of_pos (by decide), hds, List.cons_append,
      List.dropWhile_cons_of_neg (by simp [hvisible])]
  have hfound : ((digits line).isEmpty || !(' ' :: '"' :: body).head?.any isBlank) = false := by
    rw [List.isEmpty_eq_false_iff.2 (digits_ne_nil line)]
    rfl
  have hquote : (' ' :: '"' :: body).dropWhile isBlank = '"' :: body := by
    rw [List.dropWhile_cons_of_pos (by decide), List.dropWhile_cons_of_neg (by decide)]
  rw [marker?]
  simp only [hline, Bool.false_eq_true, if_false, hstart, takeWhile_append_of_neg hdecimal hsplit,
    dropWhile_append_of_neg hdecimal hsplit, hfound, hquote]
  rfl

/-- A marker is read back if its number is below the bound. -/
theorem marker?_writeMarker {line : Nat} (h : line < 1 <<< 32) (file : String)
    (enters leaves : Bool) :
    marker? (writeMarker line file enters leaves) = some (.marker line file enters leaves) := by
  obtain ⟨flags, hflags, rfl, rfl⟩ := flags?_writeFlags enters leaves
  have hcs : writeMarker line file (flags.contains ['1']) (flags.contains ['2']) =
      ' ' :: (digits line ++ ' ' :: '"' :: (FileName.escape file.toList ++
        '"' :: writeFlags (flags.contains ['1']) (flags.contains ['2']))) := by
    simp [writeMarker]
  rw [hcs, marker?_number, FileName.quoted?_escape, Option.bind_some, hflags, Option.bind_some,
    FileName.unescape_escape, String.ofList_toList, lineNumber_digits h]

/-- No directive is taken for a marker. -/
theorem marker?_writeInclusion (keyword : Keyword) (spelling : String) (angled : Bool) :
    marker? (writeInclusion keyword spelling angled) = none := by
  cases keyword <;> exact marker?_of_head (by decide) rfl rfl _

/-- Nor is a macro definition. -/
theorem marker?_writeDefine (name : String) : marker? (writeDefine name) = none :=
  marker?_of_head (by decide) rfl rfl _

/-- A directive is read back if its spelling does not hold the character that closes it. -/
theorem inclusion?_writeInclusion {spelling : String} {angled : Bool}
    (h : (delimiters angled).2 ∉ spelling.toList) (keyword : Keyword) :
    inclusion? (writeInclusion keyword spelling angled) =
      some (.inclusion keyword spelling angled) := by
  have hname : (keyword.text.toList.all fun c => !isBlank c) = true := by
    cases keyword <;> decide
  have hne : keyword.text.toList ≠ [] := by
    cases keyword <;> decide
  have hopen : isBlank (delimiters angled).1 = false := by
    cases angled <;> rfl
  have hdirective := directive_append hname hne hopen (spelling.toList ++ [(delimiters angled).2])
  have hcs : writeInclusion keyword spelling angled = keyword.text.toList ++
      ' ' :: (delimiters angled).1 :: (spelling.toList ++ [(delimiters angled).2]) := by
    simp [writeInclusion]
  have hspelling : upTo? (delimiters angled).2 (spelling.toList ++ [(delimiters angled).2]) =
      some spelling := by
    rw [upTo?_append h, String.ofList_toList]
  rw [hcs, inclusion?, hdirective]
  simp only [String.ofList_toList, Keyword.ofText?_text]
  cases angled with
  | false => exact congrArg (Option.map _) hspelling
  | true => exact congrArg (Option.map _) hspelling

theorem directive_writeDefine {name : String} (h : IsIdentifier name) :
    directive (writeDefine name) = ("define".toList, name.toList) := by
  obtain ⟨first, rest, hname, hfirst, _⟩ := h
  have hvisible : isBlank first = false :=
    isBlank_of_isIdentifierRest (isIdentifierRest_of_isIdentifierStart hfirst)
  rw [writeDefine_eq, hname]
  exact directive_append (by decide) (by decide) hvisible rest

/-- A macro definition is not taken for a directive. -/
theorem inclusion?_writeDefine {name : String} (h : IsIdentifier name) :
    inclusion? (writeDefine name) = none := by
  have hkeyword : Keyword.ofText? (String.ofList "define".toList) = none := by decide
  rw [inclusion?, directive_writeDefine h]
  simp only [hkeyword]

/-- A macro definition is read back if it defines an identifier. -/
theorem define?_writeDefine {name : String} (h : IsIdentifier name) :
    define? (writeDefine name) = some (.define name) := by
  have hdirective := directive_writeDefine h
  obtain ⟨first, rest, hname, hfirst, hrest⟩ := h
  have htake : rest.takeWhile isIdentifierRest = rest := by
    have happend : (rest ++ []).takeWhile isIdentifierRest = rest ++ [].takeWhile _ :=
      List.takeWhile_append_of_pos hrest
    rwa [List.append_nil, List.takeWhile_nil, List.append_nil] at happend
  rw [define?, hdirective, hname]
  simp only [decide_true, hfirst, Bool.and_self, if_true, htake]
  rw [← hname, String.ofList_toList]

/-! ## Whole lines -/

theorem IsIdentifier.all {name : String} (h : IsIdentifier name) :
    ∀ c ∈ name.toList, isIdentifierRest c = true := by
  obtain ⟨first, rest, hname, hfirst, hrest⟩ := h
  rw [hname]
  exact List.forall_mem_cons.2 ⟨isIdentifierRest_of_isIdentifierStart hfirst, hrest⟩

theorem IsIdentifier.endsVisibly {name : String} (h : IsIdentifier name) :
    EndsVisibly name.toList := by
  have hne : name.toList ≠ [] := by
    obtain ⟨first, rest, hname, _⟩ := h
    exact hname ▸ List.cons_ne_nil first rest
  exact ⟨_, List.getLast?_eq_some_getLast hne,
    isBlank_of_isIdentifierRest (h.all _ (List.getLast_mem hne))⟩

/-- A line that is not blank ends visibly in its plain form. -/
theorem endsVisibly_write {l : Line} (h : l.Writable) (hl : l ≠ .blank) : EndsVisibly l.write := by
  cases l with
  | marker line file enters leaves =>
    have hend : EndsVisibly ('"' :: writeFlags enters leaves) := by
      cases enters <;> cases leaves <;> exact ⟨_, rfl, rfl⟩
    exact Text.endsVisibly_append hend
      ('#' :: ' ' :: digits line ++ ' ' :: '"' :: FileName.escape file.toList)
  | inclusion keyword spelling angled =>
    have hend : EndsVisibly [(delimiters angled).2] := by
      cases angled <;> exact ⟨_, rfl, rfl⟩
    exact Text.endsVisibly_append hend
      ('#' :: keyword.text.toList ++ ' ' :: (delimiters angled).1 :: spelling.toList)
  | define name =>
    exact Text.endsVisibly_append (IsIdentifier.endsVisibly h) ('#' :: "define".toList ++ [' '])
  | blank => exact absurd rfl hl
  | text => exact ⟨'x', rfl, rfl⟩

/-- No line is broken in two. -/
theorem feed_not_mem_write {l : Line} (h : l.Writable) : '\n' ∉ l.write := by
  cases l with
  | marker line file enters leaves =>
    have hdigits : '\n' ∉ digits line :=
      fun hmem => absurd (isDigit_of_mem_digits hmem) (by decide)
    have hname := FileName.feed_not_mem_escape file.toList
    have hflags : '\n' ∉ writeFlags enters leaves := by
      cases enters <;> cases leaves <;> decide +kernel
    simp [write, writeMarker, hdigits, hname, hflags]
  | inclusion keyword spelling angled =>
    have hkeyword : '\n' ∉ keyword.text.toList := by
      cases keyword <;> decide +kernel
    have hopen : '\n' ≠ (delimiters angled).1 := by
      cases angled <;> decide
    have hclose : '\n' ≠ (delimiters angled).2 := by
      cases angled <;> decide
    simp [write, writeInclusion, hkeyword, hopen, hclose, h.1]
  | define name =>
    have hname : '\n' ∉ name.toList :=
      fun hmem => absurd (IsIdentifier.all h _ hmem) (by decide)
    simp [write, writeDefine_eq, hname]
  | blank => exact List.not_mem_nil
  | text => decide

/-- What follows the `#` is tried as a marker, a directive and a macro definition, in this order. -/
theorem classify_hash {cs : List Char} (h : EndsVisibly ('#' :: cs)) :
    classify ('#' :: cs) = ((marker? cs).or ((inclusion? cs).or (define? cs))).getD text := by
  rw [classify, Text.trimEnd_of_endsVisibly h]
  rfl

/-- **A line is read back from its plain form.** -/
theorem classify_write {l : Line} (h : l.Writable) : classify l.write = l := by
  cases l with
  | marker line file enters leaves =>
    rw [write, classify_hash (endsVisibly_write h nofun), marker?_writeMarker h]
    rfl
  | inclusion keyword spelling angled =>
    rw [write, classify_hash (endsVisibly_write h nofun), marker?_writeInclusion,
      inclusion?_writeInclusion h.2]
    rfl
  | define name =>
    rw [write, classify_hash (endsVisibly_write h nofun), marker?_writeDefine,
      inclusion?_writeDefine h, define?_writeDefine h]
    rfl
  | blank => rfl
  | text => rfl

end Line

end IncludeAudit.Preprocessed
