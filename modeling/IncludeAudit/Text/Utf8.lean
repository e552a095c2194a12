/-! # Text and bytes

The size of a text in bytes, and text from bytes. A sequence of bytes that starts no character, or
ends too early, is replaced as a whole: its longest part that some character starts with becomes one
replacement character.
-/
namespace IncludeAudit.Text

/-- The number of bytes of some characters. -/
def byteCount (cs : List Char) : Nat := cs.foldr (fun c n => c.utf8Size + n) 0

/-- The bytes that may follow the first byte of a character, each as a range; none if no character
starts with that byte. -/
def continuation? (first : UInt8) : Option (List (UInt8 × UInt8)) :=
  let tail := (0x80, 0xBF)
  if first < 0x80 then some []
  else if first < 0xC2 then none
  else if first < 0xE0 then some [tail]
  else if first = 0xE0 then some [(0xA0, 0xBF), tail]
  else if first = 0xED then some [(0x80, 0x9F), tail]
  else if first < 0xF0 then some [tail, tail]
  else if first = 0xF0 then some [(0x90, 0xBF), tail, tail]
  else if first < 0xF4 then some [tail, tail, tail]
  else if first = 0xF4 then some [(0x80, 0x8F), tail, tail]
  else none

/-- The bytes at the start of a text that lie in the given ranges, one after the other. -/
def matching : List (UInt8 × UInt8) → List UInt8 → List UInt8
  | (low, high) :: ranges, b :: rest => if low ≤ b ∧ b ≤ high then b :: matching ranges rest else []
  | _, _ => []

/-- The character that a first byte and its continuation encode. -/
def assemble (first : UInt8) (tail : List UInt8) : Char :=
  let start := if tail.isEmpty then first.toNat else first.toNat % (1 <<< (6 - tail.length))
  Char.ofNat (tail.foldl (fun n b => 64 * n + b.toNat % 64) start)

/-- The characters of a text, with `none` for each sequence that encodes none. -/
def decode : List UInt8 → List (Option Char)
  | [] => []
  | first :: rest =>
    match continuation? first with
    | none => none :: decode rest
    | some ranges =>
      let tail := matching ranges rest
      (if tail.length = ranges.length then some (assemble first tail) else none) ::
        decode (rest.drop tail.length)
termination_by bytes => bytes.length
decreasing_by all_goals simp_wf; try omega

/-- The text of some bytes, with replacement characters for what is no text. -/
def decodeLossy (bytes : List UInt8) : List Char := (decode bytes).map fun c? => c?.getD '\ufffd'

/-- The text of some bytes that are a text. -/
def decode? (bytes : List UInt8) : Option (List Char) := (decode bytes).mapM id

end IncludeAudit.Text
