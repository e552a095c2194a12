/-! # The order of scattered keys

A table of slots, in which the slot of a key is chosen by a fingerprint of its bytes. Such a table
visits its keys in the order of their slots: the same keys come in the same order on every machine,
but neither in the order in which they were put in nor in that of their bytes.
-/
namespace IncludeAudit.Glob

/-- Mixes bytes into a word, one after the other. -/
def mix (word : UInt64) (bs : List UInt8) : UInt64 :=
  bs.foldl (fun w b => (w ^^^ b.toUInt64) * 0x100000001b3) word

/-- The fingerprint of a key. Its length is mixed in first, as eight bytes with the lowest in front,
and then its bytes. -/
def fingerprint (key : List UInt8) : Nat :=
  let length := (List.range 8).map fun i => (key.length >>> (8 * i)).toUInt8
  (mix (mix 0xcbf29ce484222325 length) key).toNat

/-- Slots for keys. Their number is a power of two. -/
structure ScatterTable where
  slots : Array (Option (List UInt8))

namespace ScatterTable

/-- A table without keys. -/
def ofSize (size : Nat) : ScatterTable := ⟨Array.replicate size none⟩

/-- The number of slots. -/
def size (t : ScatterTable) : Nat := t.slots.size

/-- The keys of a table in the order of their slots. -/
def keys (t : ScatterTable) : List (List UInt8) := t.slots.toList.filterMap id

/-- The most keys that a table may hold. One slot stays free in a small table, and an eighth of the
slots in others. -/
def capacity (t : ScatterTable) : Nat := if t.size ≤ 8 then t.size - 1 else t.size / 8 * 7

/-- The first free slot for a fingerprint. Sixteen slots in a row are tried from the one that the
fingerprint names, then sixteen more behind a gap, and so on with growing gaps; the first slot
follows the last. -/
def freeSlot? (t : ScatterTable) (fingerprint : Nat) : Option Nat :=
  (List.range (t.size / 16 + 1)).findSome? fun run =>
    (List.range 16).findSome? fun i =>
      let slot := (fingerprint + 8 * run * (run + 1) + i) % t.size
      if t.slots[slot]? = some none then some slot else none

/-- The table with a key in the first free slot for its fingerprint. -/
def place (t : ScatterTable) (key : List UInt8) : ScatterTable :=
  match t.freeSlot? (fingerprint key) with
  | some slot => ⟨t.slots.setIfInBounds slot (some key)⟩
  | none => t

/-- The table with a key more, unless it has the key already. The keys of a full table move to one
of twice the size first, in the order of their slots. -/
def insert (t : ScatterTable) (key : List UInt8) : ScatterTable :=
  let keys := t.keys
  if keys.contains key then t
  else if keys.length < t.capacity then t.place key
  else (keys.foldl place (ofSize (2 * t.size))).place key

end ScatterTable

/-- Keys, each once, in the order of the table into which they are put one after the other. -/
def scattered (keys : List (List UInt8)) : List (List UInt8) :=
  (keys.foldl ScatterTable.insert (.ofSize 4)).keys

end IncludeAudit.Glob
