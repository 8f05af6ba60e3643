import Script.Table

/-!
# Tables with an index

The entries stand in slots in the order of the first insertion under their keys, and an index leads
from each key to its slot. Nothing but the way the table is filled makes the index fit the slots: a
slot that is not there is told apart from a key that is not there.
-/

namespace Script

structure IndexedTable (κ ε : Type) where
  /-- The slot of each key. -/
  index : Table κ Nat
  /-- The entries, from slot 0 on. -/
  entries : List ε

namespace IndexedTable

variable {κ ε : Type} [DecidableEq κ]

def empty : IndexedTable κ ε :=
  ⟨[], []⟩

/-- The number of entries. -/
def size (h : IndexedTable κ ε) : Nat :=
  h.entries.length

/-- Puts an entry under `k`: into the slot of `k`, or into a new slot behind the others. Fails if the
index leads to a slot that is not there. -/
def insert? (k : κ) (entry : ε) (h : IndexedTable κ ε) : Option (IndexedTable κ ε) :=
  match h.index.get? k with
  | some slot =>
    if slot < h.size then some { h with entries := h.entries.set slot entry } else none
  | none => some ⟨h.index.insert k h.size, h.entries ++ [entry]⟩

/-- The entry under `k`, if there is one. Fails if the index leads to a slot that is not there. -/
def get? (k : κ) (h : IndexedTable κ ε) : Option (Option ε) :=
  match h.index.get? k with
  | some slot => h.entries[slot]?.map some
  | none => some none

/-- Inserts entries under their keys, from left to right. -/
def insertAll? (h : IndexedTable κ ε) : List (κ × ε) → Option (IndexedTable κ ε)
  | [] => some h
  | (k, entry) :: rest =>
    match h.insert? k entry with
    | some h => h.insertAll? rest
    | none => none

end IndexedTable
end Script
