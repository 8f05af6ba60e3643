import Script.Text.Cluster

/-!
# Backspaces

A backspace in a line takes away the cluster before it. What has been kept is measured in bytes of
UTF-8, and the size of a cluster is held in one byte. So a backspace takes all of a cluster with
fewer than 256 bytes (`pop_push`), and of a longer one it takes from the end what the size leaves
modulo 256. When such a cut falls inside a character, the line is torn and has no text.
-/

namespace Script

/-! ## Bytes -/

/-- How many bytes a text takes in UTF-8. -/
def byteCount : List Char → Nat
  | [] => 0
  | c :: text => c.utf8Size + byteCount text

/-- Takes `n` bytes off the front, if they are whole characters. -/
def dropBytes? : Nat → List Char → Option (List Char)
  | 0, text => some text
  | _ + 1, [] => none
  | n + 1, c :: text => if c.utf8Size ≤ n + 1 then dropBytes? (n + 1 - c.utf8Size) text else none

theorem dropBytes?_append (front text : List Char) :
    dropBytes? (byteCount front) (front ++ text) = some text := by
  induction front with
  | nil => simp [byteCount, dropBytes?]
  | cons c front ih =>
    have count : byteCount (c :: front) = (byteCount front + c.utf8Size - 1) + 1 := by
      have pos := c.utf8Size_pos
      rw [byteCount]
      omega
    have whole : c.utf8Size ≤ byteCount front + c.utf8Size - 1 + 1 := by
      omega
    have left : byteCount front + c.utf8Size - 1 + 1 - c.utf8Size = byteCount front := by
      have pos := c.utf8Size_pos
      omega
    rw [count, List.cons_append, dropBytes?, if_pos whole, left, ih]

theorem byteCount_append (front text : List Char) :
    byteCount (front ++ text) = byteCount front + byteCount text := by
  induction front with
  | nil => simp [byteCount]
  | cons c front ih => simp [byteCount, ih, Nat.add_assoc]

theorem byteCount_reverse (text : List Char) : byteCount text.reverse = byteCount text := by
  induction text with
  | nil => rfl
  | cons c text ih => simp [byteCount, byteCount_append, ih, Nat.add_comm]

/-! ## What is kept -/

/-- The part of a line that has been kept, last character first, and the sizes of its clusters, last
size first. -/
structure Kept where
  chars : List Char
  sizes : List UInt8
  deriving DecidableEq, Repr

namespace Kept

def empty : Kept :=
  ⟨[], []⟩

def push (kept : Kept) (cluster : List Char) : Kept :=
  ⟨cluster.reverse ++ kept.chars, (byteCount cluster).toUInt8 :: kept.sizes⟩

/-- Takes off as many bytes as the last size says. Without a size there is nothing to take. -/
def pop? (kept : Kept) : Option Kept :=
  match kept.sizes with
  | [] => some kept
  | size :: sizes => (dropBytes? size.toNat kept.chars).map fun chars => ⟨chars, sizes⟩

/-- A cluster of fewer than 256 bytes is taken off as it was put on. -/
theorem pop_push (kept : Kept) {cluster : List Char} (h : byteCount cluster < 256) :
    (kept.push cluster).pop? = some kept := by
  have size : (byteCount cluster).toUInt8.toNat = byteCount cluster.reverse := by
    rw [byteCount_reverse]
    exact Nat.mod_eq_of_lt h
  simp [pop?, push, size, dropBytes?_append]

/-- A cluster of 256 bytes has size zero, so that taking it off leaves its characters. -/
theorem pop_push_of_full (kept : Kept) {cluster : List Char} (h : byteCount cluster = 256) :
    (kept.push cluster).pop? = some ⟨cluster.reverse ++ kept.chars, kept.sizes⟩ := by
  have size : (byteCount cluster).toUInt8.toNat = 0 := by
    rw [h]
    rfl
  simp [pop?, push, size, dropBytes?]

end Kept

/-! ## Lines -/

def backspace : Char :=
  '\x08'

/-- A cluster that is a backspace takes one off, and any other is put on. -/
def Kept.add? (kept : Kept) (cluster : List Char) : Option Kept :=
  if cluster = [backspace] then kept.pop? else some (kept.push cluster)

/-- What is left of a line once its backspaces have been applied from left to right, unless one of
them tears it. -/
def applyBackspaces? (line : List Char) : Option (List Char) :=
  ((clusters line).foldlM Kept.add? Kept.empty).map fun kept => kept.chars.reverse

theorem foldlM_add? {cs : List (List Char)} (h : [backspace] ∉ cs) (kept : Kept) :
    cs.foldlM Kept.add? kept = some (cs.foldl Kept.push kept) := by
  induction cs generalizing kept with
  | nil => rfl
  | cons c cs ih =>
    rw [List.mem_cons, not_or] at h
    rw [List.foldlM_cons, Kept.add?, if_neg (Ne.symm h.1)]
    exact ih h.2 _

theorem chars_foldl_push (cs : List (List Char)) (kept : Kept) :
    (cs.foldl Kept.push kept).chars = cs.flatten.reverse ++ kept.chars := by
  induction cs generalizing kept with
  | nil => rfl
  | cons c cs ih => simp [ih, Kept.push]

/-- A line without backspaces stays as it is. -/
theorem applyBackspaces?_of_notMem {line : List Char} (h : backspace ∉ line) :
    applyBackspaces? line = some line := by
  have noneCut : [backspace] ∉ clusters line := fun mem => h <| by
    rw [← flatten_clusters line]
    exact List.mem_flatten_of_mem mem (List.mem_singleton_self backspace)
  rw [applyBackspaces?, foldlM_add? noneCut, Option.map_some, chars_foldl_push, flatten_clusters]
  simp [Kept.empty]

end Script
