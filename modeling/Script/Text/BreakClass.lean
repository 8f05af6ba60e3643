import Script.Text.BreakClass.Ranges

/-!
# Break classes

What a character is to the cutting of a text into clusters: the Unicode property
`Grapheme_Cluster_Break`, with the consonants and viramas of `Indic_Conjunct_Break` and the
pictographs as classes of their own. The classes list their characters, and no character is listed
twice, so that it does not matter in which order the lists are tried (`ofSpecial_of_inRanges`,
`ofSpecial_of_syllable`).
-/

namespace Script

inductive BreakClass
  | carriageReturn
  | lineFeed
  | control
  | extend
  | nonJoiner
  | joiner
  | linker
  | consonant
  | spacingMark
  | prepend
  | regionalIndicator
  | leadingJamo
  | vowelJamo
  | trailingJamo
  /-- A Hangul syllable without a trailing consonant. -/
  | openSyllable
  /-- A Hangul syllable with a trailing consonant. -/
  | closedSyllable
  | pictograph
  | other
  deriving DecidableEq, Repr

namespace BreakClass

/-- The Hangul syllables stand in rows of 28, and the first one of a row is open. -/
def ofSyllable (code : Nat) : BreakClass :=
  if (code - 0xAC00) % 28 = 0 then .openSyllable else .closedSyllable

/-- The classes whose characters are listed. -/
def table : List (BreakClass × List (Nat × Nat)) :=
  [(.control, controlRanges), (.extend, extendRanges), (.nonJoiner, [(0x200C, 0x200C)]),
    (.joiner, [(0x200D, 0x200D)]), (.linker, linkerRanges), (.consonant, consonantRanges),
    (.spacingMark, spacingMarkRanges), (.prepend, prependRanges),
    (.regionalIndicator, [(0x1F1E6, 0x1F1FF)]), (.leadingJamo, leadingJamoRanges),
    (.vowelJamo, vowelJamoRanges), (.trailingJamo, trailingJamoRanges),
    (.pictograph, pictographRanges)]

/-- The class of a character outside printable ASCII. -/
def ofSpecial (c : Char) : BreakClass :=
  match table.find? fun entry => inRanges entry.2 c with
  | some entry => entry.1
  | none => if inRanges syllableRanges c then ofSyllable c.toNat else .other

/-- Every list is in order, and no two of them have a character in common. -/
theorem areExclusive_ranges : areExclusive (syllableRanges :: table.map Prod.snd) = true := by
  decide +kernel

/-- A listed character is of the class that lists it, in whatever order the classes are tried. -/
theorem ofSpecial_of_inRanges {own : BreakClass} {ranges : List (Nat × Nat)}
    (listed : (own, ranges) ∈ table) {c : Char} (here : inRanges ranges c = true) :
    ofSpecial c = own := by
  have exclusive : areExclusive (table.map Prod.snd) = true :=
    (Bool.and_eq_true_iff.1 areExclusive_ranges).2
  have found : table.find? (fun entry => inRanges entry.2 c) = some (own, ranges) :=
    find?_of_areExclusive exclusive listed here
  rw [ofSpecial, found]

/-- The classes of syllables do not depend on that order either. -/
theorem ofSpecial_of_syllable {c : Char} (here : inRanges syllableRanges c = true) :
    ofSpecial c = ofSyllable c.toNat := by
  have unlisted : table.find? (fun entry => inRanges entry.2 c) = none := by
    refine List.find?_eq_none.2 ?_
    intro entry listed
    exact not_inRanges_of_areExclusive areExclusive_ranges here (List.mem_map_of_mem listed)
  rw [ofSpecial, unlisted]
  exact if_pos here

/-- The class of a character. Printable ASCII is of no special class. -/
def ofChar (c : Char) : BreakClass :=
  if inRanges [(0x20, 0x7E)] c then .other
  else if c = '\r' then .carriageReturn
  else if c = '\n' then .lineFeed
  else ofSpecial c

/-- Controls and line ends stand alone. -/
def standsAlone : BreakClass → Bool
  | .carriageReturn | .lineFeed | .control => true
  | _ => false

/-- Classes that belong to whatever is before them. -/
def trails : BreakClass → Bool
  | .extend | .nonJoiner | .joiner | .linker | .spacingMark => true
  | _ => false

/-- Marks that may stand between a pictograph and the joiner after it. -/
def isMark : BreakClass → Bool
  | .extend | .nonJoiner | .linker => true
  | _ => false

/-- What may stand between two consonants that a virama links. -/
def isConjunctMark : BreakClass → Bool
  | .extend | .joiner | .linker => true
  | _ => false

/-- Does a Hangul syllable that has come to `last` go on with `next`? -/
def spells : BreakClass → BreakClass → Bool
  | .leadingJamo, .leadingJamo | .leadingJamo, .vowelJamo => true
  | .leadingJamo, .openSyllable | .leadingJamo, .closedSyllable => true
  | .openSyllable, .vowelJamo | .openSyllable, .trailingJamo => true
  | .vowelJamo, .vowelJamo | .vowelJamo, .trailingJamo => true
  | .closedSyllable, .trailingJamo | .trailingJamo, .trailingJamo => true
  | _, _ => false

end BreakClass
end Script
