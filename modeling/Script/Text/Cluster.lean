import Script.Text.BreakClass

/-!
# Clusters

A text is cut into extended grapheme clusters: what a reader takes for one character, such as a
letter with its accents or a flag made of two letters. The cutting loses nothing
(`flatten_clusters`), and a control is a cluster of its own (`goesOn_of_standsAlone`).
-/

namespace Script
namespace Cluster

/-! ## Where a cluster goes on

A cluster that has begun is held with its last character first. -/

/-- The next consonant is linked when a consonant and marks, a virama among them, have just come. -/
def linksConsonant (begun : List Char) : Bool :=
  let marks := begun.takeWhile fun c => (BreakClass.ofChar c).isConjunctMark
  marks.any (fun c => BreakClass.ofChar c = .linker) &&
    (begun.drop marks.length).head?.any fun c => BreakClass.ofChar c = .consonant

/-- The next pictograph is joined when a pictograph, marks and a joiner have just come. -/
def joinsPictograph : List Char → Bool
  | [] => false
  | last :: earlier =>
    decide (BreakClass.ofChar last = .joiner) &&
      (earlier.dropWhile fun c => (BreakClass.ofChar c).isMark).head?.any fun c =>
        BreakClass.ofChar c = .pictograph

/-- Regional indicators go in pairs: the next one belongs to an odd run of them. -/
def awaitsIndicator (begun : List Char) : Bool :=
  (begun.takeWhile fun c => BreakClass.ofChar c = .regionalIndicator).length % 2 = 1

/-- Does a cluster that has begun go on with the character `c`? -/
def goesOn (begun : List Char) (c : Char) : Bool :=
  match begun.head?.map BreakClass.ofChar, BreakClass.ofChar c with
  | none, _ => false
  | some last, next =>
    if last.standsAlone || next.standsAlone then
      last = .carriageReturn && next = .lineFeed
    else
      next.trails || last = .prepend || last.spells next ||
        (next = .consonant && linksConsonant begun) ||
        (next = .pictograph && joinsPictograph begun) ||
        (next = .regionalIndicator && awaitsIndicator begun)

/-- A control after something else begins a cluster. -/
theorem goesOn_of_standsAlone {begun : List Char} {c : Char} (h : (BreakClass.ofChar c).standsAlone)
    (ne : BreakClass.ofChar c ≠ .lineFeed) : goesOn begun c = false := by
  cases begun <;> simp [goesOn, h, ne]

/-! ## Cutting -/

/-- Adds a character to the last cluster, which comes first, or begins another one. -/
def addChar : List (List Char) → Char → List (List Char)
  | [], c => [[c]]
  | begun :: done, c => if goesOn begun c then (c :: begun) :: done else [c] :: begun :: done

/-- Clusters in the order of the text, from clusters that run backwards like their characters. -/
def inOrder (done : List (List Char)) : List (List Char) :=
  (done.map List.reverse).reverse

theorem flatten_inOrder_addChar (done : List (List Char)) (c : Char) :
    (inOrder (addChar done c)).flatten = (inOrder done).flatten ++ [c] := by
  cases done with
  | nil => rfl
  | cons begun done =>
    rw [addChar]
    split <;> simp [inOrder]

theorem flatten_inOrder_foldl (text : List Char) (done : List (List Char)) :
    (inOrder (text.foldl addChar done)).flatten = (inOrder done).flatten ++ text := by
  induction text generalizing done with
  | nil => simp
  | cons c text ih => simp [ih, flatten_inOrder_addChar]

end Cluster

/-- The clusters of a text. -/
def clusters (text : List Char) : List (List Char) :=
  Cluster.inOrder (text.foldl Cluster.addChar [])

/-- The clusters make up the text. -/
theorem flatten_clusters (text : List Char) : (clusters text).flatten = text :=
  Cluster.flatten_inOrder_foldl text []

end Script
