import Script.Value.Basic

/-!
# Identity and equality of values

Two notions. `identical` is what the language's `==` asks of two values that are neither both
integers nor both strings: equal content for plain values, the same object for arrays, hashes and
functions. `alike` looks into arrays and hashes, return markers and errors as well.
-/

namespace Script
namespace Value

/-- Are the two values one and the same? A return marker and an error are identical to nothing. -/
def identical : Value → Value → Bool
  | int m, int n => m = n
  | bool b, bool c => b = c
  | str s, str t => s = t
  | array i _, array j _ => i = j
  | hash i _, hash j _ => i = j
  | function i _, function j _ => i = j
  | builtin b, builtin c => b = c
  | null, null => true
  | _, _ => false

mutual

/-- Do the two values have the same content? Hashes have to agree in the order of their pairs;
functions have to be the same object. -/
def alike : Value → Value → Bool
  | array _ vs, array _ ws => alikeAll vs ws
  | hash _ ps, hash _ qs => alikePairs ps qs
  | returned v, returned w => alike v w
  | error e, error f => e = f
  | v, w => v.identical w

/-- Are the values alike, one by one? -/
def alikeAll : List Value → List Value → Bool
  | [], [] => true
  | v :: vs, w :: ws => alike v w && alikeAll vs ws
  | _, _ => false

/-- Are the pairs alike, one by one? -/
def alikePairs : Table Key Value → Table Key Value → Bool
  | [], [] => true
  | (j, v) :: ps, (k, w) :: qs => j = k && alike v w && alikePairs ps qs
  | _, _ => false

end

end Value
end Script
