/-! Look-ups past the end of a table, and sizes that no table has. Positions and sizes are 64-bit
words, and a table takes up at most half of the memory that words can address. -/

namespace ClusterDynamics

/-- A position that a table of `size` entries does not have. -/
structure OutOfRange where
  index : Nat
  size : Nat
  deriving DecidableEq, Repr

def entryAt {α : Type} (xs : Array α) (i : Nat) : Except OutOfRange α :=
  match xs[i]? with
  | some a => .ok a
  | none => .error ⟨i, xs.size⟩

def checkRange (i size : Nat) : Except OutOfRange Unit :=
  if i < size then .ok () else .error ⟨i, size⟩

def wordLimit : Nat := 18446744073709551616

/-- The largest number of words that a table can take up. -/
def tableLimit : Nat := 1152921504606846975

/-- A position or size that arithmetic gave, which must still be a word. -/
def word (n : Nat) : Except OutOfRange Nat :=
  if n < wordLimit then .ok n else .error ⟨n, wordLimit⟩

/-- The number of entries of a table with the given extents. They are multiplied from the left, and
every product on the way must be a word. -/
def extentProduct (extents : List Nat) : Except OutOfRange Nat :=
  extents.foldlM (fun n extent => word (n * extent)) 1

/-- There must be room for a table of `entries` entries of `words` words each. -/
def checkRoom (entries words : Nat) : Except OutOfRange Unit :=
  if entries * words ≤ tableLimit then .ok () else .error ⟨entries * words, tableLimit⟩

end ClusterDynamics
