/-! Character properties are given as tables of code point intervals beyond ASCII, both ends
included, in increasing order. -/

namespace KeyspaceQuery.Text

abbrev Ranges := List (Nat × Nat)

/-- Some interval of the table holds the code point of `c`. -/
def Ranges.holds (table : Ranges) (c : Char) : Bool :=
  table.any fun (first, last) => first ≤ c.toNat && c.toNat ≤ last

end KeyspaceQuery.Text
