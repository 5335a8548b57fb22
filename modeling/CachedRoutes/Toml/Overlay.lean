import CachedRoutes.Toml.Value

/-!
# Overlays

One document laid over another: tables are merged key by key, at every depth, and everything else in
the upper document takes the place of what is below.
-/

namespace CachedRoutes.Toml

mutual

/-- `upper` laid over `lower`. -/
def overlay (lower : Value) : Value → Value
  | .table entries =>
    match lower with
    | .table below => .table (overlayEntries below entries)
    | _ => .table entries
  | upper => upper

/-- The entries with further entries laid over them, one after the other. -/
def overlayEntries (lower : List (String × Value)) : List (String × Value) → List (String × Value)
  | [] => lower
  | (key, value) :: rest =>
    match lookup key lower with
    | some below => overlayEntries (put key (overlay below value) lower) rest
    | none => overlayEntries (put key value lower) rest

end

end CachedRoutes.Toml
