/-!
# Cache keys in source text

The key of a route is written as a literal: quoted text when the route has no parameters, and
otherwise a template that puts the value of each parameter behind the key's base. Characters that
would end or open something inside the literal are escaped.
-/

namespace CachedRoutes.Query

/-- The base inside single quotes. -/
def escapeQuoted : List Char → List Char
  | [] => []
  | c :: rest =>
    if c = '\\' || c = '\x27' then '\\' :: c :: escapeQuoted rest else c :: escapeQuoted rest

/-- The base inside backticks, where `$` before an opening brace is escaped too. -/
def escapeTemplate : List Char → List Char
  | [] => []
  | '$' :: '\x7b' :: rest => '\\' :: '$' :: '\x7b' :: escapeTemplate rest
  | c :: rest =>
    if c = '\\' || c = '\x60' then '\\' :: c :: escapeTemplate rest else c :: escapeTemplate rest

/-- The interpolation of one parameter, with the dash in front of it. -/
def interpolation (params parameter : List Char) : List Char :=
  ['-', '$', '\x7b'] ++ params ++ ['.'] ++ parameter ++ ['\x7d']

/-- The key literal of a route: its base, and the values of its parameters. -/
def keyLiteral (params base : List Char) (parameters : List (List Char)) : List Char :=
  if parameters.isEmpty then ['\x27'] ++ escapeQuoted base ++ ['\x27']
  else ['\x60'] ++ escapeTemplate base ++ parameters.flatMap (interpolation params) ++ ['\x60']

end CachedRoutes.Query
