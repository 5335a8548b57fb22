import CachedRoutes.Code.Input
import CachedRoutes.Code.Invocation
import CachedRoutes.Query.Find
import CachedRoutes.Query.Key
import CachedRoutes.Route

/-!
# Wrapping the query of a file

A file is changed only when it has exactly one query, reads every parameter of its route, and the
query depends on nothing that the key leaves out. Then the awaited expression is handed to the
caching function, and all text before and after it stays as it is.
-/

namespace CachedRoutes.Query

/-- Why a file's query is left alone. -/
inductive Abstention where
  /-- There is no query. -/
  | noQuery
  /-- There are several queries. -/
  | severalQueries (count : Nat)
  /-- A parameter of the route is not read from the given object. -/
  | unreadParameter (params parameter : List Char)
  /-- The query depends on something that is not in the key. -/
  | requestInput (input : List Char)
  deriving DecidableEq, Repr

/-- The reason in words. -/
def Abstention.reason : Abstention → String
  | noQuery => "no recognizable data-fetch query"
  | severalQueries count => s!"{count} candidate queries, cannot choose one"
  | unreadParameter params parameter =>
    let name := String.ofList parameter
    "route parameter `" ++ name ++ "` is not read as `" ++ String.ofList params ++ "." ++ name
      ++ "`"
  | requestInput input =>
    "query depends on request input `" ++ String.ofList input ++ "` not in the cache key"

/-- What comes of an attempt to wrap the query of a file. -/
inductive Attempt where
  /-- The query was wrapped; the new text. -/
  | wrapped (query : Query) (text : List Char)
  /-- The text stays as it is. -/
  | abstained (why : Abstention)
  /-- The caching function is called already. -/
  | alreadyWrapped
  deriving DecidableEq, Repr

/-- The spaces and tabs that start the last line of the given text. -/
def indentAfter (before : List Char) : List Char :=
  (before.reverse.takeWhile (· != '\n')).reverse.takeWhile Text.isIndent

/-- The text that takes the place of an awaited expression. -/
def wrappedExpression (wrapping : Settings.Wrapping) (policy : Policy)
    (parameters : List (List Char)) (indent expr : List Char) : List Char :=
  "await ".toList ++ wrapping.wrapper.toList ++ "(\n".toList
    ++ indent ++ "  async () => await ".toList ++ expr ++ ",\n".toList
    ++ indent ++ "  [".toList ++ keyLiteral wrapping.params.toList policy.keyBase.toList parameters
    ++ "],\n".toList
    ++ indent ++ "  \x7b revalidate: ".toList ++ (toString policy.revalidate).toList
    ++ ", tags: [".toList ++ (policy.tag.expression wrapping.registry).toList ++ "] \x7d\n".toList
    ++ indent ++ ")()".toList

/-- The text with the query's awaited expression wrapped. -/
def wrapText (wrapping : Settings.Wrapping) (policy : Policy) (parameters : List (List Char))
    (text : List Char) (query : Query) : List Char :=
  let before := text.take query.awaitAt
  let expr := (text.take query.stop).drop query.exprAt
  before ++ wrappedExpression wrapping policy parameters (indentAfter before) expr
    ++ text.drop query.stop

/-- The first parameter that the text does not read from the parameter object. -/
def unreadParameter? (params text : List Char) (parameters : List (List Char)) :
    Option (List Char) :=
  parameters.find? fun parameter => !Text.contains (params ++ '.' :: parameter) text

/-- The arguments of a query: its expression behind the client. -/
def arguments (text : List Char) (query : Query) : List Char :=
  (text.take query.stop).drop (query.exprAt + query.client.length)

/-- Why a file's single query may not be wrapped, if so. -/
def objection? (wrapping : Settings.Wrapping) (route : Route) (text : List Char) (query : Query) :
    Option Abstention :=
  let params := wrapping.params.toList
  match unreadParameter? params text route.parameters with
  | some parameter => some (.unreadParameter params parameter)
  | none =>
    (Code.requestInput? ⟨params, route.parameters⟩ .plain (arguments text query)).map .requestInput

/-- Wraps the query of a file, if there is exactly one and nothing speaks against it. -/
def wrap (wrapping : Settings.Wrapping) (route : Route) (policy : Policy) (text : List Char) :
    Attempt :=
  if Code.callsFunction wrapping.wrapper.toList text then .alreadyWrapped
  else
    match findAll wrapping text with
    | [] => .abstained .noQuery
    | [query] =>
      match objection? wrapping route text query with
      | some why => .abstained why
      | none => .wrapped query (wrapText wrapping policy route.parameters text query)
    | several => .abstained (.severalQueries several.length)

/-- What the log says about an attempt. -/
def notes (wrapping : Settings.Wrapping) (route : Route) (text : List Char) :
    Attempt → List String
  | .alreadyWrapped => []
  | .abstained _ => (candidates wrapping text).filterMap (note? text)
  | .wrapped query _ =>
    (candidates wrapping text).filterMap (note? text)
      ++ [s!"Wrapped {query.shape.name} query on {query.client} for {route.text}"]

end CachedRoutes.Query
