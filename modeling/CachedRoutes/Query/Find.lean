import CachedRoutes.Code.Chain
import CachedRoutes.Code.Span
import CachedRoutes.Query.Head
import CachedRoutes.Query.Shape
import CachedRoutes.Settings.Basic

/-!
# Finding queries

Every head is judged: it has to stand in code, bind `data`, go on as a chain of calls of a known
shape, and the statement has to end after the chain. The heads that pass are the queries of the
file; each of the others has one reason.
-/

namespace CachedRoutes

/-- A recognised data-fetch statement, by character positions. -/
structure Query where
  /-- Where `await` starts. -/
  awaitAt : Nat
  /-- Where the client starts. -/
  exprAt : Nat
  /-- Where the chain ends, after its last `)`. -/
  stop : Nat
  /-- The client. -/
  client : String
  /-- What is fetched. -/
  shape : Query.Shape
  deriving DecidableEq, Repr

namespace Query

/-- What becomes of a head. -/
inductive Verdict where
  /-- It lies in a comment or in quoted text. -/
  | inert
  /-- It does not bind `data`. -/
  | noData
  /-- No chain of calls follows the client. -/
  | noChain
  /-- The methods have no known shape. -/
  | unknownShape (methods : List String)
  /-- The expression goes on after the chain. -/
  | continues (methods : List String)
  /-- It is a query. -/
  | accepted (query : Query)
  deriving DecidableEq, Repr

/-- The verdict on a head of the text, given the spans that are not code. -/
def judge (text : List Char) (inert : List Code.Span) (head : Head) : Verdict :=
  if inert.any fun span => span.covers head.start then .inert
  else if !Text.hasWord "data".toList none head.bindings then .noData
  else
    match Code.chain? (text.drop head.stop) with
    | none => .noChain
    | some (methods, rest) =>
      let client := String.ofList head.client
      match shape? client methods with
      | none => .unknownShape methods
      | some shape =>
        if Code.endsStatement rest then
          .accepted
            { awaitAt := head.awaitAt, exprAt := head.clientAt, stop := text.length - rest.length,
              client, shape }
        else .continues methods

/-- The heads of a text with their verdicts, in order. -/
def candidates (wrapping : Settings.Wrapping) (text : List Char) : List (Head × Verdict) :=
  let inert := Code.spans text
  (heads (wrapping.clients.map String.toList) text).map fun head => (head, judge text inert head)

/-- The query that a verdict accepts. -/
def Verdict.query? : Verdict → Option Query
  | .accepted query => some query
  | _ => none

/-- The queries of a text, in order. -/
def findAll (wrapping : Settings.Wrapping) (text : List Char) : List Query :=
  (candidates wrapping text).filterMap fun candidate => candidate.2.query?

/-- A list of names as the log shows it. -/
def quoteNames (names : List String) : String :=
  "[" ++ ", ".intercalate (names.map fun name => "\"" ++ name ++ "\"") ++ "]"

/-- What the log says about a head that is passed over. -/
def note? (text : List Char) : Head × Verdict → Option String
  | (head, .inert) =>
    some s!"Skipping match at byte {Text.byteOffset text head.start}: inside a comment or string"
  | (head, .noChain) =>
    let client := String.ofList head.client
    let place := Text.byteOffset text head.clientAt
    some s!"Skipping {client} chain at byte {place}: not a plain call chain"
  | (_, .unknownShape methods) => some s!"Skipping chain {quoteNames methods}: unknown shape"
  | (_, .continues methods) => some s!"Skipping chain {quoteNames methods}: expression continues"
  | (_, .noData) => none
  | (_, .accepted _) => none

end Query

end CachedRoutes
