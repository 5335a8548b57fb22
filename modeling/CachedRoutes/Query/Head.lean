import CachedRoutes.Text.Basic
import CachedRoutes.Text.Blank
import CachedRoutes.Text.Word

/-!
# Heads of data-fetch statements

A head is the start of a statement that destructures an awaited value,
`const { data } = await client`, up to the client's name. Heads are looked for from left to right
and do not overlap.
-/

namespace CachedRoutes.Query

/-- A head, by character positions. -/
structure Head where
  /-- Where the declaration starts. -/
  start : Nat
  /-- The text between the braces. -/
  bindings : List Char
  /-- Where `await` starts. -/
  awaitAt : Nat
  /-- Where the client starts. -/
  clientAt : Nat
  /-- The client. -/
  client : List Char
  deriving DecidableEq, Repr

/-- Where the client ends. -/
def Head.stop (head : Head) : Nat :=
  head.clientAt + head.client.length

/-- What follows `const` or `let`. -/
def afterDeclarator? (text : List Char) : Option (List Char) :=
  (Text.after? "const".toList text).orElse fun _ => Text.after? "let".toList text

/-- The text between braces after blanks, and what follows the closing brace. Braces do not nest. -/
def braced? (text : List Char) : Option (List Char × List Char) :=
  match Text.trimStart text with
  | '\x7b' :: rest =>
    let inner := rest.takeWhile fun c => c != '\x7b' && c != '\x7d'
    match rest.drop inner.length with
    | '\x7d' :: after => some (inner, after)
    | _ => none
  | _ => none

/-- What follows `=`, with blanks on both sides of it. -/
def afterEquals? (text : List Char) : Option (List Char) :=
  match Text.trimStart text with
  | '=' :: rest => some (Text.trimStart rest)
  | _ => none

/-- The first client that stands after `gap` characters of the text and ends at a word boundary. -/
def clientAfter? (clients : List (List Char)) (text : List Char) (gap : Nat) :
    Option (Nat × List Char) :=
  clients.findSome? fun client =>
    if client.isPrefixOf (text.drop gap)
        && Text.isBoundary (text.take gap ++ client).getLast?
          (text.drop (gap + client.length)).head? then
      some (gap, client)
    else none

/-- The client after at least one blank, and the number of blanks before it. As many blanks as
possible go before the client. -/
def client? (clients : List (List Char)) (text : List Char) : Option (Nat × List Char) :=
  let blanks := (text.takeWhile Text.isBlank).length
  (List.range blanks).reverse.findSome? fun gap => clientAfter? clients text (gap + 1)

/-- The head at the start of a text, `before` being the character in front of it and `start` the
position. -/
def head? (clients : List (List Char)) (before : Option Char) (start : Nat) (text : List Char) :
    Option Head := do
  guard (Text.isBoundary before text.head?)
  let declared ← afterDeclarator? text
  let (bindings, assigned) ← braced? declared
  let awaited ← afterEquals? assigned
  let fetched ← Text.after? "await".toList awaited
  let (gap, client) ← client? clients fetched
  return {
    start, bindings, client
    awaitAt := start + (text.length - awaited.length)
    clientAt := start + (text.length - fetched.length) + gap
  }

/-- The heads of a text, from position `start` on. After a head the search goes on behind its
client. -/
def headsFrom (clients : List (List Char)) (before : Option Char) (start : Nat)
    (text : List Char) : List Head :=
  match text with
  | [] => []
  | c :: rest =>
    match head? clients before start (c :: rest) with
    | some head =>
      let width := head.stop - start - 1
      head :: headsFrom clients ((c :: rest).take (width + 1)).getLast? (start + width + 1)
        (rest.drop width)
    | none => headsFrom clients (some c) (start + 1) rest
termination_by text.length
decreasing_by
  · simp only [List.length_drop, List.length_cons]; omega
  · simp only [List.length_cons]; omega

/-- The heads of a source text, in order. -/
def heads (clients : List (List Char)) (text : List Char) : List Head :=
  headsFrom clients none 0 text

end CachedRoutes.Query
