import CachedRoutes.Proofs.Code.Grammar
import CachedRoutes.Proofs.Code.Span

/-!
# Printed calls

Calls of methods with quoted texts as arguments, written out as a chain `.a('x').b('y', 'z')`. The
texts may look like anything, also like code.

* **Read back** (`calls?_printCalls`): the scanner of call chains reads the methods that were printed,
  and stops behind the last call.
* **Woven code** (`Woven`): text whose braces all stand in quoted parts. Printed calls are woven, and
  what looks like a declaration in woven code is inside of a span (`Woven.covered`).
-/

namespace CachedRoutes.Code

/-! ## Printing -/

/-- A call of a method on texts in single quotes. -/
structure LiteralCall where
  method : String
  /-- What stands between the quotes of each argument. -/
  arguments : List (List Char)
  deriving DecidableEq, Repr

/-- The text in single quotes. -/
def literal (body : List Char) : List Char :=
  '\x27' :: (body ++ ['\x27'])

/-- Arguments with a comma and a space between them. -/
def printArguments (arguments : List (List Char)) : List Char :=
  [',', ' '].intercalate (arguments.map literal)

def LiteralCall.print (call : LiteralCall) : List Char :=
  '.' :: (call.method.toList ++ '(' :: (printArguments call.arguments ++ [')']))

def printCalls (calls : List LiteralCall) : List Char :=
  calls.flatMap LiteralCall.print

/-- A call that can be printed: its method is a name, and each argument can stand between quotes. -/
structure LiteralCall.IsPrintable (call : LiteralCall) : Prop where
  method : IsName call.method.toList
  arguments : ∀ argument ∈ call.arguments, QuotedBody '\x27' argument

/-- The first argument is printed as a literal, with a separator behind it if there are others. -/
lemma printArguments_cons (first : List Char) (rest : List (List Char)) :
    ∃ separator, printArguments (first :: rest) = literal first ++ separator ++ printArguments rest ∧
      (separator = [] ∨ separator = [',', ' ']) := by
  cases rest with
  | nil => exact ⟨[], by simp [printArguments, List.intercalate], .inl rfl⟩
  | cons second rest => exact ⟨[',', ' '], by simp [printArguments, List.intercalate], .inr rfl⟩

/-! ## Reading back -/

/-- A character that is no parenthesis, slash or quote counts nothing. -/
lemma afterParen?_char {c : Char} (hopen : c ≠ '(') (hclose : c ≠ ')') (hmark : isInertMark c = false)
    (depth : Nat) (rest : List Char) :
    afterParen? depth (c :: rest) = afterParen? depth rest := by
  simp only [isInertMark, Bool.or_eq_false_iff, beq_eq_false_iff_ne] at hmark
  exact afterParen?_other hopen hclose hmark.2 fun hslash => absurd hslash hmark.1

/-- A printed body ends with its closing quote. -/
lemma afterQuoted?_literal {body : List Char} (h : QuotedBody '\x27' body) (rest : List Char) :
    afterQuoted? '\x27' (body ++ ['\x27'] ++ rest) = some rest := by
  rw [List.append_assoc]
  exact afterQuoted?_body (.inl rfl) h

/-- Nor does a quoted text. -/
lemma afterParen?_literal {body : List Char} (h : QuotedBody '\x27' body) (depth : Nat)
    (rest : List Char) : afterParen? depth (literal body ++ rest) = afterParen? depth rest := by
  rw [literal, List.cons_append, afterParen?_quote (by decide), afterQuoted?_literal h rest,
    Option.bind_some]

/-- The parenthesis behind the arguments closes the call. -/
lemma afterParen?_printArguments {arguments : List (List Char)}
    (h : ∀ argument ∈ arguments, QuotedBody '\x27' argument) (rest : List Char) :
    afterParen? 0 (printArguments arguments ++ ')' :: rest) = some rest := by
  induction arguments with
  | nil => simp [printArguments, List.intercalate, afterParen?]
  | cons first others ih =>
    have hothers := ih fun argument hmem => h argument (List.mem_cons_of_mem _ hmem)
    obtain ⟨separator, heq, hseparator⟩ := printArguments_cons first others
    rw [heq, List.append_assoc, List.append_assoc, afterParen?_literal (h first (by simp))]
    rcases hseparator with rfl | rfl
    · exact hothers
    · rw [List.cons_append, List.singleton_append,
        afterParen?_char (by decide) (by decide) (by decide),
        afterParen?_char (by decide) (by decide) (by decide)]
      exact hothers

/-- A call without blanks, and the calls behind it. -/
lemma calls?_call {method : String} (hmethod : IsName method.toList)
    {arguments after rest : List Char} {methods : List String}
    (hclosed : afterParen? 0 arguments = some after) (hafter : calls? after = some (methods, rest)) :
    calls? ('.' :: (method.toList ++ '(' :: arguments)) = some (method :: methods, rest) := by
  have hend : ∀ c ∈ ('(' :: arguments).head?, isNameChar c = false := by
    intro c hc
    obtain rfl := Option.some.inj hc
    decide
  rw [calls?_step (skipTrivia_cons rfl (by simp)) (skipTrivia_name hmethod _) hmethod hend
    (skipTrivia_cons rfl (by simp)) hclosed, hafter]
  rfl

/-- **Printed calls are read back,** up to a text with which no further call starts. -/
lemma calls?_printCalls {calls : List LiteralCall} (h : ∀ call ∈ calls, call.IsPrintable)
    {rest : List Char} (hrest : (skipTrivia rest).head? ≠ some '.') :
    calls? (printCalls calls ++ rest) = some (calls.map LiteralCall.method, rest) := by
  induction calls with
  | nil =>
    rw [printCalls, List.flatMap_nil, List.nil_append, calls?]
    split
    · rename_i dotted hdot
      simp [hdot] at hrest
    · rfl
  | cons first others ih =>
    obtain ⟨hmethod, harguments⟩ := h first (by simp)
    have hothers := ih fun call hmem => h call (List.mem_cons_of_mem _ hmem)
    have htext : printCalls (first :: others) ++ rest = '.' :: (first.method.toList
        ++ '(' :: (printArguments first.arguments ++ ')' :: (printCalls others ++ rest))) := by
      simp [printCalls, LiteralCall.print]
    rw [htext]
    exact calls?_call hmethod (afterParen?_printArguments harguments _) hothers

/-! ## Woven code -/

/-- Code without slashes and braces, and quoted texts. -/
inductive Woven : List Char → Prop where
  | nil : Woven []
  | code {c : Char} {rest : List Char} (hmark : isInertMark c = false) (hbrace : c ≠ '\x7b')
      (hrest : Woven rest) : Woven (c :: rest)
  | quoted {body rest : List Char} (hbody : QuotedBody '\x27' body) (hrest : Woven rest) :
      Woven (literal body ++ rest)

/-- Code without quotes, slashes and braces may stand in front of woven text. -/
lemma Woven.append {code rest : List Char} (hcode : ∀ c ∈ code, isInertMark c = false ∧ c ≠ '\x7b')
    (hrest : Woven rest) : Woven (code ++ rest) := by
  induction code with
  | nil => exact hrest
  | cons c code ih =>
    obtain ⟨hmark, hbrace⟩ := hcode c (by simp)
    exact .code hmark hbrace (ih fun d hd => hcode d (List.mem_cons_of_mem _ hd))

/-- A name is code. -/
lemma Woven.append_name {name rest : List Char} (hname : IsName name) (hrest : Woven rest) :
    Woven (name ++ rest) := by
  apply Woven.append _ hrest
  intro c hc
  have hchar := hname.chars c hc
  constructor
  · rw [Bool.eq_false_iff]
    intro hmark
    simp only [isInertMark, isQuote, backtick, Bool.or_eq_true, beq_iff_eq] at hmark
    rcases hmark with rfl | (rfl | rfl) | rfl <;> simp [isNameChar] at hchar
  · rintro rfl
    simp [isNameChar] at hchar

/-- Printed arguments may stand in front of woven text. -/
lemma Woven.append_arguments {arguments : List (List Char)}
    (h : ∀ argument ∈ arguments, QuotedBody '\x27' argument) {rest : List Char} (hrest : Woven rest) :
    Woven (printArguments arguments ++ rest) := by
  induction arguments with
  | nil => simpa [printArguments, List.intercalate] using hrest
  | cons first others ih =>
    have hothers := ih fun argument hmem => h argument (List.mem_cons_of_mem _ hmem)
    obtain ⟨separator, heq, hseparator⟩ := printArguments_cons first others
    rw [heq, List.append_assoc, List.append_assoc]
    apply Woven.quoted (h first (by simp))
    rcases hseparator with rfl | rfl
    · exact hothers
    · exact .code rfl (by simp) (.code rfl (by simp) hothers)

/-- **Printed calls are woven.** -/
lemma Woven.append_calls {calls : List LiteralCall} (h : ∀ call ∈ calls, call.IsPrintable)
    {rest : List Char} (hrest : Woven rest) : Woven (printCalls calls ++ rest) := by
  induction calls with
  | nil => exact hrest
  | cons first others ih =>
    obtain ⟨hmethod, harguments⟩ := h first (by simp)
    have hothers := ih fun call hmem => h call (List.mem_cons_of_mem _ hmem)
    have htext : printCalls (first :: others) ++ rest = '.' :: (first.method.toList
        ++ '(' :: (printArguments first.arguments ++ ')' :: (printCalls others ++ rest))) := by
      simp [printCalls, LiteralCall.print]
    rw [htext]
    apply Woven.code rfl (by simp)
    apply Woven.append_name hmethod
    apply Woven.code rfl (by simp)
    apply Woven.append_arguments harguments
    exact .code rfl (by simp) hothers

/-- A quote stands in front of every opening brace. -/
lemma Woven.ne_brace {text : List Char} (h : Woven text) {run : List Char} (hrun : '\x27' ∉ run)
    (tail : List Char) : text ≠ run ++ '\x7b' :: tail := by
  induction h generalizing run with
  | nil => simp
  | code hmark hbrace hrest ih =>
    intro heq
    cases run with
    | nil => exact hbrace (List.cons.inj heq).1
    | cons d run =>
      exact ih (fun hmem => hrun (List.mem_cons_of_mem _ hmem)) (List.cons.inj heq).2
  | quoted hbody hrest ih =>
    intro heq
    cases run with
    | nil => simp [literal] at heq
    | cons d run =>
      obtain ⟨rfl, -⟩ := List.cons.inj heq
      simp at hrun

/-- A character of code starts no span. -/
lemma spansFrom_code {c : Char} (hmark : isInertMark c = false) (start : Nat) (rest : List Char) :
    spansFrom start (c :: rest) = spansFrom (start + 1) rest := by
  apply spansFrom_cons_none
  rw [Option.eq_none_iff_forall_ne_some]
  intro after hafter
  rw [afterInert?_starts hafter] at hmark
  exact Bool.noConfusion hmark

/-- Code in front of a text only moves its spans. -/
lemma spansFrom_append_code {code : List Char} (hcode : ∀ c ∈ code, isInertMark c = false) (start : Nat)
    (rest : List Char) : spansFrom start (code ++ rest) = spansFrom (start + code.length) rest := by
  induction code generalizing start with
  | nil => rfl
  | cons c code ih =>
    rw [List.cons_append, spansFrom_code (hcode c (by simp)),
      ih (fun d hd => hcode d (List.mem_cons_of_mem _ hd)), List.length_cons, Nat.add_assoc,
      Nat.add_comm 1]

/-- A printed literal is a span of its own. -/
lemma spansFrom_literal {body : List Char} (hbody : QuotedBody '\x27' body) (start : Nat)
    (rest : List Char) :
    spansFrom start (literal body ++ rest)
      = ⟨start, start + (literal body).length⟩
        :: spansFrom (start + (literal body).length) rest := by
  have hinert : afterInert? '\x27' (body ++ ['\x27'] ++ rest) = some rest := by
    have hquoted := afterQuoted?_literal hbody rest
    simp only [afterInert?, hquoted, Option.getD_some]
    exact if_pos rfl
  have hlength : (body ++ ['\x27'] ++ rest).length + 1 - rest.length = (literal body).length := by
    simp only [literal, List.length_append, List.length_cons, List.length_nil]
    omega
  rw [literal, List.cons_append, spansFrom_cons_some hinert, hlength]
  rfl

/-- **What looks like a declaration in woven code is quoted:** a span covers every place from which an
opening brace can be reached without a quote. -/
lemma Woven.covered {text : List Char} (h : Woven text) (start : Nat)
    {skipped run tail : List Char} (hrun : '\x27' ∉ run)
    (hcut : text = skipped ++ (run ++ '\x7b' :: tail)) :
    ∃ span ∈ spansFrom start text, span.covers (start + skipped.length) = true := by
  induction h generalizing start skipped with
  | nil => simp at hcut
  | code hmark hbrace hrest ih =>
    cases skipped with
    | nil => exact absurd hcut ((Woven.code hmark hbrace hrest).ne_brace hrun tail)
    | cons d skipped =>
      rw [spansFrom_code hmark]
      obtain ⟨span, hspan, hcovers⟩ := ih (start + 1) (List.cons.inj hcut).2
      refine ⟨span, hspan, ?_⟩
      rw [List.length_cons, Nat.add_comm skipped.length, ← Nat.add_assoc]
      exact hcovers
  | @quoted body rest hbody hrest ih =>
    rw [spansFrom_literal hbody]
    by_cases hlength : skipped.length < (literal body).length
    · refine ⟨_, List.mem_cons_self, ?_⟩
      rw [Span.covers_iff]
      exact ⟨Nat.le_add_right _ _, Nat.add_lt_add_left hlength _⟩
    · -- the place is behind the quoted text
      have hprefix := List.prefix_of_prefix_length_le (List.prefix_append (literal body) _)
        (hcut ▸ List.prefix_append skipped _) (Nat.le_of_not_lt hlength)
      obtain ⟨behind, rfl⟩ := hprefix
      rw [List.append_assoc] at hcut
      obtain ⟨span, hspan, hcovers⟩ := ih _ (List.append_cancel_left hcut)
      refine ⟨span, List.mem_cons_of_mem _ hspan, ?_⟩
      rw [List.length_append, ← Nat.add_assoc]
      exact hcovers

end CachedRoutes.Code
