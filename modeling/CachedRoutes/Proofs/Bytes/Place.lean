import CachedRoutes.Text.Basic
import Mathlib.Data.List.Basic

/-!
# Byte offsets into a text

A program that reads a text by offsets into its UTF-8 bytes can go wrong where one that takes a list
apart cannot: an offset may lie behind the end, and a cut may lie inside a character. Such a program is
written here with values in `Option`, and has no value where it goes wrong.

* **Reading** (`read`) and **cutting** (`split`, `cut`): there is no byte behind the end, and
  `split_eq_some_iff` says that a text is cut between two of its characters or not at all.
* **Places** (`Places`): the offsets at which a rest of the text starts. What a byte reads as is known
  from the rest (`read_cons`): a character of ASCII reads as itself, and all the bytes of another
  character are 128 or more.
* **Landing inside a character** (`skip`): a search that passes over such bytes one by one comes out
  at the next character, wherever it has landed.
* **Two kinds of places.** In the bytes of a text (`At`), a character takes as many bytes as it has in
  UTF-8. Any bytes can be read one by one (`ReadsAs`), each as the character with its code; offsets and
  positions are then the same.
-/

namespace CachedRoutes.Bytes

/-- The bytes of a text in UTF-8. -/
def encode (text : List Char) : List UInt8 :=
  text.flatMap String.utf8EncodeChar

/-- The byte at an offset, as the character with its code. There is none behind the end. -/
def read (bytes : List UInt8) (i : Nat) : Option Char :=
  bytes[i]?.map Char.ofUInt8

/-- The part of a text in front of a byte offset, and the part behind it. There are none if the offset
lies inside a character or behind the end. -/
def split : List Char → Nat → Option (List Char × List Char)
  | text, 0 => some ([], text)
  | [], _ + 1 => none
  | c :: rest, n + 1 =>
    if c.utf8Size ≤ n + 1 then
      (split rest (n + 1 - c.utf8Size)).map fun parts => (c :: parts.1, parts.2)
    else none

/-- The text between two byte offsets. There is none if they are in the wrong order, or if the text
cannot be cut at one of them. -/
def cut (text : List Char) (start stop : Nat) : Option (List Char) := do
  guard (start ≤ stop)
  let (front, _) ← split text stop
  let (_, between) ← split front start
  return between

/-- Where a byte is read, the end is not reached. -/
lemma lt_of_read {bytes : List UInt8} {i : Nat} {d : Char} (h : read bytes i = some d) :
    i < bytes.length := by
  unfold read at h
  obtain ⟨b, hb, -⟩ := Option.map_eq_some_iff.mp h
  exact (List.getElem?_eq_some_iff.mp hb).1

/-- Before the end there is a byte to read. -/
lemma exists_read {bytes : List UInt8} {i : Nat} (h : i < bytes.length) :
    ∃ d, read bytes i = some d := by
  unfold read
  rw [List.getElem?_eq_getElem h]
  exact ⟨_, rfl⟩

/-! ## Characters of one byte and of several -/

/-- Characters that are one byte long. -/
def isAscii (c : Char) : Bool :=
  c.toNat < 128

/-- A character of ASCII is one byte long. -/
lemma utf8Size_of_isAscii {c : Char} (h : isAscii c = true) : c.utf8Size = 1 := by
  rw [isAscii, decide_eq_true_eq] at h
  rw [Char.utf8Size_eq_one_iff, UInt32.le_iff_toNat_le]
  exact Nat.le_of_lt_succ h

/-- The byte of a character of ASCII reads as that character. -/
lemma encodeChar_of_isAscii {c : Char} (h : isAscii c = true) :
    (String.utf8EncodeChar c).map Char.ofUInt8 = [c] := by
  rw [String.utf8EncodeChar_eq_singleton (utf8Size_of_isAscii h), List.map_singleton]
  congr 1
  apply Char.ext
  apply UInt32.toNat_inj.mp
  rw [isAscii, decide_eq_true_eq] at h
  have hval : c.val.toNat < 2 ^ 8 := Nat.lt_trans h (by decide)
  exact Nat.mod_eq_of_lt hval

/-- All the bytes of a longer character are 128 or more. -/
lemma isAscii_of_mem_encodeChar {c d : Char} (h : isAscii c = false)
    (hd : d ∈ (String.utf8EncodeChar c).map Char.ofUInt8) : isAscii d = false := by
  obtain ⟨b, hb, rfl⟩ := List.mem_map.mp hd
  have hhigh : 128 ≤ b.toNat := by
    rw [isAscii, decide_eq_false_iff_not, Nat.not_lt] at h
    have hval : c.toNat = c.val.toNat := rfl
    unfold String.utf8EncodeChar at hb
    dsimp only at hb
    rw [← hval] at hb
    split at hb
    · omega
    · split at hb
      · simp only [List.mem_cons, List.mem_nil_iff, or_false] at hb
        rcases hb with rfl | rfl <;> simp <;> omega
      · split at hb
        · simp only [List.mem_cons, List.mem_nil_iff, or_false] at hb
          rcases hb with rfl | rfl | rfl <;> simp <;> omega
        · simp only [List.mem_cons, List.mem_nil_iff, or_false] at hb
          rcases hb with rfl | rfl | rfl | rfl <;> simp <;> omega
  rw [isAscii, decide_eq_false_iff_not, Nat.not_lt]
  exact hhigh

/-- A long character is no character of ASCII. -/
lemma ne_of_isAscii {c x : Char} (hc : isAscii c = false) (hx : isAscii x = true) : c ≠ x := by
  rintro rfl
  rw [hc] at hx
  exact Bool.noConfusion hx

/-- What the first byte of a character reads as: the character itself, or no character of ASCII. -/
structure Lead (c d : Char) : Prop where
  ascii : isAscii c = true → d = c
  high : isAscii c = false → isAscii d = false

/-- The first byte reads as a given character of ASCII exactly if the character is that one. -/
lemma Lead.eq_iff {c d x : Char} (h : Lead c d) (hx : isAscii x = true) : d = x ↔ c = x := by
  cases hc : isAscii c with
  | true => rw [h.ascii hc]
  | false => exact iff_of_false (ne_of_isAscii (h.high hc) hx) (ne_of_isAscii hc hx)

/-- A class of characters that does not tell the long ones apart. -/
def Coarse (p : Char → Bool) : Prop :=
  ∀ x y, isAscii x = false → isAscii y = false → p x = p y

/-- A class that has characters of ASCII only has no long ones. -/
lemma eq_false_of_ascii {p : Char → Bool} (h : ∀ c, p c = true → isAscii c = true) {c : Char}
    (hc : isAscii c = false) : p c = false := by
  rw [Bool.eq_false_iff]
  intro hp
  rw [h c hp] at hc
  exact Bool.noConfusion hc

/-- A class that has characters of ASCII only does not tell the long ones apart. -/
lemma coarse_of_ascii {p : Char → Bool} (h : ∀ c, p c = true → isAscii c = true) : Coarse p := by
  intro x y hx hy
  rw [eq_false_of_ascii h hx, eq_false_of_ascii h hy]

/-- Such a class can be tested on the first byte. -/
lemma Lead.test {p : Char → Bool} {c d : Char} (h : Lead c d) (hp : Coarse p) : p d = p c := by
  cases hc : isAscii c with
  | true => rw [h.ascii hc]
  | false => exact hp d c (h.high hc) hc

/-! ## Places -/

/-- A relation between the offsets into some bytes and what is left of a text there. A character of the
text takes `size` bytes, from which it can be told what kind of character it is. -/
class Places (place : Nat → List Char → Prop) (bytes : outParam (List UInt8))
    (size : outParam (Char → Nat)) : Prop where
  size_pos : ∀ c, 0 < size c
  size_ascii : ∀ {c}, isAscii c = true → size c = 1
  /-- Behind a character is the place of what follows it. -/
  next : ∀ {i c rest}, place i (c :: rest) → place (i + size c) rest
  /-- Nothing is left at the end, and only there. -/
  stop : place bytes.length []
  length_eq : ∀ {i}, place i [] → i = bytes.length
  /-- A shorter rest starts later. -/
  lt_of_length_lt : ∀ {i j rest after}, place i rest → place j after →
    after.length < rest.length → i < j
  /-- A character of ASCII reads as itself. -/
  read_ascii : ∀ {i c rest}, place i (c :: rest) → isAscii c = true → read bytes i = some c
  /-- The bytes of a long character read as no character of ASCII. -/
  read_high : ∀ {i c rest}, place i (c :: rest) → isAscii c = false → ∀ {k}, k < size c →
    ∃ d, read bytes (i + k) = some d ∧ isAscii d = false

/-- If `total` characters are read in all, the place behind `n` of them is `offset n`. -/
structure Counts (place : Nat → List Char → Prop) (total : Nat) (offset : Nat → Nat) : Prop where
  eq_offset : ∀ {i n rest}, place i rest → n + rest.length = total → i = offset n

section Places

variable {place : Nat → List Char → Prop} {bytes : List UInt8} {size : Char → Nat}
  [hplaces : Places place bytes size] {rest : List Char} {i : Nat} {c : Char}

include hplaces

/-- Where something is left, the end is not reached. -/
lemma lt_length (h : place i (c :: rest)) : i < bytes.length :=
  Places.lt_of_length_lt h Places.stop (Nat.zero_lt_succ rest.length)

/-- No place lies behind the end. -/
lemma le_length (h : place i rest) : i ≤ bytes.length := by
  cases rest with
  | nil => exact Nat.le_of_eq (Places.length_eq h)
  | cons c rest => exact Nat.le_of_lt (lt_length h)

/-- Behind a character of ASCII the next one starts one byte later. -/
lemma next_ascii (h : place i (c :: rest)) (hc : isAscii c = true) : place (i + 1) rest := by
  have hnext := Places.next h
  rwa [hplaces.size_ascii hc] at hnext

/-- At the end no byte is read. -/
lemma read_nil (h : place i []) : read bytes i = none := by
  rw [Places.length_eq h, read, List.getElem?_eq_none (Nat.le_refl _)]
  rfl

/-- The first byte of a character is its lead. -/
lemma read_cons (h : place i (c :: rest)) : ∃ d, read bytes i = some d ∧ Lead c d := by
  cases hc : isAscii c with
  | true =>
    refine ⟨c, Places.read_ascii h hc, fun _ => rfl, fun hfalse => ?_⟩
    rw [hc] at hfalse
    exact Bool.noConfusion hfalse
  | false =>
    obtain ⟨d, hread, hd⟩ := Places.read_high h hc (hplaces.size_pos c)
    refine ⟨d, hread, fun htrue => ?_, fun _ => hd⟩
    rw [hc] at htrue
    exact Bool.noConfusion htrue

/-- At a place, a character of ASCII is read exactly if the rest starts with it. -/
lemma read_iff {x : Char} (h : place i rest) (hx : isAscii x = true) :
    read bytes i = some x ↔ rest.head? = some x := by
  cases rest with
  | nil => simp [read_nil h]
  | cons c rest =>
    obtain ⟨d, hread, hlead⟩ := read_cons h
    rw [hread, List.head?_cons, Option.some.injEq, Option.some.injEq]
    exact hlead.eq_iff hx

/-- The same of the test for a character. -/
lemma read_beq {x : Char} (h : place i rest) (hx : isAscii x = true) :
    (read bytes i == some x) = (rest.head? == some x) := by
  rw [Bool.eq_iff_iff, beq_iff_eq, beq_iff_eq]
  exact read_iff h hx

/-- Two characters of ASCII are not read one after the other where the rest does not start with
them. -/
lemma Lead.not_pair {d x y : Char} (hlead : Lead c d) (h : place i (c :: rest))
    (hx : isAscii x = true) (hy : isAscii y = true)
    (hno : ∀ tail, c = x → rest = y :: tail → False) :
    ¬ (d = x ∧ read bytes (i + 1) = some y) := by
  rintro ⟨hd, hread⟩
  obtain rfl := (hlead.eq_iff hx).mp hd
  rw [read_iff (next_ascii h hx) hy] at hread
  obtain ⟨tail, hrest⟩ := List.head?_eq_some_iff.mp hread
  exact hno tail rfl hrest

/-- **A search that passes over the bytes of long characters one by one passes over the character.** -/
lemma skip {α : Type} {f : Nat → α} (h : place i (c :: rest))
    (hf : isAscii c = false →
      ∀ j d, read bytes j = some d → isAscii d = false → f j = f (j + 1)) :
    f (i + 1) = f (i + size c) := by
  have hpos := hplaces.size_pos c
  cases hc : isAscii c with
  | true => rw [hplaces.size_ascii hc]
  | false =>
    have hsteps : ∀ k, k < size c → f (i + 1) = f (i + (k + 1)) := by
      intro k
      induction k with
      | zero => exact fun _ => rfl
      | succ k ih =>
        intro hk
        obtain ⟨d, hread, hd⟩ := Places.read_high h hc hk
        exact (ih (by omega)).trans (hf hc _ d hread hd)
    have hlast := hsteps (size c - 1) (Nat.sub_lt hpos Nat.one_pos)
    rwa [Nat.sub_add_cancel hpos] at hlast

end Places

/-! ## Places in the bytes of a text -/

/-- The empty text has no bytes. -/
@[simp] lemma encode_nil : encode [] = [] := rfl

/-- The bytes of a text are those of its first character, and those of the rest. -/
@[simp] lemma encode_cons (c : Char) (text : List Char) :
    encode (c :: text) = String.utf8EncodeChar c ++ encode text := rfl

/-- The bytes of two texts, one after the other. -/
@[simp] lemma encode_append (a b : List Char) : encode (a ++ b) = encode a ++ encode b :=
  List.flatMap_append

/-- A text has as many bytes as its length in UTF-8 says. -/
@[simp] lemma length_encode (text : List Char) : (encode text).length = Text.utf8Length text := by
  induction text with
  | nil => rfl
  | cons c text ih =>
    rw [encode_cons, List.length_append, ih, String.length_utf8EncodeChar]
    rfl

/-- The offset `i` is the place in the text at which `rest` starts. -/
structure At (text : List Char) (i : Nat) (rest : List Char) : Prop where
  exists_front : ∃ front, text = front ++ rest ∧ i = Text.utf8Length front

namespace At

variable {text rest : List Char} {i : Nat} {c : Char}

/-- The whole text starts at the beginning. -/
lemma start (text : List Char) : At text 0 text :=
  ⟨[], rfl, rfl⟩

/-- Behind a character is the place of what follows it. -/
lemma next (h : At text i (c :: rest)) : At text (i + c.utf8Size) rest := by
  obtain ⟨front, rfl, rfl⟩ := h
  exact ⟨front ++ [c], by simp, by simp [Text.utf8Length]⟩

/-- Behind a part of the text is the place of what follows it. -/
lemma append {a : List Char} (h : At text i (a ++ rest)) :
    At text (i + Text.utf8Length a) rest := by
  obtain ⟨front, rfl, rfl⟩ := h
  exact ⟨front ++ a, by simp, by simp⟩

/-- A place and the length of the rest add up to the length of the bytes. -/
lemma add_length (h : At text i rest) : i + Text.utf8Length rest = (encode text).length := by
  obtain ⟨front, rfl, rfl⟩ := h
  simp

/-- The place behind the end. -/
lemma length_eq (h : At text i []) : i = (encode text).length :=
  h.add_length

/-- Nothing is left at the end of the bytes. -/
lemma stop (text : List Char) : At text (encode text).length [] :=
  ⟨text, by simp, by simp⟩

/-- Two places are equal exactly if the same rest starts there. -/
lemma eq_iff {rest' : List Char} {j : Nat} (h : At text i rest) (h' : At text j rest') :
    i = j ↔ rest = rest' := by
  constructor
  · rintro rfl
    obtain ⟨front, htext, hi⟩ := h
    obtain ⟨front', htext', hi'⟩ := h'
    -- of two fronts of the same text, the longer one has more bytes
    rw [htext] at htext'
    rcases List.append_eq_append_iff.mp htext' with ⟨more, rfl, hrest⟩ | ⟨more, rfl, hrest⟩
    · cases more with
      | nil => exact hrest
      | cons d more =>
        have hpos := d.utf8Size_pos
        rw [hi', Text.utf8Length_append, Text.utf8Length] at hi
        omega
    · cases more with
      | nil => exact hrest.symm
      | cons d more =>
        have hpos := d.utf8Size_pos
        rw [hi, Text.utf8Length_append, Text.utf8Length] at hi'
        omega
  · rintro rfl
    have hlength := h.add_length
    have hlength' := h'.add_length
    omega

/-- The bytes from a place on are those of the rest. -/
lemma read_eq (h : At text i rest) (k : Nat) :
    read (encode text) (i + k) = ((encode rest).map Char.ofUInt8)[k]? := by
  obtain ⟨front, rfl, rfl⟩ := h
  unfold read
  rw [encode_append, ← length_encode front, List.getElem?_append_right (by omega),
    Nat.add_sub_cancel_left, List.getElem?_map]

/-- A character of ASCII reads as itself. -/
lemma read_ascii (h : At text i (c :: rest)) (hc : isAscii c = true) :
    read (encode text) i = some c := by
  have hread := h.read_eq 0
  rw [encode_cons, List.map_append, encodeChar_of_isAscii hc] at hread
  exact hread

/-- The bytes of a long character read as no character of ASCII. -/
lemma read_high (h : At text i (c :: rest)) (hc : isAscii c = false) {k : Nat}
    (hk : k < c.utf8Size) : ∃ d, read (encode text) (i + k) = some d ∧ isAscii d = false := by
  have hlength : k < ((String.utf8EncodeChar c).map Char.ofUInt8).length := by
    rw [List.length_map, String.length_utf8EncodeChar]
    exact hk
  refine ⟨_, ?_, isAscii_of_mem_encodeChar hc (List.getElem_mem hlength)⟩
  rw [h.read_eq k, encode_cons, List.map_append, List.getElem?_append_left hlength,
    List.getElem?_eq_getElem hlength]

/-- Of two rests of a text, the shorter one ends the longer one. -/
lemma between {rest' : List Char} {j : Nat} (h : At text i rest) (h' : At text j rest')
    (hle : rest'.length ≤ rest.length) : ∃ token, rest = token ++ rest' := by
  obtain ⟨front, htext, -⟩ := h
  obtain ⟨front', htext', -⟩ := h'
  have hsuffix : rest' <:+ rest :=
    List.suffix_of_suffix_length_le ⟨front', htext'.symm⟩ ⟨front, htext.symm⟩ hle
  obtain ⟨token, htoken⟩ := hsuffix
  exact ⟨token, htoken.symm⟩

/-- A shorter rest starts later. -/
lemma lt_of_length_lt {rest' : List Char} {j : Nat} (h : At text i rest) (h' : At text j rest')
    (hlt : rest'.length < rest.length) : i < j := by
  obtain ⟨token, rfl⟩ := h.between h' (Nat.le_of_lt hlt)
  have hj : j = i + Text.utf8Length token := (h'.eq_iff h.append).mpr rfl
  cases token with
  | nil => simp at hlt
  | cons c token =>
    have hpos := c.utf8Size_pos
    rw [Text.utf8Length] at hj
    omega

end At

instance (text : List Char) : Places (At text) (encode text) Char.utf8Size where
  size_pos := Char.utf8Size_pos
  size_ascii := utf8Size_of_isAscii
  next := At.next
  stop := At.stop text
  length_eq := At.length_eq
  lt_of_length_lt := At.lt_of_length_lt
  read_ascii := At.read_ascii
  read_high := At.read_high

/-- In the bytes of a text, positions have byte offsets. -/
lemma At.counts (text : List Char) : Counts (At text) text.length (Text.byteOffset text) where
  eq_offset := by
    rintro i n rest ⟨front, rfl, rfl⟩ hn
    have hfront : n = front.length := by
      rw [List.length_append] at hn
      omega
    rw [Text.byteOffset, hfront, List.take_left]

/-- A token of ASCII in front of a place ends with its last character. -/
lemma At.exists_last {text rest token : List Char} {i stop : Nat} (h : At text i (token ++ rest))
    (hstop : At text stop rest) (hne : token ≠ []) (htoken : ∀ c ∈ token, isAscii c = true) :
    ∃ last d, stop = last + 1 ∧ d ∈ token ∧ At text last (d :: rest) := by
  obtain ⟨front, d, rfl⟩ := (List.eq_nil_or_concat token).resolve_left hne
  have hd : d ∈ front ++ [d] := by simp
  rw [List.concat_eq_append] at h htoken
  have hlast : At text (i + Text.utf8Length front) (d :: rest) := by
    apply append
    simpa using h
  refine ⟨i + Text.utf8Length front, d, ?_, by simp, hlast⟩
  exact (hstop.eq_iff (next_ascii hlast (htoken d hd))).mpr rfl

/-! ## Places in any bytes -/

/-- The bytes, each read as the character with its code. -/
def characters (bytes : List UInt8) : List Char :=
  bytes.map Char.ofUInt8

/-- From an offset on, the bytes read as the given text. -/
structure ReadsAs (bytes : List UInt8) (i : Nat) (rest : List Char) : Prop where
  le_length : i ≤ bytes.length
  drop_eq : (characters bytes).drop i = rest

namespace ReadsAs

variable {bytes : List UInt8} {i : Nat} {c : Char} {rest : List Char}

/-- All the bytes read as their characters. -/
lemma start (bytes : List UInt8) : ReadsAs bytes 0 (characters bytes) :=
  ⟨Nat.zero_le _, rfl⟩

/-- There are as many characters left as bytes. -/
lemma add_length (h : ReadsAs bytes i rest) : i + rest.length = bytes.length := by
  have hle := h.le_length
  rw [← h.drop_eq, characters, List.length_drop, List.length_map]
  omega

/-- The byte at an offset is the first character from there on. -/
lemma read_eq (h : ReadsAs bytes i rest) : read bytes i = rest.head? := by
  rw [← h.drop_eq, List.head?_drop, characters, List.getElem?_map]
  rfl

/-- Behind a byte is the next one. -/
lemma next (h : ReadsAs bytes i (c :: rest)) : ReadsAs bytes (i + 1) rest := by
  have hlength := h.add_length
  rw [List.length_cons] at hlength
  refine ⟨by omega, ?_⟩
  rw [← List.drop_drop, h.drop_eq, List.drop_one, List.tail_cons]

end ReadsAs

instance (bytes : List UInt8) : Places (ReadsAs bytes) bytes (fun _ => 1) where
  size_pos _ := Nat.one_pos
  size_ascii _ := rfl
  next := ReadsAs.next
  stop := ⟨Nat.le_refl _, List.drop_of_length_le (Nat.le_of_eq (List.length_map _))⟩
  length_eq h := h.add_length
  lt_of_length_lt h h' hlt := by
    have hlength := h.add_length
    have hlength' := h'.add_length
    omega
  read_ascii h _ := h.read_eq
  read_high h hc k hk := by
    obtain rfl := Nat.lt_one_iff.mp hk
    exact ⟨_, h.read_eq, hc⟩

/-- In bytes that are read one by one, positions are offsets. -/
lemma ReadsAs.counts (bytes : List UInt8) :
    Counts (ReadsAs bytes) (characters bytes).length id where
  eq_offset h hn := by
    have hlength := h.add_length
    rw [characters, List.length_map] at hn
    exact Nat.add_right_cancel (hlength.trans hn.symm)

/-! ## Cutting -/

/-- **A text is cut between two of its characters or not at all.** -/
lemma split_eq_some_iff {text front rest : List Char} {n : Nat} :
    split text n = some (front, rest) ↔ text = front ++ rest ∧ Text.utf8Length front = n := by
  fun_induction split text n generalizing front with
  | case1 text =>
    constructor
    · intro h
      obtain ⟨rfl, rfl⟩ := Prod.mk.inj (Option.some.inj h)
      exact ⟨rfl, rfl⟩
    · rintro ⟨rfl, hlength⟩
      cases front with
      | nil => rfl
      | cons c front =>
        have hpos := c.utf8Size_pos
        rw [Text.utf8Length] at hlength
        omega
  | case2 n =>
    refine ⟨fun h => by simp at h, ?_⟩
    rintro ⟨htext, hlength⟩
    obtain ⟨rfl, -⟩ := List.append_eq_nil_iff.mp htext.symm
    simp [Text.utf8Length] at hlength
  | case3 c text n hle ih =>
    rw [Option.map_eq_some_iff]
    constructor
    · rintro ⟨⟨a, b⟩, hsplit, heq⟩
      obtain ⟨rfl, rfl⟩ := Prod.mk.inj heq
      obtain ⟨rfl, hlength⟩ := ih.mp hsplit
      refine ⟨rfl, ?_⟩
      rw [Text.utf8Length, hlength]
      omega
    · rintro ⟨htext, hlength⟩
      cases front with
      | nil => simp [Text.utf8Length] at hlength
      | cons d front =>
        obtain ⟨rfl, rfl⟩ := List.cons.inj htext
        rw [Text.utf8Length] at hlength
        exact ⟨(front, rest), ih.mpr ⟨rfl, by omega⟩, rfl⟩
  | case4 c text n hle =>
    refine ⟨fun h => by simp at h, ?_⟩
    rintro ⟨htext, hlength⟩
    cases front with
    | nil => simp [Text.utf8Length] at hlength
    | cons d front =>
      obtain ⟨rfl, -⟩ := List.cons.inj htext
      rw [Text.utf8Length] at hlength
      omega

/-- At a place the text can be cut. -/
lemma At.split {text rest : List Char} {i : Nat} (h : At text i rest) :
    ∃ front, text = front ++ rest ∧ i = Text.utf8Length front ∧
      Bytes.split text i = some (front, rest) := by
  obtain ⟨front, htext, hi⟩ := h
  exact ⟨front, htext, hi, split_eq_some_iff.mpr ⟨htext, hi.symm⟩⟩

/-- Between two places the text can be cut out. -/
lemma At.cut {text between rest : List Char} {i j : Nat} (h : At text i (between ++ rest))
    (h' : At text j rest) : Bytes.cut text i j = some between := by
  have hj : j = i + Text.utf8Length between := (h'.eq_iff h.append).mpr rfl
  obtain ⟨front, htext, hi⟩ := h
  have hstop : Bytes.split text j = some (front ++ between, rest) := by
    apply split_eq_some_iff.mpr
    rw [htext, Text.utf8Length_append, hj, hi]
    exact ⟨by simp, rfl⟩
  have hstart : Bytes.split (front ++ between) i = some (front, between) :=
    split_eq_some_iff.mpr ⟨rfl, hi.symm⟩
  have hle : i ≤ j := by omega
  unfold Bytes.cut
  simp [guard, hle, hstop, hstart]

end CachedRoutes.Bytes
