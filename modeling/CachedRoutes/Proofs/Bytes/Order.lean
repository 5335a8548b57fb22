import CachedRoutes.Proofs.Bytes.Place
import Mathlib.Tactic.SplitIfs

/-!
# The order of texts is the order of their bytes

Texts are compared character by character, by the numbers of the characters. A table that is kept in
the order of its keys' UTF-8 bytes is in that order too (`lt_iff_encode_lt`): of two characters, the
smaller one has the smaller byte at the first place where their bytes differ (`falls_encodeChar`),
and neither is a beginning of the other, so that what stands behind them makes no difference
(`Falls.append_lt`).
-/

namespace CachedRoutes.Bytes

/-- The bytes differ somewhere, and at the first such place the left ones are smaller. -/
inductive Falls : List UInt8 → List UInt8 → Prop where
  | here {x y : UInt8} {xs ys : List UInt8} (h : x.toNat < y.toNat) : Falls (x :: xs) (y :: ys)
  | later {x y : UInt8} {xs ys : List UInt8} (heq : x.toNat = y.toNat) (h : Falls xs ys) :
      Falls (x :: xs) (y :: ys)

/-- Bytes fall below others at the first byte, or behind a first byte that they share. -/
lemma falls_cons_iff {x y : UInt8} {xs ys : List UInt8} :
    Falls (x :: xs) (y :: ys) ↔ x.toNat < y.toNat ∨ x.toNat = y.toNat ∧ Falls xs ys := by
  constructor
  · rintro (h | ⟨heq, h⟩)
    · exact .inl h
    · exact .inr ⟨heq, h⟩
  · rintro (h | ⟨heq, h⟩)
    · exact .here h
    · exact .later heq h

/-- Without bytes there is no place at which they are smaller. -/
lemma not_falls_nil {ys : List UInt8} : ¬ Falls [] ys := by
  rintro ⟨⟩

/-- Where bytes differ, what stands behind them makes no difference to their order. -/
lemma Falls.append_lt {xs ys : List UInt8} (h : Falls xs ys) (as bs : List UInt8) :
    xs ++ as < ys ++ bs := by
  induction h with
  | here hlt => exact List.cons_lt_cons_iff.mpr (.inl (UInt8.lt_iff_toNat_lt.mpr hlt))
  | later heq _ ih => exact List.cons_lt_cons_iff.mpr (.inr ⟨UInt8.toNat_inj.mp heq, ih⟩)

/-- The smaller of two characters has the smaller byte where they differ first. -/
lemma falls_encodeChar {c d : Char} (h : c < d) :
    Falls (String.utf8EncodeChar c) (String.utf8EncodeChar d) := by
  have hlt : c.val.toNat < d.val.toNat := h
  have hmax : d.val.toNat < 0x110000 := by
    have hvalid := d.valid
    simp only [UInt32.isValidChar, Nat.isValidChar] at hvalid
    omega
  -- all digits are digits to the base 64, so that they are those of one another's quotients
  have hquotients (n : Nat) : n / 4096 = n / 64 / 64 ∧ n / 262144 = n / 64 / 64 / 64 := by omega
  unfold String.utf8EncodeChar
  dsimp only
  generalize c.val.toNat = m at hlt
  generalize d.val.toNat = n at hlt hmax
  rw [(hquotients m).1, (hquotients m).2, (hquotients n).1, (hquotients n).2]
  -- one case for each pair of lengths
  split_ifs <;>
    simp only [falls_cons_iff, UInt8.toNat_ofNat', not_falls_nil, and_false, or_false] <;> omega

/-- A smaller text has the smaller bytes. -/
lemma encode_lt_encode {a b : List Char} (h : a < b) : encode a < encode b := by
  induction h with
  | nil =>
    rename_i c b
    obtain ⟨byte, bytes, hbytes⟩ := List.exists_cons_of_ne_nil (String.utf8EncodeChar_ne_nil (c := c))
    rw [encode_nil, encode_cons, hbytes]
    exact List.nil_lt_cons _ _
  | cons _ ih =>
    rw [encode_cons, encode_cons]
    exact List.append_left_lt ih
  | rel hlt =>
    rw [encode_cons, encode_cons]
    exact (falls_encodeChar hlt).append_lt _ _

/-- **Texts are ordered as their bytes are.** -/
lemma lt_iff_encode_lt {a b : String} : a < b ↔ encode a.toList < encode b.toList := by
  rw [String.lt_iff]
  refine ⟨encode_lt_encode, fun h => ?_⟩
  by_contra hnot
  rcases List.le_iff_lt_or_eq.mp (List.not_lt.mp hnot) with hlt | heq
  · exact List.lt_asymm h (encode_lt_encode hlt)
  · rw [heq] at h
    exact List.lt_irrefl _ h

end CachedRoutes.Bytes
