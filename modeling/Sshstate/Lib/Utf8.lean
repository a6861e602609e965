/-
  Byte strings read as UTF-8.

  `pieces` cuts a byte string at its characters; a byte that begins no encoding is a piece
  of its own and stands for the replacement character.  `runes` are the characters of the
  pieces, `toLower` maps them and `trimSpace` drops the white space at both ends.  An
  encoding is one piece (`pieces_encode_append`).
-/
import Mathlib.Data.List.DropRight
import Mathlib.Data.List.Induction
import Mathlib.Data.List.Infix
import Mathlib.Tactic.Common

namespace Utf8

/-- The character a byte string begins with. -/
def front (s : List UInt8) : Option Char := s.toByteArray.utf8DecodeChar? 0

theorem front_eq_some {s : List UInt8} {c : Char} :
    front s = some c ↔ String.utf8EncodeChar c <+: s := by
  constructor
  · intro h
    obtain ⟨l, hl⟩ := ByteArray.exists_of_utf8DecodeChar?_eq_some h
    refine ⟨l.data.toList, List.toByteArray_inj.1 ?_⟩
    rw [List.toByteArray_append, hl]
    congr 1
    exact ByteArray.ext (by simp)
  · rintro ⟨l, rfl⟩
    rw [front, List.toByteArray_append]
    exact ByteArray.utf8DecodeChar?_utf8EncodeChar_append

/-- The number of bytes of the first piece. -/
def width (s : List UInt8) : ℕ :=
  match front s with
  | some c => c.utf8Size
  | none => 1

theorem width_pos (s : List UInt8) : 0 < width s := by
  unfold width
  cases front s with
  | none => exact Nat.one_pos
  | some c => exact c.utf8Size_pos

/-- The pieces of a byte string, given a bound on their number. -/
def piecesFrom : ℕ → List UInt8 → List (List UInt8)
  | 0, _ => []
  | _ + 1, [] => []
  | n + 1, b :: s => (b :: s).take (width (b :: s)) :: piecesFrom n ((b :: s).drop (width (b :: s)))

/-- The pieces of a byte string. -/
def pieces (s : List UInt8) : List (List UInt8) := piecesFrom s.length s

theorem piecesFrom_eq {n : ℕ} {s : List UInt8} (h : s.length ≤ n) : piecesFrom n s = pieces s := by
  induction n using Nat.strong_induction_on generalizing s with
  | _ n ih =>
    cases s with
    | nil => cases n <;> rfl
    | cons b s =>
      obtain ⟨m, rfl⟩ : ∃ m, n = m + 1 := ⟨n - 1, by simp at h; omega⟩
      have hdrop : ((b :: s).drop (width (b :: s))).length ≤ s.length := by
        have := width_pos (b :: s)
        rw [List.length_drop, List.length_cons]
        omega
      rw [pieces, List.length_cons, piecesFrom, piecesFrom,
        ih m (Nat.lt_succ_self m) (hdrop.trans (by simpa using h))]
      rcases Nat.lt_or_ge s.length (m + 1) with hlt | hge
      · rw [ih s.length (by omega) hdrop]
      · simp at h; omega

@[simp] theorem pieces_nil : pieces [] = [] := rfl

theorem pieces_of_ne_nil {s : List UInt8} (h : s ≠ []) :
    pieces s = s.take (width s) :: pieces (s.drop (width s)) := by
  cases s with
  | nil => exact absurd rfl h
  | cons b s =>
    have hdrop : ((b :: s).drop (width (b :: s))).length ≤ s.length := by
      have := width_pos (b :: s)
      rw [List.length_drop, List.length_cons]
      omega
    rw [← piecesFrom_eq hdrop]
    rfl

theorem pieces_encode_append (c : Char) (s : List UInt8) :
    pieces (String.utf8EncodeChar c ++ s) = String.utf8EncodeChar c :: pieces s := by
  have hfront : front (String.utf8EncodeChar c ++ s) = some c :=
    front_eq_some.2 (List.prefix_append _ _)
  have hwidth : width (String.utf8EncodeChar c ++ s) = (String.utf8EncodeChar c).length := by
    rw [width, hfront, String.length_utf8EncodeChar]
  rw [pieces_of_ne_nil (by simp), hwidth, List.take_left, List.drop_left]

/-! ## Characters -/

/-- The character of a piece. -/
def rune (piece : List UInt8) : Char := (front piece).getD '\ufffd'

/-- The characters of a byte string. -/
def runes (s : List UInt8) : List Char := (pieces s).map rune

@[simp] theorem runes_nil : runes [] = [] := rfl

theorem rune_encode (c : Char) : rune (String.utf8EncodeChar c) = c := by
  rw [rune, front_eq_some.2 List.prefix_rfl, Option.getD_some]

theorem runes_encode_append (c : Char) (s : List UInt8) :
    runes (String.utf8EncodeChar c ++ s) = c :: runes s := by
  rw [runes, pieces_encode_append, List.map_cons, rune_encode, runes]

/-- A text is read back from its encoding. -/
theorem runes_flatMap (text : List Char) : runes (text.flatMap String.utf8EncodeChar) = text := by
  induction text with
  | nil => rfl
  | cons c text ih => rw [List.flatMap_cons, runes_encode_append, ih]

/-- The character of the first piece. -/
theorem rune_take_width (s : List UInt8) :
    (front s = some (rune (s.take (width s))) ∧
      String.utf8EncodeChar (rune (s.take (width s))) = s.take (width s)) ∨
    rune (s.take (width s)) = '\ufffd' := by
  cases h : front s with
  | some c =>
    have hpiece : s.take (width s) = String.utf8EncodeChar c := by
      have hwidth : width s = (String.utf8EncodeChar c).length := by
        rw [width, h, String.length_utf8EncodeChar]
      rw [hwidth]
      exact (List.prefix_iff_eq_take.1 (front_eq_some.1 h)).symm
    left
    rw [hpiece, rune_encode]
    exact ⟨rfl, rfl⟩
  | none =>
    have hpiece : front (s.take (width s)) = none := by
      rw [Option.eq_none_iff_forall_ne_some]
      intro c hc
      have hprefix := (front_eq_some.1 hc).trans (List.take_prefix (width s) s)
      rw [front_eq_some.2 hprefix] at h
      cases h
    exact .inr (by rw [rune, hpiece]; rfl)

/-- A byte string without replaced bytes is the encoding of its characters. -/
theorem flatMap_runes {s : List UInt8} (h : '\ufffd' ∉ runes s) :
    (runes s).flatMap String.utf8EncodeChar = s := by
  induction hn : s.length using Nat.strong_induction_on generalizing s with
  | _ n ih =>
    by_cases hs : s = []
    · simp [hs]
    · have hpos := width_pos s
      have hlen := List.length_pos_iff.2 hs
      rw [runes, pieces_of_ne_nil hs, List.map_cons, ← runes] at h ⊢
      rw [List.mem_cons, not_or] at h
      have hpiece := (rune_take_width s).resolve_right (Ne.symm h.1)
      rw [List.flatMap_cons, hpiece.2, ih _ (by rw [List.length_drop]; omega) h.2 rfl,
        List.take_append_drop]

/-! ## ASCII -/

/-- The character of an ASCII byte. -/
def charOf (b : UInt8) : Char := Char.ofNat b.toNat

theorem encode_of_ascii {c : Char} (h : c.toNat < 128) :
    String.utf8EncodeChar c = [UInt8.ofNat c.toNat] := by
  have hval : c.val.toNat ≤ 127 := Nat.le_of_lt_succ h
  rw [String.utf8EncodeChar, if_pos hval]
  rfl

theorem toNat_ofNat_of_ascii {n : ℕ} (h : n < 128) : (UInt8.ofNat n).toNat = n :=
  UInt8.toNat_ofNat_of_lt' (h.trans (by decide))

theorem charOf_ofNat {c : Char} (h : c.toNat < 128) : charOf (UInt8.ofNat c.toNat) = c := by
  rw [charOf, toNat_ofNat_of_ascii h, Char.ofNat_toNat]

theorem toNat_charOf {b : UInt8} (h : b.toNat < 128) : (charOf b).toNat = b.toNat := by
  have hascii : ∀ n < 128, (Char.ofNat n).toNat = n := by decide
  exact hascii b.toNat h

/-- The characters of an ASCII text. -/
theorem runes_of_ascii {s : List UInt8} (h : ∀ b ∈ s, b.toNat < 128) : runes s = s.map charOf := by
  have hs : (s.map charOf).flatMap String.utf8EncodeChar = s := by
    induction s with
    | nil => rfl
    | cons b s ih =>
      have hb := h b (by simp)
      rw [List.map_cons, List.flatMap_cons, ih fun x hx => h x (List.mem_cons_of_mem _ hx),
        encode_of_ascii (by rwa [toNat_charOf hb]), toNat_charOf hb, UInt8.ofNat_toNat]
      rfl
  rw [← hs, runes_flatMap, hs]

/-- A text whose characters are ASCII. -/
theorem ascii_of_runes {s : List UInt8} (h : ∀ r ∈ runes s, r.toNat < 128) :
    ∀ b ∈ s, b.toNat < 128 := by
  intro b hb
  rw [← flatMap_runes fun hr => absurd (h _ hr) (by decide)] at hb
  obtain ⟨r, hr, hb⟩ := List.mem_flatMap.1 hb
  rw [encode_of_ascii (h r hr), List.mem_singleton] at hb
  rw [hb, toNat_ofNat_of_ascii (h r hr)]
  exact h r hr

/-! ## Case and white space -/

/-- Every character of a byte string in lower case. -/
def toLower (lower : Char → Char) (s : List UInt8) : List UInt8 :=
  (runes s).flatMap fun c => String.utf8EncodeChar (lower c)

/-- The white space of Unicode. -/
def spaces : List Char :=
  ['\t', '\n', '\x0b', '\x0c', '\r', ' ', '\x85', '\xa0', '\u1680', '\u2000', '\u2001',
    '\u2002', '\u2003', '\u2004', '\u2005', '\u2006', '\u2007', '\u2008', '\u2009', '\u200a',
    '\u2028', '\u2029', '\u202f', '\u205f', '\u3000']

def blank (piece : List UInt8) : Bool := (front piece).any spaces.contains

/-- A byte string without the white space at its ends. -/
def trimSpace (s : List UInt8) : List UInt8 :=
  (((pieces s).dropWhile blank).rdropWhile blank).flatten

end Utf8
