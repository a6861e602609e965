/-
  Codes that tell where they end.

  A `Serial` writes a value as bytes, and reads it back from the front of any text that begins
  with them.  Codes are put together from those of bytes and numbers: pairs, lists, optional
  values, and values that are given by others (`map`).
-/
import Mathlib.Data.Int.Notation
import Mathlib.Data.List.Basic
import Mathlib.Tactic.Common

/-- A code for the values of a type. -/
structure Serial (α : Type) where
  encode : α → List UInt8
  decode : List UInt8 → Option (α × List UInt8)
  decode_encode : ∀ a rest, decode (encode a ++ rest) = some (a, rest)

namespace Serial

variable {α β : Type}

def byte : Serial UInt8 where
  encode b := [b]
  decode
    | [] => none
    | b :: rest => some (b, rest)
  decode_encode _ _ := rfl

/-- A number as as many ones, and a zero. -/
def readNat : List UInt8 → Option (ℕ × List UInt8)
  | [] => none
  | b :: rest => if b = 0 then some (0, rest) else (readNat rest).map fun x => (x.1 + 1, x.2)

theorem readNat_replicate (n : ℕ) (rest : List UInt8) :
    readNat (List.replicate n 1 ++ 0 :: rest) = some (n, rest) := by
  induction n with
  | zero => rfl
  | succ n ih =>
    rw [List.replicate_succ, List.cons_append, readNat, if_neg (by decide), ih]
    rfl

def nat : Serial ℕ where
  encode n := List.replicate n 1 ++ [0]
  decode := readNat
  decode_encode n rest := by
    rw [List.append_assoc]
    exact readNat_replicate n rest

def pair (c : Serial α) (d : Serial β) : Serial (α × β) where
  encode x := c.encode x.1 ++ d.encode x.2
  decode text := do
    let (a, text) ← c.decode text
    let (b, text) ← d.decode text
    return ((a, b), text)
  decode_encode x rest := by
    simp [c.decode_encode, d.decode_encode]

/-- The code of the values that `f` gives in the other type. -/
def map (c : Serial α) (f : β → α) (g : α → β) (hg : ∀ b, g (f b) = b) : Serial β where
  encode b := c.encode (f b)
  decode text := (c.decode text).map fun x => (g x.1, x.2)
  decode_encode b rest := by
    simp [c.decode_encode, hg]

/-- The number of values, and then the values. -/
def readList (c : Serial α) : ℕ → List UInt8 → Option (List α × List UInt8)
  | 0, text => some ([], text)
  | n + 1, text => do
    let (a, text) ← c.decode text
    let (l, text) ← readList c n text
    return (a :: l, text)

theorem readList_flatMap (c : Serial α) (l : List α) (rest : List UInt8) :
    readList c l.length (l.flatMap c.encode ++ rest) = some (l, rest) := by
  induction l with
  | nil => rfl
  | cons a l ih =>
    rw [List.length_cons, List.flatMap_cons, List.append_assoc, readList, c.decode_encode]
    simp [ih]

def list (c : Serial α) : Serial (List α) where
  encode l := nat.encode l.length ++ l.flatMap c.encode
  decode text := do
    let (n, text) ← nat.decode text
    readList c n text
  decode_encode l rest := by
    rw [List.append_assoc, nat.decode_encode]
    exact readList_flatMap c l rest

def option (c : Serial α) : Serial (Option α) :=
  c.list.map Option.toList List.head? fun o => by cases o <;> rfl

def bool : Serial Bool := byte.map (fun b => if b then 1 else 0) (fun b => b = 1) fun b => by
  cases b <;> rfl

/-- A number and its sign. -/
def int : Serial ℤ :=
  (pair bool nat).map (fun n => (decide (n < 0), n.natAbs))
    (fun x => if x.1 then -(x.2 : ℤ) else x.2) fun n => by
      by_cases hn : n < 0
      · simp only [hn, decide_true, if_true]
        omega
      · simp only [hn, decide_false, Bool.false_eq_true, if_false]
        omega

/-- A character as three bytes. -/
def char : Serial Char :=
  (pair byte (pair byte byte)).map
    (fun c => ((c.toNat / 65536).toUInt8, (c.toNat / 256).toUInt8, c.toNat.toUInt8))
    (fun x => Char.ofNat (x.1.toNat * 65536 + x.2.1.toNat * 256 + x.2.2.toNat)) fun c => by
      have hc : c.toNat < 0x110000 := by
        rcases c.valid with h | h
        · exact Nat.lt_trans h (by decide)
        · exact h.2
      have heq : (c.toNat / 65536).toUInt8.toNat * 65536 + (c.toNat / 256).toUInt8.toNat * 256 +
          c.toNat.toUInt8.toNat = c.toNat := by
        simp only [UInt8.toNat_ofNat', Nat.toUInt8_eq]
        omega
      rw [heq]
      exact Char.ofNat_toNat c

def text : Serial (List Char) := char.list

def bytes : Serial (List UInt8) := byte.list

def string : Serial String := text.map String.toList String.ofList fun _ => String.ofList_toList

/-- The value that a text is the code of. -/
def read (c : Serial α) (text : List UInt8) : Option α := (c.decode text).map Prod.fst

theorem read_encode (c : Serial α) (a : α) : c.read (c.encode a) = some a := by
  have h := c.decode_encode a []
  rw [List.append_nil] at h
  rw [read, h]
  rfl

/-- A value that is not the only one has a code that is not empty. -/
theorem encode_ne_nil (c : Serial α) {a b : α} (h : a ≠ b) : c.encode a ≠ [] := by
  intro hnil
  have ha := c.decode_encode a (c.encode b)
  have hb := c.decode_encode b []
  rw [hnil, List.nil_append] at ha
  rw [List.append_nil, ha] at hb
  exact h (congrArg Prod.fst (Option.some.inj hb))

end Serial
