/-
  Base64 with the URL alphabet and without padding.

  Three bytes are four digits of six bits; one or two bytes at the end are two or
  three digits, the last of them filled up with zero bits.  `decode` does not look
  at the bits that fill up, so several texts decode to the same bytes; of these
  `encode` writes one.
-/
import Mathlib.Data.UInt
import Mathlib.Tactic.Common

namespace Base64

/-- The digit of the value `n`, for `n < 64`. -/
def digit (n : ℕ) : Char :=
  if n < 26 then Char.ofNat (n + 65)
  else if n < 52 then Char.ofNat (n + 71)
  else if n < 62 then Char.ofNat (n - 4)
  else if n = 62 then '-' else '_'

/-- The value of a digit. -/
def value (c : Char) : Option ℕ :=
  if 65 ≤ c.toNat ∧ c.toNat ≤ 90 then some (c.toNat - 65)
  else if 97 ≤ c.toNat ∧ c.toNat ≤ 122 then some (c.toNat - 71)
  else if 48 ≤ c.toNat ∧ c.toNat ≤ 57 then some (c.toNat + 4)
  else if c = '-' then some 62
  else if c = '_' then some 63
  else none

def encode : List UInt8 → List Char
  | [] => []
  | [a] =>
    let n := a.toNat * 16
    [digit (n / 64), digit (n % 64)]
  | [a, b] =>
    let n := (a.toNat * 256 + b.toNat) * 4
    [digit (n / 4096), digit (n / 64 % 64), digit (n % 64)]
  | a :: b :: c :: rest =>
    let n := a.toNat * 65536 + b.toNat * 256 + c.toNat
    digit (n / 262144) :: digit (n / 4096 % 64) :: digit (n / 64 % 64) :: digit (n % 64) :: encode rest

def decode : List Char → Option (List UInt8)
  | [] => some []
  | [_] => none
  | [w, x] => do
    let n := (← value w) * 64 + (← value x)
    return [UInt8.ofNat (n / 16)]
  | [w, x, y] => do
    let n := (← value w) * 4096 + (← value x) * 64 + (← value y)
    return [UInt8.ofNat (n / 1024), UInt8.ofNat (n / 4 % 256)]
  | w :: x :: y :: z :: rest => do
    let n := (← value w) * 262144 + (← value x) * 4096 + (← value y) * 64 + (← value z)
    let bytes ← decode rest
    return UInt8.ofNat (n / 65536) :: UInt8.ofNat (n / 256 % 256) :: UInt8.ofNat (n % 256) :: bytes

@[simp] theorem value_digit {n : ℕ} (h : n < 64) : value (digit n) = some n := by
  revert n; decide

/-- A digit is a letter, a figure, `-` or `_`. -/
theorem digit_safe {n : ℕ} (h : n < 64) :
    (digit n).utf8Size = 1 ∧ digit n ≠ '"' ∧ digit n ≠ '\\' ∧ 32 ≤ (digit n).toNat ∧
      digit n ≠ '\n' ∧ digit n ≠ '\r' := by
  revert n; decide

/-- A number is the sum of its sextets. -/
theorem sum_sextets (n : ℕ) :
    n / 262144 * 262144 + n / 4096 % 64 * 4096 + n / 64 % 64 * 64 + n % 64 = n := by
  have h₁ : n / 4096 = n / 64 / 64 := (Nat.div_div_eq_div_mul n 64 64).symm
  have h₂ : n / 262144 = n / 64 / 64 / 64 := by rw [← h₁, Nat.div_div_eq_div_mul]
  rw [h₁, h₂]
  omega

/-- What is encoded is decoded. -/
theorem decode_encode : ∀ bs : List UInt8, decode (encode bs) = some bs
  | [] => rfl
  | [a] => by
    have ha := a.toNat_lt
    have hn : (a.toNat * 16 / 64 * 64 + a.toNat * 16 % 64) / 16 = a.toNat := by omega
    simp [encode, decode, value_digit, show a.toNat * 16 / 64 < 64 by omega, Nat.mod_lt, hn]
  | [a, b] => by
    have ha := a.toNat_lt
    have hb := b.toNat_lt
    generalize hn : (a.toNat * 256 + b.toNat) * 4 = n
    have hsum : n / 4096 * 4096 + n / 64 % 64 * 64 + n % 64 = n := by omega
    have h₁ : n / 1024 = a.toNat := by omega
    have h₂ : n / 4 % 256 = b.toNat := by omega
    simp [encode, decode, hn, show n / 4096 < 64 by omega, Nat.mod_lt, hsum, h₁, h₂]
  | a :: b :: c :: rest => by
    have ha := a.toNat_lt
    have hb := b.toNat_lt
    have hc := c.toNat_lt
    generalize hn : a.toNat * 65536 + b.toNat * 256 + c.toNat = n
    have hsum := sum_sextets n
    have h₁ : n / 65536 = a.toNat := by omega
    have h₂ : n / 256 % 256 = b.toNat := by omega
    have h₃ : n % 256 = c.toNat := by omega
    rw [encode, hn, decode]
    simp [show n / 262144 < 64 by omega, Nat.mod_lt, hsum, h₁, h₂, h₃, decode_encode rest]

theorem length_encode : ∀ bs : List UInt8, (encode bs).length = (4 * bs.length + 2) / 3
  | [] => by simp [encode]
  | [a] => by simp [encode]
  | [a, b] => by simp [encode]
  | a :: b :: c :: rest => by
    simp only [encode, List.length_cons, length_encode rest]
    omega

/-- Every character of an encoded text is a digit. -/
theorem mem_encode {x : Char} : ∀ {bs : List UInt8}, x ∈ encode bs → ∃ n < 64, x = digit n
  | [], h => absurd h List.not_mem_nil
  | [a], h => by
    have ha := a.toNat_lt
    simp only [encode, List.mem_cons, List.not_mem_nil, or_false] at h
    rcases h with rfl | rfl <;> exact ⟨_, by omega, rfl⟩
  | [a, b], h => by
    have ha := a.toNat_lt
    have hb := b.toNat_lt
    simp only [encode, List.mem_cons, List.not_mem_nil, or_false] at h
    rcases h with rfl | rfl | rfl <;> exact ⟨_, by omega, rfl⟩
  | a :: b :: c :: rest, h => by
    have ha := a.toNat_lt
    have hb := b.toNat_lt
    have hc := c.toNat_lt
    simp only [encode, List.mem_cons] at h
    rcases h with rfl | rfl | rfl | rfl | h
    iterate 4 exact ⟨_, by omega, rfl⟩
    exact mem_encode h

end Base64
