/-
  Base32 without padding.

  Up to five bytes are one number, written with as many digits of five bits as they need;
  the last digit is filled up with zero bits.  `decode` does not look at the bits that fill
  up, so several texts decode to the same bytes; of these `encode` writes one
  (`decode_encode`).
-/
import Mathlib.Data.UInt
import Mathlib.Data.List.Forall2
import Mathlib.Tactic.Common
import Mathlib.Tactic.Ring

namespace Base32

/-! ## Numbers by their digits -/

/-- The last `k` digits of a number, the highest first. -/
def digitsOf (base : ℕ) : (k : ℕ) → ℕ → List ℕ
  | 0, _ => []
  | k + 1, n => digitsOf base k (n / base) ++ [n % base]

/-- The number of a list of digits, the highest first. -/
def ofDigits (base : ℕ) (ds : List ℕ) : ℕ := ds.foldl (fun n d => n * base + d) 0

theorem ofDigits_concat (base : ℕ) (ds : List ℕ) (d : ℕ) :
    ofDigits base (ds ++ [d]) = ofDigits base ds * base + d := by
  simp [ofDigits]

@[simp] theorem length_digitsOf (base k n : ℕ) : (digitsOf base k n).length = k := by
  induction k generalizing n with
  | zero => rfl
  | succ k ih => simp [digitsOf, ih]

theorem lt_of_mem_digitsOf {base k n d : ℕ} (hb : 0 < base) (h : d ∈ digitsOf base k n) :
    d < base := by
  induction k generalizing n with
  | zero => simp [digitsOf] at h
  | succ k ih =>
    rw [digitsOf, List.mem_append, List.mem_singleton] at h
    rcases h with h | rfl
    · exact ih h
    · exact Nat.mod_lt n hb

theorem ofDigits_digitsOf {base k n : ℕ} (h : n < base ^ k) :
    ofDigits base (digitsOf base k n) = n := by
  induction k generalizing n with
  | zero => simp at h; simp [digitsOf, ofDigits, h]
  | succ k ih =>
    have hlt : n / base < base ^ k := Nat.div_lt_of_lt_mul (by rwa [pow_succ'] at h)
    rw [digitsOf, ofDigits_concat, ih hlt, mul_comm, Nat.div_add_mod]

theorem ofDigits_lt {base : ℕ} {ds : List ℕ} (h : ∀ d ∈ ds, d < base) :
    ofDigits base ds < base ^ ds.length := by
  induction ds using List.reverseRecOn with
  | nil => simp [ofDigits]
  | append_singleton ds d ih =>
    have hds := ih fun x hx => h x (List.mem_append_left _ hx)
    have hd := h d (by simp)
    rw [ofDigits_concat, List.length_append, List.length_singleton, pow_succ]
    calc ofDigits base ds * base + d < ofDigits base ds * base + base := by omega
      _ = (ofDigits base ds + 1) * base := by ring
      _ ≤ base ^ ds.length * base := Nat.mul_le_mul_right _ hds

theorem digitsOf_ofDigits {base : ℕ} {ds : List ℕ} (h : ∀ d ∈ ds, d < base) :
    digitsOf base ds.length (ofDigits base ds) = ds := by
  induction ds using List.reverseRecOn with
  | nil => rfl
  | append_singleton ds d ih =>
    have hd := h d (by simp)
    have hb : 0 < base := (Nat.zero_le d).trans_lt hd
    rw [List.length_append, List.length_singleton, digitsOf, ofDigits_concat, mul_comm,
      Nat.mul_add_div hb, Nat.div_eq_of_lt hd, Nat.mul_add_mod, Nat.mod_eq_of_lt hd, add_zero,
      ih fun x hx => h x (List.mem_append_left _ hx)]

/-! ## Digits -/

/-- The digit of the value `n`, for `n < 32`: a letter or one of the figures 2 to 7. -/
def digit (n : ℕ) : UInt8 := if n < 26 then UInt8.ofNat (n + 65) else UInt8.ofNat (n + 24)

/-- The value of a digit. -/
def value (b : UInt8) : Option ℕ :=
  if 65 ≤ b.toNat ∧ b.toNat ≤ 90 then some (b.toNat - 65)
  else if 50 ≤ b.toNat ∧ b.toNat ≤ 55 then some (b.toNat - 24)
  else none

theorem value_digit {n : ℕ} (h : n < 32) : value (digit n) = some n := by
  revert n; decide

theorem mapM_value_digit {ds : List ℕ} (h : ∀ d ∈ ds, d < 32) :
    (ds.map digit).mapM value = some ds := by
  induction ds with
  | nil => rfl
  | cons d ds ih =>
    have hd := value_digit (h d (by simp))
    have hds := ih fun x hx => h x (List.mem_cons_of_mem _ hx)
    simp [hd, hds]

/-! ## Groups -/

/-- The number of digits of `m` bytes. -/
def digitCount (m : ℕ) : ℕ := (8 * m + 4) / 5

/-- The number of bytes of `k` digits; no bytes have one, three or six digits. -/
def byteCount (k : ℕ) : ℕ :=
  if k = 8 then 5 else if k = 7 then 4 else if k = 5 then 3 else if k = 4 then 2
  else if k = 2 then 1 else 0

/-- The digits of at most five bytes. -/
def encodeGroup (bs : List UInt8) : List UInt8 :=
  let k := digitCount bs.length
  (digitsOf 32 k (ofDigits 256 (bs.map UInt8.toNat) * 2 ^ (5 * k - 8 * bs.length))).map digit

/-- The bytes of at most eight values. -/
def decodeGroup (vs : List ℕ) : List UInt8 :=
  let m := byteCount vs.length
  (digitsOf 256 m (ofDigits 32 vs / 2 ^ (5 * vs.length - 8 * m))).map UInt8.ofNat

def encode : List UInt8 → List UInt8
  | a :: b :: c :: d :: e :: rest => encodeGroup [a, b, c, d, e] ++ encode rest
  | rest => encodeGroup rest

def decode : List UInt8 → Option (List UInt8)
  | a :: b :: c :: d :: e :: f :: g :: h :: rest => do
    let vs ← [a, b, c, d, e, f, g, h].mapM value
    let bytes ← decode rest
    return decodeGroup vs ++ bytes
  | rest => do
    let vs ← rest.mapM value
    return decodeGroup vs

theorem length_encodeGroup (bs : List UInt8) : (encodeGroup bs).length = digitCount bs.length := by
  simp [encodeGroup]

/-- The digits of a group have the values of a number that gives the bytes back. -/
theorem decodeGroup_of_encodeGroup {bs : List UInt8} (h : bs.length ≤ 5) :
    ∃ vs, (encodeGroup bs).mapM value = some vs ∧ decodeGroup vs = bs := by
  have hbytes : ∀ d ∈ bs.map UInt8.toNat, d < 256 := by
    intro d hd
    obtain ⟨b, -, rfl⟩ := List.mem_map.1 hd
    exact b.toNat_lt
  have hcount : byteCount (digitCount bs.length) = bs.length ∧
      8 * bs.length ≤ 5 * digitCount bs.length := by
    generalize bs.length = m at h
    revert m; decide
  generalize hm : bs.length = m at hcount h
  generalize hk : digitCount m = k at hcount
  have hlt : ofDigits 256 (bs.map UInt8.toNat) < 2 ^ (8 * m) := by
    have := ofDigits_lt hbytes
    rwa [List.length_map, hm, show 256 = 2 ^ 8 from rfl, ← pow_mul] at this
  have hfill : ofDigits 256 (bs.map UInt8.toNat) * 2 ^ (5 * k - 8 * m) < 32 ^ k := by
    calc ofDigits 256 (bs.map UInt8.toNat) * 2 ^ (5 * k - 8 * m)
        < 2 ^ (8 * m) * 2 ^ (5 * k - 8 * m) := Nat.mul_lt_mul_of_pos_right hlt (Nat.two_pow_pos _)
      _ = (2 ^ 5) ^ k := by rw [← pow_add, Nat.add_sub_cancel' hcount.2, pow_mul]
  refine ⟨digitsOf 32 k (ofDigits 256 (bs.map UInt8.toNat) * 2 ^ (5 * k - 8 * m)), ?_, ?_⟩
  · rw [encodeGroup, hm, hk]
    exact mapM_value_digit fun d hd => lt_of_mem_digitsOf (by decide) hd
  · have hback : digitsOf 256 m (ofDigits 256 (bs.map UInt8.toNat)) = bs.map UInt8.toNat := by
      have := digitsOf_ofDigits hbytes
      rwa [List.length_map, hm] at this
    rw [decodeGroup, length_digitsOf, hcount.1, ofDigits_digitsOf hfill,
      Nat.mul_div_cancel _ (Nat.two_pow_pos _), hback, List.map_map]
    simp [Function.comp_def]

theorem decode_append {l rest : List UInt8} {vs : List ℕ} (hl : l.length = 8)
    (hvs : l.mapM value = some vs) :
    decode (l ++ rest) = (decode rest).map (decodeGroup vs ++ ·) := by
  match l, hl with
  | [a, b, c, d, e, f, g, h], _ =>
    show decode (a :: b :: c :: d :: e :: f :: g :: h :: rest) = _
    rw [decode, hvs]
    cases decode rest <;> rfl

theorem decode_of_length_lt {l : List UInt8} {vs : List ℕ} (hl : l.length < 8)
    (hvs : l.mapM value = some vs) : decode l = some (decodeGroup vs) := by
  unfold decode
  split
  · simp at hl; omega
  · simp [hvs]

/-- What is encoded is decoded. -/
theorem decode_encode (bs : List UInt8) : decode (encode bs) = some bs := by
  fun_induction encode bs with
  | case1 a b c d e rest ih =>
    obtain ⟨vs, hvs, hgroup⟩ := decodeGroup_of_encodeGroup (show [a, b, c, d, e].length ≤ 5 by simp)
    have hlen : (encodeGroup [a, b, c, d, e]).length = 8 := by
      simp [length_encodeGroup, digitCount]
    rw [decode_append hlen hvs, ih, hgroup]
    rfl
  | case2 bs h =>
    have hlen : bs.length < 5 := by
      match bs, h with
      | [], _ | [_], _ | [_, _], _ | [_, _, _], _ | [_, _, _, _], _ => simp
      | a :: b :: c :: d :: e :: rest, h => exact absurd rfl (h a b c d e rest)
    obtain ⟨vs, hvs, hgroup⟩ := decodeGroup_of_encodeGroup hlen.le
    have hshort : (encodeGroup bs).length < 8 := by
      rw [length_encodeGroup, digitCount]
      omega
    rw [decode_of_length_lt hshort hvs, hgroup]

theorem length_encode (bs : List UInt8) : (encode bs).length = digitCount bs.length := by
  fun_induction encode bs with
  | case1 a b c d e rest ih =>
    simp only [List.length_append, length_encodeGroup, ih, List.length_cons, List.length_nil,
      digitCount]
    omega
  | case2 bs h => exact length_encodeGroup bs

/-- Every byte of an encoded text is a digit. -/
theorem mem_encode {x : UInt8} {bs : List UInt8} (h : x ∈ encode bs) : ∃ n < 32, x = digit n := by
  have hgroup : ∀ {bs : List UInt8}, x ∈ encodeGroup bs → ∃ n < 32, x = digit n := by
    intro bs hx
    obtain ⟨n, hn, rfl⟩ := List.mem_map.1 hx
    exact ⟨n, lt_of_mem_digitsOf (by decide) hn, rfl⟩
  fun_induction encode bs with
  | case1 a b c d e rest ih =>
    rcases List.mem_append.1 h with h | h
    · exact hgroup h
    · exact ih h
  | case2 bs => exact hgroup h

end Base32
