/-
  Fingerprints have one spelling.

  Without its separators and in upper case (`spelling`), a text that is accepted is the
  fingerprint of the digest it denotes, and every text with this spelling is accepted
  (`parseFingerprint_iff`).
-/
import Sshstate.Protocol.Fingerprint

namespace Sshstate

/-! ## Spellings -/

/-- A byte that may stand between the characters of a fingerprint. -/
def separatorByte (b : UInt8) : Bool := b = 32 ∨ b = 9 ∨ b = 10 ∨ b = 13 ∨ b = 45

/-- The upper case of an ASCII letter. -/
def upperByte (b : UInt8) : UInt8 := if 97 ≤ b ∧ b ≤ 122 then b - 32 else b

/-- A text without its separators and in upper case. -/
def spelling (s : Bytes) : Bytes := (s.filter (!separatorByte ·)).map upperByte

theorem spelling_append (s t : Bytes) : spelling (s ++ t) = spelling s ++ spelling t := by
  simp [spelling]

theorem spelling_of_separators {s : Bytes} (h : ∀ b ∈ s, separatorByte b = true) :
    spelling s = [] := by
  rw [spelling, List.map_eq_nil_iff, List.filter_eq_nil_iff]
  intro b hb
  simp [h b hb]

/-- Separators between parts do not change the spelling. -/
theorem spelling_intercalate {sep : Bytes} (h : ∀ b ∈ sep, separatorByte b = true)
    (parts : List Bytes) : spelling (sep.intercalate parts) = spelling parts.flatten := by
  induction parts with
  | nil => rfl
  | cons part parts ih =>
    cases parts with
    | nil => simp
    | cons next parts =>
      rw [List.intercalate_cons_cons, spelling_append, spelling_append, spelling_of_separators h,
        ih, List.append_nil, ← spelling_append, ← List.flatten_cons]

/-! ## The loop -/

/-- The bytes of the alphabet. -/
def alphabetByte (b : UInt8) : Bool := (65 ≤ b ∧ b ≤ 90) ∨ (50 ≤ b ∧ b ≤ 55)

/-- Separators and letters are ASCII, and the alphabet has no separators and no lower case. -/
theorem byte_classes : ∀ n < 256,
    (separatorByte (UInt8.ofNat n) = true ∨ alphabetByte (upperByte (UInt8.ofNat n)) = true →
      n < 128) ∧
    (alphabetByte (UInt8.ofNat n) = true →
      separatorByte (UInt8.ofNat n) = false ∧ upperByte (UInt8.ofNat n) = UInt8.ofNat n) := by
  decide +kernel

/-- What the loop sees in an ASCII character. -/
theorem ascii_classes : ∀ n < 128,
    ((('A' ≤ Char.ofNat n ∧ Char.ofNat n ≤ 'Z') ∨ ('2' ≤ Char.ofNat n ∧ Char.ofNat n ≤ '7')) ↔
      alphabetByte (UInt8.ofNat n) = true) ∧
    (('a' ≤ Char.ofNat n ∧ Char.ofNat n ≤ 'z') ↔ 97 ≤ n ∧ n ≤ 122) ∧
    isSeparator (Char.ofNat n) = separatorByte (UInt8.ofNat n) ∧
    (97 ≤ n ∧ n ≤ 122 → upperByte (UInt8.ofNat n) = UInt8.ofNat (n - 97 + 65) ∧
      alphabetByte (upperByte (UInt8.ofNat n)) = true ∧ separatorByte (UInt8.ofNat n) = false) ∧
    (alphabetByte (UInt8.ofNat n) = false → ¬ (97 ≤ n ∧ n ≤ 122) →
      alphabetByte (upperByte (UInt8.ofNat n)) = false) := by
  decide

theorem bind_cons_eq_ok {x : Except Error Bytes} {b : UInt8} {t : Bytes} :
    (do let clean ← x; return b :: clean) = .ok t ↔ ∃ t', x = .ok t' ∧ t = b :: t' := by
  simp only [Except.bind_eq_ok, Except.pure_eq_ok, Except.ok.injEq]
  exact exists_congr fun _ => and_congr_right fun _ => eq_comm

/-- The loop at an ASCII byte: a separator is dropped, and a letter or a figure of the
    alphabet is kept in upper case. -/
theorem clean_cons {b : UInt8} (hb : b.toNat < 128) (rs : List Char) (t : Bytes) :
    cleanFingerprint (Utf8.charOf b :: rs) = .ok t ↔
      if separatorByte b then cleanFingerprint rs = .ok t
      else alphabetByte (upperByte b) = true ∧
        ∃ t', cleanFingerprint rs = .ok t' ∧ t = upperByte b :: t' := by
  obtain ⟨halpha, hlower, hsep, hraise, hother⟩ := ascii_classes b.toNat hb
  have hkeep := (byte_classes b.toNat b.toNat_lt).2
  rw [UInt8.ofNat_toNat] at halpha hsep hkeep hraise hother
  have hnat : (Utf8.charOf b).toNat = b.toNat := Utf8.toNat_charOf hb
  rw [cleanFingerprint, hnat, UInt8.ofNat_toNat]
  by_cases ha : alphabetByte b = true
  · rw [Utf8.charOf, if_pos (halpha.2 ha)]
    simp only [(hkeep ha).1, (hkeep ha).2, ha, Bool.false_eq_true, if_false, true_and]
    exact bind_cons_eq_ok
  · rw [Utf8.charOf, if_neg (mt halpha.1 ha)]
    by_cases hl : 97 ≤ b.toNat ∧ b.toNat ≤ 122
    · rw [if_pos (hlower.2 hl)]
      simp only [(hraise hl).2.2, (hraise hl).2.1, Bool.false_eq_true, if_false, true_and]
      rw [(hraise hl).1]
      exact bind_cons_eq_ok
    · rw [if_neg (mt hlower.1 hl), hsep]
      by_cases hs : separatorByte b = true
      · simp [hs]
      · simp [hs, hother (by simpa using ha) hl]

/-- The loop stops at a character that is not ASCII. -/
theorem ascii_of_clean {rs : List Char} {t : Bytes} (h : cleanFingerprint rs = .ok t) :
    ∀ r ∈ rs, r.toNat < 128 := by
  induction rs generalizing t with
  | nil => simp
  | cons r rs ih =>
    have hr : r.toNat < 128 := by
      by_contra hr
      have hge {c : Char} (hc : c.toNat < 128) : ¬ r ≤ c := fun hle =>
        hr (Nat.lt_of_le_of_lt (show r.toNat ≤ c.toNat from hle) hc)
      have hne {c : Char} (hc : c.toNat < 128) : r ≠ c := fun heq => hr (heq ▸ hc)
      have hsep : isSeparator r = false := by
        simp [isSeparator, hne (c := ' ') (by decide), hne (c := '\t') (by decide),
          hne (c := '\n') (by decide), hne (c := '\r') (by decide), hne (c := '-') (by decide)]
      rw [cleanFingerprint, if_neg (by simp [hge (c := 'Z') (by decide), hge (c := '7') (by decide)]),
        if_neg (by simp [hge (c := 'z') (by decide)]), hsep, if_neg Bool.false_ne_true] at h
      cases h
    have hrest : ∃ t', cleanFingerprint rs = .ok t' := by
      rw [← Utf8.charOf_ofNat hr, clean_cons (by rwa [Utf8.toNat_ofNat_of_ascii hr])] at h
      split at h
      · exact ⟨t, h⟩
      · exact ⟨h.2.choose, h.2.choose_spec.1⟩
    obtain ⟨t', ht'⟩ := hrest
    intro x hx
    rcases List.mem_cons.1 hx with rfl | hx
    · exact hr
    · exact ih ht' x hx

/-- The loop accepts the ASCII texts whose spelling is in the alphabet, and returns the
    spelling. -/
theorem clean_ascii {s : Bytes} (hs : ∀ b ∈ s, b.toNat < 128) {t : Bytes} :
    cleanFingerprint (s.map Utf8.charOf) = .ok t ↔
      (∀ b ∈ spelling s, alphabetByte b = true) ∧ t = spelling s := by
  induction s generalizing t with
  | nil =>
    constructor
    · rintro ⟨⟩
      simp [spelling]
    · rintro ⟨-, rfl⟩
      rfl
  | cons b s ih =>
    have ih {t : Bytes} := ih (fun x hx => hs x (List.mem_cons_of_mem _ hx)) (t := t)
    rw [List.map_cons, clean_cons (hs b (by simp))]
    by_cases hb : separatorByte b = true
    · rw [if_pos hb, ih, spelling, spelling, List.filter_cons_of_neg (by simp [hb])]
    · rw [if_neg hb, spelling, List.filter_cons_of_pos (by simpa using hb), List.map_cons, ← spelling]
      simp only [ih, List.forall_mem_cons]
      constructor
      · rintro ⟨ha, t', ⟨hall, rfl⟩, rfl⟩
        exact ⟨⟨ha, hall⟩, rfl⟩
      · rintro ⟨⟨ha, hall⟩, rfl⟩
        exact ⟨ha, spelling s, ⟨hall, rfl⟩, rfl⟩

/-- A text whose spelling is in the alphabet is ASCII. -/
theorem ascii_of_spelling {s : Bytes} (h : ∀ b ∈ spelling s, alphabetByte b = true) :
    ∀ b ∈ s, b.toNat < 128 := by
  intro b hb
  have hascii := (byte_classes b.toNat b.toNat_lt).1
  rw [UInt8.ofNat_toNat] at hascii
  apply hascii
  by_cases hsep : separatorByte b = true
  · exact .inl hsep
  · exact .inr (h _ (List.mem_map_of_mem (List.mem_filter.2 ⟨hb, by simpa using hsep⟩)))

theorem clean_runes {s t : Bytes} :
    cleanFingerprint (Utf8.runes s) = .ok t ↔
      (∀ b ∈ spelling s, alphabetByte b = true) ∧ t = spelling s := by
  constructor
  · intro h
    have hs := Utf8.ascii_of_runes (ascii_of_clean h)
    rwa [Utf8.runes_of_ascii hs, clean_ascii hs] at h
  · intro h
    have hs := ascii_of_spelling h.1
    rwa [Utf8.runes_of_ascii hs, clean_ascii hs]

/-! ## Fingerprints -/

theorem alphabetByte_of_mem_encode {b : UInt8} {digest : Bytes} (h : b ∈ Base32.encode digest) :
    alphabetByte b = true := by
  have hdigit : ∀ n < 32, alphabetByte (Base32.digit n) = true := by decide
  obtain ⟨n, hn, rfl⟩ := Base32.mem_encode h
  exact hdigit n hn

theorem length_encode_digest {digest : Bytes} (h : digest.length = sha256Size) :
    (Base32.encode digest).length = fingerprintChars := by
  rw [Base32.length_encode, h]
  rfl

theorem fingerprint_eq_ok {digest t : Bytes} :
    fingerprint digest = .ok t ↔ digest.length = sha256Size ∧ t = Base32.encode digest := by
  simp only [fingerprint, Except.require_bind_eq_ok, Except.pure_eq_ok, Except.ok.injEq]
  constructor
  · rintro ⟨h, -, rfl⟩
    exact ⟨h, rfl⟩
  · rintro ⟨h, rfl⟩
    exact ⟨h, length_encode_digest h, rfl⟩

/-- A text denotes a digest exactly if it is a spelling of its fingerprint. -/
theorem parseFingerprint_iff {s digest : Bytes} :
    parseFingerprint s = .ok digest ↔
      digest.length = sha256Size ∧ spelling s = Base32.encode digest := by
  rw [parseFingerprint, Except.bind_eq_ok]
  constructor
  · rintro ⟨t, ht, h⟩
    obtain ⟨-, rfl⟩ := clean_runes.1 ht
    rw [Except.require_bind_eq_ok] at h
    obtain ⟨-, h⟩ := h
    split at h
    · cases h
    · simp only [Except.require_bind_eq_ok, Except.pure_eq_ok, Except.ok.injEq] at h
      obtain ⟨hlen, henc, rfl⟩ := h
      exact ⟨hlen, henc.symm⟩
  · rintro ⟨hlen, hs⟩
    refine ⟨spelling s, clean_runes.2 ⟨fun b hb => ?_, rfl⟩, ?_⟩
    · exact alphabetByte_of_mem_encode (hs ▸ hb)
    · rw [hs, Except.require_bind_eq_ok, Base32.decode_encode]
      refine ⟨length_encode_digest hlen, ?_⟩
      simp only [Except.require_bind_eq_ok, Except.pure_eq_ok, and_true]
      exact hlen

theorem flatten_groupsOfFour (s : Bytes) : (groupsOfFour s).flatten = s := by
  fun_induction groupsOfFour s with
  | case1 a b c d s ih => simp [ih]
  | case2 => rfl
  | case3 s => simp

/-- The fingerprint is in upper case and has no separators. -/
theorem spelling_encode (digest : Bytes) :
    spelling (Base32.encode digest) = Base32.encode digest := by
  have hplain : ∀ b ∈ Base32.encode digest, separatorByte b = false ∧ upperByte b = b := by
    intro b hb
    have hclass := (byte_classes b.toNat b.toNat_lt).2
    rw [UInt8.ofNat_toNat] at hclass
    exact hclass (alphabetByte_of_mem_encode hb)
  rw [spelling, List.filter_eq_self.2 fun b hb => by simp [(hplain b hb).1]]
  exact (List.map_congr_left (g := fun b => b) fun b hb => (hplain b hb).2).trans (List.map_id' _)

/-- **Main result.**  The fingerprint of a digest denotes the digest in every spelling, with
    its groups joined by separators too; and a text that is accepted is a spelling of the
    fingerprint of the digest it denotes, so that texts with different spellings denote
    different digests. -/
theorem fingerprint_one_spelling :
    (∀ digest : Bytes, digest.length = sha256Size →
      ∃ t groups, fingerprint digest = .ok t ∧ t.length = fingerprintChars ∧
        fingerprintGroups digest = .ok groups ∧ groups.flatten = t ∧
        parseFingerprint t = .ok digest ∧
        (∀ s, spelling s = t → parseFingerprint s = .ok digest) ∧
        ∀ sep : Bytes, (∀ b ∈ sep, separatorByte b = true) →
          parseFingerprint (sep.intercalate groups) = .ok digest) ∧
    (∀ s digest : Bytes, parseFingerprint s = .ok digest →
      fingerprint digest = .ok (spelling s)) ∧
    ∀ s s' digest : Bytes, parseFingerprint s = .ok digest → parseFingerprint s' = .ok digest →
      spelling s = spelling s' := by
  refine ⟨fun digest hlen => ?_, fun s digest h => ?_, fun s s' digest h h' => ?_⟩
  · have hflat := flatten_groupsOfFour (Base32.encode digest)
    have hprint := fingerprint_eq_ok.2 ⟨hlen, rfl⟩
    refine ⟨Base32.encode digest, groupsOfFour (Base32.encode digest), hprint,
      length_encode_digest hlen, ?_, hflat, ?_, fun s hs => ?_, fun sep hsep => ?_⟩
    · rw [fingerprintGroups, hprint]
      rfl
    · exact parseFingerprint_iff.2 ⟨hlen, spelling_encode digest⟩
    · exact parseFingerprint_iff.2 ⟨hlen, hs⟩
    · refine parseFingerprint_iff.2 ⟨hlen, ?_⟩
      rw [spelling_intercalate hsep, hflat, spelling_encode]
  · obtain ⟨hlen, hs⟩ := parseFingerprint_iff.1 h
    exact fingerprint_eq_ok.2 ⟨hlen, hs⟩
  · rw [(parseFingerprint_iff.1 h).2, (parseFingerprint_iff.1 h').2]

namespace Fingerprint01

def zeros : Bytes := List.replicate 32 0

theorem fingerprint_one_spelling_zeros :
    zeros.length = sha256Size ∧ ∃ groups, fingerprintGroups zeros = .ok groups ∧
      parseFingerprint (List.intercalate [45] groups) = .ok zeros := by
  obtain ⟨_, groups, -, -, hgroups, -, -, -, hsep⟩ := fingerprint_one_spelling.1 zeros rfl
  exact ⟨rfl, groups, hgroups, hsep [45] (by simp [separatorByte])⟩

end Fingerprint01

end Sshstate
