/-
  The slices that `Open` takes from the body of an archive.

  A member ends at `offset + int(length)`, computed on 64 bits.  As long as the lengths
  up to a member sum to less than `2 ^ 63` nothing wraps around, and the slices lie in
  the body, one after the other (`inBounds_iff`).  `ExportManifest.Validate` does not
  look at the lengths, so a manifest can name a length with which `end` is before
  `offset`: the check `end > len(body)` lets it pass and the slice ends the program.
-/
import Sshstate.Proof.Objects

namespace Sshstate.Export

open Codec (setter struct readItems)
open Json (Value Members Items)

variable {C : Suite} {D : ByteDecoder} {body : Bytes}

/-! ## What a manifest is decoded to -/

section
variable {E : Decoder} {α : Type}

/-- A property of a struct that every field keeps holds of what is decoded. -/
theorem unmarshalMembers_induct {P : α → Prop} {fields : List (Field α)}
    (h : ∀ f ∈ fields, ∀ a v x, P a → f.codec.read (f.get a) v = .ok x → P (f.set a x)) :
    ∀ (members : Members) {old a : α}, P old →
      unmarshalMembers E (fields.map setter) members old = .ok a → P a
  | .nil, _, _, hold, hread => by cases hread; exact hold
  | .cons key v rest, old, a, hold, hread => by
    rw [unmarshalMembers] at hread
    rcases hfor : fieldFor E (fields.map setter) key with _ | ⟨name, set⟩
    · rw [hfor] at hread; cases hread
    · rw [hfor] at hread
      obtain ⟨b, hb, hread⟩ := Except.bind_eq_ok.1 hread
      have hmem : (name, set) ∈ fields.map setter := by
        rw [fieldFor, Option.or_eq_some_iff] at hfor
        rcases hfor with hfor | ⟨-, hfor⟩ <;> exact List.mem_of_find?_eq_some hfor
      obtain ⟨f, hf, heq⟩ := List.mem_map.1 hmem
      cases heq
      obtain ⟨x, hx, hset⟩ := Except.bind_eq_ok.1 hb
      cases hset
      exact unmarshalMembers_induct h rest (h f hf old v x hold hx) hread

theorem unmarshalStruct_induct {P : α → Prop} {goType : String} {fields : List (Field α)}
    (h : ∀ f ∈ fields, ∀ a v x, P a → f.codec.read (f.get a) v = .ok x → P (f.set a x)) {old a : α}
    {v : Value} (hold : P old) (hread : (struct E goType fields).read old v = .ok a) : P a := by
  cases v with
  | null => cases hread; exact hold
  | obj members => exact unmarshalMembers_induct h members hold hread
  | _ => cases hread

theorem unmarshalCounter_lt {v : Value} {n : ℕ} (h : unmarshalCounter E v = .ok n) : n < 2 ^ 64 := by
  have hcounter : ∀ s, counterOf E s = .ok n → n < 2 ^ 64 := by
    intro s hs
    simp only [counterOf, Except.require_bind_eq_ok, Except.pure_eq_ok, Except.ok.injEq] at hs
    obtain ⟨-, -, -, hlt, rfl⟩ := hs
    exact hlt
  cases v with
  | null => exact hcounter _ h
  | str s => exact hcounter _ h
  | _ => cases h

theorem forall_of_readItems {P : α → Prop} {c : Codec α} {zero : α}
    (h : ∀ v a, c.read zero v = .ok a → P a) : ∀ {items : Items} {l : List α},
    readItems c zero items = .ok l → ∀ a ∈ l, P a
  | .nil, _, hl, a, ha => by cases hl; exact absurd ha List.not_mem_nil
  | .cons v rest, l, hl, a, ha => by
    obtain ⟨x, hx, hl⟩ := Except.bind_eq_ok.1 hl
    obtain ⟨xs, hxs, hl⟩ := Except.bind_eq_ok.1 hl
    cases hl
    rcases List.mem_cons.1 ha with rfl | ha
    · exact h v _ hx
    · exact forall_of_readItems h hxs a ha

/-- The lengths of the members are `uint64`. -/
theorem length_lt_of_read {v : Value} {s : SignedExportManifest}
    (h : (SignedExportManifest.codec E).read zeroManifest v = .ok s) :
    ∀ m ∈ s.manifest.members, m.length < 2 ^ 64 := by
  have hmember : ∀ v m, (ExportMember.codec E).read .zero v = .ok m → m.length < 2 ^ 64 := by
    intro v m hm
    refine unmarshalStruct_induct (P := fun m => m.length < 2 ^ 64) ?_ (by decide) hm
    simp only [ExportMember.fields, List.forall_mem_cons, List.not_mem_nil, false_imp_iff,
      implies_true, and_true]
    exact ⟨fun a v x ha _ => ha, fun a v x _ hx => unmarshalCounter_lt hx, fun a v x ha _ => ha⟩
  have hslice : ∀ old v l, (Codec.slice E (ExportMember.codec E) .zero "[]ExportMember").read old v
      = .ok l →
      ∀ m ∈ l, m.length < 2 ^ 64 := by
    intro old v l hl
    cases v with
    | null => cases hl; exact fun m hm => absurd hm List.not_mem_nil
    | arr items => exact forall_of_readItems hmember hl
    | _ => cases hl
  have hmanifest : ∀ old v m, (∀ x ∈ old.members, x.length < 2 ^ 64) →
      (ExportManifest.codec E).read old v = .ok m → ∀ x ∈ m.members, x.length < 2 ^ 64 := by
    intro old v m hold hm
    refine unmarshalStruct_induct (P := fun m => ∀ x ∈ m.members, x.length < 2 ^ 64) ?_ hold hm
    simp only [ExportManifest.fields, List.forall_mem_cons, List.not_mem_nil, false_imp_iff,
      implies_true, and_true]
    exact ⟨fun _ _ _ ha _ => ha, fun _ _ _ ha _ => ha, fun _ _ _ ha _ => ha, fun _ _ _ ha _ => ha,
      fun _ _ _ ha _ => ha, fun _ _ _ ha _ => ha, fun _ _ _ ha _ => ha, fun _ _ _ ha _ => ha,
      fun _ _ _ ha _ => ha, fun a v x _ hx => hslice _ v x hx⟩
  refine unmarshalStruct_induct (P := fun s => ∀ x ∈ s.manifest.members, x.length < 2 ^ 64) ?_
    (fun x hx => absurd hx List.not_mem_nil) h
  simp only [SignedExportManifest.fields, List.forall_mem_cons, List.not_mem_nil, false_imp_iff,
    implies_true, and_true]
  exact ⟨fun a v x ha hx => hmanifest _ v x ha hx, fun _ _ _ ha _ => ha⟩

end

theorem eq_append_of_cut : ∀ {raw before after : Bytes}, cut raw = some (before, after) →
    raw = before ++ newline :: after
  | [], _, _, h => by cases h
  | b :: raw, before, after, h => by
    rw [cut] at h
    split_ifs at h with hb
    · cases h; rw [hb]; rfl
    · obtain ⟨⟨before', after'⟩, hcut, heq⟩ := Option.map_eq_some_iff.1 h
      cases heq
      rw [eq_append_of_cut hcut]
      rfl

theorem cut_append {before : Bytes} (h : newline ∉ before) (after : Bytes) :
    cut (before ++ newline :: after) = some (before, after) := by
  induction before with
  | nil => simp [cut]
  | cons b before ih =>
    obtain ⟨hb, hrest⟩ := not_or.1 (List.mem_cons.not.1 h)
    simp [cut, ih hrest, Ne.symm hb]

/-- An archive that was put together is taken apart. -/
theorem openHeader_of_raw (hD : D.Lawful) {sealedArchive kit genesisDigest : Bytes}
    {signed : SignedExportManifest} (hreads : (SignedExportManifest.codec D.toDecoder).Reads signed)
    (hsize : ((SignedExportManifest.codec D.toDecoder).canonicalBytes signed).length ≤ maxObjectBytes)
    (hvalid : signed.manifest.validate C suiteID = .ok ())
    (hdigest : signed.manifest.genesisDigest = genesisDigest)
    (hraw : openBounded C kit sealedArchive = .ok (utf8 magic.toList ++ newline ::
      ((SignedExportManifest.codec D.toDecoder).canonicalBytes signed ++ newline :: body))) :
    openHeader C D sealedArchive kit genesisDigest = .ok (signed, body) := by
  have hmagic : newline ∉ utf8 magic.toList := by decide
  have hline := Codec.newline_notMem_canonicalBytes hreads.plain
  have hread := (Codec.strictUnmarshalBytes_canonical hD hreads.plain (hreads.read zeroManifest)).2 hsize
  simp only [openHeader, hraw, Except.mapError, Except.bind_ok', cut_append hmagic, cut_append hline,
    hread, hvalid, Except.require, hdigest, or_true, if_true]
  rfl

theorem openHeader_ok {sealedArchive kit genesisDigest : Bytes} {signed : SignedExportManifest}
    (h : openHeader C D sealedArchive kit genesisDigest = .ok (signed, body)) :
    ∃ raw header, openBounded C kit sealedArchive = .ok raw ∧
      raw = utf8 magic.toList ++ newline :: (header ++ newline :: body) ∧
      strictUnmarshalBytes D (SignedExportManifest.codec D.toDecoder) zeroManifest header = .ok signed ∧
      signed.manifest.validate C suiteID = .ok () := by
  rw [openHeader] at h
  obtain ⟨raw, hraw, h⟩ := Except.bind_eq_ok.1 h
  rcases hcut : cut raw with _ | ⟨first, rest⟩
  · rw [hcut] at h; cases h
  · simp only [hcut, Except.require_bind_eq_ok] at h
    obtain ⟨rfl, h⟩ := h
    rcases hcut' : cut rest with _ | ⟨header, body'⟩
    · rw [hcut'] at h; cases h
    · simp only [hcut', Except.bind_eq_ok, Except.mapError_eq_ok, Except.require_eq_ok,
        Except.pure_eq_ok, Except.ok.injEq, Prod.mk.injEq] at h
      obtain ⟨s, hs, ⟨⟩, hvalid, -, -, rfl, rfl⟩ := h
      refine ⟨raw, header, Except.mapError_eq_ok.1 hraw, ?_, hs, hvalid⟩
      rw [eq_append_of_cut hcut, eq_append_of_cut hcut']

theorem length_le_of_openBounded {kit ciphertext raw : Bytes}
    (h : openBounded C kit ciphertext = .ok raw) : raw.length ≤ maxArchiveBytes := by
  simp only [openBounded, Except.require_bind_eq_ok] at h
  rcases hopen : C.openWith kit ciphertext with _ | out
  · rw [hopen] at h; exact absurd h.2 (by simp)
  · simp only [hopen, Except.require_bind_eq_ok, Except.pure_eq_ok, Except.ok.injEq] at h
    exact h.2.2 ▸ h.2.1

/-- The lengths are `uint64`, and the body is not longer than an archive. -/
theorem length_of_openHeader {sealedArchive kit genesisDigest : Bytes} {signed : SignedExportManifest}
    (h : openHeader C D sealedArchive kit genesisDigest = .ok (signed, body)) :
    (∀ m ∈ signed.manifest.members, m.length < 2 ^ 64) ∧ body.length ≤ maxArchiveBytes := by
  obtain ⟨raw, header, hraw, rfl, hread, -⟩ := openHeader_ok h
  refine ⟨?_, ?_⟩
  · simp only [strictUnmarshalBytes, Except.bind_eq_ok] at hread
    obtain ⟨-, -, v, -, -, -, hread⟩ := hread
    exact length_lt_of_read hread
  · have hlen := length_le_of_openBounded hraw
    simp only [List.length_append, List.length_cons] at hlen
    omega

/-! ## The loop -/

/-- The slices that the loop takes from the body, with their bounds; the last one may end the
    program. -/
def slices (C : Suite) (body : Bytes) : (offset : ℤ) → List ExportMember → List (ℤ × ℤ)
  | _, [] => []
  | offset, m :: ms =>
    if endOf offset m ≤ body.length then
      (offset, endOf offset m) ::
        match slice body offset (endOf offset m) with
        | .ok chunk => if C.sha256 chunk = m.digest then slices C body (endOf offset m) ms else []
        | .error _ => []
    else []

/-- Every slice lies in the body, the slices follow each other from its start and do not
    overlap, the program is not stopped, and when the bodies are cut out they make up the whole
    body. -/
structure InBounds (C : Suite) (body : Bytes) (members : List ExportMember) : Prop where
  bounds : ∀ p ∈ slices C body 0 members, 0 ≤ p.1 ∧ p.1 ≤ p.2 ∧ p.2 ≤ body.length
  consecutive : ((0, 0) :: slices C body 0 members).IsChain fun p q => p.2 = q.1
  disjoint : (slices C body 0 members).Pairwise fun p q => p.2 ≤ q.1
  noPanic : openBodies C body members ≠ .error .panic
  cover : ∀ chunks, openBodies C body members = .ok chunks → chunks.flatMap Prod.snd = body

/-- Where the `i`-th member starts. -/
def startOf (members : List ExportMember) (i : ℕ) : ℕ := ((members.take i).map (·.length)).sum

/-- The `i` first members end in the body and match their digests. -/
def Matches (C : Suite) (body : Bytes) (members : List ExportMember) (i : ℕ) : Prop :=
  ∀ j < i, ∀ m, members[j]? = some m → startOf members (j + 1) ≤ body.length ∧
    C.sha256 ((body.drop (startOf members j)).take m.length) = m.digest

/-- Up to the first member that runs past the end of the body or does not match its digest, the
    lengths sum to less than `2 ^ 63`. -/
def SumsFit (C : Suite) (body : Bytes) (members : List ExportMember) : Prop :=
  ∀ i < members.length, Matches C body members i → startOf members (i + 1) < 2 ^ 63

/-- `SumsFit` along the loop. -/
def FitsFrom (C : Suite) (body : Bytes) : (offset : ℕ) → List ExportMember → Prop
  | _, [] => True
  | offset, m :: ms => offset + m.length < 2 ^ 63 ∧
    (offset + m.length ≤ body.length → C.sha256 ((body.drop offset).take m.length) = m.digest →
      FitsFrom C body (offset + m.length) ms)

theorem startOf_append (pre : List ExportMember) (m : ExportMember) (ms : List ExportMember) :
    startOf (pre ++ m :: ms) (pre.length + 1) = startOf (pre ++ m :: ms) pre.length + m.length := by
  have htake : (pre ++ m :: ms).take (pre.length + 1) = pre ++ [m] := by
    rw [List.take_length_add_append]
    rfl
  rw [startOf, startOf, htake, List.take_left]
  simp

theorem fitsFrom_iff : ∀ (ms pre : List ExportMember), Matches C body (pre ++ ms) pre.length →
    (FitsFrom C body (startOf (pre ++ ms) pre.length) ms ↔
      ∀ i < ms.length, Matches C body (pre ++ ms) (pre.length + i) →
        startOf (pre ++ ms) (pre.length + i + 1) < 2 ^ 63)
  | [], pre, _ => by simp [FitsFrom]
  | m :: ms, pre, hpre => by
    have hstart := startOf_append pre m ms
    have happ : pre ++ m :: ms = (pre ++ [m]) ++ ms := by simp
    have hlen : (pre ++ [m]).length = pre.length + 1 := by simp
    have hget : (pre ++ m :: ms)[pre.length]? = some m := by simp
    have hsucc : Matches C body (pre ++ m :: ms) (pre.length + 1) ↔
        startOf (pre ++ m :: ms) pre.length + m.length ≤ body.length ∧
        C.sha256 ((body.drop (startOf (pre ++ m :: ms) pre.length)).take m.length) = m.digest := by
      constructor
      · intro h
        have := h pre.length (Nat.lt_succ_self _) m hget
        rwa [hstart] at this
      · rintro ⟨hle, hdigest⟩ j hj x hx
        rcases Nat.lt_succ_iff_lt_or_eq.1 hj with hj | rfl
        · exact hpre j hj x hx
        · obtain rfl : m = x := Option.some.inj (hget.symm.trans hx)
          exact ⟨hstart ▸ hle, hdigest⟩
    have ih := fun hmatch => fitsFrom_iff ms (pre ++ [m]) hmatch
    rw [← happ, hlen, hstart] at ih
    rw [FitsFrom]
    constructor
    · rintro ⟨hlt, hrest⟩ i hi hmatch
      cases i with
      | zero => exact hstart ▸ hlt
      | succ i =>
        have hone : Matches C body (pre ++ m :: ms) (pre.length + 1) :=
          fun j hj => hmatch j (by omega)
        obtain ⟨hle, hdigest⟩ := hsucc.1 hone
        have hnext := (ih hone).1 (hrest hle hdigest) i (Nat.lt_of_succ_lt_succ hi)
        rw [show pre.length + (i + 1) = pre.length + 1 + i by omega] at hmatch ⊢
        exact hnext hmatch
    · intro h
      refine ⟨hstart ▸ h 0 (Nat.succ_pos _) hpre, fun hle hdigest => ?_⟩
      refine (ih (hsucc.2 ⟨hle, hdigest⟩)).2 fun i hi hmatch => ?_
      have hnext := h (i + 1) (Nat.succ_lt_succ hi)
      rw [show pre.length + (i + 1) = pre.length + 1 + i by omega] at hnext
      exact hnext hmatch

theorem fitsFrom_zero {members : List ExportMember} :
    FitsFrom C body 0 members ↔ SumsFit C body members := by
  have hzero : Matches C body ([] ++ members) 0 := fun j hj => absurd hj (Nat.not_lt_zero j)
  have h := fitsFrom_iff members [] hzero
  simpa [startOf, SumsFit] using h

/-- Nothing wraps around. -/
theorem endOf_of_lt {offset : ℕ} {m : ExportMember} (h : offset + m.length < 2 ^ 63) :
    endOf offset m = (offset + m.length : ℕ) := by
  unfold endOf toInt64; omega

/-- Something wraps around, and the end is before the start. -/
theorem endOf_lt {offset : ℕ} {m : ExportMember} (hoffset : offset < 2 ^ 63)
    (hlen : m.length < 2 ^ 64) (h : 2 ^ 63 ≤ offset + m.length) : endOf offset m < offset := by
  unfold endOf toInt64; omega

theorem slice_of_le {offset length : ℕ} (h : offset + length ≤ body.length) :
    slice body offset (offset + length : ℕ) = .ok ((body.drop offset).take length) := by
  have hlen : ((offset + length : ℕ) - (offset : ℤ)).toNat = length := by omega
  rw [slice, if_pos ⟨by omega, by omega, by omega⟩, hlen, Int.toNat_natCast]

/-- What the loop does from a natural offset while nothing wraps around. -/
structure Taken (C : Suite) (body : Bytes) (offset : ℕ) (ms : List ExportMember) : Prop where
  bounds : ∀ p ∈ slices C body offset ms, (offset : ℤ) ≤ p.1 ∧ p.1 ≤ p.2 ∧ p.2 ≤ body.length
  consecutive : ∀ lo, ((lo, (offset : ℤ)) :: slices C body offset ms).IsChain fun p q => p.2 = q.1
  disjoint : (slices C body offset ms).Pairwise fun p q => p.2 ≤ q.1
  noPanic : openMembers C body offset ms ≠ .error .panic
  cover : ∀ last chunks, openMembers C body offset ms = .ok (last, chunks) →
    ∃ n : ℕ, last = n ∧ offset ≤ n ∧ n ≤ body.length ∧
      chunks.flatMap Prod.snd = (body.drop offset).take (n - offset)

section
variable {m : ExportMember} (ms : List ExportMember)

theorem slices_cons {offset stop : ℤ} (h : endOf offset m = stop) :
    slices C body offset (m :: ms) =
      if stop ≤ body.length then
        (offset, stop) ::
          match slice body offset stop with
          | .ok chunk => if C.sha256 chunk = m.digest then slices C body stop ms else []
          | .error _ => []
      else [] := by
  subst h
  rw [slices]

theorem openMembers_cons {offset stop : ℤ} (h : endOf offset m = stop) :
    openMembers C body offset (m :: ms) = (do
      Except.require (stop ≤ body.length)
        (.error (.errorf "open export: %q runs past the end of the archive" [m.name]))
      let chunk ← slice body offset stop
      Except.require (C.sha256 chunk = m.digest)
        (.error (.errorf "open export: %q does not match its digest" [m.name]))
      let (last, chunks) ← openMembers C body stop ms
      return (last, (m.name, chunk) :: chunks)) := by
  subst h
  rw [openMembers]

variable {offset : ℕ}

/-- A member that matches is taken. -/
theorem loop_takes (hlt : offset + m.length < 2 ^ 63) (hle : offset + m.length ≤ body.length)
    (hdigest : C.sha256 ((body.drop offset).take m.length) = m.digest) :
    slices C body offset (m :: ms) =
      ((offset : ℤ), ((offset + m.length : ℕ) : ℤ)) :: slices C body (offset + m.length : ℕ) ms ∧
    openMembers C body offset (m :: ms) =
      (openMembers C body (offset + m.length : ℕ) ms).map fun r =>
        (r.1, (m.name, (body.drop offset).take m.length) :: r.2) := by
  have hend := endOf_of_lt hlt
  have hbound : ((offset + m.length : ℕ) : ℤ) ≤ body.length := Int.ofNat_le.2 hle
  refine ⟨?_, ?_⟩
  · rw [slices_cons ms hend, if_pos hbound, slice_of_le hle]
    simp only [if_pos hdigest]
  · rw [openMembers_cons ms hend, slice_of_le hle]
    simp only [Except.require, if_pos hbound, if_pos hdigest, Except.bind_ok']
    cases openMembers C body (offset + m.length : ℕ) ms <;> rfl

/-- At a member that does not match the loop ends. -/
theorem loop_mismatch (hlt : offset + m.length < 2 ^ 63) (hle : offset + m.length ≤ body.length)
    (hdigest : C.sha256 ((body.drop offset).take m.length) ≠ m.digest) :
    slices C body offset (m :: ms) = [((offset : ℤ), ((offset + m.length : ℕ) : ℤ))] ∧
    ∃ e, openMembers C body offset (m :: ms) = .error (.error e) := by
  have hend := endOf_of_lt hlt
  have hbound : ((offset + m.length : ℕ) : ℤ) ≤ body.length := Int.ofNat_le.2 hle
  refine ⟨?_, .errorf "open export: %q does not match its digest" [m.name], ?_⟩
  · rw [slices_cons ms hend, if_pos hbound, slice_of_le hle]
    simp only [if_neg hdigest]
  · rw [openMembers_cons ms hend, slice_of_le hle]
    simp only [Except.require, if_pos hbound, if_neg hdigest, Except.bind_ok']
    rfl

/-- At a member that runs past the end the loop ends before the slice. -/
theorem loop_past (hlt : offset + m.length < 2 ^ 63) (hle : body.length < offset + m.length) :
    slices C body offset (m :: ms) = [] ∧
    ∃ e, openMembers C body offset (m :: ms) = .error (.error e) := by
  have hend := endOf_of_lt hlt
  have hbound : ¬ ((offset + m.length : ℕ) : ℤ) ≤ body.length := by
    rw [Int.ofNat_le]; omega
  refine ⟨?_, .errorf "open export: %q runs past the end of the archive" [m.name], ?_⟩
  · rw [slices_cons ms hend, if_neg hbound]
  · rw [openMembers_cons ms hend]
    simp only [Except.require, if_neg hbound]
    rfl

end

theorem taken_of_fitsFrom : ∀ {ms : List ExportMember} {offset : ℕ}, offset ≤ body.length →
    FitsFrom C body offset ms → Taken C body offset ms
  | [], offset, hoff, _ => by
    refine ⟨fun p hp => absurd hp List.not_mem_nil, fun lo => .singleton _, .nil, ?_, ?_⟩
    · simp [openMembers]
    · intro last chunks h
      cases h
      exact ⟨offset, rfl, le_rfl, hoff, by simp⟩
  | m :: ms, offset, hoff, ⟨hlt, hrest⟩ => by
    rcases Nat.lt_or_ge body.length (offset + m.length) with hpast | hle
    · obtain ⟨hslices, e, hopen⟩ := loop_past (C := C) ms hlt hpast
      refine ⟨?_, fun lo => ?_, ?_, ?_, fun last chunks h => ?_⟩
      · rw [hslices]; exact fun p hp => absurd hp List.not_mem_nil
      · rw [hslices]; exact .singleton _
      · rw [hslices]; exact .nil
      · rw [hopen]; simp
      · rw [hopen] at h; cases h
    have hbound : ((offset + m.length : ℕ) : ℤ) ≤ body.length := Int.ofNat_le.2 hle
    by_cases hdigest : C.sha256 ((body.drop offset).take m.length) = m.digest
    · have ih := taken_of_fitsFrom hle (hrest hle hdigest)
      obtain ⟨hslices, hopen⟩ := loop_takes ms hlt hle hdigest
      refine ⟨?_, fun lo => ?_, ?_, fun h => ?_, fun last chunks h => ?_⟩
      · rw [hslices, List.forall_mem_cons]
        refine ⟨⟨le_rfl, by omega, hbound⟩, fun p hp => ?_⟩
        have hp := ih.bounds p hp
        exact ⟨by omega, hp.2⟩
      · rw [hslices]
        exact .cons_cons rfl (ih.consecutive offset)
      · rw [hslices, List.pairwise_cons]
        exact ⟨fun p hp => (ih.bounds p hp).1, ih.disjoint⟩
      · rw [hopen] at h
        rcases hms : openMembers C body (offset + m.length : ℕ) ms with e | r
        · rw [hms] at h
          cases h
          exact ih.noPanic hms
        · rw [hms] at h; cases h
      · rw [hopen] at h
        rcases hms : openMembers C body (offset + m.length : ℕ) ms with e | ⟨last', chunks'⟩
        · rw [hms] at h; cases h
        · rw [hms] at h
          cases h
          obtain ⟨n, hn, hoffn, hnlen, hcover⟩ := ih.cover _ _ hms
          refine ⟨n, hn, by omega, hnlen, ?_⟩
          rw [List.flatMap_cons, hcover, ← List.drop_drop,
            show n - offset = m.length + (n - (offset + m.length)) by omega, List.take_add]
    · obtain ⟨hslices, e, hopen⟩ := loop_mismatch ms hlt hle hdigest
      refine ⟨?_, fun lo => ?_, ?_, ?_, fun last chunks h => ?_⟩
      · rw [hslices, List.forall_mem_singleton]
        exact ⟨le_rfl, by omega, hbound⟩
      · rw [hslices]
        exact .cons_cons rfl (.singleton _)
      · rw [hslices]
        exact List.pairwise_singleton _ _
      · rw [hopen]; simp
      · rw [hopen] at h; cases h

theorem lt_of_bounds {offset : ℕ} {m : ExportMember} {ms : List ExportMember}
    (hbody : body.length < 2 ^ 63) (hoff : offset ≤ body.length) (hlen : m.length < 2 ^ 64)
    (h : ∀ p ∈ slices C body offset (m :: ms), p.1 ≤ p.2) : offset + m.length < 2 ^ 63 := by
  by_contra hge
  have hend := endOf_lt (lt_of_le_of_lt hoff hbody) hlen (Nat.le_of_not_lt hge)
  obtain ⟨stop, hstop⟩ : ∃ stop, endOf offset m = stop := ⟨_, rfl⟩
  rw [hstop] at hend
  have hbound : stop ≤ body.length := hend.le.trans (Int.ofNat_le.2 hoff)
  rw [slices_cons ms hstop, if_pos hbound] at h
  exact absurd (h _ List.mem_cons_self) (not_le.2 hend)

/-- If every slice the loop takes has an end that is not before its start, nothing wrapped. -/
theorem fitsFrom_of_bounds (hbody : body.length < 2 ^ 63) {ms : List ExportMember} {offset : ℕ}
    (hoff : offset ≤ body.length) (hlen : ∀ m ∈ ms, m.length < 2 ^ 64)
    (h : ∀ p ∈ slices C body offset ms, p.1 ≤ p.2) : FitsFrom C body offset ms := by
  induction ms generalizing offset with
  | nil => exact trivial
  | cons m ms ih =>
    have hlt := lt_of_bounds hbody hoff (hlen m List.mem_cons_self) h
    refine ⟨hlt, fun hle hdigest => ?_⟩
    rw [(loop_takes ms hlt hle hdigest).1] at h
    exact ih hle (fun m hm => hlen m (List.mem_cons_of_mem _ hm))
      fun p hp => h p (List.mem_cons_of_mem _ hp)

theorem inBounds_of_taken {members : List ExportMember} (h : Taken C body 0 members) :
    InBounds C body members := by
  have hopen : ∀ chunks, openBodies C body members = .ok chunks →
      openMembers C body 0 members = .ok (body.length, chunks) := by
    intro chunks hc
    simp only [openBodies, Except.bind_eq_ok, Except.require_eq_ok, Except.pure_eq_ok,
      Except.ok.injEq, exists_const] at hc
    obtain ⟨⟨last, chunks'⟩, hms, rfl, rfl⟩ := hc
    exact hms
  refine ⟨h.bounds, h.consecutive 0, h.disjoint, fun hpanic => ?_, fun chunks hc => ?_⟩
  · rcases hms : openMembers C body 0 members with e | ⟨last, chunks⟩
    · simp only [openBodies, hms] at hpanic
      cases hpanic
      exact h.noPanic hms
    · simp only [openBodies, hms, Except.bind_ok', Except.require] at hpanic
      split_ifs at hpanic <;> cases hpanic
  · obtain ⟨n, hn, -, -, hcover⟩ := h.cover _ _ (hopen chunks hc)
    obtain rfl : body.length = n := Int.ofNat.inj hn
    rw [hcover]
    simp

/-- **Main result.** Whatever archive decrypts and has a manifest that passes, the slices taken
    from its body lie in it, follow each other and cover it exactly when the lengths, up to the
    first member that is rejected, sum to less than `2 ^ 63`. -/
theorem inBounds_iff {sealedArchive kit genesisDigest : Bytes} {signed : SignedExportManifest}
    (h : openHeader C D sealedArchive kit genesisDigest = .ok (signed, body)) :
    InBounds C body signed.manifest.members ↔ SumsFit C body signed.manifest.members := by
  obtain ⟨hlen, hbody⟩ := length_of_openHeader h
  have hsmall : body.length < 2 ^ 63 := by unfold maxArchiveBytes at hbody; omega
  rw [← fitsFrom_zero]
  constructor
  · intro hin
    exact fitsFrom_of_bounds hsmall (Nat.zero_le _) hlen fun p hp => (hin.bounds p hp).2.1
  · intro hfits
    exact inBounds_of_taken (taken_of_fitsFrom (Nat.zero_le _) hfits)

/-- An error of the loop is the error of `Open`. -/
theorem openArchive_of_bodies {sealedArchive kit genesisDigest : Bytes}
    {signed : SignedExportManifest} {e : Fault}
    (h : openHeader C D sealedArchive kit genesisDigest = .ok (signed, body))
    (hbodies : openBodies C body signed.manifest.members = .error e) :
    openArchive C D sealedArchive kit genesisDigest = .error e := by
  simp only [openArchive, h, Except.mapError, Except.bind_ok', hbodies]
  rfl

namespace Slices01

/-- The sample primitives with three recipients. -/
def suite : Suite :=
  { sample with parseRecipient := fun s => if s ∈ ["A", "B", "C"] then some s else none }

theorem suite_printable : suite.Printable where
  time := by
    intro s hs
    have hs : s = "t0" ∨ s = "t1" := by
      by_contra hne
      rw [not_or] at hne
      simp [suite, sample, hne.1, hne.2] at hs
    rcases hs with rfl | rfl <;> decide
  recipient := by
    intro s hs
    have hs : s ∈ ["A", "B", "C"] := by
      by_contra hne
      simp only [suite, if_neg hne] at hs
      cases hs
    have hplain : ∀ s ∈ ["A", "B", "C"], Json.PlainText s.toList := by decide
    exact hplain s hs

/-- A decoder of plain texts. -/
def decoder : ByteDecoder :=
  { Vault.Tables.Text01.decoder with
    text := fun b => (b.toByteArray.utf8Decode?.map Array.toList).getD [] }

theorem decoder_lawful : decoder.Lawful where
  parse_render := Vault.Tables.Text01.decoder_lawful.parse_render
  text_utf8 s := by
    have h : (utf8 s).toByteArray.utf8Decode? = some s.toArray := List.utf8Decode?_utf8Encode
    simp only [decoder, h, Option.map_some, Option.getD_some]

def checkpoint : Checkpoint :=
  { domain := checkpointDomain, formatVersion := 1, vaultID := Sample.id 0x01, keyEpoch := 1,
    seq := 0, membershipDigest := List.replicate 32 0, heads := [], createdAt := "t0" }

/-- A manifest whose first member, `bundle.json`, has the given length and digest; the other
    members are empty. -/
def signed (length : ℕ) (digest : Bytes) : SignedExportManifest :=
  { manifest :=
      { domain := exportDomain, formatVersion := 1, suite := suiteID, vaultID := Sample.id 0x01,
        genesisDigest := List.replicate 32 1, keyEpoch := 1, exportedBy := Sample.id 0x0a,
        createdAt := "t0", checkpoint := checkpoint,
        members := { name := memberBundle, length := length, digest := digest } ::
          memberNames.tail.map fun name => { name := name, length := 0, digest := suite.sha256 [] } }
    signature := [1] }

/-- The bytes after the manifest. -/
def chunk : Bytes := [1, 2, 3]

/-- The archive, sealed. -/
def sealedArchive (s : SignedExportManifest) : Bytes :=
  suite.sealTo (utf8 magic.toList ++ newline ::
    ((SignedExportManifest.codec decoder.toDecoder).canonicalBytes s ++ newline :: chunk)) "C" []

theorem openHeader_sealed {length : ℕ} {digest : Bytes} (hlen : length < 2 ^ 64)
    (hvalid : (signed length digest).manifest.validate suite suiteID = .ok ()) :
    openHeader suite decoder (sealedArchive (signed length digest)) [] (List.replicate 32 1) =
      .ok (signed length digest, chunk) := by
  have hsize : ((SignedExportManifest.codec decoder.toDecoder).canonicalBytes
      (signed length digest)).length ≤ 2000 := by
    have hdigits : Codec.digits length ≤ 20 :=
      (Nat.length_toDigits_le_iff (by decide) (by decide)).2 (hlen.trans (by norm_num))
    have hcheckpoint : Json.byteLength ((Checkpoint.codec decoder.toDecoder).write
        checkpoint).render ≤ 400 := by decide +kernel
    have hnames : Json.byteLength memberBundle.toList ≤ 20 ∧ Json.byteLength "t0".toList ≤ 2 ∧
        Codec.digits 1 ≤ 1 := by decide
    have hrest : ((memberNames.tail.map fun name => ExportMember.mk name 0 (suite.sha256 [])).map
        fun m => Json.byteLength m.name.toList + Codec.digits m.length + 79).sum ≤ 400 := by
      decide
    rw [Codec.length_canonicalBytes, SignedExportManifest.byteLength_write hvalid]
    simp only [signed, List.map_cons, List.sum_cons, List.length_cons, List.length_nil]
    omega
  have hcheckpoint : checkpoint.InRange :=
    ⟨by decide, by decide, fun h hh => absurd hh List.not_mem_nil⟩
  have hrange : (signed length digest).manifest.InRange := by
    refine ⟨hcheckpoint.keyEpoch, hcheckpoint, ?_⟩
    intro m hm
    rcases List.mem_cons.1 hm with rfl | hm
    · exact hlen
    · obtain ⟨name, -, rfl⟩ := List.mem_map.1 hm
      exact Nat.two_pow_pos 64
  have hreads := SignedExportManifest.reads (D := decoder.toDecoder)
    (ExportManifest.reads suite_printable hvalid hrange)
  refine openHeader_of_raw decoder_lawful hreads (hsize.trans (by decide)) hvalid rfl ?_
  have hmagic : (utf8 magic.toList).length = 18 := by decide
  have hopen : suite.openWith [] (sealedArchive (signed length digest)) =
      some (utf8 magic.toList ++ newline :: ((SignedExportManifest.codec decoder.toDecoder).canonicalBytes
        (signed length digest) ++ newline :: chunk)) := rfl
  have hraw : (utf8 magic.toList ++ newline :: ((SignedExportManifest.codec
      decoder.toDecoder).canonicalBytes (signed length digest) ++ newline :: chunk)).length ≤ 2023 := by
    simp only [List.length_append, List.length_cons, hmagic, chunk, List.length_nil]
    omega
  have hsealed : (sealedArchive (signed length digest)).length ≤ 2024 := Nat.succ_le_succ hraw
  have hmax : maxArchiveBytes = 268435456 := by decide
  rw [openBounded, hopen]
  simp only [Except.require, hmax, if_pos (hsealed.trans (by omega : 2024 ≤ 268435456 + 2 ^ 20)),
    if_pos (hraw.trans (by omega : 2023 ≤ 268435456)), Except.bind_ok']
  rfl

/-- A manifest in which `bundle.json` has `2 ^ 64 - 1` bytes. -/
def wrapping : SignedExportManifest := signed (2 ^ 64 - 1) (List.replicate 32 0)

/-- It passes, and the program stops at the slice `body[0:-1]`. -/
theorem length_wraps :
    openHeader suite decoder (sealedArchive wrapping) [] (List.replicate 32 1) =
      .ok (wrapping, chunk) ∧
    slices suite chunk 0 wrapping.manifest.members = [(0, -1)] ∧
    openArchive suite decoder (sealedArchive wrapping) [] (List.replicate 32 1) =
      .error .panic := by
  have hvalid : wrapping.manifest.validate suite suiteID = .ok () := by decide
  have hheader : openHeader suite decoder (sealedArchive wrapping) [] (List.replicate 32 1) =
      .ok (wrapping, chunk) := openHeader_sealed (Nat.sub_lt (Nat.two_pow_pos 64) one_pos) hvalid
  have hpanic : openBodies suite chunk wrapping.manifest.members = .error .panic := by
    decide
  refine ⟨hheader, by decide, ?_⟩
  exact openArchive_of_bodies hheader hpanic

/-- The three bytes are those of `bundle.json`: they are cut out and cover the body. -/
theorem inBounds_iff_three :
    InBounds suite chunk (signed 3 (suite.sha256 chunk)).manifest.members ∧
    ∃ chunks, openBodies suite chunk (signed 3 (suite.sha256 chunk)).manifest.members = .ok chunks := by
  refine ⟨(inBounds_iff (openHeader_sealed (by decide) (by decide))).2 ?_,
    (openBodies suite chunk (signed 3 (suite.sha256 chunk)).manifest.members).get (by decide),
    Except.eq_ok_get _⟩
  have hsum : ∀ i < 5, startOf (signed 3 (suite.sha256 chunk)).manifest.members (i + 1) < 2 ^ 63 := by
    decide
  exact fun i hi _ => hsum i hi

end Slices01

end Sshstate.Export
