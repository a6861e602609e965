/-
  What a signed request that was accepted has passed.

  `Signed` collects the facts of a successful `Verifier.check`, step by step
  (`check_ok`), and `Reported` those of its `checkParams` (`checkParams_ok`).  The loops
  of the parser are bounded by the length of what they read, and would not read on with
  a larger bound (`parseItems_fuel`, `parseParams_fuel`).
-/
import Sshstate.Httpsig.Verify

namespace Sshstate.Httpsig

variable {L : GoLib} {C : Suite} {V : Verifier} {now : ℤ} {r : Request} {body : Bytes}
  {https : Bool} {res : Result}

open Except (bind_eq_ok require_bind_eq_ok mapError_eq_ok require_eq_ok)

/-! ## The parser has enough turns -/

theorem parseQuotedRest_length : ∀ {s : Bytes} {p : Bytes × Bytes}, parseQuotedRest s = .ok p →
    p.2.length < s.length
  | [], p, h => by cases h
  | [c], p, h => by
    simp only [parseQuotedRest] at h
    split_ifs at h
    cases h
    simp
  | c :: e :: cs, p, h => by
    simp only [parseQuotedRest] at h
    split_ifs at h with h1 h2 h3 h4
    · simp only [bind_eq_ok, Except.ok.injEq] at h
      obtain ⟨q, hq, rfl⟩ := h
      have := parseQuotedRest_length hq
      simp only [List.length_cons]
      omega
    · cases h
      simp
    · simp only [bind_eq_ok, Except.ok.injEq] at h
      obtain ⟨q, hq, rfl⟩ := h
      have := parseQuotedRest_length hq
      simp only [List.length_cons] at this ⊢
      omega

theorem parseQuotedString_length {s : Bytes} {p : Bytes × Bytes}
    (h : parseQuotedString s = .ok p) : p.2.length < s.length := by
  cases s with
  | nil => cases h
  | cons c cs =>
    simp only [parseQuotedString] at h
    split_ifs at h
    exact (parseQuotedRest_length h).trans (Nat.lt_succ_self _)

/-- The length of the inner list is enough turns to read it. -/
theorem parseItems_fuel : ∀ {n m : ℕ} {rest : Bytes}, rest.length ≤ n → rest.length ≤ m →
    parseItems n rest = parseItems m rest
  | 0, m, rest, hn, hm => by
    obtain rfl := List.eq_nil_of_length_eq_zero (Nat.le_zero.1 hn)
    cases m <;> rfl
  | n + 1, 0, rest, hn, hm => by
    obtain rfl := List.eq_nil_of_length_eq_zero (Nat.le_zero.1 hm)
    rfl
  | n + 1, m + 1, rest, hn, hm => by
    simp only [parseItems]
    split_ifs with hnil
    · rfl
    cases hq : parseQuotedString rest with
    | error e => rfl
    | ok p =>
      have hlt := parseQuotedString_length hq
      have hdrop := (List.dropWhile_suffix (l := p.2) (· == space)).length_le
      have ih : parseItems n (p.2.dropWhile (· == space)) = parseItems m _ :=
        parseItems_fuel (by omega) (by omega)
      simp only [Except.mapError, Except.bind_ok', ih]

theorem cut_length {c : UInt8} : ∀ {s : Bytes} {p : Bytes × Bytes}, cut c s = some p →
    p.2.length < s.length
  | [], p, h => by cases h
  | x :: xs, p, h => by
    simp only [cut] at h
    split_ifs at h
    · cases h
      simp
    · obtain ⟨q, hq, rfl⟩ := Option.map_eq_some_iff.1 h
      exact (cut_length hq).trans (Nat.lt_succ_self _)

theorem parseValue_length {name rest : Bytes} {p : ParamValue × Bytes}
    (h : parseValue L name rest = .ok p) : p.2.length ≤ rest.length := by
  cases rest with
  | nil => cases h
  | cons c cs =>
    simp only [parseValue] at h
    split_ifs at h
    · simp only [bind_eq_ok, mapError_eq_ok, Except.ok.injEq] at h
      obtain ⟨q, hq, rfl⟩ := h
      exact (parseQuotedString_length hq).le
    · split at h
      · cases h
      · simp only [bind_eq_ok, require_eq_ok, exists_const, Except.ok.injEq] at h
        obtain ⟨-, -, rfl⟩ := h
        exact (List.dropWhile_suffix _).length_le

/-- And the length of what follows it is enough for the parameters. -/
theorem parseParams_fuel : ∀ {n m : ℕ} {rest : Bytes}, rest.length ≤ n → rest.length ≤ m →
    parseParams L n rest = parseParams L m rest
  | 0, m, rest, hn, hm => by
    obtain rfl := List.eq_nil_of_length_eq_zero (Nat.le_zero.1 hn)
    cases m <;> rfl
  | n + 1, 0, rest, hn, hm => by
    obtain rfl := List.eq_nil_of_length_eq_zero (Nat.le_zero.1 hm)
    rfl
  | n + 1, m + 1, [], hn, hm => rfl
  | n + 1, m + 1, c :: cs, hn, hm => by
    simp only [parseParams]
    cases hc : cut equals cs with
    | none => rfl
    | some q =>
      cases hv : parseValue L q.1 q.2 with
      | error e => simp [hv]
      | ok p =>
        have h1 := cut_length hc
        have h2 := parseValue_length hv
        simp only [List.length_cons] at hn hm
        have ih : parseParams L n p.2 = parseParams L m p.2 :=
          parseParams_fuel (by omega) (by omega)
        simp only [hv, Except.bind_ok', ih]

/-! ## Accepted requests -/

theorem Verifier.required_eq_ok {α : Type} {value : Option α} {text : String} {a : α} :
    required value text = .ok a ↔ value = some a := by
  cases value <;> simp [required]

/-- Where the fields of a result come from. -/
structure Reported (L : GoLib) (r : Request) (params : SignatureParams) (res : Result) : Prop where
  created : ∃ n, intParam params "created" = some n ∧ res.created = n * second
  expires : ∃ n, intParam params "expires" = some n ∧ res.expires = n * second
  nonce : stringParam params "nonce" = some res.nonce
  keyid : stringParam params "keyid" = some (r.header.get L headerDevice)
  vaultID : res.vaultID = idOf (r.header.get L headerVault)
  vaultID_valid : res.vaultID.valid = true
  deviceID : res.deviceID = idOf (r.header.get L headerDevice)
  deviceID_valid : res.deviceID.valid = true
  idempotencyKey : res.idempotencyKey = r.header.get L headerIdempotency

theorem checkParams_ok {params : SignatureParams}
    (h : Verifier.checkParams L now r params = .ok res) : Reported L r params res := by
  simp only [Verifier.checkParams, bind_eq_ok, Verifier.required_eq_ok, require_eq_ok,
    exists_const, Except.ok.injEq] at h
  obtain ⟨created, hc, expires, he, nonce, hn, keyid, hk, -, -, -, -, -, -, ⟨hv, hd⟩, hkd, rfl⟩ := h
  exact ⟨⟨created, hc, rfl⟩, ⟨expires, he, rfl⟩, hn, hkd ▸ hk, rfl, hv, rfl, hd, rfl⟩

theorem checkShape_ok {params : SignatureParams} {hasBody : Bool} {u : Unit}
    (h : Verifier.checkShape L r params hasBody = .ok u) :
    params.components = expectedComponents L r.header hasBody ∧
      (hasBody = true ↔ r.header.get L headerContentDigest ≠ []) := by
  simp only [Verifier.checkShape, require_bind_eq_ok, require_eq_ok] at h
  obtain ⟨hc, -, hb, hb'⟩ := h
  refine ⟨hc, fun h hd => hb ⟨h, hd⟩, fun hd => ?_⟩
  by_contra hne
  exact hb' ⟨Bool.eq_false_iff.2 hne, hd⟩

/-- What an accepted request has passed. -/
structure Signed (L : GoLib) (C : Suite) (V : Verifier) (r : Request) (body : Bytes)
    (https : Bool) (res : Result) (sig : Bytes) (params : SignatureParams) (key : Bytes)
    (msg : Message) (text : Bytes) : Prop where
  parsed : V.parseSignature L r = .ok (sig, params)
  components : params.components = expectedComponents L r.header (body ≠ [])
  hasDigest : body ≠ [] ↔ r.header.get L headerContentDigest ≠ []
  reported : Reported L r params res
  digest : checkContentDigest L C r body = .ok ()
  resolved : V.resolveVerifyKey res.vaultID res.deviceID = .ok key
  message : fromRequest L r https = .ok msg
  base : base L msg params = .ok text
  verified : C.verify key signingDomain text sig = true

theorem check_ok (h : V.check L C now r body https = .ok res) :
    ∃ sig params key msg text, Signed L C V r body https res sig params key msg text := by
  simp only [Verifier.check, bind_eq_ok, mapError_eq_ok, require_eq_ok, exists_const,
    Except.ok.injEq] at h
  obtain ⟨⟨sig, params⟩, hp, u, hs, res', hr, u', hd, key, hk, msg, hm, text, hb, hv, rfl⟩ := h
  obtain ⟨hc, hdig⟩ := checkShape_ok hs
  exact ⟨sig, params, key, msg, text, hp, hc, decide_eq_true_iff.symm.trans hdig,
    checkParams_ok hr, hd, hk, hm, hb, hv⟩

end Sshstate.Httpsig
