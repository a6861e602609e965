/-
  A request that was signed is accepted.

  `Sign` and `Verify` build the covered components and the text that is signed each on
  their own, from requests that differ in the two fields of the signature only
  (`Delivered`).  Step by step the verifier finds what the signer wrote, and at every
  time from 60 s before to 360 s after the signature was created it reports the signer
  (`verify_of_sign`).
-/
import Sshstate.Proof.Params
import Sshstate.Proof.Tamper
import Sshstate.Relay.Nonces

namespace Sshstate.Httpsig

variable {L : GoLib} {C : Suite}

open Except (bind_eq_ok require_bind_eq_ok mapError_eq_ok require_eq_ok)

/-- What is used of the encodings to read a byte sequence and a nonce back. -/
structure GoLib.Decodes (L : GoLib) : Prop where
  encodeStd_graphic : ∀ b, ∀ c ∈ L.encodeStd b, 0x21 ≤ c ∧ c ≤ 0x7e
  decodeStd_encodeStd : ∀ b, L.decodeStd (L.encodeStd b) = .ok b
  encodeRawURL_nil : L.encodeRawURL [] = []
  decodeRawURL_encodeRawURL : ∀ b, L.decodeRawURL (L.encodeRawURL b) = some b

/-! ## Fields -/

theorem parseByteSequence_byteSequence (hD : L.Decodes) (b : Bytes) :
    parseByteSequence L (byteSequence L b) = .ok b := by
  have hbody : (byteSequence L b).tail.dropLast = L.encodeStd b := by simp [byteSequence]
  have hwrap : 2 ≤ (byteSequence L b).length ∧ (byteSequence L b).head? = some colon ∧
      (byteSequence L b).getLast? = some colon := by
    exact ⟨by simp [byteSequence], rfl, List.getLast?_concat⟩
  simp [parseByteSequence, hbody, hD.decodeStd_encodeStd, Except.mapError, Except.require, hwrap]

theorem parseDictionaryMember_member {label value : Bytes} (hvalue : value ≠ [])
    (htrim : L.trimSpace (dictionaryMember label value) = dictionaryMember label value) :
    parseDictionaryMember L (dictionaryMember label value) label = .ok value := by
  have hsplit : dictionaryMember label value = (label ++ [equals]) ++ value := by
    simp [dictionaryMember]
  have hne : dictionaryMember label value ≠ [] := by simp [dictionaryMember]
  have hpre : label ++ [equals] <+: dictionaryMember label value := ⟨value, hsplit.symm⟩
  have hdrop : (dictionaryMember label value).drop (label ++ [equals]).length = value := by
    rw [hsplit, List.drop_left]
  simp only [parseDictionaryMember, htrim, Except.require, if_pos hne, if_pos hpre, hdrop,
    if_pos hvalue, Except.bind_ok']

/-- A byte sequence is read back from its field. -/
theorem parse_byteSequence (hL : L.Lawful) (hD : L.Decodes) {label : Bytes}
    (hlabel : ∀ c ∈ label, 0x21 ≤ c ∧ c ≤ 0x7e) (b : Bytes) :
    parseDictionaryMember L (dictionaryMember label (byteSequence L b)) label =
      .ok (byteSequence L b) := by
  refine parseDictionaryMember_member (by simp [byteSequence]) (hL.trimSpace_graphic _ ?_)
  intro c hc
  simp only [dictionaryMember, byteSequence, List.mem_append, List.mem_cons, List.not_mem_nil,
    or_false] at hc
  rcases hc with hc | rfl | (rfl | hc) | rfl
  · exact hlabel c hc
  · decide
  · decide
  · exact hD.encodeStd_graphic b c hc
  · decide

theorem idOf_idBytes {id : ID} (h : id.valid = true) : idOf (idBytes id) = id := by
  simp only [ID.valid, Bool.and_eq_true, beq_iff_eq, List.all_eq_true] at h
  have hbyte : ∀ n, n < 128 → n.toUInt8.toNat = n := by decide
  rw [idOf, idBytes, List.map_map]
  refine (List.map_congr_left fun c hc => ?_).trans (List.map_id id)
  have hlt : c.toNat < 128 := by
    have hx := h.2 c hc
    simp only [ID.isLowerHex, Bool.or_eq_true, Bool.and_eq_true, decide_eq_true_eq] at hx
    rcases hx with hx | hx
    · exact lt_of_le_of_lt (b := '9'.toNat) hx.2 (by decide)
    · exact lt_of_le_of_lt (b := 'f'.toNat) hx.2 (by decide)
  simp only [Function.comp_apply, hbyte _ hlt, Char.ofNat_toNat, id_eq]

/-! ## The request on its way -/

theorem GoLib.Lawful.canonicalKey_ne (hL : L.Lawful) {a b : Bytes}
    (ha : a.all fieldNameChar = true) (hb : b.all fieldNameChar = true)
    (hne : a.map lowerByte ≠ b.map lowerByte) : L.canonicalKey a ≠ L.canonicalKey b :=
  fun h => hne ((hL.canonicalKey_eq a b ha hb).1 h)

theorem Header.values_set_of_ne (h : Header) {name other : Bytes} (v : Bytes)
    (hne : L.canonicalKey other ≠ L.canonicalKey name) :
    (h.set L name v).values L other = h.values L other := if_neg hne

/-- The names of the fields that are signed or hold the signature. -/
theorem name_chars : ∀ name ∈ [headerSignatureInput, headerSignature, headerContentDigest, headerVault,
    headerDevice, headerIdempotency], name.all fieldNameChar = true := by decide

/-- A request `r'` that carries the signer's identity, the digest of the body and a signature,
    and otherwise the fields of `r`. -/
structure Delivered (L : GoLib) (C : Suite) (S : Signer) (r : Request) (body input signature : Bytes)
    (r' : Request) : Prop where
  inputs : r'.header.values L headerSignatureInput = [input]
  signatures : r'.header.values L headerSignature = [signature]
  vault : r'.header.get L headerVault = idBytes S.vaultID
  device : r'.header.get L headerDevice = idBytes S.deviceID
  digest : r'.header.get L headerContentDigest =
    if body = [] then [] else dictionaryMember contentDigestAlgorithm (byteSequence L (C.sha256 body))
  key : r'.header.get L headerIdempotency = r.header.get L headerIdempotency

/-- The request with the two fields of the signature. -/
def Request.signed (L : GoLib) (r : Request) (input signature : Bytes) : Request :=
  { r with header := (r.header.set L headerSignatureInput input).set L headerSignature signature }

/-- Different names are different keys. -/
theorem keys_ne (hL : L.Lawful) : ([headerSignatureInput, headerSignature, headerContentDigest,
    headerVault, headerDevice, headerIdempotency].map L.canonicalKey).Nodup := by
  rw [List.nodup_map_iff_inj_on (by decide)]
  intro a ha b hb heq
  replace heq := (hL.canonicalKey_eq a b (name_chars a ha) (name_chars b hb)).1 heq
  revert a b
  decide

theorem delivered (hL : L.Lawful) (S : Signer) (r : Request) (body input signature : Bytes) :
    Delivered L C S r body input signature
      ((S.address L C r body).signed L input signature) := by
  have hkeys := keys_ne hL
  simp only [List.map_cons, List.map_nil, List.nodup_cons, List.mem_cons, List.not_mem_nil, or_false,
    not_or] at hkeys
  obtain ⟨⟨h1, h2, h3, h4, h5⟩, ⟨h6, h7, h8, h9⟩, ⟨h10, h11, h12⟩, ⟨h13, h14⟩, h15, -⟩ := hkeys
  refine ⟨?_, ?_, ?_, ?_, ?_, ?_⟩ <;> by_cases hb : body = [] <;>
    simp [Header.get, Header.values, Header.set, Header.del, Request.signed, Signer.address, hb, h1,
      h13, Ne.symm h2, Ne.symm h3, Ne.symm h4, Ne.symm h5, Ne.symm h6, Ne.symm h7, Ne.symm h8,
      Ne.symm h9, Ne.symm h10, Ne.symm h11, Ne.symm h12, Ne.symm h14, Ne.symm h15]

/-! ## What is signed -/

/-- The fields that a signature covers, next to the derived components. -/
def coveredNames : List Bytes := [headerContentDigest, headerVault, headerDevice, headerIdempotency]

theorem values_signed (hL : L.Lawful) (r : Request) (input signature : Bytes) {name : Bytes}
    (h : name ∈ coveredNames) :
    (r.signed L input signature).header.values L name = r.header.values L name := by
  have hchars : ∀ name ∈ coveredNames, name.all fieldNameChar = true := by decide
  have hne : ∀ name ∈ coveredNames, ∀ field ∈ [headerSignatureInput, headerSignature],
      name.map lowerByte ≠ field.map lowerByte := by decide
  have hkey : ∀ field ∈ [headerSignatureInput, headerSignature],
      L.canonicalKey name ≠ L.canonicalKey field := fun field hf =>
    hL.canonicalKey_ne (hchars name h) (name_chars field (by
      revert field; decide)) (hne name h field hf)
  rw [Request.signed, Header.values_set_of_ne _ _ (hkey _ (by simp)),
    Header.values_set_of_ne _ _ (hkey _ (by simp))]

/-- The components are derived, or names of fields. -/
theorem mem_expectedComponents {h : Header} {hasBody : Bool} {c : Bytes}
    (hc : c ∈ expectedComponents L h hasBody) :
    c ∈ [componentMethod, componentAuthority, componentPath, componentQuery] ∨
      ∃ name ∈ coveredNames, c = L.toLower name := by
  simp only [expectedComponents, List.mem_append] at hc
  rcases hc with ((hc | hc) | hc) | hc
  · exact Or.inl hc
  · split_ifs at hc
    · exact Or.inr ⟨headerContentDigest, by decide, List.mem_singleton.1 hc⟩
    · exact absurd hc List.not_mem_nil
  · simp only [List.mem_cons, List.not_mem_nil, or_false] at hc
    rcases hc with hc | hc
    · exact Or.inr ⟨headerVault, by decide, hc⟩
    · exact Or.inr ⟨headerDevice, by decide, hc⟩
  · split_ifs at hc
    · exact Or.inr ⟨headerIdempotency, by decide, List.mem_singleton.1 hc⟩
    · exact absurd hc List.not_mem_nil

theorem expectedComponents_signed (hL : L.Lawful) (r : Request) (input signature : Bytes)
    (hasBody : Bool) :
    expectedComponents L (r.signed L input signature).header hasBody =
      expectedComponents L r.header hasBody := by
  have hkey : (r.signed L input signature).header.get L headerIdempotency =
      r.header.get L headerIdempotency := by
    rw [Header.get, values_signed hL r input signature (by decide)]
    rfl
  rw [expectedComponents, expectedComponents, hkey]

theorem coveredLines_congr {m m' : Message} : ∀ {cs seen : List Bytes},
    (∀ c ∈ cs, componentValue L m c = componentValue L m' c) →
    coveredLines L m seen cs = coveredLines L m' seen cs
  | [], _, _ => rfl
  | c :: cs, seen, h => by
    simp only [coveredLines, h c List.mem_cons_self,
      coveredLines_congr fun d hd => h d (List.mem_cons_of_mem c hd)]

theorem fromRequest_signed {r : Request} {https : Bool} {msg : Message}
    (h : fromRequest L r https = .ok msg) (input signature : Bytes) :
    msg.fields = r.header ∧ fromRequest L (r.signed L input signature) https =
      .ok { msg with fields := (r.signed L input signature).header } := by
  simp only [fromRequest, require_bind_eq_ok, Except.ok.injEq] at h ⊢
  obtain ⟨hauth, rfl⟩ := h
  exact ⟨rfl, hauth, rfl⟩

/-- The fields of the signature are not covered by it. -/
theorem base_signed (hL : L.Lawful) (r : Request) (input signature : Bytes) (msg : Message)
    (hmsg : msg.fields = r.header) {params : SignatureParams} {hasBody : Bool}
    (hparams : params.components = expectedComponents L r.header hasBody) :
    base L { msg with fields := (r.signed L input signature).header } params = base L msg params := by
  have hvalue : ∀ c ∈ params.components,
      componentValue L { msg with fields := (r.signed L input signature).header } c =
        componentValue L msg c := by
    intro c hc
    rw [hparams] at hc
    rcases mem_expectedComponents hc with hc | ⟨name, hname, rfl⟩
    · simp only [List.mem_cons, List.not_mem_nil, or_false] at hc
      rcases hc with rfl | rfl | rfl | rfl <;> rfl
    · have hchars : ∀ name ∈ coveredNames, name.all fieldNameChar = true := by decide
      have hfield : fieldValue L (r.signed L input signature).header (L.toLower name) =
          fieldValue L msg.fields (L.toLower name) := by
        have hvals := values_signed hL r input signature hname
        rw [hmsg, fieldValue, fieldValue, Header.values, Header.values,
          hL.canonicalKey_toLower (hchars name hname)]
        rw [Header.values, Header.values] at hvals
        rw [hvals]
      simp only [componentValue, hfield]
  rw [base, base, coveredLines_congr hvalue]

/-! ## The parameters -/

variable {S : Signer}

theorem params_written (hL : L.Lawful) {t : ℤ} (ht : -2 ^ 63 ≤ t / second ∧ t / second + 300 < 2 ^ 63)
    (nonce : Bytes) (r : Request) (body : Bytes) : (S.params L t nonce r body).Written := by
  refine ⟨fun c hc hmem => ?_, fun q hq n hn => ?_⟩
  · rcases mem_expectedComponents hc with hc | ⟨name, hname, rfl⟩
    · have hparen : ∀ c ∈ [componentMethod, componentAuthority, componentPath, componentQuery],
          rightParen ∉ c := by decide
      exact hparen c hc hmem
    · have hname' : ∀ name ∈ coveredNames, name.all fieldNameChar = true ∧
          rightParen ∉ name.map lowerByte := by decide
      rw [hL.toLower_name (hname' name hname).1] at hmem
      exact (hname' name hname).2 hmem
  · simp only [Signer.params, List.mem_cons, List.not_mem_nil, or_false] at hq
    rcases hq with rfl | rfl | rfl | rfl | rfl <;> cases hn <;> omega

/-- The last parameter is a string, so the text of the parameters ends with a quote. -/
theorem value_ends {t : ℤ} {nonce : Bytes} {r : Request} {body value : Bytes}
    (h : (S.params L t nonce r body).value L = .ok value) : ∃ s, value = s ++ [dquote] := by
  obtain ⟨-, ts, hts, rfl⟩ := SignatureParams.value_eq_ok.1 h
  obtain ⟨t₁, ts₁, -, hts₁, rfl⟩ := List.forall₂_cons_left_iff.1 hts
  obtain ⟨t₂, ts₂, -, hts₂, rfl⟩ := List.forall₂_cons_left_iff.1 hts₁
  obtain ⟨t₃, ts₃, -, hts₃, rfl⟩ := List.forall₂_cons_left_iff.1 hts₂
  obtain ⟨t₄, ts₄, -, hts₄, rfl⟩ := List.forall₂_cons_left_iff.1 hts₃
  obtain ⟨t₅, ts₅, htag, hts₅, rfl⟩ := List.forall₂_cons_left_iff.1 hts₄
  obtain rfl := List.forall₂_nil_left_iff.1 hts₅
  obtain ⟨-, -, rfl⟩ := Param.text_eq_ok.1 htag
  refine ⟨leftParen :: [space].intercalate ((S.params L t nonce r body).components.map quoted) ++
    rightParen :: (t₁ ++ t₂ ++ t₃ ++ t₄ ++ (semicolon :: ascii "tag" ++ equals :: dquote ::
      escaped tag)), ?_⟩
  simp [ParamValue.text, quoted]

/-! ## Verification -/

section

-- `decide` goes through the characters of the two names
set_option maxRecDepth 2000

theorem label_graphic : ∀ c ∈ label, 0x21 ≤ c ∧ c ≤ 0x7e := by decide

theorem contentDigestAlgorithm_graphic : ∀ c ∈ contentDigestAlgorithm, 0x21 ≤ c ∧ c ≤ 0x7e := by
  decide

end

/-- The signer's parameters are found again. -/
theorem parseSignature_signed (hL : L.Lawful) (hR : L.Reads) (hD : L.Decodes) {V : Verifier}
    (hlimit : S.maxHeader ≤ V.maxHeader) {t : ℤ}
    (ht : -2 ^ 63 ≤ t / second ∧ t / second + 300 < 2 ^ 63) {nonce body value sig : Bytes}
    {q r' : Request}
    (hvalue : (S.params L t nonce q body).value L = .ok value)
    (hinput : S.checkSize headerSignatureInput (dictionaryMember label value) = .ok ())
    (hsig : S.checkSize headerSignature (dictionaryMember label (byteSequence L sig)) = .ok ())
    (hinputs : r'.header.values L headerSignatureInput = [dictionaryMember label value])
    (hsigs : r'.header.values L headerSignature = [dictionaryMember label (byteSequence L sig)]) :
    V.parseSignature L r' = .ok (sig, S.params L t nonce q body) := by
  have hget : r'.header.get L headerSignatureInput = dictionaryMember label value := by
    rw [Header.get, hinputs]; rfl
  have hget' : r'.header.get L headerSignature = dictionaryMember label (byteSequence L sig) := by
    rw [Header.get, hsigs]; rfl
  have hne : ∀ v, dictionaryMember label v ≠ [] := by simp [dictionaryMember]
  rw [Signer.checkSize, require_eq_ok] at hinput hsig
  have htrim : L.trimSpace (dictionaryMember label value) = dictionaryMember label value := by
    obtain ⟨s, rfl⟩ := value_ends hvalue
    have hcons : dictionaryMember label (s ++ [dquote]) =
        0x73 :: (label.tail ++ equals :: s) ++ [dquote] := by
      have hlabel : label = 0x73 :: label.tail := by decide
      rw [dictionaryMember]
      nth_rewrite 1 [hlabel]
      simp
    rw [hcons, hR.trimSpace_ends _ _ _ (by decide) (by decide)]
  have hvne : value ≠ [] := by
    obtain ⟨s, rfl⟩ := value_ends hvalue
    simp
  simp only [Verifier.parseSignature, hget, hget', Verifier.checkSize, Except.require,
    if_pos (And.intro (hne value) (hne (byteSequence L sig))), if_pos (hinput.trans hlimit),
    if_pos (hsig.trans hlimit), hinputs, hsigs, List.length_singleton, Except.bind_ok',
    parseDictionaryMember_member hvne htrim, parse_byteSequence hL hD label_graphic sig,
    Except.mapError, parseByteSequence_byteSequence hD,
    parse_of_value hR (params_written hL ht nonce q body) hvalue, hvalue, Except.toOption, and_self, if_true]

/-- The parameters pass, and name the signer. -/
theorem checkParams_signed (hD : L.Decodes) {t now : ℤ} {nonce body : Bytes} {q r' : Request}
    (hvault : S.vaultID.valid = true) (hdevice : S.deviceID.valid = true)
    (hnonce : nonce.length = nonceBytes)
    (hwindow : t / second * second - 60 * second ≤ now ∧ now ≤ t / second * second + 360 * second)
    (hget : r'.header.get L headerVault = idBytes S.vaultID)
    (hget' : r'.header.get L headerDevice = idBytes S.deviceID) :
    Verifier.checkParams L now r' (S.params L t nonce q body) =
      .ok { vaultID := S.vaultID, deviceID := S.deviceID, created := t / second * second,
            expires := (t / second + 300) * second, nonce := L.encodeRawURL nonce,
            idempotencyKey := r'.header.get L headerIdempotency } := by
  have hc : intParam (S.params L t nonce q body) "created" = some (t / second) := rfl
  have he : intParam (S.params L t nonce q body) "expires" = some (t / second + 300) := rfl
  have hn : stringParam (S.params L t nonce q body) "nonce" = some (L.encodeRawURL nonce) := rfl
  have hk : stringParam (S.params L t nonce q body) "keyid" = some (idBytes S.deviceID) := rfl
  have htag : stringParam (S.params L t nonce q body) "tag" = some tag := rfl
  have hlen : (L.decodeRawURL (L.encodeRawURL nonce)).map List.length = some nonceBytes := by
    rw [hD.decodeRawURL_encodeRawURL, Option.map_some, hnonce]
  generalize t / second = s at *
  have h₁ : s * second < (s + 300) * second := by unfold second; omega
  have h₂ : (s + 300) * second - s * second ≤ maxValidity := by unfold maxValidity second; omega
  have h₃ : s * second ≤ now + skewTolerance := by
    have := hwindow.1
    unfold skewTolerance
    omega
  have h₄ : now ≤ (s + 300) * second + skewTolerance := by
    have := hwindow.2
    unfold skewTolerance second at *
    omega
  simp only [Verifier.checkParams, hc, he, hn, hk, htag, Verifier.required, Except.bind_ok',
    Except.require, if_true, if_pos h₁, if_pos h₂, if_pos h₃, if_pos h₄, if_pos hlen, hget, hget',
    if_pos (And.intro hvault hdevice), idOf_idBytes hvault, idOf_idBytes hdevice]

/-- The digest of the body is found again. -/
theorem checkContentDigest_signed (hL : L.Lawful) (hD : L.Decodes) {r' : Request} {body : Bytes}
    (h : r'.header.get L headerContentDigest = if body = [] then []
      else dictionaryMember contentDigestAlgorithm (byteSequence L (C.sha256 body))) :
    checkContentDigest L C r' body = .ok () := by
  by_cases hb : body = []
  · rw [if_pos hb] at h
    simp [checkContentDigest, h]
  · have hne : dictionaryMember contentDigestAlgorithm (byteSequence L (C.sha256 body)) ≠ [] := by
      simp [dictionaryMember]
    rw [if_neg hb] at h
    simp only [checkContentDigest, h, if_neg hne,
      parse_byteSequence hL hD contentDigestAlgorithm_graphic, Except.mapError,
      parseByteSequence_byteSequence hD, Except.bind_ok', Except.require, if_true]

/-- The shape is that of the profile. -/
theorem checkShape_signed (hL : L.Lawful) (r : Request) (body : Bytes) (t : ℤ)
    (nonce input signature : Bytes) :
    Verifier.checkShape L ((S.address L C r body).signed L input signature)
      (S.params L t nonce (S.address L C r body) body) (body ≠ []) = .ok () := by
  have hdigest := (delivered (C := C) hL S r body input signature).digest
  have hcomponents : (S.params L t nonce (S.address L C r body) body).components =
      expectedComponents L ((S.address L C r body).signed L input signature).header (body ≠ []) :=
    (expectedComponents_signed hL _ input signature _).symm
  have hnames : (S.params L t nonce (S.address L C r body) body).params.map (·.name) = paramOrder := rfl
  have hne : ∀ v, dictionaryMember contentDigestAlgorithm v ≠ [] := by simp [dictionaryMember]
  by_cases hb : body = []
  · rw [if_pos hb] at hdigest
    simp only [Verifier.checkShape, Except.require, if_pos hcomponents, if_pos hnames, hdigest]
    simp [hb]
  · rw [if_neg hb] at hdigest
    simp only [Verifier.checkShape, Except.require, if_pos hcomponents, if_pos hnames, hdigest]
    simp [hb, hne]

/-- `Verify` up to the nonce accepts a request that was signed. -/
theorem check_of_sign (hL : L.Lawful) (hR : L.Reads) (hD : L.Decodes) (hC : C.Correct) {V : Verifier}
    {t now : ℤ} {nonce entropy body : Bytes} {r r' : Request} {https : Bool}
    (hnonce : nonce.length = nonceBytes)
    (ht : -2 ^ 63 ≤ t / second ∧ t / second + 300 < 2 ^ 63)
    (hsign : S.sign L C t nonce entropy r body https = .ok r')
    (hkey : V.resolveVerifyKey S.vaultID S.deviceID = .ok (C.verifier S.key))
    (hlimit : S.maxHeader ≤ V.maxHeader)
    (hwindow : t / second * second - 60 * second ≤ now ∧ now ≤ t / second * second + 360 * second) :
    V.check L C now r' body https =
      .ok { vaultID := S.vaultID, deviceID := S.deviceID, created := t / second * second,
            expires := (t / second + 300) * second, nonce := L.encodeRawURL nonce,
            idempotencyKey := r.header.get L headerIdempotency } := by
  simp only [Signer.sign, bind_eq_ok, mapError_eq_ok, require_eq_ok, exists_const,
    Except.ok.injEq] at hsign
  obtain ⟨⟨hvault, hdevice⟩, msg, hmsg, text, htext, value, hvalue, ⟨⟩, hinput, ⟨⟩, hsize, rfl⟩ := hsign
  have hverify := hC.verify_sign S.key entropy signingDomain text
  generalize C.sign S.key entropy signingDomain text = sig at *
  have hd := delivered (C := C) hL S r body (dictionaryMember label value)
    (dictionaryMember label (byteSequence L sig))
  -- what `Sign` returns is `Request.signed`
  change V.check L C now ((S.address L C r body).signed L (dictionaryMember label value)
    (dictionaryMember label (byteSequence L sig))) body https = _
  have hparse := parseSignature_signed hL hR hD hlimit ht hvalue hinput hsize hd.inputs hd.signatures
  have hshape := checkShape_signed (S := S) (C := C) hL r body t nonce (dictionaryMember label value)
    (dictionaryMember label (byteSequence L sig))
  have hparams : Verifier.checkParams L now _ (S.params L t nonce (S.address L C r body) body) = _ :=
    checkParams_signed hD hvault hdevice hnonce hwindow hd.vault hd.device
  obtain ⟨hfields, hmsg'⟩ := fromRequest_signed hmsg (dictionaryMember label value)
    (dictionaryMember label (byteSequence L sig))
  have hcomponents : (S.params L t nonce (S.address L C r body) body).components =
      expectedComponents L (S.address L C r body).header (body ≠ []) := rfl
  have hbase := base_signed hL (S.address L C r body) (dictionaryMember label value)
    (dictionaryMember label (byteSequence L sig)) msg hfields hcomponents
  simp only [Verifier.check, hparse, hshape, hparams, hd.key, checkContentDigest_signed hL hD hd.digest,
    hkey, hmsg', Except.mapError, hbase, htext, Except.bind_ok', Except.require, if_pos hverify]

/-- **Main result.** A request that was signed is accepted, with the identity of the signer, from
    60 s before to 360 s after the signature was created, by a verifier that knows the signer's
    key, whose limit is not below the signer's, and whose store does not have the nonce. -/
theorem verify_of_sign (hL : L.Lawful) (hR : L.Reads) (hD : L.Decodes) (hC : C.Correct)
    {t : ℤ} {nonce entropy : Bytes} {r : Request} {v : Relay.Verification}
    (hnonce : nonce.length = nonceBytes)
    (ht : -2 ^ 63 ≤ t / second ∧ t / second + 300 < 2 ^ 63)
    (hsign : S.sign L C t nonce entropy r v.body v.https = .ok v.request)
    (hkey : v.verifier.resolveVerifyKey S.vaultID S.deviceID = .ok (C.verifier S.key))
    (hlimit : S.maxHeader ≤ v.verifier.maxHeader)
    (hwindow : t / second * second - 60 * second ≤ v.checkedAt ∧
      v.checkedAt ≤ t / second * second + 360 * second)
    {rows : List Relay.NonceRow}
    (hfresh : ∀ row ∈ rows, ¬ (row.deviceID = S.deviceID ∧ row.nonce = L.encodeRawURL nonce)) :
    ∃ res, (Relay.verify L C rows v).1 = .ok res ∧ res.vaultID = S.vaultID ∧
      res.deviceID = S.deviceID ∧ res.nonce = L.encodeRawURL nonce ∧
      res.idempotencyKey = r.header.get L headerIdempotency := by
  have hcheck := check_of_sign hL hR hD hC hnonce ht hsign hkey hlimit hwindow
  have hne : L.encodeRawURL nonce ≠ [] := by
    intro hnil
    have hback := hD.decodeRawURL_encodeRawURL nonce
    rw [hnil, ← hD.encodeRawURL_nil, hD.decodeRawURL_encodeRawURL] at hback
    cases hback
    cases hnonce
  have hany : (rows.filter fun row => Relay.unix v.usedAt < row.expiresAt).any (fun row =>
      row.deviceID = S.deviceID ∧ row.nonce = L.encodeRawURL nonce) = false := by
    rw [List.any_eq_false]
    intro row hrow
    simpa using hfresh row (List.mem_of_mem_filter hrow)
  refine ⟨{ vaultID := S.vaultID, deviceID := S.deviceID, created := t / second * second,
            expires := (t / second + 300) * second, nonce := L.encodeRawURL nonce,
            idempotencyKey := r.header.get L headerIdempotency }, ?_, rfl, rfl, rfl, rfl⟩
  · simp only [Relay.verify, hcheck, Relay.use, if_neg hne, hany, Bool.false_eq_true, if_false, if_true]

namespace Signing01

open Params01 (lib lib_lawful lib_reads)

-- `decide` evaluates whole calls
set_option maxRecDepth 4000

theorem lib_decodes : lib.Decodes where
  encodeStd_graphic := fun b c hc => by
    obtain ⟨x, hx, rfl⟩ := List.mem_map.1 hc
    exact ⟨(Params01.encode_range hx).2.1, (Params01.encode_range hx).2.2.1⟩
  decodeStd_encodeStd := fun b => by simp [lib, Params01.decode_encode]
  encodeRawURL_nil := rfl
  decodeRawURL_encodeRawURL := Params01.decode_encode

/-- A request with an idempotency key and a body, signed at the time `0`. -/
def signed : Except Error Request :=
  Sample.signer.sign lib sample 0 (Sample.nonce 0) [] (Sample.request [ascii "k 1"]) [7] true

/-- It is verified 360 s later. -/
def verification (r : Request) : Relay.Verification where
  verifier := Sample.verifier
  request := r
  body := [7]
  https := true
  checkedAt := 360 * second
  usedAt := 360 * second

theorem verify_of_sign_late : ∃ r, signed = .ok r ∧
    ∃ res, (Relay.verify lib sample [] (verification r)).1 = .ok res ∧
      res.vaultID = Sample.signer.vaultID ∧ res.deviceID = Sample.signer.deviceID ∧
      res.nonce = lib.encodeRawURL (Sample.nonce 0) ∧ res.idempotencyKey = ascii "k 1" := by
  have hok : signed.toBool = true := by decide
  obtain ⟨r, hsign⟩ : ∃ r, signed = .ok r := ⟨_, Except.eq_ok_get hok⟩
  refine ⟨r, hsign, ?_⟩
  have hkey : Header.get lib (Sample.request [ascii "k 1"]).header headerIdempotency =
      ascii "k 1" := by decide
  have hclock : -2 ^ 63 ≤ 0 / second ∧ 0 / second + 300 < 2 ^ 63 := by decide
  have hwindow : 0 / second * second - 60 * second ≤ (verification r).checkedAt ∧
      (verification r).checkedAt ≤ 0 / second * second + 360 * second := by
    constructor <;> simp [verification, second]
  have hfresh : ∀ row ∈ ([] : List Relay.NonceRow), ¬ (row.deviceID = Sample.signer.deviceID ∧
      row.nonce = lib.encodeRawURL (Sample.nonce 0)) := fun row hrow => absurd hrow List.not_mem_nil
  have hverify := verify_of_sign (v := verification r) lib_lawful lib_reads lib_decodes sample_correct
    (by decide) hclock hsign rfl le_rfl hwindow hfresh
  rwa [hkey] at hverify

end Signing01

end Sshstate.Httpsig
