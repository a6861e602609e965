/-
  Tamper evidence of signed requests: what two requests that are accepted under one
  signature have in common.

  * The signature covers the base, a line for every component, and the lines come apart
    again (`coveredLines_agree`): no value has a line break.
  * Of a header field the base has all values, joined.  Its first value can be read off
    that text where it is an id (`get_eq_of_valid`) or a digest (`digest_eq`), so that
    what the result reports of those fields is what was signed.
  * An `Idempotency-Key` cannot: the same text is signed for the values `a` and `b` and
    for the value `a, b` (`key_respelled`), and for a value with spaces around it
    (`check_padded`), while the result reports the first value as it stands.
-/
import Sshstate.Proof.Httpsig
import Sshstate.Httpsig.Sign

namespace Sshstate.Httpsig

variable {L : GoLib} {C : Suite}

open Except (bind_eq_ok require_bind_eq_ok mapError_eq_ok require_eq_ok)

/-! ## Line breaks -/

/-- No line break. -/
def Unbroken (s : Bytes) : Prop := newline ∉ s ∧ return_ ∉ s

/-- A request as `net/http` delivers it: no line breaks. -/
structure Request.Clean (r : Request) : Prop where
  method : Unbroken r.method
  host : Unbroken r.host
  urlHost : Unbroken r.urlHost
  escapedPath : Unbroken r.escapedPath
  rawQuery : Unbroken r.rawQuery
  header : ∀ key, ∀ v ∈ r.header key, Unbroken v

theorem unbroken_eq {s : Bytes} (h : Unbroken s) : unbroken s = s := by
  induction s using unbroken.induct with
  | case1 => rfl
  | case2 c hc =>
    rcases hc with rfl | rfl
    · exact absurd List.mem_cons_self h.1
    · exact absurd List.mem_cons_self h.2
  | case3 c hc => rw [unbroken, if_neg hc]
  | case4 c d cs hcd ih => exact absurd (hcd.1 ▸ List.mem_cons_self) h.2
  | case5 c d cs hcd ih =>
    simp only [Unbroken, List.mem_cons, not_or] at h ih
    have hc : ¬ (c = newline ∨ c = return_) := by
      rintro (rfl | rfl)
      · exact h.1.1 rfl
      · exact h.2.1 rfl
    rw [unbroken, if_neg hcd, if_neg hc, ih ⟨h.1.2, h.2.2⟩]

theorem newline_notMem_unbroken (s : Bytes) : newline ∉ unbroken s := by
  have hs : newline ≠ space := by decide
  induction s using unbroken.induct with
  | case1 => simp [unbroken]
  | case2 c hc => simp [unbroken, hc, hs]
  | case3 c hc => simp only [unbroken, if_neg hc, List.mem_singleton]; exact fun he => hc (.inl he.symm)
  | case4 c d cs hcd ih => simp [unbroken, hcd, hs, ih]
  | case5 c d cs hcd ih =>
    rw [unbroken, if_neg hcd, List.mem_cons, not_or]
    refine ⟨?_, ih⟩
    split_ifs with h
    · exact hs
    · exact fun he => h (.inl he.symm)

theorem unbroken_space (s : Bytes) : unbroken (space :: s) = space :: unbroken s := by
  have h1 : space ≠ newline := by decide
  have h2 : space ≠ return_ := by decide
  cases s <;> simp [unbroken, h1, h2]

theorem newline_notMem_intercalate {l : List Bytes} (h : ∀ s ∈ l, newline ∉ s) :
    newline ∉ (ascii ", ").intercalate l := by
  have hsep : newline ∉ ascii ", " := by decide
  induction l with
  | nil => simp
  | cons s l ih =>
    have hs := h s List.mem_cons_self
    have hl := ih fun t ht => h t (List.mem_cons_of_mem s ht)
    cases l with
    | nil => simpa using hs
    | cons t l =>
      rw [List.intercalate_cons_cons, List.mem_append, List.mem_append]
      rintro ((hn | hn) | hn)
      · exact hs hn
      · exact hsep hn
      · exact hl hn

theorem GoLib.Lawful.newline_notMem_trimSpace (hL : L.Lawful) {s : Bytes} (h : newline ∉ s) :
    newline ∉ L.trimSpace s :=
  fun hn => h ((hL.trimSpace_infix s).subset hn)

theorem newline_notMem_fieldValue (hL : L.Lawful) {h : Header} {name v : Bytes}
    (hv : fieldValue L h name = some v) : newline ∉ v := by
  unfold fieldValue at hv
  split at hv
  · cases hv
  · cases hv
    refine newline_notMem_intercalate fun s hs => ?_
    obtain ⟨w, -, rfl⟩ := List.mem_map.1 hs
    exact hL.newline_notMem_trimSpace (newline_notMem_unbroken w)

theorem newline_notMem_normalizeAuthority (hL : L.Lawful) {a : Bytes} {https : Bool}
    (h : newline ∉ a) : newline ∉ normalizeAuthority L a https := by
  have hn : newline ∉ L.toLower (L.trimSpace a) :=
    hL.toLower_newline _ (hL.newline_notMem_trimSpace h)
  unfold normalizeAuthority
  dsimp only
  generalize (if https = true then ascii ":443" else ascii ":80") = port
  split_ifs
  · exact fun hm => hn (List.mem_of_mem_take hm)
  · exact hn

/-! ## The lines of the base -/

theorem fromRequest_ok {r : Request} {https : Bool} {m : Message}
    (h : fromRequest L r https = .ok m) :
    m = { method := L.toUpper r.method
          authority := normalizeAuthority L (if r.host = [] then r.urlHost else r.host) https
          path := if r.escapedPath = [] then ascii "/" else r.escapedPath
          query := r.rawQuery
          fields := r.header } := by
  simp only [fromRequest, require_bind_eq_ok, Except.ok.injEq] at h
  exact h.2.symm

/-- A message whose parts have no line break. -/
structure Message.Clean (m : Message) : Prop where
  method : newline ∉ m.method
  authority : newline ∉ m.authority
  path : newline ∉ m.path
  query : newline ∉ m.query

theorem Request.Clean.message (hL : L.Lawful) {r : Request} {https : Bool} {m : Message}
    (hr : r.Clean) (hm : fromRequest L r https = .ok m) : m.Clean := by
  obtain rfl := fromRequest_ok hm
  refine ⟨hL.toUpper_newline _ hr.method.1, newline_notMem_normalizeAuthority hL ?_, ?_,
    hr.rawQuery.1⟩
  · split_ifs
    · exact hr.urlHost.1
    · exact hr.host.1
  · dsimp only
    split_ifs
    · decide
    · exact hr.escapedPath.1

/-- No component has a line break in its value. -/
theorem Message.Clean.componentValue (hL : L.Lawful) {m : Message} (hm : m.Clean) {c v : Bytes}
    (h : componentValue L m c = .ok v) : newline ∉ v := by
  unfold Httpsig.componentValue at h
  split_ifs at h with h1 h2 h3 h4 h5 h6 h7
  · cases h; exact hm.method
  · cases h; exact hm.authority
  · cases h; exact hm.path
  · cases h
    rw [List.mem_append]
    exact not_or_intro (by decide) hm.query
  · split at h
    · cases h
    · rename_i hv
      cases h
      exact newline_notMem_fieldValue hL hv

/-- What stands before the first `a` is determined. -/
theorem append_cons_unique {α : Type} {a : α} : ∀ {v v' x x' : List α}, a ∉ v → a ∉ v' →
    v ++ a :: x = v' ++ a :: x' → v = v' ∧ x = x'
  | [], [], x, x', _, _, h => ⟨rfl, by simpa using h⟩
  | [], c :: v', x, x', _, h', h => by
    simp only [List.nil_append, List.cons_append, List.cons.injEq] at h
    exact absurd (h.1 ▸ List.mem_cons_self) h'
  | c :: v, [], x, x', hv, _, h => by
    simp only [List.nil_append, List.cons_append, List.cons.injEq] at h
    exact absurd (h.1 ▸ List.mem_cons_self) hv
  | c :: v, c' :: v', x, x', hv, hv', h => by
    simp only [List.cons_append, List.cons.injEq] at h
    obtain ⟨rfl, h⟩ := h
    obtain ⟨rfl, hx⟩ := append_cons_unique (fun hm => hv (List.mem_cons_of_mem c hm))
      (fun hm => hv' (List.mem_cons_of_mem c hm)) h
    exact ⟨rfl, hx⟩

theorem coveredLines_cons_ok {m : Message} {seen cs : List Bytes} {c l : Bytes}
    (h : coveredLines L m seen (c :: cs) = .ok l) :
    ∃ v id lines, componentValue L m c = .ok v ∧ quoteString c = .ok id ∧
      coveredLines L m (c :: seen) cs = .ok lines ∧
      l = id ++ ascii ": " ++ v ++ newline :: lines := by
  simp only [coveredLines, bind_eq_ok, require_eq_ok, exists_const, Except.ok.injEq] at h
  obtain ⟨-, v, hv, id, hid, lines, hl, rfl⟩ := h
  exact ⟨v, id, lines, hv, hid, hl, rfl⟩

/-- Two messages with the same lines have the same values. -/
theorem coveredLines_agree (hL : L.Lawful) {m m' : Message} (hm : m.Clean) (hm' : m'.Clean) :
    ∀ {cs seen seen' : List Bytes} {l l' t t' : Bytes}, coveredLines L m seen cs = .ok l →
      coveredLines L m' seen' cs = .ok l' → l ++ t = l' ++ t' →
      ∀ c ∈ cs, componentValue L m c = componentValue L m' c
  | [], _, _, _, _, _, _, _, _, _ => fun c hc => absurd hc List.not_mem_nil
  | c :: cs, seen, seen', l, l', t, t', h, h', heq => by
    obtain ⟨v, id, lines, hv, hid, hl, rfl⟩ := coveredLines_cons_ok h
    obtain ⟨v', id', lines', hv', hid', hl', rfl⟩ := coveredLines_cons_ok h'
    obtain rfl : id = id' := Except.ok.inj (hid.symm.trans hid')
    simp only [List.append_assoc, List.append_cancel_left_eq, List.cons_append] at heq
    obtain ⟨rfl, hrest⟩ := append_cons_unique (hm.componentValue hL hv) (hm'.componentValue hL hv') heq
    intro c' hc'
    rcases List.mem_cons.1 hc' with rfl | hc'
    · rw [hv, hv']
    · exact coveredLines_agree hL hm hm' hl hl' hrest c' hc'

theorem base_ok {m : Message} {params : SignatureParams} {text : Bytes}
    (h : base L m params = .ok text) :
    ∃ lines t, coveredLines L m [] params.components = .ok lines ∧ text = lines ++ t := by
  simp only [base, bind_eq_ok, Except.ok.injEq] at h
  obtain ⟨lines, hl, value, -, rfl⟩ := h
  exact ⟨lines, _, hl, List.append_assoc _ _ _⟩

/-! ## The first value of a field -/

section

-- `decide` goes through all bytes
set_option maxRecDepth 2000

theorem fieldNameChar_lt (c : UInt8) (h : fieldNameChar c = true) : c < 0x80 := by
  revert c; decide

theorem fieldNameChar_lowerByte (c : UInt8) (h : fieldNameChar c = true) :
    fieldNameChar (lowerByte c) = true := by
  revert c; decide

theorem lowerByte_ne_at (c : UInt8) (h : fieldNameChar c = true) : lowerByte c ≠ 0x40 := by
  revert c; decide

theorem isLowerHex_graphic (c : UInt8) (h : ID.isLowerHex (Char.ofNat c.toNat) = true) :
    0x21 ≤ c ∧ c ≤ 0x7e := by
  revert c; decide

end

/-- The covered component of a field and the field have one canonical name. -/
theorem GoLib.Lawful.canonicalKey_toLower (hL : L.Lawful) {name : Bytes}
    (h : name.all fieldNameChar = true) :
    L.canonicalKey (L.canonicalKey (L.toLower name)) = L.canonicalKey name := by
  have hchar : ∀ c ∈ name, fieldNameChar c = true := List.all_eq_true.1 h
  have hlower : (name.map lowerByte).all fieldNameChar = true := by
    rw [List.all_map, List.all_eq_true]
    exact fun c hc => fieldNameChar_lowerByte c (hchar c hc)
  rw [hL.toLower_ascii _ fun c hc => fieldNameChar_lt c (hchar c hc), hL.canonicalKey_idem _ hlower,
    hL.canonicalKey_eq _ _ hlower h, List.map_map]
  exact List.map_congr_left fun c _ => lowerByte_lowerByte c

/-- The signed text of a field begins with its first value. -/
theorem fieldValue_first (hL : L.Lawful) {h : Header} {name v : Bytes}
    (hname : name.all fieldNameChar = true) (hv : fieldValue L h (L.toLower name) = some v) :
    ∃ rest t, h.values L name = h.get L name :: rest ∧
      v = L.trimSpace (unbroken (h.get L name)) ++ t ∧ (rest = [] → t = []) := by
  unfold fieldValue Header.values at hv
  rw [hL.canonicalKey_toLower hname] at hv
  unfold Header.get Header.values
  cases hvals : h (L.canonicalKey name) with
  | nil => rw [hvals] at hv; cases hv
  | cons w ws =>
    rw [hvals] at hv
    cases hv
    cases ws with
    | nil => exact ⟨[], [], rfl, by simp, fun _ => rfl⟩
    | cons u us =>
      refine ⟨u :: us, ascii ", " ++ (ascii ", ").intercalate
        ((u :: us).map fun v => L.trimSpace (unbroken v)), rfl, ?_, fun h => by cases h⟩
      rw [List.map_cons, List.map_cons, List.intercalate_cons_cons, List.append_assoc]
      rfl

/-- A covered field, by its component. -/
theorem fieldValue_of_componentValue (hL : L.Lawful) {m : Message} {name v : Bytes}
    (hname : name.all fieldNameChar = true)
    (h : componentValue L m (L.toLower name) = .ok v) :
    fieldValue L m.fields (L.toLower name) = some v := by
  have hchar : ∀ c ∈ name, fieldNameChar c = true := List.all_eq_true.1 hname
  have hlow := hL.toLower_ascii name fun c hc => fieldNameChar_lt c (hchar c hc)
  have hat : (L.toLower name).head? ≠ some 0x40 := by
    rw [hlow]
    cases name with
    | nil => simp
    | cons c cs => simpa using lowerByte_ne_at c (hchar c List.mem_cons_self)
  unfold componentValue at h
  rw [if_neg hat] at h
  split_ifs at h
  split at h
  · cases h
  · rename_i hv
    cases h
    exact hv

theorem idOf_valid {s : Bytes} (h : (idOf s).valid = true) :
    s.length = 32 ∧ ∀ c ∈ s, 0x21 ≤ c ∧ c ≤ 0x7e := by
  simp only [ID.valid, idOf, ID.idBytes, List.length_map, Bool.and_eq_true, beq_iff_eq,
    List.all_map, List.all_eq_true, Function.comp_apply] at h
  exact ⟨h.1, fun c hc => isLowerHex_graphic c (h.2 c hc)⟩

theorem trimSpace_unbroken_graphic (hL : L.Lawful) {s : Bytes}
    (h : ∀ c ∈ s, 0x21 ≤ c ∧ c ≤ 0x7e) : L.trimSpace (unbroken s) = s := by
  have hbreak : Unbroken s :=
    ⟨fun hn => absurd (h _ hn).1 (by decide), fun hn => absurd (h _ hn).1 (by decide)⟩
  rw [unbroken_eq hbreak, hL.trimSpace_graphic s h]

/-- Two fields that are signed alike and begin with an id begin with one id. -/
theorem get_eq_of_valid (hL : L.Lawful) {h h' : Header} {name v : Bytes}
    (hname : name.all fieldNameChar = true)
    (hv : fieldValue L h (L.toLower name) = some v)
    (hv' : fieldValue L h' (L.toLower name) = some v)
    (hid : (idOf (h.get L name)).valid = true) (hid' : (idOf (h'.get L name)).valid = true) :
    h.get L name = h'.get L name := by
  obtain ⟨hlen, hgr⟩ := idOf_valid hid
  obtain ⟨hlen', hgr'⟩ := idOf_valid hid'
  obtain ⟨rest, t, -, ht, -⟩ := fieldValue_first hL hname hv
  obtain ⟨rest', t', -, ht', -⟩ := fieldValue_first hL hname hv'
  rw [trimSpace_unbroken_graphic hL hgr] at ht
  rw [trimSpace_unbroken_graphic hL hgr'] at ht'
  exact (List.append_inj (ht.symm.trans ht') (hlen.trans hlen'.symm)).1

/-! ## The digest of the body -/

theorem parseDictionaryMember_ok {header expectLabel value : Bytes}
    (h : parseDictionaryMember L header expectLabel = .ok value) :
    L.trimSpace header = expectLabel ++ equals :: value := by
  simp only [parseDictionaryMember, require_bind_eq_ok, Except.ok.injEq] at h
  obtain ⟨-, ⟨rest, hrest⟩, -, rfl⟩ := h
  rw [← hrest, List.drop_left]
  simp

theorem parseByteSequence_ok {s raw : Bytes} (h : parseByteSequence L s = .ok raw) :
    s = colon :: L.encodeStd raw ++ [colon] ∧ L.decodeStd (L.encodeStd raw) = .ok raw := by
  simp only [parseByteSequence, bind_eq_ok, mapError_eq_ok, require_eq_ok, exists_const,
    Except.ok.injEq] at h
  obtain ⟨⟨hlen, hhead, hlast⟩, raw', hdec, henc, rfl⟩ := h
  refine ⟨?_, henc ▸ hdec⟩
  obtain ⟨c, cs, rfl⟩ : ∃ c cs, s = c :: cs := by
    cases s with
    | nil => simp at hlen
    | cons c cs => exact ⟨c, cs, rfl⟩
  cases hhead
  have hne : cs ≠ [] := by rintro rfl; simp at hlen
  rw [List.getLast?_cons_of_ne_nil hne, List.getLast?_eq_some_getLast hne] at hlast
  rw [henc, List.tail_cons, List.cons_append, ← Option.some.inj hlast,
    List.dropLast_append_getLast hne]

/-- The digest of an accepted body stands in the field up to its second colon. -/
theorem checkContentDigest_ok {r : Request} {body : Bytes} {u : Unit}
    (h : checkContentDigest L C r body = .ok u) (hne : r.header.get L headerContentDigest ≠ []) :
    L.trimSpace (r.header.get L headerContentDigest) =
      contentDigestAlgorithm ++ equals :: colon :: L.encodeStd (C.sha256 body) ++ [colon] ∧
    L.decodeStd (L.encodeStd (C.sha256 body)) = .ok (C.sha256 body) := by
  simp only [checkContentDigest, if_neg hne, bind_eq_ok, mapError_eq_ok, require_eq_ok] at h
  obtain ⟨value, hvalue, want, hwant, rfl⟩ := h
  obtain ⟨hseq, hdec⟩ := parseByteSequence_ok hwant
  rw [parseDictionaryMember_ok hvalue, hseq]
  exact ⟨by simp, hdec⟩

/-- Two fields that are signed alike and hold the digests of two bodies. -/
theorem digest_eq (hL : L.Lawful) {r r' : Request} {body body' v : Bytes} {u u' : Unit}
    (hr : r.Clean) (hr' : r'.Clean)
    (hv : fieldValue L r.header (L.toLower headerContentDigest) = some v)
    (hv' : fieldValue L r'.header (L.toLower headerContentDigest) = some v)
    (h : checkContentDigest L C r body = .ok u) (h' : checkContentDigest L C r' body' = .ok u')
    (hne : r.header.get L headerContentDigest ≠ [])
    (hne' : r'.header.get L headerContentDigest ≠ []) :
    C.sha256 body = C.sha256 body' := by
  have hname : headerContentDigest.all fieldNameChar = true := by decide
  have first : ∀ {r : Request} {body : Bytes} {u : Unit}, r.Clean →
      fieldValue L r.header (L.toLower headerContentDigest) = some v →
      checkContentDigest L C r body = .ok u → r.header.get L headerContentDigest ≠ [] →
      ∃ t, v = contentDigestAlgorithm ++ equals :: colon ::
        (L.encodeStd (C.sha256 body) ++ colon :: t) := by
    intro r body u hr hv h hne
    obtain ⟨rest, t, hvals, ht, -⟩ := fieldValue_first hL hname hv
    have hmem : r.header.get L headerContentDigest ∈ r.header (L.canonicalKey headerContentDigest) := by
      rw [Header.values] at hvals
      rw [hvals]
      exact List.mem_cons_self
    refine ⟨t, ?_⟩
    rw [ht, unbroken_eq (hr.header _ _ hmem), (checkContentDigest_ok h hne).1]
    simp
  obtain ⟨t, ht⟩ := first hr hv h hne
  obtain ⟨t', ht'⟩ := first hr' hv' h' hne'
  have heq := ht.symm.trans ht'
  simp only [List.append_cancel_left_eq, List.cons.injEq, true_and] at heq
  have henc := (append_cons_unique (hL.encodeStd_colon _) (hL.encodeStd_colon _) heq).1
  have hdec := (checkContentDigest_ok h hne).2
  rw [henc, (checkContentDigest_ok h' hne').2] at hdec
  exact (Except.ok.inj hdec).symm

/-! ## Two requests under one signature -/

theorem GoLib.Lawful.toLower_name (hL : L.Lawful) {name : Bytes}
    (h : name.all fieldNameChar = true) : L.toLower name = name.map lowerByte :=
  hL.toLower_ascii name fun c hc => fieldNameChar_lt c (List.all_eq_true.1 h c hc)

/-- The list of covered components tells whether there is a body and a key. -/
theorem expectedComponents_inj (hL : L.Lawful) {h h' : Header} {b b' : Bool}
    (heq : expectedComponents L h b = expectedComponents L h' b') :
    b = b' ∧ (h.get L headerIdempotency = [] ↔ h'.get L headerIdempotency = []) := by
  have hne : L.toLower headerContentDigest ≠ L.toLower headerVault := by
    rw [hL.toLower_name (by decide), hL.toLower_name (by decide)]
    decide
  simp only [expectedComponents, List.append_assoc, List.append_cancel_left_eq] at heq
  have hb : b = b' := by
    cases b <;> cases b'
    · rfl
    · exact absurd (List.cons.inj heq).1.symm hne
    · exact absurd (List.cons.inj heq).1 hne
    · rfl
  subst hb
  refine ⟨rfl, ?_⟩
  simp only [List.append_cancel_left_eq] at heq
  by_cases hk : h.get L headerIdempotency = [] <;> by_cases hk' : h'.get L headerIdempotency = [] <;>
    simp_all

/-- The signature and its parameters are read from the two fields alone. -/
theorem parseSignature_unique {V V' : Verifier} {r r' : Request} {x x' : Bytes × SignatureParams}
    (hi : r'.header.values L headerSignatureInput = r.header.values L headerSignatureInput)
    (hs : r'.header.values L headerSignature = r.header.values L headerSignature)
    (h : V.parseSignature L r = .ok x) (h' : V'.parseSignature L r' = .ok x') : x' = x := by
  have read : ∀ {V : Verifier} {r : Request} {x : Bytes × SignatureParams},
      V.parseSignature L r = .ok x → ∃ i s,
        parseDictionaryMember L (r.header.get L headerSignatureInput) label = .ok i ∧
        parseDictionaryMember L (r.header.get L headerSignature) label = .ok s ∧
        parseByteSequence L s = .ok x.1 ∧ parseSignatureParams L i = .ok x.2 := by
    intro V r x h
    simp only [Verifier.parseSignature, bind_eq_ok, mapError_eq_ok, require_eq_ok, exists_const,
      Except.ok.injEq] at h
    obtain ⟨-, -, -, -, -, -, i, hi, s, hs, sig, hsig, params, hp, -, rfl⟩ := h
    exact ⟨i, s, hi, hs, hsig, hp⟩
  obtain ⟨i, s, h1, h2, h3, h4⟩ := read h
  obtain ⟨i', s', h1', h2', h3', h4'⟩ := read h'
  rw [Header.get, hi, ← Header.get, h1] at h1'
  rw [Header.get, hs, ← Header.get, h2] at h2'
  cases h1'
  cases h2'
  exact Prod.ext (Except.ok.inj (h3'.symm.trans h3)) (Except.ok.inj (h4'.symm.trans h4))

/-- A signature verifies at most one message under a key. -/
def OneMessage (C : Suite) : Prop :=
  ∀ key domain msg msg' sig, C.verify key domain msg sig = true →
    C.verify key domain msg' sig = true → msg = msg'

/-- A request `r'` that is accepted under the signature of `r` and the same key. -/
structure Twin (L : GoLib) (C : Suite) (r : Request) (key : Bytes) (V' : Verifier) (now' : ℤ)
    (r' : Request) (body' : Bytes) (https' : Bool) (res' : Result) : Prop where
  clean : r'.Clean
  accepted : V'.check L C now' r' body' https' = .ok res'
  resolved : V'.resolveVerifyKey res'.vaultID res'.deviceID = .ok key
  signature : r'.header.values L headerSignature = r.header.values L headerSignature
  input : r'.header.values L headerSignatureInput = r.header.values L headerSignatureInput

/-- What the signature binds: the message, the body, and the result but for its
    idempotency key. -/
structure Agree (L : GoLib) (r : Request) (https : Bool) (body : Bytes) (res : Result)
    (r' : Request) (https' : Bool) (body' : Bytes) (res' : Result) : Prop where
  message : ∃ m m', fromRequest L r https = .ok m ∧ fromRequest L r' https' = .ok m' ∧
    m'.method = m.method ∧ m'.authority = m.authority ∧ m'.path = m.path ∧ m'.query = m.query
  body : body' = body
  vaultID : res'.vaultID = res.vaultID
  deviceID : res'.deviceID = res.deviceID
  created : res'.created = res.created
  expires : res'.expires = res.expires
  nonce : res'.nonce = res.nonce

theorem coveredLines_ok {m : Message} : ∀ {cs seen : List Bytes} {l : Bytes},
    coveredLines L m seen cs = .ok l → ∀ c ∈ cs, ∃ v, componentValue L m c = .ok v
  | [], _, _, _ => fun c hc => absurd hc List.not_mem_nil
  | c :: cs, seen, l, h => by
    obtain ⟨v, id, lines, hv, -, hl, -⟩ := coveredLines_cons_ok h
    intro c' hc'
    rcases List.mem_cons.1 hc' with rfl | hc'
    · exact ⟨v, hv⟩
    · exact coveredLines_ok hl c' hc'

/-- The covered components of two messages with one base agree, and are there. -/
theorem base_agree (hL : L.Lawful) {m m' : Message} (hm : m.Clean) (hm' : m'.Clean)
    {params : SignatureParams} {text : Bytes} (h : base L m params = .ok text)
    (h' : base L m' params = .ok text) {c : Bytes} (hc : c ∈ params.components) :
    ∃ v, componentValue L m c = .ok v ∧ componentValue L m' c = .ok v := by
  obtain ⟨lines, t, hl, rfl⟩ := base_ok h
  obtain ⟨lines', t', hl', heq⟩ := base_ok h'
  obtain ⟨v, hv⟩ := coveredLines_ok hl c hc
  exact ⟨v, hv, (coveredLines_agree hL hm hm' hl hl' heq c hc) ▸ hv⟩

section Twins

variable (hL : L.Lawful) (hC : OneMessage C) {V V' : Verifier} {now now' : ℤ} {r r' : Request}
  {body body' : Bytes} {https https' : Bool} {res res' : Result} {key : Bytes}

include hL hC

/-- Two requests under one signature have the same parameters and agree in every covered
    component. -/
theorem Twin.components (hr : r.Clean) (h : V.check L C now r body https = .ok res)
    (hk : V.resolveVerifyKey res.vaultID res.deviceID = .ok key)
    (ht : Twin L C r key V' now' r' body' https' res') :
    ∃ sig params m m' text,
      Signed L C V r body https res sig params key m text ∧
      Signed L C V' r' body' https' res' sig params key m' text ∧
      ∀ c ∈ params.components, ∃ v, componentValue L m c = .ok v ∧ componentValue L m' c = .ok v := by
  obtain ⟨sig, params, k, m, text, hs⟩ := check_ok h
  obtain ⟨sig', params', k', m', text', hs'⟩ := check_ok ht.accepted
  obtain rfl : k = key := Except.ok.inj (hs.resolved.symm.trans hk)
  obtain rfl : k' = k := Except.ok.inj (hs'.resolved.symm.trans ht.resolved)
  cases parseSignature_unique ht.input ht.signature hs.parsed hs'.parsed
  obtain rfl : text' = text := hC _ _ _ _ _ hs'.verified hs.verified
  exact ⟨sig, params, m, m', text', hs, hs', fun c hc => base_agree hL
    (hr.message hL hs.message) (ht.clean.message hL hs'.message) hs.base hs'.base hc⟩

/-- The signature binds all but the idempotency key. -/
theorem Twin.agree (hr : r.Clean) (h : V.check L C now r body https = .ok res)
    (hk : V.resolveVerifyKey res.vaultID res.deviceID = .ok key)
    (hcol : ∀ b, C.sha256 b = C.sha256 body → b = body)
    (ht : Twin L C r key V' now' r' body' https' res') :
    Agree L r https body res r' https' body' res' := by
  obtain ⟨sig, params, m, m', text, hs, hs', hcomp⟩ := ht.components hL hC hr h hk
  have hfields : m.fields = r.header := by rw [fromRequest_ok hs.message]
  have hfields' : m'.fields = r'.header := by rw [fromRequest_ok hs'.message]
  have field : ∀ name : Bytes, name.all fieldNameChar = true →
      L.toLower name ∈ params.components → ∃ v, fieldValue L r.header (L.toLower name) = some v ∧
        fieldValue L r'.header (L.toLower name) = some v := by
    intro name hname hc
    obtain ⟨v, hv, hv'⟩ := hcomp _ hc
    exact ⟨v, hfields ▸ fieldValue_of_componentValue hL hname hv,
      hfields' ▸ fieldValue_of_componentValue hL hname hv'⟩
  have hvault : r.header.get L headerVault = r'.header.get L headerVault := by
    obtain ⟨v, hv, hv'⟩ := field headerVault (by decide)
      (by rw [hs.components]; simp [expectedComponents])
    exact get_eq_of_valid hL (by decide) hv hv' (hs.reported.vaultID ▸ hs.reported.vaultID_valid)
      (hs'.reported.vaultID ▸ hs'.reported.vaultID_valid)
  have hdevice : r.header.get L headerDevice = r'.header.get L headerDevice := by
    obtain ⟨v, hv, hv'⟩ := field headerDevice (by decide)
      (by rw [hs.components]; simp [expectedComponents])
    exact get_eq_of_valid hL (by decide) hv hv' (hs.reported.deviceID ▸ hs.reported.deviceID_valid)
      (hs'.reported.deviceID ▸ hs'.reported.deviceID_valid)
  have hempty : body' = [] ↔ body = [] := by
    have hb := (expectedComponents_inj hL (hs'.components.symm.trans hs.components)).1
    simpa [not_iff_not] using hb
  have hbody : body' = body := by
    by_cases hb : body = []
    · rw [hb, hempty.2 hb]
    · obtain ⟨v, hv, hv'⟩ := field headerContentDigest (by decide)
        (by rw [hs.components]; simp [expectedComponents, hb])
      exact hcol body' (digest_eq hL ht.clean hr hv' hv hs'.digest hs.digest
        (hs'.hasDigest.1 fun h' => hb (hempty.1 h')) (hs.hasDigest.1 hb))
  obtain ⟨_, hvm, hvm'⟩ := hcomp componentMethod (by rw [hs.components]; simp [expectedComponents])
  obtain ⟨_, hva, hva'⟩ := hcomp componentAuthority
    (by rw [hs.components]; simp [expectedComponents])
  obtain ⟨_, hvp, hvp'⟩ := hcomp componentPath (by rw [hs.components]; simp [expectedComponents])
  obtain ⟨_, hvq, hvq'⟩ := hcomp componentQuery (by rw [hs.components]; simp [expectedComponents])
  obtain ⟨c, hc, hcres⟩ := hs.reported.created
  obtain ⟨c', hc', hcres'⟩ := hs'.reported.created
  obtain ⟨e, he, heres⟩ := hs.reported.expires
  obtain ⟨e', he', heres'⟩ := hs'.reported.expires
  refine ⟨⟨m, m', hs.message, hs'.message, ?_, ?_, ?_, ?_⟩, hbody, ?_, ?_, ?_, ?_, ?_⟩
  · exact Except.ok.inj (hvm'.trans hvm.symm)
  · exact Except.ok.inj (hva'.trans hva.symm)
  · exact Except.ok.inj (hvp'.trans hvp.symm)
  · exact List.append_cancel_left (Except.ok.inj (hvq'.trans hvq.symm))
  · rw [hs'.reported.vaultID, hs.reported.vaultID, hvault]
  · rw [hs'.reported.deviceID, hs.reported.deviceID, hdevice]
  · rw [hcres', hcres, Option.some.inj (hc'.symm.trans hc)]
  · rw [heres', heres, Option.some.inj (he'.symm.trans he)]
  · exact Option.some.inj (hs'.reported.nonce.symm.trans hs.reported.nonce)

/-- A request without an idempotency key has only twins without one. -/
theorem Twin.no_key (hr : r.Clean) (h : V.check L C now r body https = .ok res)
    (hk : V.resolveVerifyKey res.vaultID res.deviceID = .ok key)
    (ht : Twin L C r key V' now' r' body' https' res')
    (hnone : r.header.get L headerIdempotency = []) :
    res'.idempotencyKey = res.idempotencyKey := by
  obtain ⟨sig, params, m, m', text, hs, hs', -⟩ := ht.components hL hC hr h hk
  have hnone' := (expectedComponents_inj hL (hs.components.symm.trans hs'.components)).2.1 hnone
  rw [hs'.reported.idempotencyKey, hs.reported.idempotencyKey, hnone, hnone']

/-- One value of `Idempotency-Key` at most, and no space around it. -/
def Request.PlainKey (L : GoLib) (r : Request) : Prop :=
  (r.header.values L headerIdempotency).length ≤ 1 ∧
    L.trimSpace (r.header.get L headerIdempotency) = r.header.get L headerIdempotency

/-- Where the key is spelled plainly in both requests, it is the same. -/
theorem Twin.plain_key (hr : r.Clean) (h : V.check L C now r body https = .ok res)
    (hk : V.resolveVerifyKey res.vaultID res.deviceID = .ok key)
    (ht : Twin L C r key V' now' r' body' https' res') (hp : r.PlainKey L) (hp' : r'.PlainKey L) :
    res'.idempotencyKey = res.idempotencyKey := by
  by_cases hnone : r.header.get L headerIdempotency = []
  · exact ht.no_key hL hC hr h hk hnone
  obtain ⟨sig, params, m, m', text, hs, hs', hcomp⟩ := ht.components hL hC hr h hk
  have signed : ∀ {r : Request} {m : Message} {v : Bytes}, r.Clean → r.PlainKey L →
      m.fields = r.header → componentValue L m (L.toLower headerIdempotency) = .ok v →
      v = r.header.get L headerIdempotency := by
    intro r m v hr hp hf hv
    obtain ⟨rest, t, hvals, hvt, hrest⟩ := fieldValue_first hL (by decide)
      (hf ▸ fieldValue_of_componentValue hL (by decide) hv)
    have hmem : r.header.get L headerIdempotency ∈ r.header (L.canonicalKey headerIdempotency) := by
      rw [Header.values] at hvals
      rw [hvals]
      exact List.mem_cons_self
    have hnil : rest = [] := by
      have hlen := hp.1
      rw [hvals] at hlen
      simpa using hlen
    rw [hvt, hrest hnil, unbroken_eq (hr.header _ _ hmem), hp.2, List.append_nil]
  obtain ⟨v, hv, hv'⟩ := hcomp (L.toLower headerIdempotency)
    (by rw [hs.components]; simp [expectedComponents, hnone])
  rw [hs'.reported.idempotencyKey, hs.reported.idempotencyKey,
    ← signed hr hp (by rw [fromRequest_ok hs.message]) hv,
    ← signed ht.clean hp' (by rw [fromRequest_ok hs'.message]) hv']

end Twins

/-! ## A second spelling of the key -/

/-- The header with a space before the idempotency key. -/
def Header.padded (L : GoLib) (h : Header) : Header := fun key =>
  if key = L.canonicalKey headerIdempotency then
    match h key with
    | [] => []
    | v :: vs => (space :: v) :: vs
  else h key

def Request.padded (L : GoLib) (r : Request) : Request := { r with header := r.header.padded L }

theorem Header.values_padded (hL : L.Lawful) (h : Header) {name : Bytes}
    (hname : name.all fieldNameChar = true)
    (hne : name.map lowerByte ≠ headerIdempotency.map lowerByte) :
    (h.padded L).values L name = h.values L name := by
  have hkey : L.canonicalKey name ≠ L.canonicalKey headerIdempotency :=
    fun heq => hne ((hL.canonicalKey_eq _ _ hname (by decide)).1 heq)
  simp only [Header.values, Header.padded, if_neg hkey]

theorem Header.get_padded (hL : L.Lawful) (h : Header) {name : Bytes}
    (hname : name.all fieldNameChar = true)
    (hne : name.map lowerByte ≠ headerIdempotency.map lowerByte) :
    (h.padded L).get L name = h.get L name := by
  rw [Header.get, Header.get, Header.values_padded hL h hname hne]

theorem Header.get_padded_key (h : Header) (hne : h.get L headerIdempotency ≠ []) :
    (h.padded L).get L headerIdempotency = space :: h.get L headerIdempotency := by
  unfold Header.get Header.values Header.padded at *
  rw [if_pos rfl]
  cases hv : h (L.canonicalKey headerIdempotency) with
  | nil => simp [hv] at hne
  | cons v vs => rfl

/-- The space is trimmed off in the signed text. -/
theorem fieldValue_padded (hL : L.Lawful) (h : Header) (name : Bytes) :
    fieldValue L (h.padded L) name = fieldValue L h name := by
  unfold fieldValue Header.values Header.padded
  split_ifs with hkey
  · rw [hkey]
    cases h (L.canonicalKey headerIdempotency) with
    | nil => rfl
    | cons v vs =>
      simp only [List.map_cons, unbroken_space, hL.trimSpace_space]
  · rfl

theorem coveredLines_padded (hL : L.Lawful) (m : Message) : ∀ (cs seen : List Bytes),
    coveredLines L { m with fields := m.fields.padded L } seen cs = coveredLines L m seen cs
  | [], _ => rfl
  | c :: cs, seen => by
    have hv : componentValue L { m with fields := m.fields.padded L } c = componentValue L m c := by
      unfold componentValue
      rw [fieldValue_padded hL]
    simp only [coveredLines, hv, coveredLines_padded hL m cs]

section Padded

variable (hL : L.Lawful) {V : Verifier} {now : ℤ} {r : Request} {body : Bytes} {https : Bool}
  {res : Result}

include hL

theorem parseSignature_padded : V.parseSignature L (r.padded L) = V.parseSignature L r := by
  unfold Verifier.parseSignature Request.padded
  rw [Header.get_padded hL _ (by decide) (by decide), Header.get_padded hL _ (by decide) (by decide),
    Header.values_padded hL _ (by decide) (by decide),
    Header.values_padded hL _ (by decide) (by decide)]

theorem checkContentDigest_padded :
    checkContentDigest L C (r.padded L) body = checkContentDigest L C r body := by
  unfold checkContentDigest Request.padded
  rw [Header.get_padded hL _ (by decide) (by decide)]

theorem checkShape_padded {params : SignatureParams} {hasBody : Bool}
    (hne : r.header.get L headerIdempotency ≠ []) :
    Verifier.checkShape L (r.padded L) params hasBody = Verifier.checkShape L r params hasBody := by
  have hcomp : expectedComponents L (r.padded L).header hasBody
      = expectedComponents L r.header hasBody := by
    unfold expectedComponents Request.padded
    rw [Header.get_padded_key _ hne, if_pos (List.cons_ne_nil _ _), if_pos hne]
  unfold Verifier.checkShape
  rw [hcomp]
  unfold Request.padded
  rw [Header.get_padded hL _ (by decide) (by decide)]

theorem checkParams_padded {params : SignatureParams}
    (hne : r.header.get L headerIdempotency ≠ [])
    (h : Verifier.checkParams L now r params = .ok res) :
    Verifier.checkParams L now (r.padded L) params =
      .ok { res with idempotencyKey := space :: r.header.get L headerIdempotency } := by
  have hv : (r.padded L).header.get L headerVault = r.header.get L headerVault :=
    Header.get_padded hL _ (by decide) (by decide)
  have hd : (r.padded L).header.get L headerDevice = r.header.get L headerDevice :=
    Header.get_padded hL _ (by decide) (by decide)
  have hk : (r.padded L).header.get L headerIdempotency
      = space :: r.header.get L headerIdempotency := Header.get_padded_key _ hne
  simp only [Verifier.checkParams, bind_eq_ok, require_eq_ok, exists_const, Except.ok.injEq]
    at h ⊢
  obtain ⟨created, hc, expires, he, nonce, hn, keyid, hkey, h1, h2, h3, h4, h5, h6, h7, h8, rfl⟩ := h
  rw [hv, hd, hk]
  exact ⟨created, hc, expires, he, nonce, hn, keyid, hkey, h1, h2, h3, h4, h5, h6, h7, h8, rfl⟩

/-- `Verify` accepts the request with a space before its key. -/
theorem check_padded (hne : r.header.get L headerIdempotency ≠ [])
    (h : V.check L C now r body https = .ok res) :
    V.check L C now (r.padded L) body https =
      .ok { res with idempotencyKey := space :: r.header.get L headerIdempotency } := by
  have hfrom : ∀ m, fromRequest L r https = .ok m →
      fromRequest L (r.padded L) https = .ok { m with fields := m.fields.padded L } := by
    intro m hm
    simp only [fromRequest, require_bind_eq_ok, Except.ok.injEq] at hm ⊢
    obtain ⟨hauth, rfl⟩ := hm
    exact ⟨hauth, rfl⟩
  have hbase : ∀ m params, base L { m with fields := m.fields.padded L } params
      = base L m params := by
    intro m params
    unfold base
    rw [coveredLines_padded hL]
  simp only [Verifier.check, bind_eq_ok, mapError_eq_ok, require_eq_ok, exists_const,
    Except.ok.injEq, parseSignature_padded hL, checkShape_padded hL hne,
    checkContentDigest_padded hL] at h ⊢
  obtain ⟨x, hp, u, hs, res', hr, u', hd, key, hk, msg, hm, text, hb, hv, rfl⟩ := h
  exact ⟨x, hp, u, hs, _, checkParams_padded hL hne hr, u', hd, key, hk, _, hfrom msg hm, text,
    (hbase msg x.2).trans hb, hv, rfl⟩

end Padded

theorem Request.Clean.padded {r : Request} (h : r.Clean) : (r.padded L).Clean := by
  refine ⟨h.method, h.host, h.urlHost, h.escapedPath, h.rawQuery, fun key v hv => ?_⟩
  simp only [Request.padded, Header.padded] at hv
  split_ifs at hv with hkey
  · cases hvals : r.header key with
    | nil => simp [hvals] at hv
    | cons w ws =>
      rw [hvals] at hv
      have hw := h.header key
      rw [hvals] at hw
      rcases List.mem_cons.1 hv with rfl | hv
      · have := hw w List.mem_cons_self
        exact ⟨fun hn => (List.mem_cons.1 hn).elim (by decide) this.1,
          fun hn => (List.mem_cons.1 hn).elim (by decide) this.2⟩
      · exact hw v (List.mem_cons_of_mem w hv)
  · exact h.header key v hv

/-! ## The result -/

/-- Every request that is accepted under the signature of `r` and the same key agrees with
    it, idempotency key included. -/
def Bound (L : GoLib) (C : Suite) (r : Request) (https : Bool) (body : Bytes) (res : Result)
    (key : Bytes) : Prop :=
  ∀ V' now' r' body' https' res', Twin L C r key V' now' r' body' https' res' →
    Agree L r https body res r' https' body' res' ∧ res'.idempotencyKey = res.idempotencyKey

/-- **Main result.**  Requests that are accepted under one signature and key agree in
    method, authority, path, query and body and in all their results report, but for the
    idempotency key, which agrees where both spell it as one value without spaces around
    it.  All of it is bound to the signature exactly for a request without such a key. -/
theorem tamper_evident (hL : L.Lawful) (hC : OneMessage C) {V : Verifier} {now : ℤ} {r : Request}
    {body : Bytes} {https : Bool} {res : Result} {key : Bytes} (hr : r.Clean)
    (h : V.check L C now r body https = .ok res)
    (hk : V.resolveVerifyKey res.vaultID res.deviceID = .ok key)
    (hcol : ∀ b, C.sha256 b = C.sha256 body → b = body) :
    (∀ V' now' r' body' https' res', Twin L C r key V' now' r' body' https' res' →
      Agree L r https body res r' https' body' res' ∧
      (r.PlainKey L → r'.PlainKey L → res'.idempotencyKey = res.idempotencyKey)) ∧
    (Bound L C r https body res key ↔ r.header.get L headerIdempotency = []) := by
  refine ⟨fun V' now' r' body' https' res' ht => ⟨ht.agree hL hC hr h hk hcol,
    fun hp hp' => ht.plain_key hL hC hr h hk hp hp'⟩, fun hbound => ?_, fun hnone => ?_⟩
  · -- the padded request is a twin that reports another key
    by_contra hne
    have htwin : Twin L C r key V now (r.padded L) body https
        { res with idempotencyKey := space :: r.header.get L headerIdempotency } :=
      ⟨hr.padded, check_padded hL hne h, hk, Header.values_padded hL _ (by decide) (by decide),
        Header.values_padded hL _ (by decide) (by decide)⟩
    obtain ⟨sig, params, k, m, text, hs⟩ := check_ok h
    have heq := (hbound _ _ _ _ _ _ htwin).2
    rw [hs.reported.idempotencyKey] at heq
    exact absurd (congrArg List.length heq) (by simp)
  · intro V' now' r' body' https' res' ht
    exact ⟨ht.agree hL hC hr h hk hcol, ht.no_key hL hC hr h hk hnone⟩

namespace Tamper01

-- `decide` evaluates whole calls
set_option maxRecDepth 4000

theorem length_digest (b : Bytes) :
    (List.replicate sha256Size (if b = [7] then (1 : UInt8) else 0)).length = sha256Size :=
  List.length_replicate

/-- The sample primitives, with a digest that no other body shares with `[7]`. -/
def suite : Suite :=
  { sample with
    sha256 := fun b => List.replicate sha256Size (if b = [7] then 1 else 0)
    sha256_length := length_digest }

theorem suite_oneMessage : OneMessage suite := by
  intro key domain msg msg' sig h h'
  simp only [suite, sample, decide_eq_true_eq] at h h'
  have heq : key ++ msg = key ++ msg' := by simpa using h.symm.trans h'
  exact List.append_cancel_left heq

theorem suite_collision (b : Bytes) (h : suite.sha256 b = suite.sha256 [7]) : b = [7] := by
  by_contra hne
  simp [suite, hne, sha256Size, List.replicate_succ] at h

/-- The names of the fields of a signed request but for `Idempotency-Key`. -/
def names : List Bytes :=
  [headerSignature, headerSignatureInput, headerContentDigest, headerVault, headerDevice].map
    goSample.canonicalKey

/-- The request with the body `[7]`, signed with `keys` as its idempotency keys. -/
def signed (keys : List Bytes) : Request :=
  (Sample.signer.sign goSample suite 0 (Sample.nonce 0x41) [] (Sample.request keys) [7] true).toOption.getD
    (Sample.request [])

/-- The signed request, delivered with the idempotency keys `keys'`. -/
def delivered (keys keys' : List Bytes) : Request :=
  { signed keys with
    header := fun key =>
      if key = goSample.canonicalKey headerIdempotency then keys'
      else if names.contains key then (signed keys).header key else [] }

instance instDecidableUnbroken (s : Bytes) : Decidable (Unbroken s) :=
  inferInstanceAs (Decidable (_ ∧ _))

theorem delivered_clean {keys keys' : List Bytes} (hkeys : ∀ v ∈ keys', Unbroken v)
    (h : ∀ v ∈ names.flatMap (signed keys).header, Unbroken v)
    (hr : Unbroken (signed keys).method ∧ Unbroken (signed keys).host ∧
      Unbroken (signed keys).urlHost ∧ Unbroken (signed keys).escapedPath ∧
      Unbroken (signed keys).rawQuery) : (delivered keys keys').Clean := by
  refine ⟨hr.1, hr.2.1, hr.2.2.1, hr.2.2.2.1, hr.2.2.2.2, fun key v hv => ?_⟩
  simp only [delivered] at hv
  split_ifs at hv with h1 h2
  · exact hkeys v hv
  · exact h v (List.mem_flatMap.2 ⟨key, List.contains_iff_mem.1 h2, hv⟩)
  · exact absurd hv List.not_mem_nil

def joined : Request := delivered [ascii "k1, k2"] [ascii "k1, k2"]
def split : Request := delivered [ascii "k1, k2"] [ascii "k1", ascii "k2"]

theorem check_delivered {r : Request} {k : Bytes}
    (h : ((Sample.verifier.check goSample suite 0 r [7] true).toOption.map (·.idempotencyKey))
      = some k) :
    ∃ res, Sample.verifier.check goSample suite 0 r [7] true = .ok res ∧
      res.idempotencyKey = k := by
  obtain ⟨res, hres, hk⟩ := Option.map_eq_some_iff.1 h
  exact ⟨res, Except.toOption_eq_some.1 hres, hk⟩

/-- The key `k1, k2` is delivered as it was signed and as two values `k1` and `k2`: both
    requests are accepted, and report different keys. -/
theorem key_respelled : goSample.Lawful ∧ OneMessage suite ∧ joined.Clean ∧
    ∃ res res', Sample.verifier.check goSample suite 0 joined [7] true = .ok res ∧
      Sample.verifier.resolveVerifyKey res.vaultID res.deviceID = .ok [4] ∧
      Twin goSample suite joined [4] Sample.verifier 0 split [7] true res' ∧
      res.idempotencyKey = ascii "k1, k2" ∧ res'.idempotencyKey = ascii "k1" := by
  have hclean : ∀ keys', (∀ v ∈ keys', Unbroken v) → (delivered [ascii "k1, k2"] keys').Clean :=
    fun keys' h => delivered_clean h (by decide) (by decide)
  obtain ⟨res, h, hk⟩ := check_delivered (r := joined) (k := ascii "k1, k2") (by decide)
  obtain ⟨res', h', hk'⟩ := check_delivered (r := split) (k := ascii "k1") (by decide)
  exact ⟨goSample_lawful, suite_oneMessage, hclean _ (by decide), res, res', h, rfl,
    ⟨hclean _ (by decide), h', rfl, rfl, rfl⟩, hk, hk'⟩

/-- A request without an idempotency key is bound to its signature. -/
theorem tamper_evident_no_key : ∃ res,
    Sample.verifier.check goSample suite 0 (delivered [] []) [7] true = .ok res ∧
      Bound goSample suite (delivered [] []) true [7] res [4] := by
  obtain ⟨res, h, -⟩ := check_delivered (r := delivered [] []) (k := []) (by decide)
  have hclean : (delivered [] []).Clean :=
    delivered_clean (fun v hv => absurd hv List.not_mem_nil) (by decide) (by decide)
  exact ⟨res, h, (tamper_evident goSample_lawful suite_oneMessage hclean h rfl
    suite_collision).2.2 rfl⟩

end Tamper01

end Sshstate.Httpsig
