/-
  What the store can read back.

  The text of a valid envelope is plain JSON and decodes to the envelope
  (`unmarshal_marshal`), so a stored text is read back exactly when it is not longer than
  `MaxObjectBytes` (`decodeEnvelope_text`).  No call checks the length of the texts it
  stores; the relay checks the envelope it is given, which has no `seq` yet, and with its
  number the text is longer.
-/
import Sshstate.Proof.Kept
import Sshstate.Protocol.Sample

namespace Sshstate

open Json (Value Members PlainText byteLength)

variable {D : Decoder}

/-! ## Plain texts -/

theorem plainText_encode (b : Bytes) : PlainText (Base64.encode b) := by
  intro c hc
  obtain ⟨n, hn, rfl⟩ := Base64.mem_encode hc
  obtain ⟨-, hquote, hslash, hspace, -⟩ := Base64.digit_safe hn
  exact ⟨hquote, hslash, hspace⟩

/-- Letters and figures are plain. -/
theorem plain_of_range {c : Char} (h : '0' ≤ c ∧ c ≤ '9' ∨ 'a' ≤ c ∧ c ≤ 'z') :
    c ≠ '"' ∧ c ≠ '\\' ∧ 32 ≤ c.toNat := by
  refine ⟨?_, ?_, ?_⟩
  · rintro rfl; revert h; decide
  · rintro rfl; revert h; decide
  · rcases h with h | h
    · have hle : '0'.toNat ≤ c.toNat := h.1
      exact le_trans (by decide) hle
    · have hle : 'a'.toNat ≤ c.toNat := h.1
      exact le_trans (by decide) hle

theorem plainText_digits (n : ℕ) : PlainText (Nat.toDigits 10 n) := by
  intro c hc
  have hd := Nat.isDigit_of_mem_toDigits (by decide) (by decide) hc
  simp only [Char.isDigit, Bool.and_eq_true, decide_eq_true_eq] at hd
  exact plain_of_range (Or.inl hd)

theorem plainText_id {id : ID} (h : ID.valid id = true) : PlainText id := by
  intro c hc
  simp only [ID.valid, Bool.and_eq_true, List.all_eq_true] at h
  have hx := h.2 c hc
  simp only [ID.isLowerHex, Bool.or_eq_true, Bool.and_eq_true, decide_eq_true_eq] at hx
  exact plain_of_range (hx.imp_right fun hx => ⟨hx.1, Char.le_trans hx.2 (by decide)⟩)

theorem plainText_recordType {t : RecordType} (h : t.valid = true) : PlainText t.text.toList := by
  cases t with
  | other name => cases h
  | _ => decide

theorem plain_marshalBytes (b : Option Bytes) : (marshalBytes b).Plain := by
  cases b with
  | none => trivial
  | some b => exact plainText_encode b

theorem Context.plain_marshal {c : Context} (h : c.Valid) : c.marshal.Plain := by
  have hdomain : PlainText recordDomain.toList := by decide
  have hversion : (Value.num (toString recordFormatVersion).toList).Plain := by
    rw [show (toString recordFormatVersion).toList = ['1'] by decide]
    simp [Value.Plain]
  refine Json.plain_ofList
    ["domain", "format_version", "vault_id", "record_id", "record_type", "key_epoch", "rev",
      "parent_digest", "mutation_id", "updated_by", "deleted"] rfl
    (by decide) (by decide) ?_
  simp only [List.forall_mem_cons, List.not_mem_nil, false_imp_iff, implies_true, and_true]
  exact ⟨h.domain ▸ hdomain, h.formatVersion ▸ hversion, plainText_id h.vaultID,
    plainText_id h.recordID, plainText_recordType h.recordType, plainText_digits _,
    plainText_digits _, plain_marshalBytes _, plainText_id h.mutationID, plainText_id h.updatedBy,
    trivial⟩

theorem Envelope.plain_marshal {e : Envelope} (h : e.Valid) : e.marshal.Plain := by
  have hcontext := Context.plain_marshal h.context
  have hbytes : ∀ b : Bytes, (marshalBytes (some b)).Plain := fun b => plain_marshalBytes (some b)
  have hcounter : (marshalCounter e.seq).Plain := plainText_digits e.seq
  unfold Envelope.marshal
  by_cases hseq : e.seq = 0
  · rw [if_pos hseq]
    refine Json.plain_ofList ["context", "nonce", "ciphertext", "signature"] rfl
      (by decide) (by decide) ?_
    simp [hcontext, hbytes]
  · rw [if_neg hseq]
    refine Json.plain_ofList ["context", "nonce", "ciphertext", "signature", "seq"] rfl
      (by decide) (by decide) ?_
    simp [hcontext, hbytes, hcounter]

/-! ## Decoding -/

theorem unmarshalBytes_marshalBytes (b : Option Bytes) :
    unmarshalBytes D (marshalBytes b) = .ok b := by
  cases b with
  | none => rfl
  | some b =>
    have hlines : (Base64.encode b).filter (fun c => c ≠ '\n' ∧ c ≠ '\r') = Base64.encode b := by
      refine List.filter_eq_self.2 fun c hc => ?_
      obtain ⟨n, hn, rfl⟩ := Base64.mem_encode hc
      obtain ⟨-, -, -, -, hnl, hcr⟩ := Base64.digit_safe hn
      simp [hnl, hcr]
    simp only [marshalBytes, unmarshalBytes, hlines, Base64.decode_encode]
    simp [Except.require]

/-- A number greater than zero is not written with a leading zero. -/
theorem head?_toDigits {n : ℕ} (h : (Nat.toDigits 10 n).head? = some '0') : n = 0 := by
  induction n using Nat.strongRecOn with
  | _ n ih =>
    rcases Nat.lt_or_ge n 10 with hlt | hge
    · have hchar : ∀ n < 10, n.digitChar = '0' → n = 0 := by decide
      rw [Nat.toDigits_of_lt_base hlt, List.head?_cons, Option.some.injEq] at h
      exact hchar n hlt h
    · rw [Nat.toDigits_of_base_le (by decide) hge, List.head?_append_of_ne_nil _ Nat.toDigits_ne_nil]
        at h
      have := ih (n / 10) (Nat.div_lt_self (by omega) (by decide)) h
      omega

theorem unmarshalCounter_marshalCounter {c : ℕ} (h : c < 2 ^ 64) :
    unmarshalCounter D (marshalCounter c) = .ok c := by
  simp only [marshalCounter, unmarshalCounter, counterOf, Except.require_bind_eq_ok,
    Nat.ofDigitChars_ten_toDigits, Except.pure_eq_ok, and_true]
  refine ⟨Nat.toDigits_ne_nil, ?_, fun d hd => ?_, h⟩
  · rintro ⟨hlen, hhead⟩
    rw [head?_toDigits hhead] at hlen
    revert hlen; decide
  · exact Nat.isDigit_of_mem_toDigits (by decide) (by decide) hd

theorem ofText_text {t : RecordType} (h : t.valid = true) : RecordType.ofText t.text.toList = t := by
  cases t with
  | other name => cases h
  | _ => decide

/-- The counters are `uint64`. -/
structure Envelope.InRange (e : Envelope) : Prop where
  keyEpoch : e.context.keyEpoch < 2 ^ 64
  rev : e.context.rev < 2 ^ 64
  seq : e.seq < 2 ^ 64

theorem Context.unmarshal_marshal {c : Context} (h : c.Valid) (hepoch : c.keyEpoch < 2 ^ 64)
    (hrev : c.rev < 2 ^ 64) (c₀ : Context) :
    unmarshalStruct D "Context" (Context.fields D) c₀ c.marshal = .ok c := by
  have hversion : ∀ z, unmarshalInt D z (.num c.formatVersion.repr.toList) =
      .ok c.formatVersion := by
    intro z
    have hone : intOf? ['1'] = some recordFormatVersion := by
      simp [intOf?, recordFormatVersion, Nat.ofDigitChars]
    have hfits : -2 ^ 63 ≤ recordFormatVersion ∧ recordFormatVersion < 2 ^ 63 := by
      unfold recordFormatVersion; omega
    rw [h.formatVersion, show recordFormatVersion.repr.toList = ['1'] by decide,
      unmarshalInt, hone, Option.filter_some, if_pos (decide_eq_true hfits)]
  simp [unmarshalStruct, Context.marshal, Members.ofList, unmarshalMembers, fieldFor, Context.fields,
    unmarshalString, unmarshalBool, unmarshalCounter_marshalCounter hepoch,
    unmarshalCounter_marshalCounter hrev, unmarshalBytes_marshalBytes, ofText_text h.recordType,
    hversion]

theorem Envelope.unmarshal_marshal {e : Envelope} (h : e.Valid) (hr : e.InRange) :
    Envelope.unmarshal D e.marshal = .ok e := by
  have hcontext := Context.unmarshal_marshal (D := D) h.context hr.keyEpoch hr.rev Context.zero
  have hmembers : ∀ members : Members, unmarshalStruct D "Envelope" (Envelope.fields D) Envelope.zero
      (.obj members) = unmarshalMembers D (Envelope.fields D) members Envelope.zero := fun _ => rfl
  unfold Envelope.unmarshal Envelope.marshal
  rw [hmembers]
  by_cases hseq : e.seq = 0
  · simp [hseq, Members.ofList, unmarshalMembers, fieldFor, Envelope.fields, hcontext, Envelope.zero,
      unmarshalBytes_marshalBytes]
    rw [← hseq]
  · simp [hseq, Members.ofList, unmarshalMembers, fieldFor, Envelope.fields, hcontext, Envelope.zero,
      unmarshalBytes_marshalBytes, unmarshalCounter_marshalCounter hr.seq]

mutual

/-- Plain values have no repeated keys. -/
theorem checkValue_plain : ∀ (v : Value) (path : List Char), v.Plain → checkValue path v = .ok ()
  | .null, _, _ => rfl
  | .bool _, _, _ => rfl
  | .num _, _, _ => rfl
  | .str _, _, _ => rfl
  | .arr items, path, h => checkArray_plain items path h
  | .obj members, path, h => checkObject_plain members path [] h fun _ _ => List.not_mem_nil

theorem checkArray_plain : ∀ (items : Json.Items) (path : List Char), items.Plain →
    checkArray path items = .ok ()
  | .nil, _, _ => rfl
  | .cons v rest, path, ⟨hv, hrest⟩ => by
    simp only [checkArray, checkValue_plain v path hv, Except.bind_ok',
      checkArray_plain rest path hrest]

theorem checkObject_plain : ∀ (members : Members) (path : List Char) (seen : List String),
    members.Plain → (∀ name ∈ members.names, name ∉ seen) → checkObject path seen members = .ok ()
  | .nil, _, _, _, _ => rfl
  | .cons key v rest, path, seen, ⟨_, hv, hnew, hrest⟩, hseen => by
    have hkey := hseen key List.mem_cons_self
    have hnext : ∀ name ∈ rest.names, name ∉ key :: seen := by
      intro name hname hmem
      rcases List.mem_cons.1 hmem with rfl | hmem
      · exact hnew hname
      · exact hseen name (List.mem_cons_of_mem _ hname) hmem
    simp only [checkObject, Except.require, if_pos hkey, Except.bind_ok', checkValue_plain v _ hv,
      checkObject_plain rest path (key :: seen) hrest hnext]

end

namespace Vault

/-- A stored text is read back exactly when it is not too long. -/
theorem decodeEnvelope_text (hD : D.Lawful) {e : Envelope} (h : e.Valid) (hr : e.InRange) :
    decodeEnvelope D e.text = .ok e ↔ byteLength e.text ≤ maxObjectBytes := by
  have hplain := Envelope.plain_marshal h
  have hparse : D.parse e.text = .ok e.marshal := hD.parse_render e.marshal hplain
  simp only [decodeEnvelope, strictUnmarshal, strictUnmarshalLimit, Except.mapError_eq_ok,
    Except.require_bind_eq_ok, hparse, Except.bind_ok', checkValue_plain _ _ hplain,
    Envelope.unmarshal_marshal h hr, and_true]

/-- Whatever the decoder, a text that is too long is not read. -/
theorem byteLength_le_of_decodeEnvelope {text : List Char} {e : Envelope}
    (h : decodeEnvelope D text = .ok e) : byteLength text ≤ maxObjectBytes := by
  simp only [decodeEnvelope, strictUnmarshal, strictUnmarshalLimit, Except.mapError_eq_ok,
    Except.require_bind_eq_ok] at h
  exact h.1

namespace Tables

variable {C : Suite} {T T' : Tables}

/-! ## Reading the tables -/

/-- Every stored text can be decoded. -/
structure Readable (D : Decoder) (T : Tables) : Prop where
  records : ∀ id row, T.records.lookup id = some row → ∃ e, decodeEnvelope D row.envelope = .ok e
  outbox : ∀ row ∈ T.outbox, ∃ e, decodeEnvelope D row.envelope = .ok e

theorem mem_recordRows {id : ID} {row : RecordRow} :
    ⟨id, row⟩ ∈ T.recordRows ↔ T.records.lookup id = some row := by
  rw [recordRows, List.mem_insertionSort, ← AList.mem_lookup_iff, Option.mem_def]

theorem heads_ok : (∃ l, T.heads D = .ok l) ↔
    ∀ id row, T.records.lookup id = some row → ∃ e, decodeEnvelope D row.envelope = .ok e := by
  simp only [heads, Except.exists_mapM_ok, Sigma.forall, mem_recordRows]

theorem allRecords_ok {t : RecordType} (h : ∀ id row, T.records.lookup id = some row →
    ∃ e, decodeEnvelope D row.envelope = .ok e) : ∃ l, T.allRecords D t = .ok l := by
  refine Except.exists_mapM_ok.2 fun row hrow => ?_
  exact h row.1 row.2 (mem_recordRows.1 (List.mem_of_mem_filter hrow))

theorem pending_ok : (∃ l, T.pending D = .ok l) ↔
    ∀ row ∈ T.outbox, ∃ e, decodeEnvelope D row.envelope = .ok e := by
  simp only [pending, Except.bind_eq_ok, Except.pure_eq_ok, Except.ok.injEq]
  rw [← Except.exists_mapM_ok]
  constructor
  · rintro ⟨_, l, h, -⟩; exact ⟨l, h⟩
  · rintro ⟨l, h⟩; exact ⟨_, l, h, rfl⟩

/-- All reads succeed and return those of `envs` that are heads or pending, field for field. -/
structure ReadsBack (C : Suite) (D : Decoder) (envs : List Envelope) (T : Tables) : Prop where
  head : ∀ id row, T.records.lookup id = some row → ∃ e, T.head D id = .ok e
  heads : ∃ l, T.heads D = .ok l ∧
    ∀ e ∈ envs, T.HasHead C e → T.head D e.context.recordID = .ok (e, e.digest C) ∧ e ∈ l
  allRecords : ∀ t, ∃ l, T.allRecords D t = .ok l ∧
    ∀ e ∈ envs, T.HasHead C e → e.context.recordType = t → e ∈ l
  outbox : ∃ l, T.pending D = .ok l ∧ ∀ e ∈ envs, T.HasPending e → e ∈ l

/-- What decodes is read back. -/
theorem Readable.readsBack {envs : List Envelope} (hT : Readable D T)
    (henvs : ∀ e ∈ envs, T.HasHead C e ∨ T.HasPending e → decodeEnvelope D e.text = .ok e) :
    ReadsBack C D envs T := by
  obtain ⟨heads, hheads⟩ := heads_ok.2 hT.records
  obtain ⟨pend, hpend⟩ := pending_ok.2 hT.outbox
  refine ⟨fun id row hrow => ?_, ⟨heads, hheads, fun e he hhead => ?_⟩, fun t => ?_,
    ⟨pend, hpend, fun e he hp => ?_⟩⟩
  · obtain ⟨e, he⟩ := hT.records id row hrow
    exact ⟨(e, row.digest), by simp [Tables.head, hrow, he]⟩
  · have hdec := henvs e he (Or.inl hhead)
    have hlookup : T.records.lookup e.context.recordID = some (.of e (e.digest C)) := hhead
    refine ⟨?_, ?_⟩
    · rw [Tables.head, hlookup]
      simp [RecordRow.of, hdec]
    · exact Except.mem_of_mapM hheads (mem_recordRows.2 hlookup) hdec
  · obtain ⟨l, hl⟩ := allRecords_ok (t := t) hT.records
    refine ⟨l, hl, fun e he hhead ht => ?_⟩
    refine Except.mem_of_mapM hl (List.mem_filter.2 ⟨mem_recordRows.2 hhead, ?_⟩)
      (henvs e he (Or.inl hhead))
    simp [RecordRow.of, ht]
  · simp only [Tables.pending, Except.bind_eq_ok, Except.pure_eq_ok, Except.ok.injEq] at hpend
    obtain ⟨l, hl, rfl⟩ := hpend
    exact (List.mem_insertionSort _).2 (Except.mem_of_mapM hl hp (henvs e he (Or.inr hp)))

theorem ReadsBack.readable {envs : List Envelope} (h : ReadsBack C D envs T) : Readable D T := by
  obtain ⟨heads, hheads, -⟩ := h.heads
  obtain ⟨pend, hpend, -⟩ := h.outbox
  exact ⟨heads_ok.1 ⟨heads, hheads⟩, pending_ok.1 ⟨pend, hpend⟩⟩

/-- If what is left can be decoded, everything can. -/
theorem Readable.of_ends {P : Envelope → Prop} (hT : Readable D T) (h : Ends C P T T')
    (hP : ∀ e, P e → ∃ x, decodeEnvelope D e.text = .ok x) : Readable D T' := by
  refine ⟨fun id row hrow => ?_, fun row hrow => ?_⟩
  · rcases h.records id with heq | ⟨e, he, -, hnew⟩
    · exact hT.records id row (heq ▸ hrow)
    · obtain rfl : RecordRow.of e (e.digest C) = row := Option.some.inj (hnew.symm.trans hrow)
      exact hP e he
  · rcases h.outbox row hrow with hold | ⟨e, he, rfl⟩
    · exact hT.outbox row hold
    · exact hP e he

theorem Readable.byteLength_le {e : Envelope} (hT : Readable D T)
    (h : T.HasHead C e ∨ T.HasPending e) : byteLength e.text ≤ maxObjectBytes := by
  rcases h with hhead | hpend
  · obtain ⟨x, hx⟩ := hT.records _ _ hhead
    exact byteLength_le_of_decodeEnvelope hx
  · obtain ⟨x, hx⟩ := hT.outbox _ hpend
    exact byteLength_le_of_decodeEnvelope hx

/-- The envelopes a call leaves were given to it. -/
theorem mem_envelopes_of_leaves {call : StoreCall} {e : Envelope} (h : Leaves C T call e) :
    e ∈ call.envelopes := by
  cases h with
  | install hmem => exact hmem
  | localHead hl => obtain ⟨pre, post, rfl, -⟩ := hl; simp [StoreCall.envelopes]
  | localPending hl => obtain ⟨pre, post, rfl, -⟩ := hl; simp [StoreCall.envelopes]
  | remoteHead hl => obtain ⟨pre, post, rfl, -⟩ := hl; simp [StoreCall.envelopes]
  | _ => simp [StoreCall.envelopes]

/-- **Main result.** After a call that succeeds on a readable store, everything can be read
    back exactly when no envelope that the call leaves as a head or in the outbox has a text
    longer than `MaxObjectBytes`, the number of the relay included. -/
theorem readsBack_iff (hD : D.Lawful) (hT : Readable D T) {call : StoreCall}
    (hrange : ∀ e ∈ call.envelopes, e.InRange) (h : call.body C D T = .ok T') :
    ReadsBack C D call.envelopes T' ↔
      ∀ e, Leaves C T call e → byteLength e.text ≤ maxObjectBytes := by
  have hends := ends_body h
  constructor
  · exact fun hback e hl => hback.readable.byteLength_le (hends.held e hl)
  · intro hsize
    have hdec : ∀ e ∈ call.envelopes, byteLength e.text ≤ maxObjectBytes →
        decodeEnvelope D e.text = .ok e := fun e he hle =>
      (decodeEnvelope_text hD (valid_body h e he) (hrange e he)).2 hle
    have hreadable : Readable D T' := hT.of_ends hends fun e hl =>
      ⟨e, hdec e (mem_envelopes_of_leaves hl) (hsize e hl)⟩
    -- an envelope of the call whose row is there can be decoded, so it is short enough
    exact hreadable.readsBack fun e he hheld => hdec e he (hreadable.byteLength_le hheld)

end Tables

end Vault

/-! ## The length of a text -/

theorem byteLength_encode (b : Bytes) : byteLength (Base64.encode b) = (4 * b.length + 2) / 3 := by
  rw [Json.byteLength_eq_length, Base64.length_encode]
  intro c hc
  obtain ⟨n, hn, rfl⟩ := Base64.mem_encode hc
  exact (Base64.digit_safe hn).1

theorem byteLength_quote (text : List Char) :
    byteLength (Value.str text).render = byteLength text + 2 := by
  have hsize : Char.utf8Size '"' = 1 := by decide
  simp only [Value.render, Json.quote, Json.byteLength_cons, Json.byteLength_append,
    Json.byteLength_nil, hsize]
  omega

/-- The text of an envelope: its four members, and the number of the relay, if it has one. -/
theorem Envelope.byteLength_text (e : Envelope) :
    byteLength e.text = 54 + byteLength e.context.marshal.render +
      (4 * e.nonce.length + 2) / 3 + (4 * e.ciphertext.length + 2) / 3 +
      (4 * e.signature.length + 2) / 3 +
      if e.seq = 0 then 0 else 9 + byteLength (Nat.toDigits 10 e.seq) := by
  have hnames : byteLength "context".toList = 7 ∧ byteLength "nonce".toList = 5 ∧
      byteLength "ciphertext".toList = 10 ∧ byteLength "signature".toList = 9 ∧
      byteLength "seq".toList = 3 := by decide
  rw [Envelope.text, Envelope.marshal, Json.byteLength_render_obj (by simp)]
  split_ifs <;>
  simp only [marshalBytes, marshalCounter, byteLength_quote, byteLength_encode, hnames,
    List.map_cons, List.map_nil, List.sum_cons, List.sum_nil, List.cons_append, List.nil_append] <;>
  omega

/-- The canonical form that the relay measures is as long as the text. -/
theorem Envelope.byteLength_canonicalText (e : Envelope) :
    byteLength e.canonicalText = byteLength e.text :=
  Json.byteLength_render_sorted e.marshal

namespace Vault.Tables.Text01

/-- A decoder without escapes and white space. -/
def decoder : Decoder where
  parse := fun text => match Json.parse text with
    | some v => .ok v
    | none => .error (.new "invalid character")
  foldName := String.toLower
  typeError := fun _ goType => .errorf "json: cannot unmarshal into Go value of type %s" [goType]
  base64Error := fun _ => .new "illegal base64 data"
  rangeError := fun _ => .new "value out of range"

theorem decoder_lawful : decoder.Lawful :=
  ⟨fun v hv => by simp only [decoder, Json.parse_render hv]⟩

def context : Context :=
  { domain := recordDomain, formatVersion := recordFormatVersion, vaultID := Sample.id 0x01,
    recordID := Sample.id 0x11, recordType := .host, keyEpoch := 1, rev := 1, parentDigest := none,
    mutationID := Sample.id 0x21, updatedBy := Sample.id 0x0a, deleted := false }

theorem valid_context : context.Valid := by
  constructor <;> decide

/-- A host record with a ciphertext of `n` bytes. -/
def sized (n : ℕ) : Envelope :=
  { context := context, nonce := [9], ciphertext := List.replicate n 0, signature := [1], seq := 0 }

theorem valid_sized {n : ℕ} (h : 0 < n) : (sized n).Valid :=
  ⟨valid_context, List.cons_ne_nil _ _, by simp [sized]; omega, List.cons_ne_nil _ _⟩

theorem inRange_sized (n : ℕ) {seq : ℕ} (h : seq < 2 ^ 64) :
    ({ sized n with seq := seq } : Envelope).InRange :=
  ⟨by show context.keyEpoch < 2 ^ 64; decide, by show context.rev < 2 ^ 64; decide, h⟩

theorem byteLength_sized (n seq : ℕ) :
    byteLength ({ sized n with seq := seq } : Envelope).text = 382 + (4 * n + 2) / 3 +
      if seq = 0 then 0 else 9 + byteLength (Nat.toDigits 10 seq) := by
  have hcontext : byteLength context.marshal.render = 324 := by decide +kernel
  rw [Envelope.byteLength_text]
  simp only [sized, hcontext, List.length_replicate, List.length_singleton]
  omega

/-- The tables once the record has been written on the device. -/
def edited (n : ℕ) : Tables :=
  { empty with outbox := [.of (sized n)] }.writeRow (sized n) ((sized n).digest sample)

/-- The tables once the relay has accepted it under the number 1. -/
def accepted (n : ℕ) : Tables :=
  ((edited n).writeRow { sized n with seq := 1 } ((sized n).digest sample)).deleteOutbox
    (Sample.id 0x21)

theorem body_edited {n : ℕ} (h : 0 < n) :
    (StoreCall.applyLocalBatch [sized n]).body sample decoder empty = .ok (edited n) := by
  have henqueue : empty.enqueueOutboxTx (sized n) = { empty with outbox := [.of (sized n)] } := by
    simp [enqueueOutboxTx, empty]
  have hput : ({ empty with outbox := [.of (sized n)] } : Tables).putRecordTx sample (sized n) =
      .ok (edited n) := putRecordTx_first (valid_sized h) rfl rfl
  simp only [StoreCall.body, applyLocalBatch, List.foldlM_cons, List.foldlM_nil, henqueue, hput]
  rfl

theorem body_accepted {n : ℕ} (h : 0 < n) :
    (StoreCall.acceptOutbox (sized n) 1).body sample decoder (edited n) = .ok (accepted n) := by
  have hv : ({ sized n with seq := 1 } : Envelope).Valid :=
    let hv := valid_sized h
    ⟨hv.1, hv.2, hv.3, hv.4⟩
  simp only [StoreCall.body, acceptOutbox, replaceHeadTx_ok.2 ⟨hv, rfl⟩]
  rfl

theorem readable_empty : Readable decoder empty :=
  ⟨fun id row h => by simp [empty] at h, fun row h => absurd h List.not_mem_nil⟩

/-- What is written on the device is read back, up to the limit. -/
theorem readsBack_edited {n : ℕ} (h : 0 < n) (hn : 382 + (4 * n + 2) / 3 ≤ maxObjectBytes) :
    ReadsBack sample decoder [sized n] (edited n) := by
  have hdec : decodeEnvelope decoder (sized n).text = .ok (sized n) := by
    refine (decodeEnvelope_text decoder_lawful (valid_sized h) (inRange_sized n (by decide))).2 ?_
    rw [show (sized n).text = ({ sized n with seq := 0 } : Envelope).text from rfl,
      byteLength_sized]
    exact hn
  have hsized : ∀ e ∈ [sized n], decodeEnvelope decoder e.text = .ok e := by
    intro e he
    rw [List.mem_singleton.1 he]
    exact hdec
  refine (readable_empty.of_ends (ends_body (body_edited h)) fun e hl => ?_).readsBack
    fun e he _ => hsized e he
  exact ⟨e, hsized e (mem_envelopes_of_leaves hl)⟩

theorem too_long {n : ℕ} (hn : maxObjectBytes < 392 + (4 * n + 2) / 3) {e : Envelope} :
    decodeEnvelope decoder ({ sized n with seq := 1 } : Envelope).text ≠ .ok e := by
  intro h
  have hle := byteLength_le_of_decodeEnvelope h
  have hone : byteLength (Nat.toDigits 10 1) = 1 := by decide
  rw [byteLength_sized, if_neg one_ne_zero, hone] at hle
  omega

/-- Nothing is read that the row of an unreadable text belongs to. -/
theorem unreadable_of_row {T : Tables} {id : ID} {row : RecordRow}
    (hrow : T.records.lookup id = some row) (hbad : ∀ e, decodeEnvelope decoder row.envelope ≠ .ok e) :
    (∀ e, T.head decoder id ≠ .ok e) ∧ (∀ l, T.heads decoder ≠ .ok l) ∧
      ∀ t : RecordType, row.recordType = t.text → ∀ l, T.allRecords decoder t ≠ .ok l := by
  refine ⟨fun e h => ?_, fun l h => ?_, fun t ht l h => ?_⟩
  · simp only [Tables.head, hrow, Except.bind_eq_ok] at h
    obtain ⟨x, hx, -⟩ := h
    exact hbad x hx
  · obtain ⟨x, hx⟩ := heads_ok.1 ⟨l, h⟩ id row hrow
    exact hbad x hx
  · obtain ⟨x, hx⟩ := Except.exists_mapM_ok.1 ⟨l, h⟩ ⟨id, row⟩
      (List.mem_filter.2 ⟨mem_recordRows.2 hrow, decide_eq_true ht⟩)
    exact hbad x hx

theorem lookup_accepted (n : ℕ) : (accepted n).records.lookup (Sample.id 0x11) =
    some (.of { sized n with seq := 1 } ((sized n).digest sample)) := by
  have h := lookup_writeRow (edited n) { sized n with seq := 1 } ((sized n).digest sample)
    (Sample.id 0x11)
  exact h.trans (if_pos rfl)

/-- A record that the device writes and can read, and that is within the limit of the relay,
    cannot be read any more once it is stored with its number. -/
theorem accepted_unreadable :
    byteLength (sized 786145).canonicalText ≤ maxObjectBytes ∧
    ReadsBack sample decoder [sized 786145] (edited 786145) ∧
    (StoreCall.acceptOutbox (sized 786145) 1).body sample decoder (edited 786145) =
      .ok (accepted 786145) ∧
    (∀ e, (accepted 786145).head decoder (Sample.id 0x11) ≠ .ok e) ∧
    (∀ l, (accepted 786145).heads decoder ≠ .ok l) ∧
    ∀ l, (accepted 786145).allRecords decoder .host ≠ .ok l := by
  have hpos : 0 < 786145 := by omega
  have hfits : 382 + (4 * 786145 + 2) / 3 ≤ maxObjectBytes := by unfold maxObjectBytes; omega
  have hlong : maxObjectBytes < 392 + (4 * 786145 + 2) / 3 := by unfold maxObjectBytes; omega
  obtain ⟨hhead, hheads, hall⟩ := unreadable_of_row (lookup_accepted 786145) fun e => too_long hlong
  refine ⟨?_, readsBack_edited hpos hfits, body_accepted hpos, hhead, hheads, hall .host rfl⟩
  rw [Envelope.byteLength_canonicalText]
  exact (byteLength_sized 786145 0).trans_le hfits

/-- A record with a short ciphertext is read back, written on the device and accepted. -/
theorem readsBack_iff_short :
    ReadsBack sample decoder [{ sized 2 with seq := 1 }] (accepted 2) ∧
      Leaves sample (edited 2) (.acceptOutbox (sized 2) 1) { sized 2 with seq := 1 } := by
  refine ⟨(readsBack_iff decoder_lawful (readsBack_edited (by omega) ?_).readable ?_
    (body_accepted (by omega))).2 fun e hl => ?_, .acceptOutbox⟩
  · unfold maxObjectBytes; omega
  · intro e he
    rw [List.mem_singleton.1 he]
    exact inRange_sized 2 (by decide)
  · cases hl
    have hone : byteLength (Nat.toDigits 10 1) = 1 := by decide
    rw [byteLength_sized, if_neg one_ne_zero, hone]
    unfold maxObjectBytes
    omega

end Vault.Tables.Text01

end Sshstate
