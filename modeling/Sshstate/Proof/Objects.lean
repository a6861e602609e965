/-
  The signed objects are read back from their canonical texts.

  The texts of times and recipients are those the parsers of the Go libraries accept,
  which are printable (`Suite.Printable`); the other strings of a valid object are fixed
  or ids.  The counters of an object are `uint64` (`InRange`).
-/
import Sshstate.Export.Archive
import Sshstate.Proof.Codec

namespace Sshstate

open Codec
open Json (Value Members PlainText byteLength)

/-- What is parsed as a time or as a recipient is written without escapes. -/
structure Suite.Printable (C : Suite) : Prop where
  time : ∀ s, (C.parseTime s).isSome = true → PlainText s.toList
  recipient : ∀ s, (C.parseRecipient s).isSome = true → PlainText s.toList

variable {C : Suite} {D : Decoder}

/-- The tags of the signed objects. -/
def tagNames : List String :=
  ["domain", "format_version", "suite", "vault_id", "created_at", "first_device_id",
   "first_device_verify_key", "first_device_recipient", "recovery_verify_key", "recovery_recipient",
   "event_id", "chain_seq", "parent_digest", "action", "device_id", "device_verify_key",
   "device_recipient", "transcript_digest", "authority", "authorized_by", "event", "signature",
   "record_id", "rev", "digest", "deleted", "key_epoch", "seq", "membership_digest", "heads",
   "genesis_digest", "purpose", "recipient_device_id", "recipient", "metadata_key", "secret_key",
   "checkpoint", "snapshot_digest", "snapshot_length", "rotation_id", "epoch_history", "bundle",
   "name", "length", "exported_by", "members", "manifest", "record_type", "mutation_id",
   "updated_by", "context", "nonce", "ciphertext"]

/-- The fixed texts in the fields of the signed objects. -/
def fixedTexts : List String :=
  [suiteID, genesisDomain, membershipDomain, checkpointDomain, bundleDomain, exportDomain,
   recordDomain, "enroll", "revoke", "device", "recovery"] ++ memberNames

theorem plainText_fixed : ∀ text ∈ tagNames ++ fixedTexts, PlainText text.toList := by decide +kernel

theorem plain_of_tagNames {names : List String} (h : ∀ name ∈ names, name ∈ tagNames) :
    ∀ name ∈ names, PlainText name.toList :=
  fun name hname => plainText_fixed name (List.mem_append_left _ (h name hname))

theorem plainText_of_fixed {text : String} (h : text ∈ fixedTexts) : PlainText text.toList :=
  plainText_fixed text (List.mem_append_right _ h)

theorem plainText_suiteID : PlainText suiteID.toList := plainText_of_fixed (by simp [fixedTexts])

/-! ## Checkpoints -/

theorem Head.fields_ok : Fields (Head.fields D) where
  names := by simp only [Head.fields, List.map_cons, List.map_nil]; decide
  plain := plain_of_tagNames (by simp only [Head.fields, List.map_cons, List.map_nil]; decide)
  commute _ := by
    refine EachPair.pairwise ?_
    repeat' first | exact trivial | exact fun _ => rfl | constructor
  rebuild x a := by simp only [Head.fields, List.foldl_cons, List.foldl_nil, copy]

theorem Head.reads {h : Head} (hid : ID.valid h.recordID = true) (hrev : h.rev < 2 ^ 64) :
    (Head.codec D).Reads h := by
  refine Reads.struct Head.fields_ok ?_
  simp only [Head.fields, List.forall_mem_cons, List.not_mem_nil, false_imp_iff, implies_true,
    and_true]
  exact ⟨.id hid, .counter hrev, .bytes _, .bool _⟩

/-- The counters are `uint64`. -/
structure Checkpoint.InRange (c : Checkpoint) : Prop where
  keyEpoch : c.keyEpoch < 2 ^ 64
  seq : c.seq < 2 ^ 64
  rev : ∀ h ∈ c.heads, h.rev < 2 ^ 64

theorem valid_of_validateHeads : ∀ {before heads : List Head},
    Checkpoint.validateHeads before heads = .ok () → ∀ h ∈ heads, ID.valid h.recordID = true
  | _, [], _, _, hmem => absurd hmem List.not_mem_nil
  | before, x :: heads, h, y, hmem => by
    simp only [Checkpoint.validateHeads, Except.require_bind_eq_ok, ID.check_bind_eq_ok] at h
    rcases List.mem_cons.1 hmem with rfl | hmem
    · exact h.1
    · exact valid_of_validateHeads h.2.2.2.2.2 y hmem

theorem Checkpoint.fields_ok : Fields (Checkpoint.fields D) where
  names := by simp only [Checkpoint.fields, List.map_cons, List.map_nil]; decide
  plain := plain_of_tagNames (by simp only [Checkpoint.fields, List.map_cons, List.map_nil]; decide)
  commute _ := by
    refine EachPair.pairwise ?_
    repeat' first | exact trivial | exact fun _ => rfl | constructor
  rebuild x a := by simp only [Checkpoint.fields, List.foldl_cons, List.foldl_nil, copy]

theorem Checkpoint.reads (hC : C.Printable) {c : Checkpoint} (h : c.validate C = .ok ())
    (hr : c.InRange) : (Checkpoint.codec D).Reads c := by
  simp only [Checkpoint.validate, Except.require_bind_eq_ok, ID.check_bind_eq_ok] at h
  obtain ⟨hdomain, hversion, hvault, -, -, htime, hheads⟩ := h
  refine Reads.struct Checkpoint.fields_ok ?_
  simp only [Checkpoint.fields, List.forall_mem_cons, List.not_mem_nil, false_imp_iff, implies_true,
    and_true]
  have hplain : PlainText checkpointDomain.toList := plainText_of_fixed (by simp [fixedTexts])
  exact ⟨.string (hdomain ▸ hplain), hversion ▸ .one, .id hvault, .counter hr.keyEpoch,
    .counter hr.seq, .bytes _,
    .slice fun x hx => Head.reads (valid_of_validateHeads hheads x hx) (hr.rev x hx),
    .string (hC.time _ htime)⟩

/-! ## Manifests -/

theorem ExportMember.fields_ok : Fields (ExportMember.fields D) where
  names := by simp only [ExportMember.fields, List.map_cons, List.map_nil]; decide
  plain := plain_of_tagNames (by simp only [ExportMember.fields, List.map_cons, List.map_nil]; decide)
  commute _ := by
    refine EachPair.pairwise ?_
    repeat' first | exact trivial | exact fun _ => rfl | constructor
  rebuild x a := by simp only [ExportMember.fields, List.foldl_cons, List.foldl_nil, copy]

theorem ExportMember.reads {m : ExportMember} (hname : PlainText m.name.toList)
    (hlen : m.length < 2 ^ 64) : (ExportMember.codec D).Reads m := by
  refine Reads.struct ExportMember.fields_ok ?_
  simp only [ExportMember.fields, List.forall_mem_cons, List.not_mem_nil, false_imp_iff,
    implies_true, and_true]
  exact ⟨.string hname, .counter hlen, .bytes _⟩

/-- The counters are `uint64`. -/
structure ExportManifest.InRange (m : ExportManifest) : Prop where
  keyEpoch : m.keyEpoch < 2 ^ 64
  checkpoint : m.checkpoint.InRange
  length : ∀ x ∈ m.members, x.length < 2 ^ 64

theorem mem_memberNames_of_validateMembers : ∀ {before members : List ExportMember},
    ExportManifest.validateMembers before members = .ok () → ∀ m ∈ members, m.name ∈ memberNames
  | _, [], _, _, hmem => absurd hmem List.not_mem_nil
  | before, x :: members, h, y, hmem => by
    simp only [ExportManifest.validateMembers, Except.require_bind_eq_ok] at h
    rcases List.mem_cons.1 hmem with rfl | hmem
    · exact h.1
    · exact mem_memberNames_of_validateMembers h.2.2.2.2 y hmem

theorem ExportManifest.fields_ok : Fields (ExportManifest.fields D) where
  names := by simp only [ExportManifest.fields, List.map_cons, List.map_nil]; decide
  plain := plain_of_tagNames (by simp only [ExportManifest.fields, List.map_cons, List.map_nil]; decide)
  commute _ := by
    refine EachPair.pairwise ?_
    repeat' first | exact trivial | exact fun _ => rfl | constructor
  rebuild x a := by simp only [ExportManifest.fields, List.foldl_cons, List.foldl_nil, copy]

theorem ExportManifest.reads (hC : C.Printable) {m : ExportManifest}
    (h : m.validate C suiteID = .ok ()) (hr : m.InRange) : (ExportManifest.codec D).Reads m := by
  simp only [ExportManifest.validate, Except.bind_eq_ok, Except.require_eq_ok, ID.check_eq_ok,
    Except.mapError_eq_ok, exists_const] at h
  obtain ⟨hdomain, hversion, hsuite, hvault, hby, -, -, htime, ⟨⟩, hcheck, -, -, ⟨⟩, hmembers, -⟩ := h
  refine Reads.struct ExportManifest.fields_ok ?_
  simp only [ExportManifest.fields, List.forall_mem_cons, List.not_mem_nil, false_imp_iff,
    implies_true, and_true]
  have hplain : PlainText exportDomain.toList := plainText_of_fixed (by simp [fixedTexts])
  have hnames : ∀ name ∈ memberNames, PlainText name.toList := fun name hname =>
    plainText_of_fixed (List.mem_append_right _ hname)
  refine ⟨.string (hdomain ▸ hplain), hversion ▸ .one, .string (hsuite ▸ plainText_suiteID),
    .id hvault, .bytes _, .counter hr.keyEpoch, .id hby, .string (hC.time _ htime),
    Checkpoint.reads hC hcheck hr.checkpoint, .slice fun x hx => ?_⟩
  exact ExportMember.reads (hnames _ (mem_memberNames_of_validateMembers hmembers x hx))
    (hr.length x hx)

theorem SignedExportManifest.fields_ok : Fields (SignedExportManifest.fields D) where
  names := by simp only [SignedExportManifest.fields, List.map_cons, List.map_nil]; decide
  plain := plain_of_tagNames (by simp only [SignedExportManifest.fields, List.map_cons, List.map_nil]; decide)
  commute _ := by
    refine EachPair.pairwise ?_
    repeat' first | exact trivial | exact fun _ => rfl | constructor
  rebuild x a := by simp only [SignedExportManifest.fields, List.foldl_cons, List.foldl_nil, copy]

theorem SignedExportManifest.reads {s : SignedExportManifest}
    (h : (ExportManifest.codec D).Reads s.manifest) : (SignedExportManifest.codec D).Reads s := by
  refine Reads.struct SignedExportManifest.fields_ok ?_
  simp only [SignedExportManifest.fields, List.forall_mem_cons, List.not_mem_nil, false_imp_iff,
    implies_true, and_true]
  exact ⟨h, .bytes _⟩

theorem ExportMember.byteLength_write {m : ExportMember} (h : m.digest.length = sha256Size) :
    byteLength ((ExportMember.codec D).write m).render =
      byteLength m.name.toList + digits m.length + 78 := by
  have hnames : byteLength "name".toList = 4 ∧ byteLength "length".toList = 6 ∧
      byteLength "digest".toList = 6 := by decide
  rw [ExportMember.codec, byteLength_struct (by simp [ExportMember.fields])]
  simp only [ExportMember.fields, List.map_cons, List.map_nil, List.sum_cons, List.sum_nil, hnames,
    byteLength_bytes, byteLength_counter, byteLength_string, h, sha256Size]
  omega

theorem length_digest_of_validateMembers : ∀ {before members : List ExportMember},
    ExportManifest.validateMembers before members = .ok () →
    ∀ m ∈ members, m.digest.length = sha256Size
  | _, [], _, _, hmem => absurd hmem List.not_mem_nil
  | before, x :: members, h, y, hmem => by
    simp only [ExportManifest.validateMembers, Except.require_bind_eq_ok] at h
    rcases List.mem_cons.1 hmem with rfl | hmem
    · exact h.2.2.2.1
    · exact length_digest_of_validateMembers h.2.2.2.2 y hmem

/-- The length of the line of a signed manifest that passes `Validate`. -/
theorem SignedExportManifest.byteLength_write {s : SignedExportManifest}
    (h : s.manifest.validate C suiteID = .ok ()) :
    byteLength ((SignedExportManifest.codec D).write s).render =
      321 + digits s.manifest.keyEpoch + byteLength s.manifest.createdAt.toList +
      byteLength ((Checkpoint.codec D).write s.manifest.checkpoint).render +
      (s.manifest.members.map fun m => byteLength m.name.toList + digits m.length + 79).sum +
      (4 * s.signature.length + 2) / 3 := by
  simp only [ExportManifest.validate, Except.bind_eq_ok, Except.require_eq_ok, ID.check_eq_ok,
    Except.mapError_eq_ok, exists_const] at h
  obtain ⟨hdomain, hversion, hsuite, hvault, hby, hgenesis, -, -, -, -, -, -, ⟨⟩, hmembers, hall⟩ := h
  have hne : s.manifest.members ≠ [] := by
    intro hnil
    have := hall memberBundle (by decide)
    rw [hnil] at this
    exact absurd this List.not_mem_nil
  have hnames : byteLength "manifest".toList = 8 ∧ byteLength "signature".toList = 9 ∧
      byteLength "domain".toList = 6 ∧ byteLength "format_version".toList = 14 ∧
      byteLength "suite".toList = 5 ∧ byteLength "vault_id".toList = 8 ∧
      byteLength "genesis_digest".toList = 14 ∧ byteLength "key_epoch".toList = 9 ∧
      byteLength "exported_by".toList = 11 ∧ byteLength "created_at".toList = 10 ∧
      byteLength "checkpoint".toList = 10 ∧ byteLength "members".toList = 7 := by decide
  have hconst : byteLength exportDomain.toList = 18 ∧ byteLength suiteID.toList = 17 := by
    decide
  have hslice : byteLength ((Codec.slice D (ExportMember.codec D) .zero "[]ExportMember").write
      s.manifest.members).render =
      1 + (s.manifest.members.map fun m => byteLength m.name.toList + digits m.length + 79).sum := by
    rw [byteLength_slice hne]
    refine congrArg (fun l => 1 + List.sum l) (List.map_congr_left fun m hm => ?_)
    rw [ExportMember.byteLength_write (length_digest_of_validateMembers hmembers m hm)]
  rw [SignedExportManifest.codec, byteLength_struct (by simp [SignedExportManifest.fields])]
  simp only [SignedExportManifest.fields, List.map_cons, List.map_nil, List.sum_cons, List.sum_nil,
    hnames, byteLength_bytes, ExportManifest.codec]
  rw [byteLength_struct (by simp [ExportManifest.fields])]
  simp only [ExportManifest.fields, List.map_cons, List.map_nil, List.sum_cons, List.sum_nil, hnames,
    byteLength_bytes, byteLength_string, byteLength_counter, byteLength_id hvault, byteLength_id hby,
    hdomain, hversion, hsuite, hconst, hgenesis, byteLength_one, hslice, sha256Size]
  omega

/-! ## Envelopes -/

/-- The fields of a context, as they are written and read. -/
def Context.fieldList (D : Decoder) : List (Field Context) :=
  [⟨"domain", _, .string D, (·.domain), fun c x => { c with domain := x }⟩,
   ⟨"format_version", _, .int D, (·.formatVersion), fun c x => { c with formatVersion := x }⟩,
   ⟨"vault_id", _, .id D, (·.vaultID), fun c x => { c with vaultID := x }⟩,
   ⟨"record_id", _, .id D, (·.recordID), fun c x => { c with recordID := x }⟩,
   ⟨"record_type", _, .enum D RecordType.text fun s => .ofText s.toList, (·.recordType),
     fun c x => { c with recordType := x }⟩,
   ⟨"key_epoch", _, .counter D, (·.keyEpoch), fun c x => { c with keyEpoch := x }⟩,
   ⟨"rev", _, .counter D, (·.rev), fun c x => { c with rev := x }⟩,
   ⟨"parent_digest", _, .nullable D, (·.parentDigest), fun c x => { c with parentDigest := x }⟩,
   ⟨"mutation_id", _, .id D, (·.mutationID), fun c x => { c with mutationID := x }⟩,
   ⟨"updated_by", _, .id D, (·.updatedBy), fun c x => { c with updatedBy := x }⟩,
   ⟨"deleted", _, .bool D, (·.deleted), fun c x => { c with deleted := x }⟩]

theorem Context.fields_eq : Context.fields D = (Context.fieldList D).map setter := by
  simp [Context.fields, Context.fieldList, setter, Codec.string, Codec.enum, Codec.int, Codec.id,
    Codec.counter, Codec.nullable, Codec.bool]

theorem Context.fields_ok : Fields (Context.fieldList D) where
  names := by simp only [Context.fieldList, List.map_cons, List.map_nil]; decide
  plain := plain_of_tagNames (by simp only [Context.fieldList, List.map_cons, List.map_nil]; decide)
  commute _ := by
    refine EachPair.pairwise ?_
    repeat' first | exact trivial | exact fun _ => rfl | constructor
  rebuild x a := by simp only [Context.fieldList, List.foldl_cons, List.foldl_nil, copy]

/-- The context inside an envelope. -/
def Context.codec (D : Decoder) : Codec Context where
  write := Context.marshal
  read := unmarshalStruct D "Context" (Context.fields D)

theorem Context.codec_eq : Context.codec D = .struct D "Context" (Context.fieldList D) := by
  have hwrite : ∀ c : Context, c.marshal =
      .obj (.ofList ((Context.fieldList D).map fun f => (f.name, f.codec.write (f.get c)))) := by
    intro c
    simp only [Context.marshal, Context.fieldList, List.map_cons, List.map_nil, Codec.string,
      Codec.enum, Codec.int, Codec.id, Codec.counter, Codec.nullable, Codec.bool]
  rw [Context.codec, Codec.struct, Context.fields_eq]
  exact congrArg (Codec.mk · _) (funext hwrite)

theorem Context.reads {c : Context} (h : c.Valid) (hepoch : c.keyEpoch < 2 ^ 64)
    (hrev : c.rev < 2 ^ 64) : (Context.codec D).Reads c := by
  have hfields : ∀ f ∈ Context.fieldList D, f.codec.Reads (f.get c) := by
    simp only [Context.fieldList, List.forall_mem_cons, List.not_mem_nil, false_imp_iff,
      implies_true, and_true]
    have hplain : PlainText recordDomain.toList := plainText_of_fixed (by simp [fixedTexts])
    exact ⟨.string (h.domain ▸ hplain), h.formatVersion ▸ .one, .id h.vaultID, .id h.recordID,
      .enum (plainText_recordType h.recordType) (ofText_text h.recordType), .counter hepoch,
      .counter hrev, .nullable _, .id h.mutationID, .id h.updatedBy, .bool _⟩
  rw [Context.codec_eq]
  exact .struct Context.fields_ok hfields

/-- The fields of an envelope, as they are written and read. -/
def Envelope.fieldList (D : Decoder) : List (Field Envelope) :=
  [⟨"context", _, Context.codec D, (·.context), fun e x => { e with context := x }⟩,
   ⟨"nonce", _, .bytes D, (·.nonce), fun e x => { e with nonce := x }⟩,
   ⟨"ciphertext", _, .bytes D, (·.ciphertext), fun e x => { e with ciphertext := x }⟩,
   ⟨"signature", _, .bytes D, (·.signature), fun e x => { e with signature := x }⟩,
   ⟨"seq", _, .counter D, (·.seq), fun e x => { e with seq := x }⟩]

theorem Envelope.fields_eq : Envelope.fields D = (Envelope.fieldList D).map setter := by
  simp [Envelope.fields, Envelope.fieldList, setter, Codec.bytes, Codec.counter, Context.codec]

theorem Envelope.fields_ok : Fields (Envelope.fieldList D) where
  names := by simp only [Envelope.fieldList, List.map_cons, List.map_nil]; decide
  plain := plain_of_tagNames (by simp only [Envelope.fieldList, List.map_cons, List.map_nil]; decide)
  commute _ := by
    refine EachPair.pairwise ?_
    repeat' first | exact trivial | exact fun _ => rfl | constructor
  rebuild x a := by simp only [Envelope.fieldList, List.foldl_cons, List.foldl_nil, copy]

/-- An envelope is read over the zero value: the member `seq` may be missing. -/
theorem Envelope.reads {e : Envelope} (h : e.Valid) (hr : e.InRange) :
    ((Envelope.codec D).write e).sorted.Plain ∧
    (Envelope.codec D).read .zero ((Envelope.codec D).write e).sorted = .ok e := by
  -- the members that are written: all of them, or all but the last
  obtain ⟨l, hl, hwrite, hcopy⟩ : ∃ l : List (Field Envelope), l.Sublist (Envelope.fieldList D) ∧
      e.marshal = .obj (.ofList (l.map fun f => (f.name, f.codec.write (f.get e)))) ∧
      l.foldl (copy e) .zero = e := by
    by_cases hseq : e.seq = 0
    · refine ⟨(Envelope.fieldList D).take 4, List.take_sublist _ _, ?_, ?_⟩
      · rw [Envelope.marshal, if_pos hseq]; rfl
      · cases e; cases hseq; rfl
    · refine ⟨Envelope.fieldList D, .refl _, ?_, Envelope.fields_ok.rebuild e _⟩
      rw [Envelope.marshal, if_neg hseq]; rfl
  have hfields : ∀ f ∈ Envelope.fieldList D, f.codec.Reads (f.get e) := by
    simp only [Envelope.fieldList, List.forall_mem_cons, List.not_mem_nil, false_imp_iff,
      implies_true, and_true]
    exact ⟨Context.reads h.context hr.keyEpoch hr.rev, .bytes _, .bytes _, .bytes _,
      .counter hr.seq⟩
  obtain ⟨hplain, hread⟩ := unmarshalStruct_sorted (D := D) "Envelope"
    Envelope.fields_ok hl e fun f hf => hfields f (hl.subset hf)
  have hread := hread .zero
  rw [← hwrite, ← Envelope.fields_eq, hcopy] at hread
  rw [← hwrite] at hplain
  exact ⟨hplain, hread⟩

end Sshstate
