/-
  Which recovery copy the relay serves.

  A row is in the table if it was stored, its id was not stored again and no later recovery
  copy supersedes it (`mem_tableAfter`).  So the table holds the last copy of the highest
  epoch, if its id is not put again; it is the one that is served if no unaddressed envelope
  of another purpose comes before it in the order of the query.
-/
import Sshstate.Proof.Relay
import Sshstate.Protocol.Sample
import Sshstate.Relay.Envelopes

namespace Sshstate.Relay

variable {C : Suite}

/-! ## The table -/

theorem tableAfter_eq (calls : List EnvelopeCall) :
    tableAfter C calls = (storedRows C calls).foldl putRow [] := by
  have hrun : ∀ rows, calls.foldl (EnvelopeCall.run C) rows = (storedRows C calls).foldl putRow rows := by
    induction calls with
    | nil => exact fun rows => rfl
    | cons call calls ih =>
      intro rows
      rw [List.foldl_cons, ih]
      cases h : checkKeyEnvelope C call.store call.vaultID call.env with
      | error err => simp [EnvelopeCall.run, putKeyEnvelope, storedRows, h, Except.toOption]
      | ok row => simp [EnvelopeCall.run, putKeyEnvelope, storedRows, h, Except.toOption]
  exact hrun []

/-- The put of `new` removes the row `old`. -/
def Drops (new old : EnvelopeRow) : Prop :=
  old.key = new.key ∨
    (new.recipientDeviceID = none ∧ new.purpose = .recovery) ∧ new.superseded old = true

theorem mem_putRow {rows : List EnvelopeRow} {new row : EnvelopeRow} :
    row ∈ putRow rows new ↔ row = new ∨ row ∈ rows ∧ ¬ Drops new row := by
  rw [putRow, Upsert.mem_upsert, Drops]
  by_cases h : new.recipientDeviceID = none ∧ new.purpose = .recovery
  · rw [if_pos h, List.mem_filter, Bool.not_eq_true', not_or, and_iff_right h, Bool.not_eq_true,
      and_assoc, and_comm (a := new.superseded row = false)]
  · have hnone : ¬ ((new.recipientDeviceID = none ∧ new.purpose = .recovery) ∧
        new.superseded row = true) := fun hnew => h hnew.1
    rw [if_neg h, or_iff_left hnone]

theorem mem_tableAfter {calls : List EnvelopeCall} {row : EnvelopeRow} :
    row ∈ tableAfter C calls ↔
      ∃ pre post, storedRows C calls = pre ++ row :: post ∧ ∀ new ∈ post, ¬ Drops new row := by
  rw [tableAfter_eq]
  exact Upsert.mem_foldl_put (fun _ _ _ => mem_putRow) _ _

/-! ## Rows that are kept -/

/-- A row for the recovery kit of the vault. -/
def Unaddressed (vaultID : ID) (row : EnvelopeRow) : Prop :=
  row.vaultID = vaultID ∧ row.recipientDeviceID = none

/-- A recovery copy. -/
def Recovery (vaultID : ID) (row : EnvelopeRow) : Prop :=
  Unaddressed vaultID row ∧ row.purpose = .recovery

/-- The row was stored, and its id was not used again. -/
def Kept (log : List EnvelopeRow) (row : EnvelopeRow) : Prop :=
  ∃ pre post, log = pre ++ row :: post ∧ ∀ new ∈ post, new.key ≠ row.key

/-- The recovery copy that was stored last among those of the highest epoch. -/
def Latest (vaultID : ID) (log : List EnvelopeRow) (row : EnvelopeRow) : Prop :=
  Recovery vaultID row ∧ ∃ pre post, log = pre ++ row :: post ∧
    (∀ r ∈ pre, Recovery vaultID r → r.keyEpoch ≤ row.keyEpoch) ∧
    ∀ r ∈ post, Recovery vaultID r → r.keyEpoch < row.keyEpoch

variable {vaultID : ID} {log : List EnvelopeRow} {row new : EnvelopeRow} {calls : List EnvelopeCall}

/-- Only a recovery copy is removed by a later one. -/
theorem drops_iff (h : ¬ Recovery vaultID row) (hv : row.vaultID = vaultID) :
    Drops new row ↔ row.key = new.key := by
  refine or_iff_left_of_imp ?_
  rintro ⟨⟨-, hpurpose⟩, hold⟩
  simp only [EnvelopeRow.superseded, hpurpose, decide_eq_true_eq] at hold
  exact absurd ⟨⟨hv, hold.2.1⟩, hold.2.2.1⟩ h

/-- A recovery copy supersedes those of its own and of earlier epochs. -/
theorem drops_of_recovery (hold : Recovery vaultID row) (hnew : Recovery vaultID new)
    (hepoch : row.keyEpoch ≤ new.keyEpoch) : Drops new row := by
  by_cases hkey : row.key = new.key
  · exact .inl hkey
  · have hid : row.envelopeID ≠ new.envelopeID := fun hid =>
      hkey (Prod.ext (hold.1.1.trans hnew.1.1.symm) hid)
    refine .inr ⟨⟨hnew.1.2, hnew.2⟩, ?_⟩
    simp only [EnvelopeRow.superseded, decide_eq_true_eq]
    exact ⟨hold.1.1.trans hnew.1.1.symm, hold.1.2, hold.2.trans hnew.2.symm, hepoch, hid⟩

/-- What removes a recovery copy: its id, or a copy of its own or of a later epoch. -/
theorem drops_cases (h : Drops new row) (hold : Recovery vaultID row) :
    new.key = row.key ∨ Recovery vaultID new ∧ row.keyEpoch ≤ new.keyEpoch := by
  rcases h with hkey | ⟨⟨hnone, hpurpose⟩, hsup⟩
  · exact .inl hkey.symm
  · simp only [EnvelopeRow.superseded, decide_eq_true_eq] at hsup
    exact .inr ⟨⟨⟨hsup.1.symm.trans hold.1.1, hnone⟩, hpurpose⟩, hsup.2.2.2.1⟩

theorem kept_of_mem_tableAfter (h : row ∈ tableAfter C calls) : Kept (storedRows C calls) row := by
  obtain ⟨pre, post, hlog, hpost⟩ := mem_tableAfter.1 h
  exact ⟨pre, post, hlog, fun new hnew hkey => hpost new hnew (.inl hkey.symm)⟩

/-- Rows of another purpose stay until their id is used again. -/
theorem mem_tableAfter_of_kept (h : Kept (storedRows C calls) row) (hr : ¬ Recovery vaultID row)
    (hv : row.vaultID = vaultID) : row ∈ tableAfter C calls := by
  obtain ⟨pre, post, hlog, hpost⟩ := h
  refine mem_tableAfter.2 ⟨pre, post, hlog, fun new hnew hdrops => ?_⟩
  exact hpost new hnew ((drops_iff hr hv).1 hdrops).symm

theorem Kept.eq (h : Kept log row) (h' : Kept log new) (hkey : row.key = new.key) : row = new := by
  obtain ⟨pre, post, rfl, hpost⟩ := h
  obtain ⟨pre', post', hlog, hpost'⟩ := h'
  rcases Splits.split_cases hlog with ⟨hmem, -⟩ | ⟨rfl, -⟩ | ⟨hmem, -⟩
  · exact absurd hkey.symm (hpost new hmem)
  · rfl
  · exact absurd hkey (hpost' row hmem)

/-! ## The latest copy -/

theorem Latest.mem_tableAfter (h : Latest vaultID (storedRows C calls) row)
    (hkept : Kept (storedRows C calls) row) : row ∈ tableAfter C calls := by
  obtain ⟨hrow, pre, post, hlog, -, hlater⟩ := h
  obtain ⟨pre', post', hlog', hkey⟩ := hkept
  -- the last row of the id is the last copy
  have hsame : post = post' := by
    rcases Splits.split_cases (hlog.symm.trans hlog') with ⟨hmem, -⟩ | ⟨-, hpost⟩ | ⟨hmem, -⟩
    · exact absurd (hlater row hmem hrow) (lt_irrefl _)
    · exact hpost
    · exact absurd rfl (hkey row hmem)
  refine Relay.mem_tableAfter.2 ⟨pre, post, hlog, fun new hnew hdrops => ?_⟩
  rcases drops_cases hdrops hrow with hk | ⟨hrec, hepoch⟩
  · exact hkey new (hsame ▸ hnew) hk
  · exact absurd hepoch (not_le_of_gt (hlater new hnew hrec))

/-- The other copies of the table are of earlier epochs. -/
theorem Latest.eq_or_lt (h : Latest vaultID (storedRows C calls) row) (hnew : Recovery vaultID new)
    (hmem : new ∈ tableAfter C calls) : new = row ∨ new.keyEpoch < row.keyEpoch := by
  obtain ⟨hrow, pre, post, hlog, hearlier, hlater⟩ := h
  obtain ⟨pre', post', hlog', hdrops⟩ := Relay.mem_tableAfter.1 hmem
  rcases Splits.split_cases (hlog.symm.trans hlog') with ⟨hpost, -⟩ | ⟨heq, -⟩ | ⟨hpost', hpre⟩
  · exact .inr (hlater new hpost hnew)
  · exact .inl heq.symm
  · exact absurd (drops_of_recovery hnew hrow (hearlier new hpre hnew)) (hdrops row hpost')

/-- At most one recovery copy of each epoch. -/
def OnePerEpoch (vaultID : ID) (rows : List EnvelopeRow) : Prop :=
  ∀ r ∈ rows, ∀ s ∈ rows, Recovery vaultID r → Recovery vaultID s → r.keyEpoch = s.keyEpoch → r = s

theorem onePerEpoch_tableAfter (vaultID : ID) (calls : List EnvelopeCall) :
    OnePerEpoch vaultID (tableAfter C calls) := by
  intro r hr s hs hrec hrec' hepoch
  obtain ⟨pre, post, hlog, hdrops⟩ := mem_tableAfter.1 hr
  obtain ⟨pre', post', hlog', hdrops'⟩ := mem_tableAfter.1 hs
  rcases Splits.split_cases (hlog.symm.trans hlog') with ⟨hpost, -⟩ | ⟨heq, -⟩ | ⟨hpost, -⟩
  · exact absurd (drops_of_recovery hrec hrec' hepoch.le) (hdrops s hpost)
  · exact heq
  · exact absurd (drops_of_recovery hrec' hrec hepoch.ge) (hdrops' r hpost)

/-! ## The answer -/

theorem Unaddressed.eq_of_envelope (h : Unaddressed vaultID row) (h' : Unaddressed vaultID new)
    (henv : row.envelope = new.envelope) : row = new := by
  obtain ⟨v, i, r, p, e, c, t⟩ := row
  obtain ⟨v', i', r', p', e', c', t'⟩ := new
  obtain ⟨rfl, rfl⟩ := h
  obtain ⟨rfl, rfl⟩ := h'
  simp only [EnvelopeRow.envelope, KeyEnvelope.mk.injEq, true_and] at henv
  obtain ⟨rfl, rfl, rfl, rfl, rfl⟩ := henv
  rfl

/-- The row that is served comes before the other unaddressed rows. -/
theorem recoveryEnvelope_eq_ok {rows : List EnvelopeRow} (h : Unaddressed vaultID row)
    (hkeys : ∀ r ∈ rows, ∀ s ∈ rows, r.key = s.key → r = s) :
    recoveryEnvelope rows vaultID = .ok row.envelope ↔
      row ∈ rows ∧ ∀ r ∈ rows, Unaddressed vaultID r → r = row ∨ r.rank < row.rank := by
  have hfilter : ∀ {r}, r ∈ rows.filter (fun row => row.vaultID = vaultID ∧
      row.recipientDeviceID = none) ↔ r ∈ rows ∧ Unaddressed vaultID r := by
    intro r
    simp [List.mem_filter, Unaddressed]
  -- rows of one rank have one key
  have hrank : ∀ r ∈ rows, ∀ s ∈ rows, Unaddressed vaultID r → Unaddressed vaultID s →
      r.rank = s.rank → r = s := by
    intro r hr s hs hur hus heq
    have hid : r.envelopeID = s.envelopeID := congrArg (fun x => (ofLex x).2) heq
    exact hkeys r hr s hs (Prod.ext (hur.1.trans hus.1.symm) hid)
  constructor
  · intro hserved
    cases harg : (rows.filter fun row => row.vaultID = vaultID ∧
        row.recipientDeviceID = none).argmax EnvelopeRow.rank with
    | none => simp only [recoveryEnvelope, harg, reduceCtorEq] at hserved
    | some r =>
      simp only [recoveryEnvelope, harg, Except.ok.injEq] at hserved
      obtain ⟨hmem, hu⟩ := hfilter.1 (List.argmax_mem harg)
      obtain rfl := hu.eq_of_envelope h hserved
      refine ⟨hmem, fun s hs hus => ?_⟩
      have hle : s.rank ≤ r.rank := List.le_of_mem_argmax (hfilter.2 ⟨hs, hus⟩) harg
      rcases hle.eq_or_lt with heq | hlt
      · exact .inl (hrank s hs r hmem hus hu heq)
      · exact .inr hlt
  · rintro ⟨hmem, hmax⟩
    have harg : row ∈ (rows.filter fun row => row.vaultID = vaultID ∧
        row.recipientDeviceID = none).argmax EnvelopeRow.rank := by
      refine List.mem_argmax_iff.2 ⟨hfilter.2 ⟨hmem, h⟩, fun r hr => ?_, fun r hr hle => ?_⟩
      · obtain ⟨hr, hu⟩ := hfilter.1 hr
        rcases hmax r hr hu with rfl | hlt
        · exact le_rfl
        · exact hlt.le
      · obtain ⟨hr, hu⟩ := hfilter.1 hr
        rcases hmax r hr hu with rfl | hlt
        · exact le_rfl
        · exact absurd hle (not_le_of_gt hlt)
    rw [Option.mem_def] at harg
    simp only [recoveryEnvelope, harg]

/-- If a recovery copy was stored and its id was not used again, the latest copy of the
    highest epoch is served. -/
def ServesLatest (C : Suite) (calls : List EnvelopeCall) (vaultID : ID) : Prop :=
  (∃ row, Recovery vaultID row ∧ Kept (storedRows C calls) row) →
    ∃ row, Latest vaultID (storedRows C calls) row ∧
      recoveryEnvelope (tableAfter C calls) vaultID = .ok row.envelope

/-- **Main result.**  After any calls the table has one recovery copy of each epoch at most, and
    the latest copy is served exactly if its own id was not used again and every unaddressed
    envelope of another purpose, whose id was not used again, has a lower epoch, or the same
    epoch and a smaller id. -/
theorem serves_latest_iff (C : Suite) (calls : List EnvelopeCall) (vaultID : ID) :
    ServesLatest C calls vaultID ∧ OnePerEpoch vaultID (tableAfter C calls) ↔
      ((∃ row, Recovery vaultID row ∧ Kept (storedRows C calls) row) →
        ∃ row, Latest vaultID (storedRows C calls) row ∧ Kept (storedRows C calls) row ∧
          ∀ other, Unaddressed vaultID other → other.purpose ≠ .recovery →
            Kept (storedRows C calls) other → other.rank < row.rank) := by
  rw [and_iff_left (onePerEpoch_tableAfter vaultID calls)]
  have hkeys : ∀ r ∈ tableAfter C calls, ∀ s ∈ tableAfter C calls, r.key = s.key → r = s :=
    fun r hr s hs => (kept_of_mem_tableAfter hr).eq (kept_of_mem_tableAfter hs)
  refine forall_congr' fun _ => exists_congr fun row => and_congr_right fun hlatest => ?_
  rw [recoveryEnvelope_eq_ok hlatest.1.1 hkeys]
  constructor
  · rintro ⟨hmem, hmax⟩
    refine ⟨kept_of_mem_tableAfter hmem, fun other hu hpurpose hkept => ?_⟩
    have hmem' := mem_tableAfter_of_kept hkept (fun hrec => hpurpose hrec.2) hu.1
    rcases hmax other hmem' hu with rfl | hlt
    · exact absurd hlatest.1.2 hpurpose
    · exact hlt
  · rintro ⟨hkept, hother⟩
    refine ⟨hlatest.mem_tableAfter hkept, fun r hr hu => ?_⟩
    by_cases hpurpose : r.purpose = .recovery
    · exact (hlatest.eq_or_lt ⟨hu, hpurpose⟩ hr).imp_right fun hlt => Prod.Lex.toLex_lt_toLex.2 (.inl hlt)
    · exact .inr (hother r hu hpurpose (kept_of_mem_tableAfter hr))

namespace Served01

/-- A relay with one device. -/
def store : Store :=
  .created Sample.genesis [Sample.root (Sample.id 0x0a) [10] "A"] "h" "o"

/-- The device uploads its recovery archive. -/
def archive : KeyEnvelope := archiveEnvelope 1 (Sample.id 0x31) [1] "t0"

/-- It puts an enrolment bundle without a recipient. -/
def body : EnvelopeBody where
  id := Sample.id 0x32
  recipientDeviceID := none
  purpose := .enrollment
  keyEpoch := 1
  ciphertext := [2]

def bundle : KeyEnvelope := (body.envelope (Sample.id 0x32) "t1").get (by decide)

def puts : List EnvelopeCall :=
  [⟨store, Sample.id 0x01, archive⟩, ⟨store, Sample.id 0x01, bundle⟩]

/-- The bundle is served in the place of the archive. -/
theorem not_servesLatest_bundle : ¬ ServesLatest sample puts (Sample.id 0x01) := by
  have hserved : recoveryEnvelope (tableAfter sample puts) (Sample.id 0x01) = .ok bundle := by
    decide
  have hstored : ∃ first second, storedRows sample puts = [first, second] ∧
      Recovery (Sample.id 0x01) first ∧ second.key ≠ first.key := by
    refine ⟨(storedRows sample puts).head (by decide),
      (storedRows sample puts).getLast (by decide), ?_⟩
    simp only [Recovery, Unaddressed]
    decide
  intro h
  obtain ⟨first, second, hlog, hrec, hkey⟩ := hstored
  obtain ⟨row, hlatest, hrow⟩ := h ⟨first, hrec, [], [second], hlog, by simpa using hkey⟩
  rw [hserved] at hrow
  have hpurpose : bundle.purpose = .recovery := by
    rw [Except.ok.inj hrow]
    exact hlatest.1.2
  revert hpurpose
  decide

end Served01

end Sshstate.Relay
