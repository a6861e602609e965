/-
  What the relay answers.

  `submitRecord_cases` opens the answer to a submission, `changes_spec` says which
  part of the log a page is: the entries after `since`, without a gap, up to the
  cursor it returns.
-/
import Sshstate.Proof.Relay
import Sshstate.Relay.Server

namespace Sshstate.Relay.Store

variable {C : Suite} {st st' : Store}

theorem authenticate_eq_ok {s : Sender} {u : Unit} :
    st.authenticate C s = .ok u ↔ ∃ chain d, st.chain C s.vaultID = .ok chain ∧
      chain.device s.deviceID = some d ∧ d.revoked = false ∧ d.verifyKey = s.verifyKey := by
  unfold authenticate
  rw [Except.bind_eq_ok]
  refine exists_congr fun chain => ?_
  rcases hd : chain.device s.deviceID with _ | d
  · simp
  · simp [Except.require_bind_eq_ok]

theorem appendMembership_ok {v : ID} {ev : SignedMembershipEvent} {next : Membership.Chain}
    (h : st.appendMembership C v ev = .ok (next, st')) :
    ∃ chain, st.chain C v = .ok chain ∧ chain.append C ev = .ok next ∧
      st' = { st with membership := st.membership ++ [ev] } := by
  simp only [appendMembership, Except.bind_eq_ok, Except.mapError_eq_ok, Except.pure_eq_ok,
    Except.ok.injEq, Prod.mk.injEq] at h
  obtain ⟨chain, hc, _, ha, -, -, rfl, rfl⟩ := h
  exact ⟨chain, hc, ha, rfl⟩

theorem submitRecord_cases {s : Sender} {env : Envelope} {now : String}
    {r : Except Error PutResult} (h : st.submitRecord C s env now = (r, st')) :
    (∃ err, r = .error err ∧ st' = st) ∨
    ∃ out, st.authenticate C s = .ok () ∧
      st.putRecord C s.vaultID env.strip now = .ok (out, st') ∧ r = putResult out := by
  unfold submitRecord at h
  split at h
  next err _ => cases h; exact Or.inl ⟨err, rfl, rfl⟩
  next out st₁ hput =>
    cases h
    obtain ⟨⟨⟩, ha, hp⟩ := Except.bind_eq_ok.1 hput
    exact Or.inr ⟨out, ha, hp, rfl⟩

theorem putResult_accepted {out : PutOutcome} {seq : ℕ} {digest : Option Bytes}
    (h : putResult out = .ok (.accepted seq digest)) : out.accepted = true ∧ out.seq = seq := by
  unfold putResult at h
  split_ifs at h with ha
  · cases h; exact ⟨ha, rfl⟩
  · split at h <;> cases h

theorem putResult_rejected {out : PutOutcome} {head : Envelope}
    (h : putResult out = .ok (.rejected head)) : out.accepted = false ∧ out.head = some head := by
  unfold putResult at h
  split_ifs at h with ha
  · cases h
  · split at h <;> cases h
    next hh => exact ⟨by simpa using ha, hh⟩

/-! ## Pages -/

/-- In a log that is numbered from `s + 1`, an interval of numbers is a segment. -/
theorem filter_seq (a b : ℕ) : ∀ (s : ℕ) (l : List LogRow),
    l.map LogRow.seq = List.range' (s + 1) l.length →
    l.filter (fun row => a < row.seq ∧ row.seq ≤ b) = (l.drop (a - s)).take (b - max a s)
  | _, [], _ => by simp
  | s, row :: l, h => by
    simp only [List.map_cons, List.length_cons, List.range'_succ, List.cons.injEq] at h
    obtain ⟨hrow, hl⟩ := h
    have ih := filter_seq a b (s + 1) l hl
    rcases Nat.lt_or_ge s a with hs | hs
    · -- before the interval
      rw [List.filter_cons_of_neg (by simp; omega), ih, show a - s = (a - (s + 1)) + 1 by omega,
        List.drop_succ_cons, max_eq_left (by omega : s + 1 ≤ a), max_eq_left hs.le]
    · rw [show a - s = 0 by omega, List.drop_zero, max_eq_right hs]
      rw [show a - (s + 1) = 0 by omega, List.drop_zero, max_eq_right (by omega : a ≤ s + 1)] at ih
      rcases Nat.lt_or_ge s b with hb | hb
      · rw [List.filter_cons_of_pos (by simp; omega), ih, show b - s = (b - (s + 1)) + 1 by omega,
          List.take_succ_cons]
      · rw [List.filter_cons_of_neg (by simp; omega), ih, show b - s = 0 by omega,
          show b - (s + 1) = 0 by omega, List.take_zero, List.take_zero]

variable (C) in
/-- The loop of `Changes` takes a first part of the rows, and all of them unless it
    says that there is more; it stops only on a page that is not empty. -/
theorem fillPage_eq (limit : ℕ) (hlimit : 0 < limit) : ∀ (rows : List LogRow) (b : ℕ) (page : Page),
    page.hasMore = false → page.changes.length ≤ limit →
    ∃ k ≤ rows.length,
      (fillPage C limit rows b page).changes =
        page.changes ++ (rows.take k).map (fun row => decodeEnvelope row.envelope row.seq) ∧
      (fillPage C limit rows b page).nextCursor =
        ((rows.take k).getLast?.map LogRow.seq).getD page.nextCursor ∧
      (fillPage C limit rows b page).snapshotCursor = page.snapshotCursor ∧
      page.changes.length + k ≤ limit ∧
      ((fillPage C limit rows b page).hasMore = false → k = rows.length) ∧
      ((fillPage C limit rows b page).hasMore = true → page.changes = [] → 0 < k)
  | [], b, page, hmore, hlen => ⟨0, by simp [fillPage, hmore, hlen]⟩
  | row :: rows, b, page, hmore, hlen => by
    simp only [fillPage]
    split_ifs with hfull hbytes
    · exact ⟨0, by simp, by simp, by simp, rfl, by omega, by simp,
        fun _ he => by rw [he] at hfull; simp at hfull; omega⟩
    · exact ⟨0, by simp, by simp, by simp, rfl, by omega, by simp, fun _ he => absurd he hbytes.2⟩
    · obtain ⟨k, hk, hc, hn, hs, hl, hm, -⟩ := fillPage_eq limit hlimit rows
        (b + (C.canonical (.envelope row.envelope)).length)
        { page with changes := page.changes ++ [decodeEnvelope row.envelope row.seq],
                    nextCursor := row.seq } hmore (by simp; omega)
      refine ⟨k + 1, by simpa using hk, by simpa using hc, hn.trans ?_, hs, ?_, fun h => ?_, by simp⟩
      · rw [List.take_succ_cons, List.getLast?_cons]
        rcases (rows.take k).getLast? with _ | r <;> rfl
      · simp only [List.length_append, List.length_singleton] at hl; omega
      · rw [hm h]; rfl

/-- The part of the log that a page from `since` to `next` shows. -/
def served (st : Store) (since next : ℕ) : List Envelope :=
  ((st.log.drop since).take (next - since)).map fun row => decodeEnvelope row.envelope row.seq

/-- A page is a gapless part of the log; it ends at the end of the snapshot or is not empty. -/
theorem changes_spec (h : st.log.map LogRow.seq = List.range' 1 st.log.length) {since through : ℕ}
    {limit : ℤ} {page : Page}
    (hpage : st.changes C since through limit = .ok page) :
    page.snapshotCursor = (if through = 0 then st.log.length else through) ∧
    page.snapshotCursor ≤ st.log.length ∧ since ≤ page.nextCursor ∧
    page.nextCursor ≤ page.snapshotCursor ∧ page.changes = st.served since page.nextCursor ∧
    (page.hasMore = false → page.nextCursor = page.snapshotCursor) ∧
    (page.hasMore = true → since < page.nextCursor) := by
  simp only [changes, currentSeq_eq h, Except.bind_eq_ok, Except.require_eq_ok,
    counterToInt_eq_ok, Except.pure_eq_ok, Except.ok.injEq] at hpage
  generalize hthr : (if through = 0 then st.log.length else through) = t at hpage
  generalize hlim : (if limit ≤ 0 ∨ limit > maxPageLimit then defaultPageLimit else limit.toNat) = n
    at hpage
  have hn : 0 < n := by
    rw [← hlim]; split_ifs with hc
    · decide
    · omega
  obtain ⟨-, hle, -, hsince, since', ⟨-, hs'⟩, t', ⟨-, ht'⟩, hpage⟩ := hpage
  rw [hs', ht'] at hpage
  subst hpage
  have hrows : st.log.filter (fun row => since < row.seq ∧ row.seq ≤ t) =
      (st.log.drop since).take (t - since) := by
    simpa using filter_seq since t 0 st.log (by simpa using h)
  have hlen : ((st.log.drop since).take (t - since)).length = t - since := by
    rw [List.length_take, List.length_drop]; omega
  rw [hrows]
  obtain ⟨k, hk, hc, hnext, hs, hl, hm, hpos⟩ := fillPage_eq C n hn
    (((st.log.drop since).take (t - since)).take (n + 1)) 0
    { changes := [], nextCursor := since, snapshotCursor := t, hasMore := false } rfl (by simp)
  simp only [List.length_nil, Nat.zero_add, List.nil_append] at hc hl hpos
  rw [List.length_take, hlen] at hk
  -- the rows taken are the `k` entries after `since`
  have htake : (((st.log.drop since).take (t - since)).take (n + 1)).take k =
      (st.log.drop since).take k := by
    rw [List.take_take, List.take_take]; congr 1; omega
  rw [htake] at hc hnext
  have hnext' : (fillPage C n (((st.log.drop since).take (t - since)).take (n + 1)) 0
      { changes := [], nextCursor := since, snapshotCursor := t, hasMore := false }).nextCursor =
      since + k := by
    rw [hnext]
    rcases k with _ | k
    · simp
    · have hlast : ((st.log.drop since).take (k + 1)).getLast? = st.log[since + k]? := by
        rw [List.getLast?_eq_getElem?, List.getElem?_take_of_lt (by rw [List.length_take]; omega), List.getElem?_drop]
        congr 1
        simp only [List.length_take, List.length_drop]; omega
      have hseq : (st.log.map LogRow.seq)[since + k]? = some (since + k + 1) := by
        rw [h, List.getElem?_range' (by omega)]; congr 1; omega
      rw [hlast, ← List.getElem?_map, hseq]; rfl
  refine ⟨hs, by rw [hs]; exact hle, ?_, ?_, ?_, fun hmore => ?_, fun hmore => ?_⟩
  · rw [hnext']; omega
  · rw [hnext', hs]; show since + k ≤ t; omega
  · rw [hc, served, hnext', Nat.add_sub_cancel_left]
  · have hkeq := hm hmore
    rw [List.length_take, hlen] at hkeq
    rw [hnext', hs]; show since + k = t; omega
  · rw [hnext']
    have := hpos hmore trivial
    omega

theorem changes_ok (h : Consistent C st) {since through : ℕ} {limit : ℤ} {page : Page}
    (hpage : st.changes C since through limit = .ok page) :
    page.snapshotCursor = (if through = 0 then st.log.length else through) ∧
    page.snapshotCursor ≤ st.log.length ∧ since ≤ page.nextCursor ∧
    page.nextCursor ≤ page.snapshotCursor ∧ page.changes = st.served since page.nextCursor ∧
    (page.hasMore = false → page.nextCursor = page.snapshotCursor) ∧
    (page.hasMore = true → since < page.nextCursor) :=
  changes_spec h.numbered hpage

theorem mem_served {since next : ℕ} {e : Envelope} (h : e ∈ st.served since next) :
    ∃ row ∈ st.log, e = decodeEnvelope row.envelope row.seq := by
  obtain ⟨row, hrow, rfl⟩ := List.mem_map.1 h
  exact ⟨row, List.mem_of_mem_drop (List.mem_of_mem_take hrow), rfl⟩

theorem records_ok {since through limit : ℕ} {r : RecordsResponse}
    (h : st.records C since through limit = .ok r) :
    ∃ page, st.changes C since through limit = .ok page ∧
      r = { changes := page.changes, nextCursor := page.nextCursor,
            snapshotCursor := page.snapshotCursor, hasMore := page.hasMore, history := st.history,
            historyOrigin := st.historyOrigin } := by
  simp only [records, Except.bind_eq_ok, Except.pure_eq_ok, Except.ok.injEq] at h
  obtain ⟨page, hp, rfl⟩ := h
  exact ⟨page, hp, rfl⟩

end Sshstate.Relay.Store
