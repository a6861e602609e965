/-
  Reading the log page by page.

  `fetchPages` is the loop of a client that asks for page after page: it starts
  with `through` unset and goes on from the cursor of each page, up to the
  snapshot of the first one.  The log may grow between two requests; `db i` is the
  relay at the `i`-th of them.  Since a page that leaves something is not empty,
  the loop ends, and since the pages are gapless it has then read exactly the
  entries up to the snapshot (`fetchPages_exact`).
-/
import Sshstate.Proof.Server
import Sshstate.Protocol.Sample

namespace Sshstate.Relay.Store

variable {C : Suite}

variable (C) in
/-- The requests of a client that pages through the log; `none`: more requests
    than `fuel`. -/
def fetchPages (limit : ℤ) : (db : ℕ → Store) → (fuel : ℕ) → (since through : ℕ) →
    Except Error (Option (List Page))
  | _, 0, _, _ => .ok none
  | db, fuel + 1, since, through => do
    let page ← (db 0).changes C since through limit
    if page.hasMore then do
      let rest ← fetchPages limit (fun i => db (i + 1)) fuel page.nextCursor page.snapshotCursor
      return rest.map (page :: ·)
    else return some [page]

/-- The log of a relay: numbered 1, 2, …, n in an `int64` column. -/
structure Numbered (st : Store) : Prop where
  seq : st.log.map LogRow.seq = List.range' 1 st.log.length
  int64 : st.log.length ≤ maxInt64

theorem exists_changes {st : Store} (h : st.Numbered) {since through : ℕ} (limit : ℤ)
    (ht : through ≤ st.log.length)
    (hs : since ≤ if through = 0 then st.log.length else through) :
    ∃ page, st.changes C since through limit = .ok page := by
  have hlen := h.int64
  have hcur := currentSeq_eq h.seq
  have hthr : (if through = 0 then st.log.length else through) ≤ st.log.length := by
    split_ifs <;> omega
  simp only [changes, hcur, Except.bind_eq_ok, Except.require_eq_ok, counterToInt_eq_ok]
  exact ⟨_, (), hthr, (), hs, since, ⟨by omega, rfl⟩, _, ⟨by omega, rfl⟩, rfl⟩

theorem served_append (st : Store) {a b c : ℕ} (hab : a ≤ b) (hbc : b ≤ c) :
    st.served a b ++ st.served b c = st.served a c := by
  unfold served
  rw [← List.map_append]
  congr 1
  have hdrop : (st.log.drop a).drop (b - a) = st.log.drop b := by
    rw [List.drop_drop]; congr 1; omega
  rw [← hdrop, ← List.take_add]
  congr 1; omega

/-- A snapshot is read the same from a longer log. -/
theorem served_of_prefix {st st' : Store} (h : st.log <+: st'.log) {a b : ℕ}
    (hb : b ≤ st.log.length) : st'.served a b = st.served a b := by
  obtain ⟨more, hmore⟩ := h
  unfold served
  rw [← hmore]
  congr 1
  rcases Nat.lt_or_ge b a with hab | hab
  · rw [show b - a = 0 by omega, List.take_zero, List.take_zero]
  · rw [List.drop_append_of_le_length (by omega),
      List.take_append_of_le_length (by rw [List.length_drop]; omega)]

theorem served_seq {st : Store} (h : st.Numbered) {a b : ℕ} (hab : a ≤ b)
    (hb : b ≤ st.log.length) :
    (st.served a b).map (·.seq) = List.range' (a + 1) (b - a) := by
  have hseq : (st.served a b).map (·.seq) = ((st.log.map LogRow.seq).drop a).take (b - a) := by
    rw [served, List.map_map, ← List.map_drop, ← List.map_take]
    exact List.map_congr_left fun row _ => rfl
  have hlen : st.log.length = a + ((b - a) + (st.log.length - b)) := by omega
  rw [hseq, h.seq, hlen, ← List.range'_append_1, List.drop_left' List.length_range',
    ← List.range'_append_1, List.take_left' List.length_range', Nat.add_comm 1 a]

theorem served_eq_filter {st : Store} (h : st.Numbered) (a b : ℕ) :
    st.served a b = (st.log.filter fun row => a < row.seq ∧ row.seq ≤ b).map
      fun row => decodeEnvelope row.envelope row.seq := by
  rw [served]
  congr 1
  simpa using (filter_seq a b 0 st.log (by simpa using h.seq)).symm

/-- The loop from any request on, with the snapshot `t`. -/
theorem fetchPages_spec (limit : ℤ) {fuel : ℕ} : ∀ (db : ℕ → Store) (since through t : ℕ),
    (∀ i, (db i).Numbered) → (∀ i, (db i).log <+: (db (i + 1)).log) →
    t = (if through = 0 then (db 0).log.length else through) → through ≤ (db 0).log.length →
    since ≤ t → t - since < fuel →
    ∃ pages, fetchPages C limit db fuel since through = .ok (some pages) ∧
      (∀ p ∈ pages, p.snapshotCursor = t) ∧
      pages.flatMap (·.changes) = (db 0).served since t ∧
      (∃ p, pages.getLast? = some p ∧ p.nextCursor = t ∧ p.hasMore = false) := by
  induction fuel with
  | zero => intro _ _ _ _ _ _ _ _ _ hfuel; exact absurd hfuel (Nat.not_lt_zero _)
  | succ fuel ih =>
    intro db since through t hnum hgrow ht hthr hsince hfuel
    obtain ⟨page, hpage⟩ := exists_changes (C := C) (hnum 0) limit hthr (ht ▸ hsince)
    obtain ⟨hsnap, hle, hlo, hhi, hch, hlast, hmore⟩ := changes_spec (hnum 0).seq hpage
    rw [← ht] at hsnap
    rw [hsnap] at hle hhi hlast
    simp only [fetchPages, hpage, Except.bind_ok']
    rcases hm : page.hasMore with _ | _
    · have hnext := hlast hm
      refine ⟨[page], rfl, by simp [hsnap], ?_, page, rfl, hnext, hm⟩
      simp [hch, hnext]
    · -- the page is not empty, so what is left is less
      have hpos := hmore hm
      obtain ⟨pages, hrun, hall, hflat, hend⟩ := ih (fun i => db (i + 1))
        page.nextCursor page.snapshotCursor t (fun i => hnum (i + 1)) (fun i => hgrow (i + 1))
        (by rw [hsnap, if_neg (by omega)])
        (by rw [hsnap]; exact hle.trans (hgrow 0).length_le) hhi (by omega)
      obtain ⟨p, hp, hpn⟩ := hend
      refine ⟨page :: pages, by simp [hrun], ?_, ?_, p, ?_, hpn⟩
      · simpa [hsnap] using hall
      · rw [List.flatMap_cons, hflat, hch, served_of_prefix (hgrow 0) hle,
          served_append _ hlo hhi]
      · rw [List.getLast?_cons, hp]; rfl

/-- **Main result.**  Paging through a log of any sizes, with any limit, while the
    log grows, ends after at most `n - since + 1` pages, where `n` is the length of
    the log at the first request.  Every page names `n` as its snapshot, the last
    one ends there, and together the pages are exactly the entries numbered
    `since + 1, …, n`, in this order. -/
theorem fetchPages_exact (C : Suite) (limit : ℤ) {db : ℕ → Store} (hnum : ∀ i, (db i).Numbered)
    (hgrow : ∀ i, (db i).log <+: (db (i + 1)).log) {since : ℕ}
    (hsince : since ≤ (db 0).currentSeq) :
    ∃ pages, fetchPages C limit db ((db 0).currentSeq - since + 1) since 0 = .ok (some pages) ∧
      (∀ p ∈ pages, p.snapshotCursor = (db 0).currentSeq) ∧
      pages.flatMap (·.changes) =
        ((db 0).log.filter fun row => since < row.seq ∧ row.seq ≤ (db 0).currentSeq).map
          (fun row => decodeEnvelope row.envelope row.seq) ∧
      (pages.flatMap (·.changes)).map (·.seq) =
        List.range' (since + 1) ((db 0).currentSeq - since) ∧
      ∃ p, pages.getLast? = some p ∧ p.nextCursor = (db 0).currentSeq ∧ p.hasMore = false := by
  rw [currentSeq_eq (hnum 0).seq] at hsince ⊢
  obtain ⟨pages, hrun, hall, hflat, hend⟩ := fetchPages_spec (C := C) limit db since 0 _ hnum
    hgrow (if_pos rfl).symm (Nat.zero_le _) hsince (Nat.lt_succ_self _)
  refine ⟨pages, hrun, hall, ?_, ?_, hend⟩
  · rw [hflat, served_eq_filter (hnum 0)]
  · rw [hflat, served_seq (hnum 0) hsince le_rfl]

/-- A relay with `n` creations in its log. -/
def withCreations (n : ℕ) : Store :=
  { Store.created Sample.genesis [] "h" historyCreated with
    log := (List.range' 1 n).map fun s =>
      entry (Sample.version (Sample.id 0x0a) [10] (Sample.id s) (Sample.id s) 1 none) s }

theorem withCreations_numbered {n : ℕ} (h : n ≤ maxInt64) : (withCreations n).Numbered := by
  refine ⟨?_, by simpa [withCreations] using h⟩
  simp [withCreations, entry, Function.comp_def]

/-- A log of three entries that grows to five while it is read one entry at a time. -/
theorem fetchPages_exact_growing :
    ∃ pages, fetchPages sample 1 (fun i => withCreations (if i = 0 then 3 else 5)) 4 0 0 =
        .ok (some pages) ∧
      pages.length = 3 ∧ (pages.flatMap (·.changes)).map (·.seq) = [1, 2, 3] := by
  have hnum : ∀ i : ℕ, (withCreations (if i = 0 then 3 else 5)).Numbered := fun i => by
    split_ifs <;> exact withCreations_numbered (by decide)
  have hgrow : ∀ i : ℕ, (withCreations (if i = 0 then 3 else 5)).log <+:
      (withCreations (if i + 1 = 0 then 3 else 5)).log := by
    intro i
    rw [if_neg i.succ_ne_zero]
    split_ifs
    · exact List.IsPrefix.map _ ⟨[4, 5], rfl⟩
    · exact List.prefix_refl _
  obtain ⟨pages, hrun, -, -, hseq, -⟩ := fetchPages_exact sample 1 hnum hgrow (Nat.zero_le _)
  have hlen : ((fetchPages sample 1 (fun i => withCreations (if i = 0 then 3 else 5)) 4 0 0).map
      (Option.map List.length)).toOption = some (some 3) := by decide
  refine ⟨pages, hrun, ?_, hseq⟩
  have hrun' : fetchPages sample 1 (fun i => withCreations (if i = 0 then 3 else 5)) 4 0 0 =
    .ok (some pages) := hrun
  rw [hrun'] at hlen
  simpa [Except.map, Except.toOption] using hlen

end Sshstate.Relay.Store
