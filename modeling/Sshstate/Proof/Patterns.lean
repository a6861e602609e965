/-
  Host patterns match as declared.

  `globMatch` decides the matching of `Lib.Glob` (`globMatch_iff`).  The loop of
  `Entry.Matches` stops at the first negated pattern that matches, and what it returns
  depends on the set of the patterns alone (`matchLoop_eq_true`).
-/
import Sshstate.Knownhosts.Entry
import Sshstate.Lib.Glob

namespace Sshstate.Knownhosts

open Glob

/-- A `*` is followed by some tail of the subject. -/
theorem globMatch_star {pattern s : Bytes} :
    globMatch (star :: pattern) s = true ↔
      ∃ t, t <:+ s ∧ globMatch (pattern.dropWhile (· = star)) t = true := by
  rw [globMatch.eq_def]
  dsimp only
  rw [if_pos rfl]
  split
  · next h => simp [h, globMatch]
  · next d rest h => simp [h, List.any_eq_true, List.mem_tails]

/-- Every `*` stands for some string, every `?` for one byte and every other byte for
    itself. -/
theorem globMatch_iff (pattern s : Bytes) :
    globMatch pattern s = true ↔ Matches star question pattern s := by
  induction h : pattern.length using Nat.strong_induction_on generalizing pattern s with
  | _ n ih =>
    cases pattern with
    | nil => simp [globMatch, matches_nil]
    | cons c pattern =>
      have hlt : pattern.length < n := by rw [← h]; exact Nat.lt_succ_self _
      by_cases hstar : c = star
      · subst hstar
        have hle := (List.dropWhile_suffix (l := pattern) (· = star)).length_le
        rw [globMatch_star, matches_star_cons]
        simp only [ih _ (hle.trans_lt hlt) _ _ rfl]
      · by_cases hone : c = question
        · subst hone
          rw [matches_one hstar]
          cases s with
          | nil => simp [globMatch, hstar]
          | cons b s => simp [globMatch, hstar, ih _ hlt _ _ rfl]
        · rw [matches_symbol hstar hone]
          cases s with
          | nil => simp [globMatch, hstar, hone]
          | cons b s =>
            by_cases hb : b = c
            · simp [globMatch, hstar, hone, hb, ih _ hlt _ _ rfl]
            · simp [globMatch, hstar, hone, hb]

/-- A pattern, without its negation, matches a destination, letter case ignored. -/
def PatternMatches (lib : Library) (p dest : Bytes) : Prop :=
  Matches star question (Utf8.toLower lib.lower (trimBang p)) (Utf8.toLower lib.lower dest)

theorem matchPattern_iff {lib : Library} {p dest : Bytes} :
    matchPattern lib (trimBang p) dest = true ↔ PatternMatches lib p dest :=
  globMatch_iff _ _

/-- The loop has found a positive pattern, now or before, and passes no negated one. -/
theorem matchLoop_eq_true {lib : Library} {dest : Bytes} {matched : Bool} {ps : List Bytes} :
    matchLoop lib dest matched ps = true ↔
      (matched = true ∨ ∃ p ∈ ps, negated p = false ∧ PatternMatches lib p dest) ∧
      ∀ p ∈ ps, negated p = true → ¬ PatternMatches lib p dest := by
  induction ps generalizing matched with
  | nil => simp [matchLoop]
  | cons p ps ih =>
    rw [matchLoop]
    simp only [List.exists_mem_cons_iff, List.forall_mem_cons]
    by_cases hp : PatternMatches lib p dest
    · rw [if_neg (by simp [matchPattern_iff.2 hp])]
      by_cases hneg : negated p = true
      · simp [hneg, hp]
      · rw [if_neg hneg, ih]
        simp [hneg, hp]
    · have hno : matchPattern lib (trimBang p) dest = false :=
        Bool.eq_false_iff.2 fun h => hp (matchPattern_iff.1 h)
      rw [if_pos hno, ih]
      simp [hp]

/-- **Main result.**  `globMatch` is the declared matching, and an entry that is not hashed
    matches a destination if one of its positive patterns does and none of its negated ones;
    so the order of the patterns and their repetition do not matter. -/
theorem matches_declared :
    (∀ pattern s, globMatch pattern s = true ↔ Matches star question pattern s) ∧
    ∀ (lib : Library) (e : Entry) (dest : Bytes), e.hashed = false →
      (e.matches lib dest = true ↔
        (∃ p ∈ e.patterns, negated p = false ∧ PatternMatches lib p dest) ∧
        ∀ p ∈ e.patterns, negated p = true → ¬ PatternMatches lib p dest) ∧
      ∀ ps : List Bytes, (∀ p, p ∈ ps ↔ p ∈ e.patterns) →
        { e with patterns := ps }.matches lib dest = e.matches lib dest := by
  refine ⟨globMatch_iff, fun lib e dest hashed => ?_⟩
  have hiff (ps : List Bytes) : { e with patterns := ps }.matches lib dest = true ↔
      (∃ p ∈ ps, negated p = false ∧ PatternMatches lib p dest) ∧
      ∀ p ∈ ps, negated p = true → ¬ PatternMatches lib p dest := by
    simp only [Entry.matches, hashed, Bool.false_eq_true, if_false, matchLoop_eq_true, false_or]
  refine ⟨hiff e.patterns, fun ps hps => ?_⟩
  rw [Bool.eq_iff_iff, hiff ps]
  simp only [hps]
  exact (hiff e.patterns).symm

namespace Hosts01

def lib : Library where
  lower := Char.toLower
  decodeBase64 _ := none
  hmacSha1 _ message := message

/-- An entry for `w*` and not for `!x`. -/
def entry : Entry where
  line := []
  lineNo := 1
  marker := []
  patterns := [[119, 42], [33, 120]]
  hashed := false
  keyType := []
  fingerprint := []
  key := []
  digest := []

/-- `Web`. -/
def dest : Bytes := [87, 101, 98]

theorem matches_declared_web : entry.hashed = false ∧ entry.matches lib dest = true := by
  have hlower : Utf8.toLower lib.lower dest = [119, 101, 98] ∧
      Utf8.toLower lib.lower (trimBang [119, 42]) = [119, 42] ∧
      Utf8.toLower lib.lower (trimBang [33, 120]) = [120] := by decide
  refine ⟨rfl, (matches_declared.2 lib entry dest rfl).1.2 ⟨⟨[119, 42], by simp [entry], rfl, ?_⟩, ?_⟩⟩
  · rw [PatternMatches, hlower.1, hlower.2.1]
    exact ⟨[[119], [101, 98]], .cons (by decide) (.cons (by decide) .nil), rfl⟩
  · intro p hp hneg
    simp only [entry, List.mem_cons, List.not_mem_nil, or_false] at hp
    rcases hp with rfl | rfl
    · exact absurd hneg (by decide)
    · rw [PatternMatches, hlower.1, hlower.2.2, ← globMatch_iff]
      simp [globMatch, star, question]

end Hosts01

end Sshstate.Knownhosts
