/-
  Which keys set which fields.

  The check for repeated keys compares keys exactly, and `encoding/json` matches a key
  that is no tag to a tag up to case.  So `vault_id` and `Vault_ID` pass the check and set
  one field one after the other (`set_twice`).

  `PlainKeys` says that no key of an object that is read into a struct has a capital
  letter, `ſ` or the Kelvin sign.  Among such keys equality up to case is equality
  (`field_of_plainKey`), so that what is accepted is unambiguous (`unambiguous_iff`).
-/
import Sshstate.Protocol.Strict
import Sshstate.Proof.Objects

namespace Sshstate

open Json (Value Members Items isSpace)
open Except (bind_eq_ok require_eq_ok)

variable {L : JsonLib}

/-! ## Keys up to case -/

/-- A character that folds to a letter of ASCII and is not its lower case. -/
def isCased (c : Char) : Bool := c.isUpper || c = '\u017f' || c = '\u212a'

/-- A key without such characters. -/
def plainKey (key : String) : Bool := key.toList.all fun c => !isCased c

/-- A tag in ASCII without capitals. -/
def plainTag (tag : String) : Bool := tag.toList.all fun c => c.toNat < 128 && !c.isUpper

/-- In ASCII, a character that is no capital is found again from its capital. -/
theorem toUpper_ascii : ∀ n < 128, (Char.ofNat n).toUpper.toNat < 128 ∧
    ((Char.ofNat n).isUpper = false → (Char.ofNat n).toUpper.toLower = Char.ofNat n) := by
  decide

theorem toLower_toUpper {c : Char} (hlt : c.toNat < 128) (hupper : c.isUpper = false) :
    c.toUpper.toLower = c := by
  have h := (toUpper_ascii c.toNat hlt).2
  rw [Char.ofNat_toNat] at h
  exact h hupper

theorem foldRune_inj {c d : Char} (hc : c.toNat < 128 ∧ c.isUpper = false) (hd : isCased d = false)
    (h : L.foldRune c = L.foldRune d) : c = d := by
  simp only [isCased, Bool.or_eq_false_iff, decide_eq_false_iff_not] at hd
  obtain ⟨⟨hupper, hs⟩, hk⟩ := hd
  rw [JsonLib.foldRune, if_pos hc.1] at h
  by_cases hlt : d.toNat < 128
  · rw [JsonLib.foldRune, if_pos hlt] at h
    rw [← toLower_toUpper hc.1 hc.2, h, toLower_toUpper hlt hupper]
  · -- a rune outside of ASCII stays outside
    rw [JsonLib.foldRune, if_neg hlt, if_neg hs, if_neg hk] at h
    have hother := L.foldOther_le d (by omega)
    have hascii := (toUpper_ascii c.toNat hc.1).1
    rw [Char.ofNat_toNat, h] at hascii
    omega

theorem foldName_inj {tag key : String} (ht : plainTag tag = true) (hk : plainKey key = true)
    (h : L.foldName tag = L.foldName key) : tag = key := by
  have hmap : ∀ {l l' : List Char}, (∀ c ∈ l, c.toNat < 128 ∧ c.isUpper = false) →
      (∀ d ∈ l', isCased d = false) → l.map L.foldRune = l'.map L.foldRune → l = l' := by
    intro l
    induction l with
    | nil => intro l' _ _ heq; exact (List.map_eq_nil_iff.1 heq.symm).symm
    | cons c l ih =>
      intro l' hl hl' heq
      cases l' with
      | nil => cases heq
      | cons d l' =>
        rw [List.map_cons, List.map_cons, List.cons.injEq] at heq
        rw [foldRune_inj (hl c (by simp)) (hl' d (by simp)) heq.1,
          ih (fun c hc => hl c (by simp [hc])) (fun d hd => hl' d (by simp [hd])) heq.2]
  simp only [plainTag, List.all_eq_true, Bool.and_eq_true, decide_eq_true_eq,
    Bool.not_eq_true'] at ht
  simp only [plainKey, List.all_eq_true, Bool.not_eq_true'] at hk
  have hlist := hmap ht hk (String.ofList_injective h)
  exact String.toList_injective hlist

/-! ## Tags -/

mutual

/-- Every tag is plain. -/
def GoType.plain : GoType → Bool
  | .pointer t => t.plain
  | .slice t => t.plain
  | .struct _ fields => fields.plain
  | _ => true

def GoFields.plain : GoFields → Bool
  | .nil => true
  | .cons tag t rest => plainTag tag && t.plain && rest.plain

end

theorem plain_protocolStructs : ∀ t ∈ GoType.protocolStructs, t.plain = true := by
  decide

theorem GoType.plain_indirect : ∀ {t : GoType}, t.plain = true → t.indirect.plain = true
  | .pointer t, h => by
    rw [GoType.indirect]; exact plain_indirect (by rwa [GoType.plain] at h)
  | .string, h => h
  | .bool, h => h
  | .int, h => h
  | .counter, h => h
  | .bytes, h => h
  | .map, h => h
  | .slice _, h => h
  | .struct _ _, h => h

theorem GoFields.find?_some {p : String → Bool} {tag : String} {t : GoType} :
    ∀ {fields : GoFields}, fields.plain = true → fields.find? p = some (tag, t) →
      p tag = true ∧ plainTag tag = true ∧ t.plain = true
  | .nil, _, h => by cases h
  | .cons tag' t' rest, hplain, h => by
    simp only [GoFields.plain, Bool.and_eq_true] at hplain
    unfold GoFields.find? at h
    split at h
    · cases h; exact ⟨‹_›, hplain.1⟩
    · exact find?_some hplain.2 h

/-- The field of a key, and its tag up to case. -/
theorem GoFields.field_some {fields : GoFields} (hplain : fields.plain = true) {key tag : String}
    {t : GoType} (h : fields.field L key = some (tag, t)) :
    L.foldName tag = L.foldName key ∧ plainTag tag = true ∧ t.plain = true := by
  rcases Option.or_eq_some_iff.1 h with h | ⟨-, h⟩
  · obtain ⟨heq, hrest⟩ := find?_some hplain h
    rw [of_decide_eq_true heq]
    exact ⟨rfl, of_decide_eq_true heq ▸ hrest⟩
  · obtain ⟨heq, hrest⟩ := find?_some hplain h
    exact ⟨of_decide_eq_true heq, hrest⟩

/-- A plain key is the tag of the field it sets. -/
theorem GoFields.field_of_plainKey {fields : GoFields} (hplain : fields.plain = true)
    {key tag : String} {t : GoType} (hkey : plainKey key = true)
    (h : fields.field L key = some (tag, t)) : tag = key :=
  have hf := field_some hplain h
  foldName_inj hf.2.1 hkey hf.1

theorem plainKey_of_plainTag {tag : String} (h : plainTag tag = true) : plainKey tag = true := by
  simp only [plainTag, plainKey, List.all_eq_true, Bool.and_eq_true, decide_eq_true_eq,
    Bool.not_eq_true'] at h ⊢
  intro c hc
  obtain ⟨hlt, hupper⟩ := h c hc
  have hs : c ≠ '\u017f' := by rintro rfl; exact absurd hlt (by decide)
  have hk : c ≠ '\u212a' := by rintro rfl; exact absurd hlt (by decide)
  simp [isCased, hupper, hs, hk]

/-! ## The input -/

mutual

/-- The keys of the objects that are read into structs are plain. -/
def GoType.PlainKeys (L : JsonLib) (t : GoType) : Value → Prop
  | .obj members =>
    match t.indirect with
    | .struct _ fields => plainKeysOf L fields members
    | _ => True
  | .arr items =>
    match t.indirect with
    | .slice elem => plainKeysIn L elem items
    | _ => True
  | _ => True

def plainKeysIn (L : JsonLib) (elem : GoType) : Items → Prop
  | .nil => True
  | .cons v rest => elem.PlainKeys L v ∧ plainKeysIn L elem rest

def plainKeysOf (L : JsonLib) (fields : GoFields) : Members → Prop
  | .nil => True
  | .cons key v rest => plainKey key = true ∧
      (∀ p ∈ fields.field L key, p.2.PlainKeys L v) ∧ plainKeysOf L fields rest

end

mutual

/-- What `checkValue` checks. -/
theorem distinct_of_checkValue : ∀ {v : Value} {path : List Char},
    checkValue path v = .ok () → v.Distinct
  | .obj members, path, h => by
    obtain ⟨hnodup, -, hrest⟩ := distinct_of_checkObject (by rwa [checkValue] at h)
    exact ⟨hnodup, hrest⟩
  | .arr items, path, h => distinct_of_checkArray (by rwa [checkValue] at h)
  | .null, _, _ => trivial
  | .bool _, _, _ => trivial
  | .num _, _, _ => trivial
  | .str _, _, _ => trivial

theorem distinct_of_checkArray : ∀ {items : Items} {path : List Char},
    checkArray path items = .ok () → items.Distinct
  | .nil, _, _ => trivial
  | .cons v rest, path, h => by
    rw [checkArray, bind_eq_ok] at h
    obtain ⟨⟨⟩, hv, hrest⟩ := h
    exact ⟨distinct_of_checkValue hv, distinct_of_checkArray hrest⟩

theorem distinct_of_checkObject : ∀ {members : Members} {path : List Char} {seen : List String},
    checkObject path seen members = .ok () →
      members.names.Nodup ∧ (∀ name ∈ members.names, name ∉ seen) ∧ members.Distinct
  | .nil, _, _, _ => ⟨List.nodup_nil, fun _ h => absurd h List.not_mem_nil, trivial⟩
  | .cons key v rest, path, seen, h => by
    simp only [checkObject, bind_eq_ok, require_eq_ok, exists_const] at h
    obtain ⟨hseen, ⟨⟩, hv, hrest⟩ := h
    obtain ⟨hnodup, hnew, hdist⟩ := distinct_of_checkObject hrest
    refine ⟨List.nodup_cons.2 ⟨fun hmem => hnew key hmem List.mem_cons_self, hnodup⟩,
      fun name hname => ?_, distinct_of_checkValue hv, hdist⟩
    rcases List.mem_cons.1 hname with rfl | hname
    · exact hseen
    · exact fun hmem => hnew name hname (List.mem_cons_of_mem _ hmem)

end

/-! ## Assignments below a place -/

/-- Every key is the tag it sets, no field is set twice, and the first step from `place`
    to a field is one of `steps`. -/
structure Clear (place : List Step) (steps : Step → Prop) (log : List Assignment) : Prop where
  spelled : ∀ a ∈ log, a.key = a.tag
  once : (log.map (·.place)).Nodup
  within : ∀ a ∈ log, ∃ step more, steps step ∧ a.place = place ++ step :: more

theorem Clear.nil (place : List Step) (steps : Step → Prop) : Clear place steps [] :=
  ⟨fun _ h => absurd h List.not_mem_nil, List.nodup_nil, fun _ h => absurd h List.not_mem_nil⟩

theorem Clear.mono {place : List Step} {P Q : Step → Prop} {log : List Assignment}
    (h : Clear place P log) (hPQ : ∀ s, P s → Q s) : Clear place Q log :=
  ⟨h.spelled, h.once, fun a ha =>
    let ⟨step, more, hs, heq⟩ := h.within a ha
    ⟨step, more, hPQ step hs, heq⟩⟩

/-- What is set below different steps is different. -/
theorem Clear.append {place : List Step} {P Q : Step → Prop} {log log' : List Assignment}
    (h : Clear place P log) (h' : Clear place Q log') (hPQ : ∀ s, P s → ¬ Q s) :
    Clear place (fun s => P s ∨ Q s) (log ++ log') := by
  refine ⟨fun a ha => ?_, ?_, fun a ha => ?_⟩
  · exact (List.mem_append.1 ha).elim (h.spelled a) (h'.spelled a)
  · rw [List.map_append]
    refine h.once.append h'.once fun p hp hp' => ?_
    obtain ⟨a, ha, rfl⟩ := List.mem_map.1 hp
    obtain ⟨b, hb, heq⟩ := List.mem_map.1 hp'
    obtain ⟨s, m, hs, hsm⟩ := h.within a ha
    obtain ⟨s', m', hs', hsm'⟩ := h'.within b hb
    rw [hsm, hsm', List.append_cancel_left_eq, List.cons.injEq] at heq
    exact hPQ s hs (heq.1 ▸ hs')
  · rcases List.mem_append.1 ha with ha | ha
    · obtain ⟨s, m, hs, heq⟩ := h.within a ha
      exact ⟨s, m, .inl hs, heq⟩
    · obtain ⟨s, m, hs, heq⟩ := h'.within a ha
      exact ⟨s, m, .inr hs, heq⟩

theorem Clear.below {place : List Step} {s : Step} {P : Step → Prop} {log : List Assignment}
    (h : Clear (place ++ [s]) P log) : Clear place (· = s) log :=
  ⟨h.spelled, h.once, fun a ha =>
    let ⟨step, more, _, heq⟩ := h.within a ha
    ⟨s, step :: more, rfl, by rw [heq, List.append_assoc, List.singleton_append]⟩⟩

/-- A field, and what is set inside of it. -/
theorem Clear.cons {place : List Step} {tag : String} {P : Step → Prop} {log : List Assignment}
    (h : Clear (place ++ [.field tag]) P log) :
    Clear place (· = .field tag) (⟨place, tag, tag⟩ :: log) := by
  refine ⟨List.forall_mem_cons.2 ⟨rfl, h.spelled⟩, ?_, List.forall_mem_cons.2
    ⟨⟨_, [], rfl, rfl⟩, h.below.within⟩⟩
  rw [List.map_cons, List.nodup_cons]
  refine ⟨fun hmem => ?_, h.once⟩
  obtain ⟨a, ha, heq⟩ := List.mem_map.1 hmem
  obtain ⟨step, more, -, hplace⟩ := h.within a ha
  rw [hplace, Assignment.place] at heq
  have hlen := congrArg List.length heq
  simp at hlen

/-! ## Plain keys -/

theorem eq_nil_of_decodeScalar {t : GoType} {v : Value} {log : List Assignment}
    (h : t.decodeScalar L v = .ok log) : log = [] := by
  unfold GoType.decodeScalar at h
  split at h
  · exact (Except.ok.inj h).symm
  · obtain ⟨_, -, h⟩ := bind_eq_ok.1 h
    exact (Except.ok.inj h).symm

mutual

/-- Plain keys set different fields, each by its tag. -/
theorem clear_of_decode : ∀ {v : Value} {t : GoType} {place : List Step} {log : List Assignment},
    t.plain = true → v.Distinct → t.PlainKeys L v → t.decode L place v = .ok log →
    Clear place (fun _ => True) log
  | .obj members, t, place, log, ht, hd, hk, h => by
    have hplain := GoType.plain_indirect ht
    cases hi : t.indirect with
    | struct name fields =>
      simp only [GoType.decode, hi] at h
      simp only [GoType.PlainKeys, hi] at hk
      rw [hi, GoType.plain] at hplain
      exact (clear_of_decodeMembers hplain hd.1 hd.2 hk h).mono fun _ _ => trivial
    | _ =>
      simp only [GoType.decode, hi] at h
      rw [eq_nil_of_decodeScalar h]; exact .nil _ _
  | .arr items, t, place, log, ht, hd, hk, h => by
    have hplain := GoType.plain_indirect ht
    cases hi : t.indirect with
    | slice elem =>
      simp only [GoType.decode, hi] at h
      simp only [GoType.PlainKeys, hi] at hk
      rw [hi, GoType.plain] at hplain
      exact (clear_of_decodeItems hplain hd hk h).mono fun _ _ => trivial
    | _ =>
      simp only [GoType.decode, hi] at h
      rw [eq_nil_of_decodeScalar h]; exact .nil _ _
  | .null, t, place, log, _, _, _, h => by
    unfold GoType.decode at h; rw [eq_nil_of_decodeScalar h]; exact .nil _ _
  | .bool _, t, place, log, _, _, _, h => by
    unfold GoType.decode at h; rw [eq_nil_of_decodeScalar h]; exact .nil _ _
  | .num _, t, place, log, _, _, _, h => by
    unfold GoType.decode at h; rw [eq_nil_of_decodeScalar h]; exact .nil _ _
  | .str _, t, place, log, _, _, _, h => by
    unfold GoType.decode at h; rw [eq_nil_of_decodeScalar h]; exact .nil _ _

theorem clear_of_decodeItems : ∀ {items : Items} {elem : GoType} {place : List Step} {i : ℕ}
    {log : List Assignment}, elem.plain = true → items.Distinct → plainKeysIn L elem items →
    decodeItems L elem place i items = .ok log → Clear place (fun s => ∃ j, i ≤ j ∧ s = .item j) log
  | .nil, _, _, _, _, _, _, _, h => by cases h; exact .nil _ _
  | .cons v rest, elem, place, i, log, ht, hd, hk, h => by
    simp only [decodeItems, bind_eq_ok, Except.pure_eq_ok, Except.ok.injEq] at h
    obtain ⟨here, hhere, more, hmore, rfl⟩ := h
    have hv := (clear_of_decode ht hd.1 hk.1 hhere).below
    have hrest := clear_of_decodeItems ht hd.2 hk.2 hmore
    refine (hv.append hrest ?_).mono ?_
    · rintro s rfl ⟨j, hj, heq⟩
      cases heq
      omega
    · rintro s (rfl | ⟨j, hj, rfl⟩)
      · exact ⟨i, le_rfl, rfl⟩
      · exact ⟨j, by omega, rfl⟩

theorem clear_of_decodeMembers : ∀ {members : Members} {fields : GoFields} {place : List Step}
    {log : List Assignment}, fields.plain = true → members.names.Nodup → members.Distinct →
    plainKeysOf L fields members → decodeMembers L fields place members = .ok log →
    Clear place (fun s => ∃ key ∈ members.names, s = .field key) log
  | .nil, _, _, _, _, _, _, _, h => by cases h; exact .nil _ _
  | .cons key v rest, fields, place, log, ht, hnodup, hd, hk, h => by
    obtain ⟨hkey, hkeys, hkrest⟩ := hk
    rw [Members.names, List.nodup_cons] at hnodup
    unfold decodeMembers at h
    split at h
    · cases h
    rename_i tag t hfield
    simp only [bind_eq_ok, Except.pure_eq_ok, Except.ok.injEq] at h
    obtain ⟨here, hhere, more, hmore, rfl⟩ := h
    obtain rfl := GoFields.field_of_plainKey ht hkey hfield
    have hplain := (GoFields.field_some ht hfield).2.2
    have hv := (clear_of_decode hplain hd.1 (hkeys _ hfield) hhere).cons
    have hrest := clear_of_decodeMembers ht hnodup.2 hd.2 hkrest hmore
    rw [← List.cons_append]
    refine (hv.append hrest ?_).mono ?_
    · rintro s rfl ⟨key', hmem, heq⟩
      cases heq
      exact hnodup.1 hmem
    · rintro s (rfl | ⟨key', hmem, rfl⟩)
      · exact ⟨tag, List.mem_cons_self, rfl⟩
      · exact ⟨key', List.mem_cons_of_mem _ hmem, rfl⟩

end

mutual

/-- A key that is spelled as its tag is plain. -/
theorem plainKeys_of_decode : ∀ {v : Value} {t : GoType} {place : List Step}
    {log : List Assignment}, t.plain = true → t.decode L place v = .ok log →
    (∀ a ∈ log, a.key = a.tag) → t.PlainKeys L v
  | .obj members, t, place, log, ht, h, hs => by
    have hplain := GoType.plain_indirect ht
    cases hi : t.indirect with
    | struct name fields =>
      simp only [GoType.decode, hi] at h
      rw [hi, GoType.plain] at hplain
      simp only [GoType.PlainKeys, hi]
      exact plainKeys_of_decodeMembers hplain h hs
    | _ => simp only [GoType.PlainKeys, hi]
  | .arr items, t, place, log, ht, h, hs => by
    have hplain := GoType.plain_indirect ht
    cases hi : t.indirect with
    | slice elem =>
      simp only [GoType.decode, hi] at h
      rw [hi, GoType.plain] at hplain
      simp only [GoType.PlainKeys, hi]
      exact plainKeys_of_decodeItems hplain h hs
    | _ => simp only [GoType.PlainKeys, hi]
  | .null, _, _, _, _, _, _ => trivial
  | .bool _, _, _, _, _, _, _ => trivial
  | .num _, _, _, _, _, _, _ => trivial
  | .str _, _, _, _, _, _, _ => trivial

theorem plainKeys_of_decodeItems : ∀ {items : Items} {elem : GoType} {place : List Step} {i : ℕ}
    {log : List Assignment}, elem.plain = true → decodeItems L elem place i items = .ok log →
    (∀ a ∈ log, a.key = a.tag) → plainKeysIn L elem items
  | .nil, _, _, _, _, _, _, _ => trivial
  | .cons v rest, elem, place, i, log, ht, h, hs => by
    simp only [decodeItems, bind_eq_ok, Except.pure_eq_ok, Except.ok.injEq] at h
    obtain ⟨here, hhere, more, hmore, rfl⟩ := h
    rw [List.forall_mem_append] at hs
    exact ⟨plainKeys_of_decode ht hhere hs.1, plainKeys_of_decodeItems ht hmore hs.2⟩

theorem plainKeys_of_decodeMembers : ∀ {members : Members} {fields : GoFields} {place : List Step}
    {log : List Assignment}, fields.plain = true → decodeMembers L fields place members = .ok log →
    (∀ a ∈ log, a.key = a.tag) → plainKeysOf L fields members
  | .nil, _, _, _, _, _, _ => trivial
  | .cons key v rest, fields, place, log, ht, h, hs => by
    unfold decodeMembers at h
    split at h
    · cases h
    rename_i tag t hfield
    simp only [bind_eq_ok, Except.pure_eq_ok, Except.ok.injEq] at h
    obtain ⟨here, hhere, more, hmore, rfl⟩ := h
    rw [List.forall_mem_cons, List.forall_mem_append] at hs
    obtain ⟨hkey, hhere', hmore'⟩ := hs
    obtain ⟨-, htag, hplain⟩ := GoFields.field_some ht hfield
    obtain rfl : key = tag := hkey
    refine ⟨plainKey_of_plainTag htag, fun p hp => ?_, plainKeys_of_decodeMembers ht hmore hmore'⟩
    obtain rfl : (key, t) = p := Option.some.inj (hfield.symm.trans hp)
    exact plainKeys_of_decode hplain hhere hhere'

end

/-! ## Strict decoding -/

/-- The text of an accepted object: its value `v`, what follows it, and the assignments. -/
structure Unambiguous (text : List Char) (v : Value) (rest : List Char) (log : List Assignment) :
    Prop where
  spelled : ∀ a ∈ log, a.key = a.tag
  once : (log.map (·.place)).Nodup
  distinct : v.Distinct
  trailing : rest <:+ text ∧ ∀ c ∈ rest, isSpace c = true

theorem strictUnmarshalType_ok {t : GoType} {data : Bytes} {limit : ℕ} {log : List Assignment}
    (h : strictUnmarshalType L t data limit = .ok log) :
    ∃ v rest, Json.read (L.text data) = some (v, rest) ∧ checkValue [] v = .ok () ∧
      t.decode L [] v = .ok log ∧ rest.all isSpace = true := by
  obtain ⟨-, -, h⟩ := bind_eq_ok.1 h
  split at h
  · cases h
  · rename_i v rest hread
    simp only [bind_eq_ok, require_eq_ok, exists_const, Except.pure_eq_ok, Except.ok.injEq] at h
    obtain ⟨⟨⟩, hcheck, log', hdecode, hrest, rfl⟩ := h
    exact ⟨v, rest, hread, hcheck, hdecode, hrest⟩

/-- **Main result.**  What `StrictUnmarshal` accepts into a struct of the protocol is
    unambiguous exactly if no key of an object that is read into a struct has a capital
    letter, `ſ` or the Kelvin sign. -/
theorem unambiguous_iff {t : GoType} (ht : t ∈ GoType.protocolStructs) {data : Bytes} {limit : ℕ}
    {log : List Assignment} (h : strictUnmarshalType L t data limit = .ok log) :
    ∃ v rest, Json.read (L.text data) = some (v, rest) ∧
      (Unambiguous (L.text data) v rest log ↔ t.PlainKeys L v) := by
  obtain ⟨v, rest, hread, hcheck, hdecode, hrest⟩ := strictUnmarshalType_ok h
  have hplain := plain_protocolStructs t ht
  have hdist := distinct_of_checkValue hcheck
  refine ⟨v, rest, hread, fun hu => plainKeys_of_decode hplain hdecode hu.spelled, fun hk => ?_⟩
  have hclear := clear_of_decode hplain hdist hk hdecode
  exact ⟨hclear.spelled, hclear.once, hdist, (Json.readValue_follows hread).1,
    List.all_eq_true.1 hrest⟩

namespace Strict01

/-- ASCII texts; every other byte is replaced. -/
def lib : JsonLib where
  text data := data.map fun b => if b < 128 then Char.ofNat b.toNat else '\ufffd'
  foldOther c := c
  foldOther_le _ h := h
  syntaxError _ := .new "invalid character"
  typeError _ goType := .errorf "json: cannot unmarshal into Go value of type %s" [goType]
  base64Error _ := .new "illegal base64 data"
  rangeError _ := .new "value out of range"

def ascii (text : String) : Bytes := text.toList.map fun c => c.toNat.toUInt8

/-- `RecoveryChallengeRequest`. -/
def challengeRequest : GoType := .tagged "RecoveryChallengeRequest" [("vault_id", .string)]

theorem mem_challengeRequest : challengeRequest ∈ GoType.protocolStructs := by
  simp [GoType.protocolStructs, GoType.bodies, challengeRequest]

/-- One field, set by two keys. -/
def twoSpellings : Bytes :=
  ascii "\x7b\"vault_id\":\"00000000000000000000000000000001\"," ++
    ascii "\"Vault_ID\":\"00000000000000000000000000000002\"\x7d"

theorem set_twice :
    challengeRequest ∈ GoType.protocolStructs ∧
    strictUnmarshalType lib challengeRequest twoSpellings maxObjectBytes =
      .ok [⟨[], "vault_id", "vault_id"⟩, ⟨[], "vault_id", "Vault_ID"⟩] ∧
    ∀ text v rest, ¬ Unambiguous text v rest
      [⟨[], "vault_id", "vault_id"⟩, ⟨[], "vault_id", "Vault_ID"⟩] :=
  ⟨mem_challengeRequest, by decide +kernel, fun _ _ _ h => absurd h.once (by decide)⟩

/-- The tag, with an escape and white space. -/
def oneSpelling : Bytes :=
  ascii " \x7b\"vault\\u005fid\" : \"00000000000000000000000000000001\"\x7d "

theorem unambiguous_iff_escaped :
    strictUnmarshalType lib challengeRequest oneSpelling maxObjectBytes =
      .ok [⟨[], "vault_id", "vault_id"⟩] ∧
    ∃ v rest, Json.read (lib.text oneSpelling) = some (v, rest) ∧
      (Unambiguous (lib.text oneSpelling) v rest [⟨[], "vault_id", "vault_id"⟩] ↔
        challengeRequest.PlainKeys lib v) :=
  have haccepted : strictUnmarshalType lib challengeRequest oneSpelling maxObjectBytes =
      .ok [⟨[], "vault_id", "vault_id"⟩] := by decide +kernel
  ⟨haccepted, unambiguous_iff mem_challengeRequest haccepted⟩

end Strict01

end Sshstate
