/-
  Objects are read back from their canonical texts.

  `Codec.Reads c a` says that the sorted JSON of `a` is plain and decodes to `a`, over
  any value.  It holds for the types of the fields one by one, and for a struct when it
  holds for its fields (`Reads.struct`): the members come in the order of their names,
  so the setters have to commute.  With it `StrictUnmarshal` reads a canonical text back
  exactly when it is not longer than the limit (`strictUnmarshalBytes_canonical`).
-/
import Sshstate.Proof.Text
import Sshstate.Protocol.Codec

namespace Sshstate

open Json (Value Members Items PlainText byteLength)

/-! ## Texts in UTF-8 -/

theorem length_utf8 (text : List Char) : (utf8 text).length = byteLength text := by
  induction text with
  | nil => rfl
  | cons c text ih =>
    rw [utf8, List.flatMap_cons, List.length_append, String.length_utf8EncodeChar]
    exact congrArg (c.utf8Size + ·) ih

/-- The bytes of a character that is not below the space are not below it. -/
theorem le_of_mem_utf8EncodeChar {c : Char} (h : 32 ≤ c.toNat) {b : UInt8}
    (hb : b ∈ String.utf8EncodeChar c) : 32 ≤ b.toNat := by
  have hv : 32 ≤ c.val.toNat := h
  simp only [String.utf8EncodeChar] at hb
  split_ifs at hb <;>
  simp only [List.mem_cons, List.not_mem_nil, or_false] at hb <;>
  rcases hb with rfl | rfl | rfl | rfl <;>
  simp only [UInt8.toNat_ofNat'] <;> omega

theorem le_of_mem_utf8 {text : List Char} (h : ∀ c ∈ text, 32 ≤ c.toNat) {b : UInt8}
    (hb : b ∈ utf8 text) : 32 ≤ b.toNat := by
  obtain ⟨c, hc, hbc⟩ := List.mem_flatMap.1 hb
  exact le_of_mem_utf8EncodeChar (h c hc) hbc

end Sshstate

namespace Json

theorem le_of_mem_quote {text : List Char} (h : PlainText text) {c : Char} (hc : c ∈ quote text) :
    32 ≤ c.toNat := by
  simp only [quote, List.mem_cons, List.mem_append, List.not_mem_nil, or_false] at hc
  rcases hc with rfl | hc | rfl
  · decide
  · exact (h c hc).2.2
  · decide

theorem le_of_isDigit {c : Char} (h : c.isDigit = true) : 32 ≤ c.toNat := by
  simp only [Char.isDigit, Bool.and_eq_true, decide_eq_true_eq] at h
  have hle : '0'.toNat ≤ c.toNat := h.1
  exact le_trans (by decide) hle

theorem le_of_all {text : List Char} (h : text.all (fun c => 32 ≤ c.toNat) = true) :
    ∀ c ∈ text, 32 ≤ c.toNat :=
  fun c hc => of_decide_eq_true (List.all_eq_true.1 h c hc)

mutual

/-- A plain value is written with characters that are not below the space. -/
theorem le_of_mem_render : ∀ (v : Value), v.Plain → ∀ c ∈ v.render, 32 ≤ c.toNat
  | .null, _ => le_of_all (by decide)
  | .bool true, _ => le_of_all (by decide)
  | .bool false, _ => le_of_all (by decide)
  | .num digits, h => fun c hc => le_of_isDigit (h.2.1 c hc)
  | .str text, h => fun c hc => le_of_mem_quote h hc
  | .arr .nil, _ => le_of_all (by decide)
  | .arr (.cons v rest), h => fun c hc => by
    have hv := le_of_mem_render v h.1
    have hrest := le_of_mem_renderItems rest h.2
    simp only [Value.render, Items.render, List.mem_cons, List.mem_append, List.not_mem_nil,
      or_false] at hc
    rcases hc with rfl | (hc | hc) | rfl
    · decide
    · exact hv c hc
    · exact hrest c hc
    · decide
  | .obj .nil, _ => le_of_all (by decide)
  | .obj (.cons name v rest), h => fun c hc => by
    have hv := le_of_mem_render v h.2.1
    have hrest := le_of_mem_renderRest rest h.2.2.2
    simp only [Value.render, Members.render, List.mem_cons, List.mem_append, List.not_mem_nil,
      or_false] at hc
    rcases hc with rfl | (hc | rfl | hc | hc) | rfl
    · decide
    · exact le_of_mem_quote h.1 hc
    · decide
    · exact hv c hc
    · exact hrest c hc
    · decide

theorem le_of_mem_renderItems : ∀ (items : Items), items.Plain → ∀ c ∈ items.renderRest, 32 ≤ c.toNat
  | .nil, _ => fun _ hc => absurd hc List.not_mem_nil
  | .cons v rest, h => fun c hc => by
    have hv := le_of_mem_render v h.1
    have hrest := le_of_mem_renderItems rest h.2
    simp only [Items.renderRest, List.mem_cons, List.mem_append] at hc
    rcases hc with rfl | hc | hc
    · decide
    · exact hv c hc
    · exact hrest c hc

theorem le_of_mem_renderRest : ∀ (members : Members), members.Plain →
    ∀ c ∈ members.renderRest, 32 ≤ c.toNat
  | .nil, _ => fun _ hc => absurd hc List.not_mem_nil
  | .cons name v rest, h => fun c hc => by
    have hv := le_of_mem_render v h.2.1
    have hrest := le_of_mem_renderRest rest h.2.2.2
    simp only [Members.renderRest, List.mem_cons, List.mem_append] at hc
    rcases hc with rfl | hc | rfl | hc | hc
    · decide
    · exact le_of_mem_quote h.1 hc
    · decide
    · exact hv c hc
    · exact hrest c hc

end

/-- The length of an array: a comma or a bracket for each value. -/
theorem byteLength_render_arr {l : List Value} (h : l ≠ []) :
    byteLength (Value.arr (.ofList l)).render = 1 + (l.map fun v => byteLength v.render + 1).sum := by
  have hsize : Char.utf8Size ',' = 1 ∧ Char.utf8Size '[' = 1 ∧ Char.utf8Size ']' = 1 := by decide
  have hrest : ∀ l : List Value, byteLength (Items.ofList l).renderRest =
      (l.map fun v => byteLength v.render + 1).sum := by
    intro l
    induction l with
    | nil => rfl
    | cons v l ih =>
      simp only [Items.ofList, Items.renderRest, byteLength_cons, byteLength_append, ih, hsize,
        List.map_cons, List.sum_cons]
      omega
  obtain ⟨v, l, rfl⟩ := List.exists_cons_of_ne_nil h
  simp only [Value.render, Items.ofList, Items.render, byteLength_cons, byteLength_append,
    byteLength_nil, hrest, hsize, List.map_cons, List.sum_cons]
  omega

/-! ## Sorted members -/

section
variable {ι : Type*} (name : ι → String) (v : ι → Value)

theorem insert_ofList (i : ι) : ∀ l : List ι, ∃ l' : List ι, l'.Perm (i :: l) ∧
    (Members.ofList (l.map fun i => (name i, v i))).insert (name i) (v i) =
      .ofList (l'.map fun i => (name i, v i))
  | [] => ⟨[i], .refl _, rfl⟩
  | j :: l => by
    obtain ⟨l', hperm, hl'⟩ := insert_ofList i l
    rw [List.map_cons, Members.ofList, Members.insert]
    split_ifs
    · exact ⟨i :: j :: l, .refl _, rfl⟩
    · exact ⟨j :: l', (hperm.cons _).trans (.swap _ _ _), by rw [hl', List.map_cons, Members.ofList]⟩

/-- Sorting permutes the members and sorts their values. -/
theorem sorted_ofList : ∀ l : List ι, ∃ l' : List ι, l'.Perm l ∧
    (Members.ofList (l.map fun i => (name i, v i))).sorted =
      .ofList (l'.map fun i => (name i, (v i).sorted))
  | [] => ⟨[], .refl _, rfl⟩
  | i :: l => by
    obtain ⟨l', hperm, hl'⟩ := sorted_ofList l
    obtain ⟨l'', hperm', hl''⟩ := insert_ofList name (fun i => (v i).sorted) i l'
    rw [List.map_cons, Members.ofList, Members.sorted, hl', hl'']
    exact ⟨l'', hperm'.trans (hperm.cons _), rfl⟩

end

theorem sorted_ofItems : ∀ l : List Value, (Items.ofList l).sorted = .ofList (l.map Value.sorted)
  | [] => rfl
  | v :: l => by rw [Items.ofList, Items.sorted, sorted_ofItems l, List.map_cons, Items.ofList]

theorem plain_ofItems : ∀ {l : List Value}, (∀ v ∈ l, v.Plain) → (Items.ofList l).Plain
  | [], _ => trivial
  | v :: _, h => ⟨h v List.mem_cons_self,
      plain_ofItems fun v hv => h v (List.mem_cons_of_mem _ hv)⟩

end Json

namespace Sshstate

open Json (Value Members Items PlainText byteLength)

variable {D : Decoder} {α : Type}

namespace Codec

/-- The canonical JSON of `a` is plain, and is decoded to `a`. -/
structure Reads (c : Codec α) (a : α) : Prop where
  plain : (c.write a).sorted.Plain
  read : ∀ old, c.read old (c.write a).sorted = .ok a

/-! ## Types -/

theorem Reads.string {s : String} (h : PlainText s.toList) : (string D).Reads s :=
  ⟨h, fun old => by simp [Codec.string, Value.sorted, unmarshalString]⟩

theorem Reads.id {s : ID} (h : ID.valid s = true) : (id D).Reads s :=
  ⟨plainText_id h, fun _ => rfl⟩

theorem Reads.bool (b : Bool) : (bool D).Reads b := ⟨trivial, fun _ => rfl⟩

/-- The format version of every object. -/
theorem Reads.one : (int D).Reads 1 := by
  have hwrite : ((int D).write 1).sorted = .num ['1'] := by
    have htext : (toString (1 : ℤ)).toList = ['1'] := by decide
    exact congrArg (fun digits => (Value.num digits).sorted) htext
  have hread : ∀ old, unmarshalInt D old (.num ['1']) = .ok 1 := by
    intro old
    have hone : intOf? ['1'] = some 1 := by simp [intOf?, Nat.ofDigitChars]
    have hfits : (-2 ^ 63 : ℤ) ≤ 1 ∧ (1 : ℤ) < 2 ^ 63 := by omega
    rw [unmarshalInt, hone, Option.filter_some, if_pos (decide_eq_true hfits)]
  refine ⟨?_, fun old => ?_⟩
  · rw [hwrite]
    simp [Value.Plain]
  · rw [hwrite, show (int D).read = unmarshalInt D from rfl, hread]

theorem Reads.counter {n : ℕ} (h : n < 2 ^ 64) : (counter D).Reads n :=
  ⟨plainText_digits n, fun _ => unmarshalCounter_marshalCounter h⟩

theorem sorted_marshalBytes (b : Option Bytes) : (marshalBytes b).sorted = marshalBytes b := by
  cases b <;> rfl

theorem Reads.nullable (b : Option Bytes) : (nullable D).Reads b := by
  refine ⟨?_, fun _ => ?_⟩
  · exact (sorted_marshalBytes b).symm ▸ plain_marshalBytes b
  · exact (congrArg (unmarshalBytes D) (sorted_marshalBytes b)).trans
      (unmarshalBytes_marshalBytes b)

theorem Reads.bytes (b : Bytes) : (bytes D).Reads b := by
  obtain ⟨hplain, hread⟩ := Reads.nullable (D := D) (some b)
  refine ⟨hplain, fun _ => ?_⟩
  have hread : unmarshalBytes D (marshalBytes (some b)).sorted = .ok (some b) := hread none
  simp [Codec.bytes, hread]

theorem Reads.enum {text : α → String} {ofText : String → α} {a : α}
    (hplain : PlainText (text a).toList) (h : ofText (text a) = a) :
    (enum D text ofText).Reads a :=
  ⟨hplain, fun old => by simp [Codec.enum, Value.sorted, unmarshalString, h]⟩

theorem readItems_map {c : Codec α} (zero : α) : ∀ {l : List α}, (∀ a ∈ l, c.Reads a) →
    readItems c zero (.ofList (l.map fun a => (c.write a).sorted)) = .ok l
  | [], _ => rfl
  | a :: l, h => by
    have hl := readItems_map zero fun a ha => h a (List.mem_cons_of_mem _ ha)
    simp [Items.ofList, readItems, (h a List.mem_cons_self).read, hl]

theorem Reads.slice {c : Codec α} {zero : α} {goType : String} {l : List α} (h : ∀ a ∈ l, c.Reads a) :
    (slice D c zero goType).Reads l := by
  cases l with
  | nil => exact ⟨trivial, fun _ => rfl⟩
  | cons a l =>
    have hsorted : ((Codec.slice D c zero goType).write (a :: l)).sorted =
        .arr (.ofList ((a :: l).map fun a => (c.write a).sorted)) := by
      simp only [Codec.slice, Value.sorted, Json.sorted_ofItems, List.map_map]
      rfl
    refine ⟨?_, fun old => ?_⟩
    · rw [hsorted]
      refine Json.plain_ofItems fun v hv => ?_
      obtain ⟨x, hx, rfl⟩ := List.mem_map.1 hv
      exact (h x hx).plain
    · rw [hsorted]
      exact readItems_map zero h

/-! ## Structs -/

/-- The struct `a` with the field `f` of `x`. -/
def copy (x a : α) (f : Field α) : α := f.set a (f.get x)

theorem fieldFor_mem {fields : List (Field α)} (hnames : (fields.map (·.name)).Nodup) {f : Field α}
    (hf : f ∈ fields) : fieldFor D (fields.map setter) f.name = some (setter f) := by
  have hfind : (fields.map setter).find? (fun s => s.1 = f.name) = some (setter f) := by
    obtain ⟨pre, post, rfl⟩ := List.append_of_mem hf
    rw [List.map_append, List.map_cons, List.nodup_append] at hnames
    refine List.find?_eq_some_iff_append.2
      ⟨decide_eq_true rfl, pre.map setter, post.map setter, by simp, fun s hs => ?_⟩
    obtain ⟨p, hp, rfl⟩ := List.mem_map.1 hs
    have hne : p.name ≠ f.name :=
      hnames.2.2 p.name (List.mem_map_of_mem hp) f.name List.mem_cons_self
    exact congrArg Bool.not (decide_eq_false hne)
  rw [fieldFor, hfind, Option.some_or]

/-- The members of the fields `l`, in any order, set those fields. -/
theorem unmarshalMembers_fields {fields l : List (Field α)} (hnames : (fields.map (·.name)).Nodup)
    (hl : ∀ f ∈ l, f ∈ fields) (x : α) (hread : ∀ f ∈ l, f.codec.Reads (f.get x)) (a : α) :
    unmarshalMembers D (fields.map setter)
      (.ofList (l.map fun f => (f.name, (f.codec.write (f.get x)).sorted))) a =
    .ok (l.foldl (copy x) a) := by
  induction l generalizing a with
  | nil => rfl
  | cons f l ih =>
    have ih := ih (fun f hf => hl f (List.mem_cons_of_mem _ hf))
      fun f hf => hread f (List.mem_cons_of_mem _ hf)
    have hset : (setter f).2 (f.codec.write (f.get x)).sorted a = .ok (copy x a f) := by
      simp [setter, (hread f List.mem_cons_self).read, copy]
    have hfor := fieldFor_mem (D := D) hnames (hl f List.mem_cons_self)
    rw [List.map_cons, Members.ofList, unmarshalMembers, hfor]
    simp only [hset, ih, Except.bind_ok', List.foldl_cons]

/-- The fields of a struct: different names, setters that commute, and together they are the
    struct. -/
structure Fields (fields : List (Field α)) : Prop where
  names : (fields.map (·.name)).Nodup
  plain : ∀ name ∈ fields.map (·.name), PlainText name.toList
  commute : ∀ x, fields.Pairwise fun f g => ∀ a, copy x (copy x a f) g = copy x (copy x a g) f
  rebuild : ∀ x a, fields.foldl (copy x) a = x

/-- `P` for every element. -/
def Each {β : Type 1} (P : β → Prop) : List β → Prop
  | [] => True
  | b :: l => P b ∧ Each P l

/-- `R` for every element and each one after it. -/
def EachPair {β : Type 1} (R : β → β → Prop) : List β → Prop
  | [] => True
  | b :: l => Each (R b) l ∧ EachPair R l

theorem Each.forall_mem {β : Type 1} {P : β → Prop} : ∀ {l : List β}, Each P l → ∀ b ∈ l, P b
  | [], _, _, hb => absurd hb List.not_mem_nil
  | c :: l, h, b, hb => by
    rcases List.mem_cons.1 hb with rfl | hb
    · exact h.1
    · exact forall_mem h.2 b hb

theorem EachPair.pairwise {β : Type 1} {R : β → β → Prop} : ∀ {l : List β}, EachPair R l →
    l.Pairwise R
  | [], _ => .nil
  | _ :: _, h => .cons h.1.forall_mem (pairwise h.2)

/-- The sorted members of some of the fields set those fields. -/
theorem unmarshalStruct_sorted (goType : String) {fields l : List (Field α)} (hfields : Fields fields)
    (hl : l.Sublist fields) (x : α) (h : ∀ f ∈ l, f.codec.Reads (f.get x)) :
    (Value.obj (.ofList (l.map fun f => (f.name, f.codec.write (f.get x))))).sorted.Plain ∧
    ∀ old, unmarshalStruct D goType (fields.map setter) old
      (Value.obj (.ofList (l.map fun f => (f.name, f.codec.write (f.get x))))).sorted =
      .ok (l.foldl (copy x) old) := by
  obtain ⟨order, hperm, hsorted⟩ := Json.sorted_ofList (fun f : Field α => f.name)
    (fun f : Field α => f.codec.write (f.get x)) l
  have hread : ∀ f ∈ order, f.codec.Reads (f.get x) := fun f hf => h f (hperm.subset hf)
  have hmem : ∀ f ∈ order, f ∈ fields := fun f hf => hl.subset (hperm.subset hf)
  rw [Value.sorted, hsorted]
  refine ⟨Json.plain_ofList _ rfl ?_ ?_ ?_, fun old => ?_⟩
  · rw [List.map_map]
    exact ((hperm.map (·.name)).nodup_iff).2 ((hl.map _).nodup hfields.names)
  · intro name hname
    obtain ⟨p, hp, rfl⟩ := List.mem_map.1 hname
    obtain ⟨f, hf, rfl⟩ := List.mem_map.1 hp
    exact hfields.plain f.name (List.mem_map_of_mem (hmem f hf))
  · intro p hp
    obtain ⟨f, hf, rfl⟩ := List.mem_map.1 hp
    exact (hread f hf).plain
  · -- the setters commute, so the order of the members does not matter
    have hcomm : ∀ f ∈ order, ∀ g ∈ order, ∀ a, copy x (copy x a f) g = copy x (copy x a g) f := by
      have : Std.Symm fun f g : Field α => ∀ a, copy x (copy x a f) g = copy x (copy x a g) f :=
        ⟨fun f g hfg a => (hfg a).symm⟩
      intro f hf g hg
      exact (hfields.commute x).forall_of_forall (fun f _ a => rfl) (hmem f hf) (hmem g hg)
    have hmembers := unmarshalMembers_fields (D := D) hfields.names hmem x hread old
    exact hmembers.trans (congrArg Except.ok (hperm.foldl_eq' hcomm old))

theorem Reads.struct {goType : String} {fields : List (Field α)} (hfields : Fields fields) {x : α}
    (h : ∀ f ∈ fields, f.codec.Reads (f.get x)) : (struct D goType fields).Reads x := by
  obtain ⟨hplain, hread⟩ := unmarshalStruct_sorted (D := D) goType hfields
    (.refl fields) x h
  exact ⟨hplain, fun old => (hread old).trans (congrArg Except.ok (hfields.rebuild x old))⟩

/-! ## Strict decoding -/

/-- A canonical text is read back exactly when it is not too long. -/
theorem strictUnmarshalBytes_canonical {D : ByteDecoder} (hD : D.Lawful) {c : Codec α} {zero a : α}
    (hplain : (c.write a).sorted.Plain) (hread : c.read zero (c.write a).sorted = .ok a) :
    strictUnmarshalBytes D c zero (c.canonicalBytes a) = .ok a ↔
      (c.canonicalBytes a).length ≤ maxObjectBytes := by
  have hparse : D.parse (D.text (c.canonicalBytes a)) = .ok (c.write a).sorted := by
    rw [canonicalBytes, hD.text_utf8, canonicalText, hD.parse_render _ hplain]
  simp only [strictUnmarshalBytes, Except.require_bind_eq_ok, hparse, Except.bind_ok',
    checkValue_plain _ _ hplain, hread, and_true]

/-- A canonical text is one line. -/
theorem newline_notMem_canonicalBytes {c : Codec α} {a : α} (h : (c.write a).sorted.Plain) :
    (10 : UInt8) ∉ c.canonicalBytes a := by
  intro hmem
  have hle := le_of_mem_utf8 (Json.le_of_mem_render _ h) hmem
  revert hle; decide

/-! ## Sizes -/

theorem length_canonicalBytes (c : Codec α) (a : α) :
    (c.canonicalBytes a).length = byteLength (c.write a).render := by
  rw [canonicalBytes, length_utf8, canonicalText, Json.byteLength_render_sorted]

theorem byteLength_struct {goType : String} {fields : List (Field α)} (h : fields ≠ []) (a : α) :
    byteLength ((struct D goType fields).write a).render =
      1 + (fields.map fun f => byteLength f.name.toList +
        byteLength (f.codec.write (f.get a)).render + 4).sum := by
  have hne : (fields.map fun f => (f.name, f.codec.write (f.get a))) ≠ [] := by simpa using h
  rw [Codec.struct, Json.byteLength_render_obj hne, List.map_map]
  rfl

theorem byteLength_slice {c : Codec α} {zero : α} {goType : String} {l : List α} (h : l ≠ []) :
    byteLength ((slice D c zero goType).write l).render =
      1 + (l.map fun a => byteLength (c.write a).render + 1).sum := by
  obtain ⟨a, l, rfl⟩ := List.exists_cons_of_ne_nil h
  have hwrite : (Codec.slice D c zero goType).write (a :: l) =
      .arr (.ofList ((a :: l).map c.write)) := rfl
  rw [hwrite, Json.byteLength_render_arr (by simp), List.map_map]
  rfl

/-- The number of decimal digits. -/
def digits (n : ℕ) : ℕ := (Nat.toDigits 10 n).length

theorem byteLength_toDigits (n : ℕ) : byteLength (Nat.toDigits 10 n) = digits n := by
  refine Json.byteLength_eq_length fun c hc => ?_
  have hd := Nat.isDigit_of_mem_toDigits (by decide) (by decide) hc
  simp only [Char.isDigit, Bool.and_eq_true, decide_eq_true_eq] at hd
  rw [Char.utf8Size_eq_one_iff]
  exact UInt32.le_trans hd.2 (by decide)

theorem byteLength_bytes (b : Bytes) :
    byteLength ((bytes D).write b).render = (4 * b.length + 2) / 3 + 2 := by
  simp only [Codec.bytes, marshalBytes, byteLength_quote, byteLength_encode]

theorem byteLength_counter (n : ℕ) : byteLength ((counter D).write n).render = digits n + 2 := by
  simp only [Codec.counter, marshalCounter, byteLength_quote, byteLength_toDigits]

theorem byteLength_string (s : String) :
    byteLength ((string D).write s).render = byteLength s.toList + 2 := byteLength_quote _

theorem byteLength_id {s : ID} (h : ID.valid s = true) : byteLength ((id D).write s).render = 34 := by
  simp only [ID.valid, Bool.and_eq_true, beq_iff_eq, List.all_eq_true] at h
  have hsize : ∀ c ∈ s, c.utf8Size = 1 := by
    intro c hc
    have hx := h.2 c hc
    simp only [ID.isLowerHex, Bool.or_eq_true, Bool.and_eq_true, decide_eq_true_eq] at hx
    rw [Char.utf8Size_eq_one_iff]
    rcases hx with hx | hx <;> exact UInt32.le_trans hx.2 (by decide)
  have hlen : byteLength s = 32 := (Json.byteLength_eq_length hsize).trans h.1
  exact (byteLength_quote s).trans (congrArg (· + 2) hlen)

theorem byteLength_one : byteLength ((int D).write 1).render = 1 := by
  have htext : (toString (1 : ℤ)).toList = ['1'] := by decide
  have hwrite : (Codec.int D).write 1 = .num (toString (1 : ℤ)).toList := rfl
  rw [hwrite, htext]
  rfl

end Codec

end Sshstate
