/-
  JSON texts of objects whose strings need no escapes.

  A `Value` is null, a boolean, a number, a string, an array or an object; an object
  is the list of its members.  `render` writes a value without white space, `sorted`
  puts the members of its objects in the order of their names, which does not change
  the length of the text (`byteLength_render_sorted`).  `parse` reads back what
  `render` wrote, for the values that are `Plain` (`parse_render`).
-/
import Mathlib

namespace Json

mutual

inductive Value where
  | null
  | bool (b : Bool)
  | num (digits : List Char)
  | str (text : List Char)
  | arr (items : Items)
  | obj (members : Members)

inductive Items where
  | nil
  | cons (value : Value) (rest : Items)

inductive Members where
  | nil
  | cons (name : String) (value : Value) (rest : Members)

end

deriving instance DecidableEq for Value, Items, Members

/-- The array of the given values. -/
def Items.ofList : List Value → Items
  | [] => .nil
  | v :: rest => .cons v (ofList rest)

/-- The object with the given members. -/
def Members.ofList : List (String × Value) → Members
  | [] => .nil
  | (name, v) :: rest => .cons name v (ofList rest)

/-! ## Texts -/

def quote (text : List Char) : List Char := '"' :: (text ++ ['"'])

mutual

def Value.render : Value → List Char
  | .null => "null".toList
  | .bool true => "true".toList
  | .bool false => "false".toList
  | .num digits => digits
  | .str text => quote text
  | .arr items => '[' :: (items.render ++ [']'])
  | .obj members => '{' :: (members.render ++ ['}'])

def Items.render : Items → List Char
  | .nil => []
  | .cons v rest => v.render ++ rest.renderRest

def Items.renderRest : Items → List Char
  | .nil => []
  | .cons v rest => ',' :: (v.render ++ rest.renderRest)

def Members.render : Members → List Char
  | .nil => []
  | .cons name v rest => quote name.toList ++ ':' :: (v.render ++ rest.renderRest)

def Members.renderRest : Members → List Char
  | .nil => []
  | .cons name v rest => ',' :: (quote name.toList ++ ':' :: (v.render ++ rest.renderRest))

end

/-- The number of bytes of a text in UTF-8. -/
def byteLength : List Char → ℕ
  | [] => 0
  | c :: text => c.utf8Size + byteLength text

@[simp] theorem byteLength_nil : byteLength [] = 0 := rfl

@[simp] theorem byteLength_cons (c : Char) (text : List Char) :
    byteLength (c :: text) = c.utf8Size + byteLength text := rfl

@[simp] theorem byteLength_append (a b : List Char) :
    byteLength (a ++ b) = byteLength a + byteLength b := by
  induction a with
  | nil => simp
  | cons c a ih => simp [ih, Nat.add_assoc]

theorem byteLength_eq_length {text : List Char} (h : ∀ c ∈ text, c.utf8Size = 1) :
    byteLength text = text.length := by
  induction text with
  | nil => rfl
  | cons c text ih =>
    rw [byteLength_cons, h c List.mem_cons_self, ih fun c hc => h c (List.mem_cons_of_mem _ hc),
      List.length_cons, Nat.add_comm]

/-- The length of an object: a colon, a comma or brace and two quotes for each member. -/
theorem byteLength_render_obj {l : List (String × Value)} (h : l ≠ []) :
    byteLength (Value.obj (.ofList l)).render =
      1 + (l.map fun p => byteLength p.1.toList + byteLength p.2.render + 4).sum := by
  have hrest : ∀ l : List (String × Value), byteLength (Members.ofList l).renderRest =
      (l.map fun p => byteLength p.1.toList + byteLength p.2.render + 4).sum := by
    intro l
    induction l with
    | nil => rfl
    | cons p l ih =>
      have hsize : Char.utf8Size ',' = 1 ∧ Char.utf8Size ':' = 1 ∧ Char.utf8Size '"' = 1 := by decide
      simp only [Members.ofList, Members.renderRest, quote, byteLength_cons, byteLength_append,
        byteLength_nil, ih, hsize, List.map_cons, List.sum_cons]
      omega
  obtain ⟨p, l, rfl⟩ := List.exists_cons_of_ne_nil h
  have hsize : Char.utf8Size '{' = 1 ∧ Char.utf8Size '}' = 1 ∧ Char.utf8Size ':' = 1 ∧
      Char.utf8Size '"' = 1 := by decide
  simp only [Value.render, Members.ofList, Members.render, quote, byteLength_cons, byteLength_append,
    byteLength_nil, hrest, hsize, List.map_cons, List.sum_cons]
  omega

/-! ## The order of members -/

/-- Insert a member before the first one with a greater name. -/
def Members.insert (name : String) (v : Value) : Members → Members
  | .nil => .cons name v .nil
  | .cons name' v' rest =>
    if name < name' then .cons name v (.cons name' v' rest) else .cons name' v' (rest.insert name v)

mutual

def Value.sorted : Value → Value
  | .arr items => .arr items.sorted
  | .obj members => .obj members.sorted
  | v => v

def Items.sorted : Items → Items
  | .nil => .nil
  | .cons v rest => .cons v.sorted rest.sorted

def Members.sorted : Members → Members
  | .nil => .nil
  | .cons name v rest => rest.sorted.insert name v.sorted

end

theorem byteLength_renderRest_insert (name : String) (v : Value) : ∀ members : Members,
    byteLength (members.insert name v).renderRest =
      byteLength (Members.cons name v members).renderRest
  | .nil => rfl
  | .cons name' v' rest => by
    have ih := byteLength_renderRest_insert name v rest
    unfold Members.insert
    split_ifs
    · rfl
    · simp only [Members.renderRest, byteLength_cons, byteLength_append] at ih ⊢
      omega

theorem insert_ne_nil (name : String) (v : Value) (members : Members) :
    members.insert name v ≠ .nil := by
  cases members with
  | nil => exact Members.noConfusion
  | cons name' v' rest =>
    unfold Members.insert
    split_ifs <;> exact Members.noConfusion

/-- A list of members that goes on is longer by a comma. -/
theorem byteLength_renderRest {members : Members} (h : members ≠ .nil) :
    byteLength members.renderRest = byteLength members.render + 1 := by
  cases members with
  | nil => exact absurd rfl h
  | cons name v rest =>
    have hcomma : Char.utf8Size ',' = 1 := by decide
    simp only [Members.renderRest, Members.render, byteLength_cons, byteLength_append, hcomma]
    omega

mutual

/-- Sorting the members does not change the length of the text. -/
theorem byteLength_render_sorted : ∀ v : Value, byteLength v.sorted.render = byteLength v.render
  | .null => rfl
  | .bool _ => rfl
  | .num _ => rfl
  | .str _ => rfl
  | .arr .nil => rfl
  | .arr (.cons v rest) => by
    have hv := byteLength_render_sorted v
    have hrest := byteLength_renderRest_sortedItems rest
    simp only [Value.sorted, Items.sorted, Value.render, Items.render, byteLength_cons,
      byteLength_append, hv, hrest]
  | .obj members => by
    have ih := byteLength_renderRest_sorted members
    have hmembers : byteLength members.sorted.render = byteLength members.render := by
      cases members with
      | nil => rfl
      | cons name v rest =>
        have h₁ := byteLength_renderRest (insert_ne_nil name v.sorted rest.sorted)
        have hne : Members.cons name v rest ≠ .nil := Members.noConfusion
        have h₂ := byteLength_renderRest hne
        rw [Members.sorted] at ih ⊢
        omega
    simp only [Value.sorted, Value.render, byteLength_cons, byteLength_append, hmembers]

theorem byteLength_renderRest_sortedItems : ∀ items : Items,
    byteLength items.sorted.renderRest = byteLength items.renderRest
  | .nil => rfl
  | .cons v rest => by
    have hv := byteLength_render_sorted v
    have hrest := byteLength_renderRest_sortedItems rest
    simp only [Items.sorted, Items.renderRest, byteLength_cons, byteLength_append, hv, hrest]

theorem byteLength_renderRest_sorted : ∀ members : Members,
    byteLength members.sorted.renderRest = byteLength members.renderRest
  | .nil => rfl
  | .cons name v rest => by
    have hv := byteLength_render_sorted v
    have hrest := byteLength_renderRest_sorted rest
    rw [Members.sorted, byteLength_renderRest_insert]
    simp only [Members.renderRest, byteLength_cons, byteLength_append, hv, hrest]

end

/-! ## Plain values -/

/-- A text that is written between quotes as it is. -/
def PlainText (text : List Char) : Prop := ∀ c ∈ text, c ≠ '"' ∧ c ≠ '\\' ∧ 32 ≤ c.toNat

instance decidablePlainText (text : List Char) : Decidable (PlainText text) :=
  List.decidableBAll (fun c => c ≠ '"' ∧ c ≠ '\\' ∧ 32 ≤ c.toNat) text

def Members.names : Members → List String
  | .nil => []
  | .cons name _ rest => name :: rest.names

mutual

/-- Numbers are decimal, texts are plain and the members of an object have different names. -/
def Value.Plain : Value → Prop
  | .null => True
  | .bool _ => True
  | .num digits => digits ≠ [] ∧ (∀ c ∈ digits, c.isDigit = true) ∧
      (digits.head? = some '0' → digits = ['0'])
  | .str text => PlainText text
  | .arr items => items.Plain
  | .obj members => members.Plain

def Items.Plain : Items → Prop
  | .nil => True
  | .cons v rest => v.Plain ∧ rest.Plain

def Members.Plain : Members → Prop
  | .nil => True
  | .cons name v rest => PlainText name.toList ∧ v.Plain ∧ name ∉ rest.names ∧ rest.Plain

end

theorem names_ofList : ∀ l : List (String × Value), (Members.ofList l).names = l.map Prod.fst
  | [] => rfl
  | (name, v) :: l => by rw [Members.ofList, Members.names, names_ofList l, List.map_cons]

/-- An object with the names `names`. -/
theorem plain_ofList : ∀ {l : List (String × Value)} (names : List String), l.map Prod.fst = names →
    names.Nodup → (∀ name ∈ names, PlainText name.toList) → (∀ p ∈ l, p.2.Plain) →
    (Members.ofList l).Plain
  | [], _, _, _, _, _ => trivial
  | (name, v) :: l, _, rfl, hnodup, hnames, hvalues => by
    rw [List.map_cons, List.nodup_cons] at hnodup
    refine ⟨hnames name List.mem_cons_self, hvalues (name, v) List.mem_cons_self, ?_, ?_⟩
    · rw [names_ofList]; exact hnodup.1
    · exact plain_ofList _ rfl hnodup.2 (fun n hn => hnames n (List.mem_cons_of_mem _ hn))
        fun p hp => hvalues p (List.mem_cons_of_mem _ hp)

/-! ## Parsing -/

/-- The text up to the closing quote, and what follows. -/
def readText : List Char → Option (List Char × List Char)
  | [] => none
  | c :: cs =>
    if c = '"' then some ([], cs)
    else if c = '\\' then none
    else (readText cs).map fun (text, rest) => (c :: text, rest)

/-- What follows the word `w`. -/
def readWord : (w cs : List Char) → Option (List Char)
  | [], cs => some cs
  | _ :: _, [] => none
  | a :: w, c :: cs => if a = c then readWord w cs else none

mutual

def parseValue : ℕ → List Char → Option (Value × List Char)
  | 0, _ => none
  | _ + 1, [] => none
  | fuel + 1, c :: cs =>
    if c = 'n' then (readWord "ull".toList cs).map fun rest => (.null, rest)
    else if c = 't' then (readWord "rue".toList cs).map fun rest => (.bool true, rest)
    else if c = 'f' then (readWord "alse".toList cs).map fun rest => (.bool false, rest)
    else if c = '"' then (readText cs).map fun (text, rest) => (.str text, rest)
    else if c = '[' then
      if cs.head? = some ']' then some (.arr .nil, cs.tail)
      else (parseItems fuel cs).map fun (items, rest) => (.arr items, rest)
    else if c = '{' then
      if cs.head? = some '}' then some (.obj .nil, cs.tail)
      else (parseMembers fuel cs).map fun (members, rest) => (.obj members, rest)
    else if c.isDigit then
      some (.num (c :: cs.takeWhile Char.isDigit), cs.dropWhile Char.isDigit)
    else none

/-- The values of an array up to the closing bracket. -/
def parseItems : ℕ → List Char → Option (Items × List Char)
  | 0, _ => none
  | fuel + 1, cs => do
    let (v, cs) ← parseValue fuel cs
    if cs.head? = some ']' then return (.cons v .nil, cs.tail)
    else do
      let cs ← readWord [','] cs
      let (rest, cs) ← parseItems fuel cs
      return (.cons v rest, cs)

/-- The members of an object up to the closing brace. -/
def parseMembers : ℕ → List Char → Option (Members × List Char)
  | 0, _ => none
  | fuel + 1, cs => do
    let cs ← readWord ['"'] cs
    let (name, cs) ← readText cs
    let cs ← readWord [':'] cs
    let (v, cs) ← parseValue fuel cs
    if cs.head? = some '}' then return (.cons (String.ofList name) v .nil, cs.tail)
    else do
      let cs ← readWord [','] cs
      let (rest, cs) ← parseMembers fuel cs
      return (.cons (String.ofList name) v rest, cs)

end

/-- The value a text consists of. -/
def parse (text : List Char) : Option Value :=
  match parseValue text.length text with
  | some (v, []) => some v
  | _ => none

theorem readText_append {text : List Char} (h : PlainText text) (rest : List Char) :
    readText (text ++ '"' :: rest) = some (text, rest) := by
  induction text with
  | nil => simp [readText]
  | cons c text ih =>
    obtain ⟨hq, hb, -⟩ := h c List.mem_cons_self
    have ih := ih fun c hc => h c (List.mem_cons_of_mem _ hc)
    simp [readText, hq, hb, ih]

mutual

/-- A bound on the depth of the parser. -/
def Value.size : Value → ℕ
  | .arr items => items.size + 1
  | .obj members => members.size + 1
  | _ => 1

def Items.size : Items → ℕ
  | .nil => 0
  | .cons v rest => v.size + rest.size + 1

def Members.size : Members → ℕ
  | .nil => 0
  | .cons _ v rest => v.size + rest.size + 1

end

/-- No value starts with a closing bracket. -/
theorem head?_render : ∀ (v : Value) (rest : List Char), v.Plain →
    (v.render ++ rest).head? ≠ some ']'
  | .null, _, _ => by simp [Value.render]
  | .bool true, _, _ => by simp [Value.render]
  | .bool false, _, _ => by simp [Value.render]
  | .num [], _, h => absurd rfl h.1
  | .num (d :: ds), _, h => by
    have hd := h.2.1 d List.mem_cons_self
    rintro heq
    obtain rfl : d = ']' := Option.some.inj heq
    revert hd; decide
  | .str _, _, _ => by simp [Value.render, quote]
  | .arr _, _, _ => by simp [Value.render]
  | .obj _, _, _ => by simp [Value.render]

theorem parseValue_num {digits rest : List Char} (fuel : ℕ) (hne : digits ≠ [])
    (hdigit : ∀ c ∈ digits, c.isDigit = true) (hrest : ∀ c ∈ rest.head?, c.isDigit = false) :
    parseValue (fuel + 1) (digits ++ rest) = some (.num digits, rest) := by
  cases digits with
  | nil => exact absurd rfl hne
  | cons d ds =>
    have hd := hdigit d List.mem_cons_self
    have hds : ∀ c ∈ ds, c.isDigit = true := fun c hc => hdigit c (List.mem_cons_of_mem _ hc)
    have hword : ∀ c ∈ ['n', 't', 'f', '"', '[', '{'], d ≠ c := by
      rintro c hc rfl
      revert hd
      simp only [List.mem_cons, List.not_mem_nil, or_false] at hc
      rcases hc with rfl | rfl | rfl | rfl | rfl | rfl <;> decide
    simp only [List.mem_cons, List.not_mem_nil, or_false, forall_eq_or_imp, forall_eq] at hword
    obtain ⟨h₁, h₂, h₃, h₄, h₅, h₆⟩ := hword
    have hstop : rest.takeWhile Char.isDigit = [] ∧ rest.dropWhile Char.isDigit = rest := by
      cases rest with
      | nil => exact ⟨rfl, rfl⟩
      | cons c cs => simp [hrest c rfl]
    simp only [List.cons_append, parseValue, if_neg h₁, if_neg h₂, if_neg h₃, if_neg h₄, if_neg h₅,
      if_neg h₆, if_pos hd, List.takeWhile_append_of_pos hds, List.dropWhile_append_of_pos hds, hstop,
      List.append_nil]

mutual

theorem parseValue_render : ∀ (v : Value) (fuel : ℕ) (rest : List Char), v.Plain → v.size ≤ fuel →
    (∀ c ∈ rest.head?, c.isDigit = false) → parseValue fuel (v.render ++ rest) = some (v, rest)
  | .null, fuel, rest, _, hsize, _ => by
    obtain ⟨fuel, rfl⟩ := Nat.exists_eq_add_of_le' hsize
    simp [Value.size, Value.render, parseValue, readWord]
  | .bool true, fuel, rest, _, hsize, _ => by
    obtain ⟨fuel, rfl⟩ := Nat.exists_eq_add_of_le' hsize
    simp [Value.size, Value.render, parseValue, readWord]
  | .bool false, fuel, rest, _, hsize, _ => by
    obtain ⟨fuel, rfl⟩ := Nat.exists_eq_add_of_le' hsize
    simp [Value.size, Value.render, parseValue, readWord]
  | .num digits, fuel, rest, h, hsize, hrest => by
    obtain ⟨fuel, rfl⟩ := Nat.exists_eq_add_of_le' hsize
    exact parseValue_num fuel h.1 h.2.1 hrest
  | .str text, fuel, rest, h, hsize, _ => by
    obtain ⟨fuel, rfl⟩ := Nat.exists_eq_add_of_le' hsize
    simp [Value.size, Value.render, quote, parseValue, readText_append h]
  | .arr .nil, fuel, rest, _, hsize, _ => by
    obtain ⟨fuel, rfl⟩ := Nat.exists_eq_add_of_le' hsize
    simp [Value.size, Items.size, Value.render, Items.render, parseValue]
  | .arr (.cons v items), fuel, rest, h, hsize, _ => by
    obtain ⟨fuel, rfl⟩ := Nat.exists_eq_add_of_le' hsize
    have hm := parseItems_render (.cons v items) _ rest Items.noConfusion h
      (Nat.le_add_left _ fuel)
    have hhead : ((Items.cons v items).render ++ ']' :: rest).head? ≠ some ']' := by
      have hne := head?_render v (items.renderRest ++ ']' :: rest) h.1
      rwa [Items.render, List.append_assoc]
    have happ : (Value.arr (.cons v items)).render ++ rest =
        '[' :: ((Items.cons v items).render ++ ']' :: rest) := by simp [Value.render]
    have hsize : fuel + (Value.arr (.cons v items)).size =
        fuel + (Items.cons v items).size + 1 := rfl
    rw [happ, hsize, parseValue, if_neg hhead, hm]
    simp
  | .obj .nil, fuel, rest, _, hsize, _ => by
    obtain ⟨fuel, rfl⟩ := Nat.exists_eq_add_of_le' hsize
    simp [Value.size, Members.size, Value.render, Members.render, parseValue]
  | .obj (.cons name v members), fuel, rest, h, hsize, _ => by
    obtain ⟨fuel, rfl⟩ := Nat.exists_eq_add_of_le' hsize
    have hm := parseMembers_render (.cons name v members) _ rest Members.noConfusion h
      (Nat.le_add_left _ fuel)
    have hhead : ((Members.cons name v members).render ++ '}' :: rest).head? = some '"' := rfl
    have happ : (Value.obj (.cons name v members)).render ++ rest =
        '{' :: ((Members.cons name v members).render ++ '}' :: rest) := by simp [Value.render]
    have hsize : fuel + (Value.obj (.cons name v members)).size =
        fuel + (Members.cons name v members).size + 1 := rfl
    rw [happ, hsize, parseValue, hhead, hm]
    simp

theorem parseItems_render : ∀ (items : Items) (fuel : ℕ) (rest : List Char),
    items ≠ .nil → items.Plain → items.size ≤ fuel →
    parseItems fuel (items.render ++ ']' :: rest) = some (items, rest)
  | .nil, _, _, hne, _, _ => absurd rfl hne
  | .cons v .nil, fuel, rest, _, h, hsize => by
    obtain ⟨fuel, rfl⟩ := Nat.exists_eq_add_of_le' hsize
    have hval := parseValue_render v _ (']' :: rest) h.1 (Nat.le_add_left _ fuel) (by simp)
    have happ : (Items.cons v .nil).render ++ ']' :: rest = v.render ++ ']' :: rest := by
      simp [Items.render, Items.renderRest]
    have hsize : fuel + (Items.cons v .nil).size = fuel + v.size + 1 := rfl
    simp [happ, hsize, parseItems, hval]
  | .cons v (.cons v' items), fuel, rest, _, h, hsize => by
    obtain ⟨hv, hitems⟩ := h
    obtain ⟨fuel, rfl⟩ := Nat.exists_eq_add_of_le' hsize
    have hsize : fuel + (Items.cons v (.cons v' items)).size =
        fuel + (v.size + (Items.cons v' items).size) + 1 := rfl
    have hrest := parseItems_render (.cons v' items)
      (fuel + (v.size + (Items.cons v' items).size)) rest Items.noConfusion hitems (by omega)
    have hval := parseValue_render v (fuel + (v.size + (Items.cons v' items).size))
      (',' :: ((Items.cons v' items).render ++ ']' :: rest)) hv (by omega) (by simp)
    have happ : (Items.cons v (.cons v' items)).render ++ ']' :: rest =
        v.render ++ ',' :: ((Items.cons v' items).render ++ ']' :: rest) := by
      simp [Items.render, Items.renderRest]
    simp [happ, hsize, parseItems, readWord, hval, hrest]

theorem parseMembers_render : ∀ (members : Members) (fuel : ℕ) (rest : List Char),
    members ≠ .nil → members.Plain → members.size ≤ fuel →
    parseMembers fuel (members.render ++ '}' :: rest) = some (members, rest)
  | .nil, _, _, hne, _, _ => absurd rfl hne
  | .cons name v .nil, fuel, rest, _, h, hsize => by
    obtain ⟨hname, hv, -⟩ := h
    obtain ⟨fuel, rfl⟩ := Nat.exists_eq_add_of_le' hsize
    have hval := parseValue_render v _ ('}' :: rest) hv (Nat.le_add_left _ fuel) (by simp)
    have happ : (Members.cons name v .nil).render ++ '}' :: rest =
        '"' :: (name.toList ++ '"' :: ':' :: (v.render ++ '}' :: rest)) := by
      simp [Members.render, Members.renderRest, quote]
    have hsize : fuel + (Members.cons name v .nil).size = fuel + v.size + 1 := rfl
    simp [happ, hsize, parseMembers, readWord, readText_append hname, hval]
  | .cons name v (.cons name' v' members), fuel, rest, _, h, hsize => by
    obtain ⟨hname, hv, -, hmembers⟩ := h
    obtain ⟨fuel, rfl⟩ := Nat.exists_eq_add_of_le' hsize
    have hsize : fuel + (Members.cons name v (.cons name' v' members)).size =
        fuel + (v.size + (Members.cons name' v' members).size) + 1 := rfl
    have hrest := parseMembers_render (.cons name' v' members)
      (fuel + (v.size + (Members.cons name' v' members).size)) rest Members.noConfusion hmembers
      (by omega)
    have hval := parseValue_render v (fuel + (v.size + (Members.cons name' v' members).size))
      (',' :: ((Members.cons name' v' members).render ++ '}' :: rest)) hv (by omega) (by simp)
    have happ : (Members.cons name v (.cons name' v' members)).render ++ '}' :: rest =
        '"' :: (name.toList ++ '"' :: ':' ::
          (v.render ++ ',' :: ((Members.cons name' v' members).render ++ '}' :: rest))) := by
      simp [Members.render, Members.renderRest, quote]
    simp [happ, hsize, parseMembers, readWord, readText_append hname, hval, hrest]

end

mutual

theorem size_le_length_render : ∀ v : Value, v.Plain → v.size ≤ v.render.length
  | .null, _ => by decide
  | .bool true, _ => by decide
  | .bool false, _ => by decide
  | .num digits, h => List.length_pos_iff.2 h.1
  | .str text, _ => by simp [Value.size, Value.render, quote]
  | .arr items, h => by
    have hm := size_le_length_renderItems items h
    have hcomma : items.renderRest.length ≤ items.render.length + 1 := by
      cases items <;> simp [Items.renderRest, Items.render]
    simp only [Value.size, Value.render, List.length_cons, List.length_append]
    omega
  | .obj members, h => by
    have hm := size_le_length_renderRest members h
    have hcomma : members.renderRest.length ≤ members.render.length + 1 := by
      cases members <;> simp [Members.renderRest, Members.render]
    simp only [Value.size, Value.render, List.length_cons, List.length_append]
    omega

theorem size_le_length_renderItems : ∀ items : Items, items.Plain →
    items.size ≤ items.renderRest.length
  | .nil, _ => Nat.zero_le _
  | .cons v rest, h => by
    have hv := size_le_length_render v h.1
    have hrest := size_le_length_renderItems rest h.2
    simp only [Items.size, Items.renderRest, List.length_cons, List.length_append]
    omega

theorem size_le_length_renderRest : ∀ members : Members, members.Plain →
    members.size ≤ members.renderRest.length
  | .nil, _ => Nat.zero_le _
  | .cons name v rest, h => by
    have hv := size_le_length_render v h.2.1
    have hrest := size_le_length_renderRest rest h.2.2.2
    simp only [Members.size, Members.renderRest, List.length_cons, List.length_append]
    omega

end

/-- What is rendered is parsed. -/
theorem parse_render {v : Value} (h : v.Plain) : parse v.render = some v := by
  have hv := parseValue_render v v.render.length [] h (size_le_length_render v h) (by simp)
  rw [List.append_nil] at hv
  rw [parse, hv]

end Json
