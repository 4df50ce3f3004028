import Enabledness.Json.Reader

/-!
# JSON as it is written

How a value is written as JSON: strings with any choice of escapes, and space wherever it may stand.
`Writes cs j rest` says that the text `cs` starts with a writing of the value `j`, after which `rest` is
left; numbers are not among the values.  Reading such a text gives the value and leaves what the writing
leaves.

* `Spells`, `readString_of_spells`, `skipString_of_spells` : strings.
* `Writes`, `readValue_of_writes` : values.
* `exists_spells`, `CanWrite` : every text can be spelled, and lists and objects of values that can be written
  can be written.
-/

namespace Enabledness.Json

/-! ## Strings -/

/-- A hexadecimal digit and its value. -/
def IsHexDigit (n : Nat) (c : Char) : Prop := n < 16 ∧ (c = n.digitChar ∨ c = n.digitChar.toUpper)

instance (n : Nat) (c : Char) : Decidable (IsHexDigit n c) := inferInstanceAs (Decidable (_ ∧ _))

/-- A number of 16 bits is written as four hexadecimal digits. -/
inductive SpellsUnit : Nat → List Char → List Char → Prop
  | digits {n : Nat} {a b c d : Char} {rest : List Char} (ha : IsHexDigit (n / 0x1000) a)
      (hb : IsHexDigit (n / 0x100 % 0x10) b) (hc : IsHexDigit (n / 0x10 % 0x10) c)
      (hd : IsHexDigit (n % 0x10) d) : SpellsUnit n (a :: b :: c :: d :: rest) rest

/-- The letters of the short escapes, with the characters that they stand for. -/
def shortEscapes : List (Char × Char) :=
  [('"', '"'), ('\\', '\\'), ('/', '/'), ('b', '\x08'), ('f', '\x0c'), ('n', '\n'), ('r', '\r'),
    ('t', '\t')]

/-- The first half of the pair of surrogates of a character. -/
def highSurrogate (c : Char) : Nat := 0xD800 + (c.toNat - 0x10000) / 0x400

/-- The second half of the pair of surrogates of a character. -/
def lowSurrogate (c : Char) : Nat := 0xDC00 + (c.toNat - 0x10000) % 0x400

/-- A text is written as a string, after its opening quote. -/
inductive Spells : List Char → List Char → List Char → Prop
  /-- The closing quote. -/
  | quote {rest : List Char} : Spells ('"' :: rest) [] rest
  /-- A character that stands for itself. -/
  | plain {c : Char} {cs text rest : List Char} (hc : 0x20 ≤ c.toNat) (hquote : c ≠ '"')
      (hbackslash : c ≠ '\\') (h : Spells cs text rest) : Spells (c :: cs) (c :: text) rest
  /-- A short escape. -/
  | short {c letter : Char} {cs text rest : List Char} (hc : (letter, c) ∈ shortEscapes)
      (h : Spells cs text rest) : Spells ('\\' :: letter :: cs) (c :: text) rest
  /-- A character of 16 bits by its number. -/
  | unit {c : Char} {cs cs₁ text rest : List Char} (hc : SpellsUnit c.toNat cs cs₁)
      (h : Spells cs₁ text rest) : Spells ('\\' :: 'u' :: cs) (c :: text) rest
  /-- A character of more than 16 bits by its surrogates. -/
  | pair {c : Char} {cs cs₁ cs₂ text rest : List Char} (hc : 0x10000 ≤ c.toNat)
      (hhigh : SpellsUnit (highSurrogate c) cs ('\\' :: 'u' :: cs₁))
      (hlow : SpellsUnit (lowSurrogate c) cs₁ cs₂) (h : Spells cs₂ text rest) :
      Spells ('\\' :: 'u' :: cs) (c :: text) rest

theorem hexDigit?_of_isHexDigit {n : Nat} {c : Char} (h : IsHexDigit n c) : hexDigit? c = some n := by
  have hall : ∀ n < 16, hexDigit? n.digitChar = some n ∧ hexDigit? n.digitChar.toUpper = some n := by
    decide
  obtain ⟨hn, rfl | rfl⟩ := h
  · exact (hall n hn).1
  · exact (hall n hn).2

/-- Four hexadecimal digits are read as the unit that they spell. -/
theorem hexUnit_of_spellsUnit {n : Nat} {cs rest : List Char} (h : SpellsUnit n cs rest) :
    hexUnit cs = .ok (n, rest) := by
  cases h with
  | digits ha hb hc hd =>
    have hn := ha.1
    simp only [hexUnit, hexDigit?_of_isHexDigit ha, hexDigit?_of_isHexDigit hb,
      hexDigit?_of_isHexDigit hc, hexDigit?_of_isHexDigit hd, Except.ok.injEq, Prod.mk.injEq, and_true]
    omega

theorem toNat_cases (c : Char) : c.toNat < 0xD800 ∨ 0xDFFF < c.toNat ∧ c.toNat < 0x110000 := c.valid

theorem isLowSurrogate_iff {n : Nat} : isLowSurrogate n = true ↔ 0xDC00 ≤ n ∧ n ≤ 0xDFFF := by
  simp [isLowSurrogate]

theorem isHighSurrogate_iff {n : Nat} : isHighSurrogate n = true ↔ 0xD800 ≤ n ∧ n ≤ 0xDBFF := by
  simp [isHighSurrogate]

/-- A letter of the short escapes is read as its character. -/
theorem readEscape_short {c letter : Char} (h : (letter, c) ∈ shortEscapes) (rest : List Char) :
    readEscape (letter :: rest) = .ok (c, rest) := by
  have hall : ∀ p ∈ shortEscapes, p.1 ≠ 'u' ∧ shortEscape? p.1 = some p.2 := by decide
  obtain ⟨hu, hshort⟩ := hall _ h
  simp only [readEscape, if_neg hu, hshort]

/-- One unit is read as its character: a spelled character is never half of a pair. -/
theorem readEscape_unit {c : Char} {cs rest : List Char} (h : SpellsUnit c.toNat cs rest) :
    readEscape ('u' :: cs) = .ok (c, rest) := by
  have hcases := toNat_cases c
  have hlow : isLowSurrogate c.toNat = false := Bool.eq_false_iff.2 fun hlow => by
    have := isLowSurrogate_iff.1 hlow
    omega
  have hhigh : isHighSurrogate c.toNat = false := Bool.eq_false_iff.2 fun hhigh => by
    have := isHighSurrogate_iff.1 hhigh
    omega
  simp [readEscape, hexUnit_of_spellsUnit h, bind, Except.bind, hlow, hhigh, Char.ofNat_toNat]

/-- Two units are read as the character beyond the first plane that they are the halves of. -/
theorem readEscape_pair {c : Char} {cs cs₁ rest : List Char} (hc : 0x10000 ≤ c.toNat)
    (hhigh : SpellsUnit (highSurrogate c) cs ('\\' :: 'u' :: cs₁))
    (hlow : SpellsUnit (lowSurrogate c) cs₁ rest) : readEscape ('u' :: cs) = .ok (c, rest) := by
  have hcases := toNat_cases c
  have hnotLow : isLowSurrogate (highSurrogate c) = false := Bool.eq_false_iff.2 fun hlow => by
    have := isLowSurrogate_iff.1 hlow
    unfold highSurrogate at this
    omega
  have hfirst : isHighSurrogate (highSurrogate c) = true := isHighSurrogate_iff.2 <| by
    unfold highSurrogate
    omega
  have hsecond : isLowSurrogate (lowSurrogate c) = true := isLowSurrogate_iff.2 <| by
    unfold lowSurrogate
    omega
  have hpair : pairChar (highSurrogate c) (lowSurrogate c) = c := by
    have hnumber : (highSurrogate c - 0xD800) * 0x400 + (lowSurrogate c - 0xDC00) + 0x10000 = c.toNat := by
      unfold highSurrogate lowSurrogate
      omega
    rw [pairChar, hnumber, Char.ofNat_toNat]
  simp [readEscape, readLowSurrogate, hexUnit_of_spellsUnit hhigh, hexUnit_of_spellsUnit hlow, bind,
    Except.bind, hnotLow, hfirst, hsecond, hpair]

theorem readString_escape {c : Char} {cs rest text : List Char} (h : readEscape cs = .ok (c, rest))
    (hrest : readString rest = .ok text) : readString ('\\' :: cs) = .ok (c :: text) := by
  rw [readString]
  simp only [Char.reduceEq, if_false, if_true]
  split
  · next heq => simp [h] at heq
  · next heq =>
    rw [h] at heq
    simp only [Except.ok.injEq, Prod.mk.injEq] at heq
    obtain ⟨rfl, rfl⟩ := heq
    rw [hrest]
    rfl

/-- **Strings.**  Reading gives back the text that was spelled. -/
theorem readString_of_spells {cs text rest : List Char} (h : Spells cs text rest) :
    readString cs = .ok text := by
  induction h with
  | quote => simp [readString]
  | plain hc hquote hbackslash h ih =>
    rw [readString, if_neg hquote, if_neg hbackslash, if_neg (Nat.not_lt.2 hc), ih]
    rfl
  | short hc h ih => exact readString_escape (readEscape_short hc _) ih
  | unit hc h ih => exact readString_escape (readEscape_unit hc) ih
  | pair hc hhigh hlow h ih => exact readString_escape (readEscape_pair hc hhigh hlow) ih

theorem skipString_escape {cs cs' rest : List Char} (h : skipEscape cs = .ok cs')
    (hrest : skipString cs' = .ok rest) : skipString ('\\' :: cs) = .ok rest := by
  rw [skipString]
  simp only [Char.reduceEq, if_false, if_true]
  split
  · next heq => simp [h] at heq
  · next heq =>
    rw [h] at heq
    obtain rfl := Except.ok.inj heq
    exact hrest

/-- Skipping a string ends where its spelling ends. -/
theorem skipString_of_spells {cs text rest : List Char} (h : Spells cs text rest) :
    skipString cs = .ok rest := by
  have hunit : ∀ {n cs rest}, SpellsUnit n cs rest → skipEscape ('u' :: cs) = .ok rest := by
    intro n cs rest hu
    rw [skipEscape, if_pos rfl, hexUnit_of_spellsUnit hu]
    rfl
  induction h with
  | quote => simp [skipString]
  | plain hc hquote hbackslash h ih =>
    rw [skipString, if_neg hquote, if_neg hbackslash, if_neg (Nat.not_lt.2 hc), ih]
  | short hc h ih =>
    have hall : ∀ p ∈ shortEscapes, p.1 ≠ 'u' ∧ (shortEscape? p.1).isSome := by decide
    obtain ⟨hu, hshort⟩ := hall _ hc
    exact skipString_escape (by rw [skipEscape, if_neg hu, if_pos hshort]) ih
  | unit hc h ih => exact skipString_escape (hunit hc) ih
  | pair hc hhigh hlow h ih =>
    -- the two halves are skipped as two escapes
    exact skipString_escape (hunit hhigh) (skipString_escape (hunit hlow) ih)

/-! ## Values -/

/-- A string that can be read. -/
def textToken (text : String) : StringToken := ⟨.ok text, none⟩

/-- The literals. -/
def literals : List (String × Json) := [("null", .null), ("true", .bool true), ("false", .bool false)]

/-- Space only. -/
def Blank (space : List Char) : Prop := ∀ c ∈ space, c ∈ [' ', '\n', '\t', '\r']

instance (space : List Char) : Decidable (Blank space) := List.decidableBAll _ space

mutual

/-- A value is written. -/
inductive Writes : List Char → Json → List Char → Prop
  | literal {space rest : List Char} {word : String} {j : Json} (hspace : Blank space)
      (hword : (word, j) ∈ literals) : Writes (space ++ (word.toList ++ rest)) j rest
  | string {space cs text rest : List Char} (hspace : Blank space) (htext : Spells cs text rest) :
      Writes (space ++ '"' :: cs) (.string (textToken (String.ofList text))) rest
  | list {space cs rest : List Char} {items : Items} (hspace : Blank space)
      (hitems : WritesItems cs items rest) : Writes (space ++ '[' :: cs) (.list items) rest
  | object {space cs rest : List Char} {members : Members} (hspace : Blank space)
      (hmembers : WritesMembers cs members rest) : Writes (space ++ '\x7b' :: cs) (.object members) rest

/-- The items of a list are written, after the opening bracket. -/
inductive WritesItems : List Char → Items → List Char → Prop
  | done {space rest : List Char} (hspace : Blank space) : WritesItems (space ++ ']' :: rest) .done rest
  | item {cs cs₁ rest : List Char} {head : Json} {tail : Items} (hhead : Writes cs head cs₁)
      (htail : WritesMoreItems cs₁ tail rest) : WritesItems cs (.item head tail) rest

/-- The items after an item are written. -/
inductive WritesMoreItems : List Char → Items → List Char → Prop
  | done {space rest : List Char} (hspace : Blank space) :
      WritesMoreItems (space ++ ']' :: rest) .done rest
  | item {space cs cs₁ rest : List Char} {head : Json} {tail : Items} (hspace : Blank space)
      (hhead : Writes cs head cs₁) (htail : WritesMoreItems cs₁ tail rest) :
      WritesMoreItems (space ++ ',' :: cs) (.item head tail) rest

/-- The members of an object are written, after the opening brace. -/
inductive WritesMembers : List Char → Members → List Char → Prop
  | done {space rest : List Char} (hspace : Blank space) :
      WritesMembers (space ++ '\x7d' :: rest) .done rest
  | member {cs rest : List Char} {members : Members} (h : WritesMember cs members rest) :
      WritesMembers cs members rest

/-- A member and those after it are written. -/
inductive WritesMember : List Char → Members → List Char → Prop
  | member {space cs key space₁ cs₁ cs₂ rest : List Char} {value : Json} {tail : Members}
      (hspace : Blank space) (hkey : Spells cs key (space₁ ++ ':' :: cs₁)) (hspace₁ : Blank space₁)
      (hvalue : Writes cs₁ value cs₂) (htail : WritesMoreMembers cs₂ tail rest) :
      WritesMember (space ++ '"' :: cs) (.member (textToken (String.ofList key)) value tail) rest

/-- The members after a member are written. -/
inductive WritesMoreMembers : List Char → Members → List Char → Prop
  | done {space rest : List Char} (hspace : Blank space) :
      WritesMoreMembers (space ++ '\x7d' :: rest) .done rest
  | member {space cs rest : List Char} {members : Members} (hspace : Blank space)
      (h : WritesMember cs members rest) : WritesMoreMembers (space ++ ',' :: cs) members rest

end

/-! ### Reading values -/

theorem isSpace_of_blank {c : Char} (h : c ∈ [' ', '\n', '\t', '\r']) : isSpace c = true := by
  have hall : [' ', '\n', '\t', '\r'].all isSpace = true := by decide
  exact List.all_eq_true.1 hall c h

/-- Blanks are skipped up to the first character that is none. -/
theorem skipSpace_append {space : List Char} (h : Blank space) {c : Char} (hc : isSpace c = false)
    (cs : List Char) : skipSpace (space ++ c :: cs) = c :: cs := by
  rw [skipSpace, List.dropWhile_append_of_pos fun d hd => isSpace_of_blank (h d hd),
    List.dropWhile_cons_of_neg (by simp [hc])]

/-- Reading a part of a text gives a value and leaves a rest. -/
def Gives {α : Type} {cs : List Char} (r : α × Rest cs) (a : α) (rest : List Char) : Prop :=
  r.1 = a ∧ r.2.map Subtype.val = some rest

/-- What a reader gives, as the pair that it returns. -/
theorem Gives.exists_eq {α : Type} {cs rest : List Char} {r : α × Rest cs} {a : α}
    (h : Gives r a rest) : ∃ hlt, r = (a, some ⟨rest, hlt⟩) := by
  obtain ⟨b, r⟩ := r
  obtain ⟨rfl, hrest⟩ := h
  obtain ⟨⟨rest', hlt⟩, rfl, rfl⟩ := Option.map_eq_some_iff.1 hrest
  exact ⟨hlt, rfl⟩

/-- What a part of a text gives, the text gives in another form. -/
theorem Gives.widen {α β : Type} {cs cs' rest : List Char} {r : α × Rest cs} {a : α} (f : α → β)
    (h : Gives r a rest) (hle : cs.length ≤ cs'.length) : Gives (f r.1, r.2.widen hle) (f a) rest := by
  obtain ⟨hlt, rfl⟩ := h.exists_eq
  exact ⟨rfl, rfl⟩

/-- A string token holds the text that was spelled, without a defect. -/
theorem gives_readStringToken {cs text rest : List Char} (h : Spells cs text rest) :
    Gives (readStringToken cs) (textToken (String.ofList text)) rest := by
  have hskip := skipString_of_spells h
  unfold readStringToken
  rw [readString_of_spells h]
  split
  · next heq =>
    obtain rfl := Except.ok.inj (hskip.symm.trans heq)
    exact ⟨rfl, rfl⟩
  · next heq => simp [hskip] at heq

section Values

variable {cs cs₁ rest : List Char}

/-- An opening bracket starts a list. -/
theorem gives_readValue_list {items : Items} (h : skipSpace cs = '[' :: cs₁)
    (hitems : Gives (readItems cs₁) items rest) : Gives (readValue cs) (.list items) rest := by
  rw [readValue]
  split
  · next heq => simp [h] at heq
  · next heq =>
    obtain ⟨rfl, rfl⟩ := List.cons.inj (h.symm.trans heq)
    exact hitems.widen Json.list (Nat.le_of_lt (length_lt_of_skipSpace h))

/-- An opening brace starts an object. -/
theorem gives_readValue_object {members : Members} (h : skipSpace cs = '\x7b' :: cs₁)
    (hmembers : Gives (readMembers cs₁) members rest) : Gives (readValue cs) (.object members) rest := by
  rw [readValue]
  split
  · next heq => simp [h] at heq
  · next heq =>
    obtain ⟨rfl, rfl⟩ := List.cons.inj (h.symm.trans heq)
    exact hmembers.widen Json.object (Nat.le_of_lt (length_lt_of_skipSpace h))

/-- A quote starts a string. -/
theorem gives_readValue_string {token : StringToken} (h : skipSpace cs = '"' :: cs₁)
    (htoken : Gives (readStringToken cs₁) token rest) : Gives (readValue cs) (.string token) rest := by
  rw [readValue]
  split
  · next heq => simp [h] at heq
  · next heq =>
    obtain ⟨rfl, rfl⟩ := List.cons.inj (h.symm.trans heq)
    exact htoken.widen Json.string (Nat.le_of_lt (length_lt_of_skipSpace h))

theorem gives_readItems_done (h : skipSpace cs = ']' :: rest) : Gives (readItems cs) .done rest := by
  rw [readItems]
  split
  · next heq => simp [h] at heq
  · next heq =>
    obtain ⟨rfl, rfl⟩ := List.cons.inj (h.symm.trans heq)
    exact ⟨rfl, rfl⟩

/-- A list that is not closed at once has a first item. -/
theorem gives_readItems_item {c : Char} {items : Items} (h : skipSpace cs = c :: cs₁) (hc : c ≠ ']')
    (hitem : Gives (readItem cs) items rest) : Gives (readItems cs) items rest := by
  rw [readItems]
  split
  · next heq => simp [h] at heq
  · next heq =>
    obtain ⟨rfl, rfl⟩ := List.cons.inj (h.symm.trans heq)
    rwa [if_neg hc]

/-- An item is a value, and then more items or the end of the list. -/
theorem gives_readItem {head : Json} {tail : Items} (hhead : Gives (readValue cs) head cs₁)
    (htail : Gives (readMoreItems cs₁) tail rest) : Gives (readItem cs) (.item head tail) rest := by
  obtain ⟨hlt, hread⟩ := hhead.exists_eq
  rw [readItem, hread]
  exact htail.widen (Items.item head) (Nat.le_of_lt hlt)

theorem gives_readMoreItems_done (h : skipSpace cs = ']' :: rest) :
    Gives (readMoreItems cs) .done rest := by
  rw [readMoreItems]
  split
  · next heq => simp [h] at heq
  · next heq =>
    obtain ⟨rfl, rfl⟩ := List.cons.inj (h.symm.trans heq)
    exact ⟨rfl, rfl⟩

/-- After a comma there is another item. -/
theorem gives_readMoreItems_item {items : Items} (h : skipSpace cs = ',' :: cs₁)
    (hitem : Gives (readItem cs₁) items rest) : Gives (readMoreItems cs) items rest := by
  rw [readMoreItems]
  split
  · next heq => simp [h] at heq
  · next heq =>
    obtain ⟨rfl, rfl⟩ := List.cons.inj (h.symm.trans heq)
    exact hitem.widen id (Nat.le_of_lt (length_lt_of_skipSpace h))

theorem gives_readMembers_done (h : skipSpace cs = '\x7d' :: rest) :
    Gives (readMembers cs) .done rest := by
  rw [readMembers]
  split
  · next heq => simp [h] at heq
  · next heq =>
    obtain ⟨rfl, rfl⟩ := List.cons.inj (h.symm.trans heq)
    exact ⟨rfl, rfl⟩

theorem gives_readMembers_member {members : Members} (h : skipSpace cs = '"' :: cs₁)
    (hmember : Gives (readMember cs) members rest) : Gives (readMembers cs) members rest := by
  rw [readMembers]
  split
  · next heq => simp [h] at heq
  · next heq =>
    obtain ⟨rfl, rfl⟩ := List.cons.inj (h.symm.trans heq)
    exact hmember

/-- A member is a key, a colon and a value, and then more members or the end of the object. -/
theorem gives_readMember {key : StringToken} {value : Json} {tail : Members} {cs₂ cs₃ cs₄ : List Char}
    (h : skipSpace cs = '"' :: cs₁) (hkey : Gives (readStringToken cs₁) key cs₂)
    (hcolon : skipSpace cs₂ = ':' :: cs₃) (hvalue : Gives (readValue cs₃) value cs₄)
    (htail : Gives (readMoreMembers cs₄) tail rest) :
    Gives (readMember cs) (.member key value tail) rest := by
  obtain ⟨hlt, hreadKey⟩ := hkey.exists_eq
  obtain ⟨hlt', hreadValue⟩ := hvalue.exists_eq
  rw [readMember]
  split
  · next heq => simp [h] at heq
  · next heq =>
    obtain ⟨rfl, rfl⟩ := List.cons.inj (h.symm.trans heq)
    rw [if_pos rfl, hreadKey]
    dsimp only
    split
    · next heq₁ => simp [hcolon] at heq₁
    · next heq₁ =>
      obtain ⟨rfl, rfl⟩ := List.cons.inj (hcolon.symm.trans heq₁)
      rw [if_pos rfl, hreadValue]
      have hle : cs₄.length ≤ cs.length := by
        have := length_lt_of_skipSpace h
        have := length_lt_of_skipSpace hcolon
        omega
      exact htail.widen (Members.member key value) hle

theorem gives_readMoreMembers_done (h : skipSpace cs = '\x7d' :: rest) :
    Gives (readMoreMembers cs) .done rest := by
  rw [readMoreMembers]
  split
  · next heq => simp [h] at heq
  · next heq =>
    obtain ⟨rfl, rfl⟩ := List.cons.inj (h.symm.trans heq)
    exact ⟨rfl, rfl⟩

/-- After a comma there is another member. -/
theorem gives_readMoreMembers_member {members : Members} (h : skipSpace cs = ',' :: cs₁)
    (hmember : Gives (readMember cs₁) members rest) : Gives (readMoreMembers cs) members rest := by
  rw [readMoreMembers]
  split
  · next heq => simp [h] at heq
  · next heq =>
    obtain ⟨rfl, rfl⟩ := List.cons.inj (h.symm.trans heq)
    exact hmember.widen id (Nat.le_of_lt (length_lt_of_skipSpace h))

/-- The literals `null`, `true` and `false` are read as what they stand for. -/
theorem gives_readValue_literal {word : String} {j : Json} (hword : (word, j) ∈ literals)
    (h : skipSpace cs = word.toList ++ rest) : Gives (readValue cs) j rest := by
  rw [readValue]
  simp only [literals, List.mem_cons, Prod.mk.injEq, List.not_mem_nil, or_false] at hword
  rcases hword with ⟨rfl, rfl⟩ | ⟨rfl, rfl⟩ | ⟨rfl, rfl⟩
  all_goals
    split
    · next heq => simp [h] at heq
    · next heq =>
      obtain ⟨rfl, rfl⟩ := List.cons.inj (h.symm.trans heq)
      exact ⟨rfl, rfl⟩

end Values

/-- A literal starts with a character that is neither blank nor a closing bracket. -/
theorem exists_head_of_literal {word : String} {j : Json} (h : (word, j) ∈ literals) :
    ∃ c cs, word.toList = c :: cs ∧ isSpace c = false ∧ c ≠ ']' := by
  simp only [literals, List.mem_cons, Prod.mk.injEq, List.not_mem_nil, or_false] at h
  rcases h with ⟨rfl, rfl⟩ | ⟨rfl, rfl⟩ | ⟨rfl, rfl⟩
  all_goals exact ⟨_, _, rfl, by decide, by decide⟩

/-- A value does not start with a closing bracket. -/
theorem exists_skipSpace_of_writes {cs rest : List Char} {j : Json} (h : Writes cs j rest) :
    ∃ c cs₁, skipSpace cs = c :: cs₁ ∧ c ≠ ']' := by
  cases h with
  | @literal _ rest word j hspace hword =>
    obtain ⟨c, cs, hcs, hc, hne⟩ := exists_head_of_literal hword
    rw [hcs]
    exact ⟨c, cs ++ rest, skipSpace_append hspace hc _, hne⟩
  | string hspace => exact ⟨_, _, skipSpace_append hspace (by decide) _, by decide⟩
  | list hspace => exact ⟨_, _, skipSpace_append hspace (by decide) _, by decide⟩
  | object hspace => exact ⟨_, _, skipSpace_append hspace (by decide) _, by decide⟩

/-- A member starts with a quote. -/
theorem exists_skipSpace_of_writesMember {cs rest : List Char} {members : Members}
    (h : WritesMember cs members rest) : ∃ cs₁, skipSpace cs = '"' :: cs₁ := by
  cases h with
  | member hspace => exact ⟨_, skipSpace_append hspace (by decide) _⟩

/-- Reading a text that starts with a value gives the value. -/
theorem readValue_of_writes {cs rest : List Char} {j : Json} (h : Writes cs j rest) :
    Gives (readValue cs) j rest := by
  -- the induction runs over all parts of a value at once, a reader for each
  refine @Writes.rec (fun cs j rest _ => Gives (readValue cs) j rest)
    (fun cs items rest _ => Gives (readItems cs) items rest)
    (fun cs items rest _ => Gives (readMoreItems cs) items rest)
    (fun cs members rest _ => Gives (readMembers cs) members rest)
    (fun cs members rest _ => Gives (readMember cs) members rest)
    (fun cs members rest _ => Gives (readMoreMembers cs) members rest)
    ?literal ?string ?list ?object ?noItem ?item ?lastItem ?nextItem ?noMember ?firstMember ?member
    ?lastMember ?nextMember cs j rest h
  case literal =>
    intro space rest word j hspace hword
    obtain ⟨c, cs, hcs, hc, -⟩ := exists_head_of_literal hword
    refine gives_readValue_literal hword ?_
    rw [hcs]
    exact skipSpace_append hspace hc _
  case string =>
    intro space cs text rest hspace htext
    exact gives_readValue_string (skipSpace_append hspace (by decide) _) (gives_readStringToken htext)
  case list =>
    intro space cs rest items hspace _ hitems
    exact gives_readValue_list (skipSpace_append hspace (by decide) _) hitems
  case object =>
    intro space cs rest members hspace _ hmembers
    exact gives_readValue_object (skipSpace_append hspace (by decide) _) hmembers
  case noItem => exact fun hspace => gives_readItems_done (skipSpace_append hspace (by decide) _)
  case item =>
    intro cs cs₁ rest head tail hwrites _ hhead htail
    obtain ⟨c, cs', hskip, hc⟩ := exists_skipSpace_of_writes hwrites
    exact gives_readItems_item hskip hc (gives_readItem hhead htail)
  case lastItem => exact fun hspace => gives_readMoreItems_done (skipSpace_append hspace (by decide) _)
  case nextItem =>
    intro space cs cs₁ rest head tail hspace _ _ hhead htail
    exact gives_readMoreItems_item (skipSpace_append hspace (by decide) _) (gives_readItem hhead htail)
  case noMember => exact fun hspace => gives_readMembers_done (skipSpace_append hspace (by decide) _)
  case firstMember =>
    intro cs rest members hwrites hmember
    obtain ⟨cs', hskip⟩ := exists_skipSpace_of_writesMember hwrites
    exact gives_readMembers_member hskip hmember
  case member =>
    intro space cs key space₁ cs₁ cs₂ rest value tail hspace hkey hspace₁ _ _ hvalue htail
    exact gives_readMember (skipSpace_append hspace (by decide) _) (gives_readStringToken hkey)
      (skipSpace_append hspace₁ (by decide) _) hvalue htail
  case lastMember => exact fun hspace => gives_readMoreMembers_done (skipSpace_append hspace (by decide) _)
  case nextMember =>
    intro space cs rest members hspace _ hmember
    exact gives_readMoreMembers_member (skipSpace_append hspace (by decide) _) hmember

/-! ## Everything can be written -/

/-- Each unit of sixteen bits can be spelled. -/
theorem exists_spellsUnit {n : Nat} (hn : n < 0x10000) (rest : List Char) :
    ∃ cs, SpellsUnit n cs rest := by
  refine ⟨(n / 0x1000).digitChar :: (n / 0x100 % 0x10).digitChar :: (n / 0x10 % 0x10).digitChar ::
    (n % 0x10).digitChar :: rest, .digits ⟨?_, .inl rfl⟩ ⟨?_, .inl rfl⟩ ⟨?_, .inl rfl⟩ ⟨?_, .inl rfl⟩⟩
  all_goals omega

/-- Every text can be spelled. -/
theorem exists_spells (text rest : List Char) : ∃ cs, Spells cs text rest := by
  induction text with
  | nil => exact ⟨_, .quote⟩
  | cons c text ih =>
    obtain ⟨cs, hcs⟩ := ih
    by_cases hquote : c = '"'
    · subst hquote
      exact ⟨_, .short (show ('"', '"') ∈ shortEscapes by decide) hcs⟩
    by_cases hbackslash : c = '\\'
    · subst hbackslash
      exact ⟨_, .short (show ('\\', '\\') ∈ shortEscapes by decide) hcs⟩
    by_cases hc : 0x20 ≤ c.toNat
    · exact ⟨_, .plain hc hquote hbackslash hcs⟩
    · obtain ⟨cs', hcs'⟩ := exists_spellsUnit (n := c.toNat) (by omega) cs
      exact ⟨_, .unit hcs' hcs⟩

/-- The value can be written before any text. -/
def CanWrite (j : Json) : Prop := ∀ rest, ∃ cs, Writes cs j rest

/-- Items one after the other. -/
def Items.ofList : List Json → Items
  | [] => .done
  | j :: l => .item j (ofList l)

/-- Members one after the other. -/
def Members.ofList : List (String × Json) → Members
  | [] => .done
  | m :: l => .member (textToken m.1) m.2 (ofList l)

theorem blank_nil : Blank [] := fun _ h => absurd h List.not_mem_nil

theorem canWrite_literal {word : String} {j : Json} (h : (word, j) ∈ literals) : CanWrite j :=
  fun _ => ⟨_, .literal blank_nil h⟩

/-- Each text can be written, whatever characters it has. -/
theorem canWrite_text (text : String) : CanWrite (.string (textToken text)) := by
  intro rest
  obtain ⟨cs, hcs⟩ := exists_spells text.toList rest
  have h := Writes.string blank_nil hcs
  rw [String.ofList_toList] at h
  exact ⟨_, h⟩

/-- A list can be written if its items can. -/
theorem canWrite_list {l : List Json} (h : ∀ j ∈ l, CanWrite j) : CanWrite (.list (.ofList l)) := by
  have hmore : ∀ l : List Json, (∀ j ∈ l, CanWrite j) → ∀ rest,
      ∃ cs, WritesMoreItems cs (.ofList l) rest := by
    intro l hl rest
    induction l with
    | nil => exact ⟨_, .done blank_nil⟩
    | cons j l ih =>
      obtain ⟨hj, hl⟩ := List.forall_mem_cons.1 hl
      obtain ⟨cs, hcs⟩ := ih hl
      obtain ⟨cs', hcs'⟩ := hj cs
      exact ⟨_, .item blank_nil hcs' hcs⟩
  intro rest
  cases l with
  | nil => exact ⟨_, .list blank_nil (.done blank_nil)⟩
  | cons j l =>
    obtain ⟨hj, hl⟩ := List.forall_mem_cons.1 h
    obtain ⟨cs, hcs⟩ := hmore l hl rest
    obtain ⟨cs', hcs'⟩ := hj cs
    exact ⟨_, .list blank_nil (.item hcs' hcs)⟩

/-- An object can be written if its values can. -/
theorem canWrite_object {l : List (String × Json)} (h : ∀ m ∈ l, CanWrite m.2) :
    CanWrite (.object (.ofList l)) := by
  have hone : ∀ (m : String × Json) (tail : Members) (cs rest : List Char), CanWrite m.2 →
      WritesMoreMembers cs tail rest →
        ∃ cs', WritesMember cs' (.member (textToken m.1) m.2 tail) rest := by
    intro m tail cs rest hm htail
    obtain ⟨cs₁, hvalue⟩ := hm cs
    obtain ⟨cs₂, hkey⟩ := exists_spells m.1.toList (':' :: cs₁)
    have hmember := @WritesMember.member [] cs₂ m.1.toList [] cs₁ cs rest m.2 tail blank_nil hkey
      blank_nil hvalue htail
    rw [String.ofList_toList] at hmember
    exact ⟨_, hmember⟩
  have hmore : ∀ l : List (String × Json), (∀ m ∈ l, CanWrite m.2) → ∀ rest,
      ∃ cs, WritesMoreMembers cs (.ofList l) rest := by
    intro l hl rest
    induction l with
    | nil => exact ⟨_, .done blank_nil⟩
    | cons m l ih =>
      obtain ⟨hm, hl⟩ := List.forall_mem_cons.1 hl
      obtain ⟨cs, hcs⟩ := ih hl
      obtain ⟨cs', hcs'⟩ := hone m _ cs rest hm hcs
      exact ⟨_, .member blank_nil hcs'⟩
  intro rest
  cases l with
  | nil => exact ⟨_, .object blank_nil (.done blank_nil)⟩
  | cons m l =>
    obtain ⟨hm, hl⟩ := List.forall_mem_cons.1 h
    obtain ⟨cs, hcs⟩ := hmore l hl rest
    obtain ⟨cs', hcs'⟩ := hone m _ cs rest hm hcs
    exact ⟨_, .object blank_nil (.member hcs')⟩

section Plain

/-! Texts whose characters stand for themselves. -/

variable (text : List Char) (h : (text.all fun c => 0x20 ≤ c.toNat && c != '"' && c != '\\') = true)

include h

/-- A text without quotes, backslashes and control characters spells itself. -/
theorem spells_plain (rest : List Char) : Spells (text ++ '"' :: rest) text rest := by
  induction text with
  | nil => exact .quote
  | cons c text ih =>
    simp only [List.all_cons, Bool.and_eq_true, decide_eq_true_iff, bne_iff_ne] at h
    obtain ⟨⟨⟨hc, hquote⟩, hbackslash⟩, htext⟩ := h
    exact .plain hc hquote hbackslash (ih htext)

theorem writes_plain {rest : List Char} :
    Writes ('"' :: (text ++ '"' :: rest)) (.string (textToken (String.ofList text))) rest :=
  @Writes.string [] _ _ _ blank_nil (spells_plain text h rest)

/-- A member whose key is plain is written with the key as it is. -/
theorem writesMember_plain {space cs cs₁ rest : List Char} {value : Json} {tail : Members}
    (hspace : Blank space) (hvalue : Writes cs value cs₁) (htail : WritesMoreMembers cs₁ tail rest) :
    WritesMember (space ++ '"' :: (text ++ '"' :: ':' :: cs))
      (.member (textToken (String.ofList text)) value tail) rest :=
  @WritesMember.member space _ text [] cs cs₁ rest value tail hspace (spells_plain text h _) blank_nil
    hvalue htail

end Plain

end Enabledness.Json
