import Enabledness.Json.Value

/-!
# Reading JSON

`Json.readValue` turns a text into a JSON value.  It gives the rest of the text along with the value,
unless the text stopped being JSON on the way.  The rest is always shorter, so reading ends.
-/

namespace Enabledness.Json

/-- What is left of a text after something was read from it: nothing if there was a defect. -/
abbrev Rest (cs : List Char) := Option { rest : List Char // rest.length < cs.length }

/-- What is left of a part of a text is left of the text. -/
def Rest.widen {cs cs' : List Char} (h : cs.length ≤ cs'.length) (r : Rest cs) : Rest cs' :=
  r.map fun rest => ⟨rest.1, Nat.lt_of_lt_of_le rest.2 h⟩

/-- The characters that may stand between the parts of a text. -/
def isSpace (c : Char) : Bool := c == ' ' || c == '\n' || c == '\t' || c == '\r'

/-- Drop space at the front. -/
def skipSpace (cs : List Char) : List Char := cs.dropWhile isSpace

theorem length_skipSpace (cs : List Char) : (skipSpace cs).length ≤ cs.length :=
  (List.dropWhile_sublist _).length_le

theorem length_lt_of_skipSpace {cs rest : List Char} {c : Char} (h : skipSpace cs = c :: rest) :
    rest.length < cs.length := by
  have := length_skipSpace cs
  rw [h, List.length_cons] at this
  omega

/-- Read the letters of a literal. -/
def readLetters : List Char → List Char → Except Defect (List Char)
  | [], cs => .ok cs
  | _ :: _, [] => .error .truncated
  | letter :: letters, c :: cs =>
    if c = letter then readLetters letters cs else .error .malformed

theorem length_readLetters {letters cs rest : List Char}
    (h : readLetters letters cs = .ok rest) : rest.length ≤ cs.length := by
  induction letters generalizing cs with
  | nil =>
    obtain rfl := Except.ok.inj h
    exact Nat.le_refl _
  | cons letter letters ih =>
    cases cs with
    | nil => simp [readLetters] at h
    | cons c cs =>
      rw [readLetters] at h
      split at h
      · exact Nat.le_succ_of_le (ih h)
      · simp at h

/-- Read the rest of a literal whose first character is read already. -/
def readLiteral (value : Json) (letters : String) (cs : List Char) :
    Json × Option { rest : List Char // rest.length ≤ cs.length } :=
  match h : readLetters letters.toList cs with
  | .ok rest => (value, some ⟨rest, length_readLetters h⟩)
  | .error defect => (.broken defect, none)

/-- Read a string whose opening quote is read already. -/
def readStringToken (cs : List Char) : StringToken × Rest cs :=
  let value := (readString cs).map String.ofList
  match h : skipString cs with
  | .ok rest => (⟨value, none⟩, some ⟨rest, length_skipString h⟩)
  | .error defect => (⟨value, some defect⟩, none)

/-- Read a number. -/
def readNumberToken (cs : List Char) : NumberToken × Rest cs :=
  match h : scanNumber cs with
  | .ok (p, rest) => (⟨readingDefect (.ok (p, rest)), none⟩, some ⟨rest, length_scanNumber h⟩)
  | .error m => (⟨readingDefect (.error m), some .malformed⟩, none)

mutual

/-- Read a value. -/
def readValue (cs : List Char) : Json × Rest cs :=
  match h : skipSpace cs with
  | [] => (.broken .truncated, none)
  | c :: rest =>
    have hlt : rest.length < cs.length := length_lt_of_skipSpace h
    if c = '[' then
      let r := readItems rest
      (.list r.1, r.2.widen (Nat.le_of_lt hlt))
    else if c = '\x7b' then
      let r := readMembers rest
      (.object r.1, r.2.widen (Nat.le_of_lt hlt))
    else if c = '"' then
      let r := readStringToken rest
      (.string r.1, r.2.widen (Nat.le_of_lt hlt))
    else if c = '-' ∨ c.isDigit then
      let r := readNumberToken (c :: rest)
      (.number r.1, r.2.widen (h ▸ length_skipSpace cs))
    else if c = 'n' ∨ c = 't' ∨ c = 'f' then
      let r :=
        if c = 'n' then readLiteral .null "ull" rest
        else if c = 't' then readLiteral (.bool true) "rue" rest
        else readLiteral (.bool false) "alse" rest
      (r.1, r.2.map fun t => ⟨t.1, Nat.lt_of_le_of_lt t.2 hlt⟩)
    else (.broken .malformed, none)
termination_by (cs.length, 0)

/-- Read the items of a list whose opening bracket is read already. -/
def readItems (cs : List Char) : Items × Rest cs :=
  match h : skipSpace cs with
  | [] => (.broken .truncated, none)
  | c :: rest =>
    if c = ']' then (.done, some ⟨rest, length_lt_of_skipSpace h⟩)
    else readItem cs
termination_by (cs.length, 2)

/-- Read an item and those after it. -/
def readItem (cs : List Char) : Items × Rest cs :=
  match readValue cs with
  | (value, none) => (.item value .done, none)
  | (value, some rest) =>
    let r := readMoreItems rest.1
    (.item value r.1, r.2.widen (Nat.le_of_lt rest.2))
termination_by (cs.length, 1)

/-- Read what comes after an item. -/
def readMoreItems (cs : List Char) : Items × Rest cs :=
  match h : skipSpace cs with
  | [] => (.broken .truncated, none)
  | c :: rest =>
    have hlt : rest.length < cs.length := length_lt_of_skipSpace h
    if c = ']' then (.done, some ⟨rest, hlt⟩)
    else if c = ',' then
      let r := readItem rest
      (r.1, r.2.widen (Nat.le_of_lt hlt))
    else (.broken .malformed, none)
termination_by (cs.length, 0)

/-- Read the members of an object whose opening brace is read already. -/
def readMembers (cs : List Char) : Members × Rest cs :=
  match h : skipSpace cs with
  | [] => (.broken .truncated, none)
  | c :: rest =>
    if c = '\x7d' then (.done, some ⟨rest, length_lt_of_skipSpace h⟩)
    else readMember cs
termination_by (cs.length, 2)

/-- Read a member and those after it. -/
def readMember (cs : List Char) : Members × Rest cs :=
  match h : skipSpace cs with
  | [] => (.broken .truncated, none)
  | c :: rest =>
    have hlt : rest.length < cs.length := length_lt_of_skipSpace h
    if c = '"' then
      match readStringToken rest with
      | (key, none) => (.member key (.broken .malformed) .done, none)
      | (key, some rest₁) =>
        match h₁ : skipSpace rest₁.1 with
        | [] => (.member key (.broken .truncated) .done, none)
        | c₁ :: rest₂ =>
          have hlt₁ : rest₂.length < cs.length :=
            Nat.lt_trans (length_lt_of_skipSpace h₁) (Nat.lt_trans rest₁.2 hlt)
          if c₁ = ':' then
            match readValue rest₂ with
            | (value, none) => (.member key value .done, none)
            | (value, some rest₃) =>
              have hlt₂ : rest₃.1.length < cs.length := Nat.lt_trans rest₃.2 hlt₁
              let r := readMoreMembers rest₃.1
              (.member key value r.1, r.2.widen (Nat.le_of_lt hlt₂))
          else (.member key (.broken .malformed) .done, none)
    else (.broken .malformed, none)
termination_by (cs.length, 1)

/-- Read what comes after a member. -/
def readMoreMembers (cs : List Char) : Members × Rest cs :=
  match h : skipSpace cs with
  | [] => (.broken .truncated, none)
  | c :: rest =>
    have hlt : rest.length < cs.length := length_lt_of_skipSpace h
    if c = '\x7d' then (.done, some ⟨rest, hlt⟩)
    else if c = ',' then
      let r := readMember rest
      (r.1, r.2.widen (Nat.le_of_lt hlt))
    else (.broken .malformed, none)
termination_by (cs.length, 0)

end

end Enabledness.Json
