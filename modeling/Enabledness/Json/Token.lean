import Enabledness.Json.Magnitude

/-!
# Strings and numbers in a JSON text

A string or number is read for its value, or it is skipped because nobody wants it.  Skipping is more
lenient: it does not pair surrogates and does not mind the size of a number.  So a token carries both
verdicts.  A defect is either that the text ends too early or that it is not JSON.
-/

namespace Enabledness.Json

/-- What keeps a text from being JSON. -/
inductive Defect where
  /-- The text ends too early. -/
  | truncated
  /-- The text goes on in a way that JSON does not allow. -/
  | malformed
deriving DecidableEq

/-- A string: the text it stands for, and the defect that skipping it meets. -/
structure StringToken where
  /-- The text, or the first defect that reading it meets. -/
  value : Except Defect String
  /-- The first defect that skipping it meets. -/
  skipped : Option Defect

/-- A number: the defects that reading and skipping it meet. -/
structure NumberToken where
  /-- The first defect that reading it meets. -/
  reading : Option Defect
  /-- The first defect that skipping it meets. -/
  skipped : Option Defect
deriving DecidableEq

/-! ## Strings -/

/-- The value of a hexadecimal digit. -/
def hexDigit? (c : Char) : Option Nat :=
  if '0' ≤ c ∧ c ≤ '9' then some (c.toNat - '0'.toNat)
  else if 'a' ≤ c ∧ c ≤ 'f' then some (c.toNat - 'a'.toNat + 10)
  else if 'A' ≤ c ∧ c ≤ 'F' then some (c.toNat - 'A'.toNat + 10)
  else none

/-- The number of bytes that characters take up in UTF-8. -/
def byteCount (cs : List Char) : Nat := cs.foldl (fun n c => n + c.utf8Size) 0

/-- Four hexadecimal digits.  With fewer than four bytes left the text ends too early. -/
def hexUnit (cs : List Char) : Except Defect (Nat × List Char) :=
  match cs with
  | a :: b :: c :: d :: rest =>
    match hexDigit? a, hexDigit? b, hexDigit? c, hexDigit? d with
    | some a, some b, some c, some d => .ok (((a * 16 + b) * 16 + c) * 16 + d, rest)
    | _, _, _, _ => .error .malformed
  | cs => if byteCount cs < 4 then .error .truncated else .error .malformed

theorem length_hexUnit {cs rest : List Char} {n : Nat} (h : hexUnit cs = .ok (n, rest)) :
    rest.length < cs.length := by
  unfold hexUnit at h
  split at h
  · split at h
    · simp only [Except.ok.injEq, Prod.mk.injEq] at h
      obtain ⟨-, rfl⟩ := h
      simp only [List.length_cons]
      omega
    · simp at h
  · split at h <;> simp at h

/-- A unit that opens a pair of surrogates. -/
def isHighSurrogate (n : Nat) : Bool := 0xD800 ≤ n && n ≤ 0xDBFF

/-- A unit that closes a pair of surrogates. -/
def isLowSurrogate (n : Nat) : Bool := 0xDC00 ≤ n && n ≤ 0xDFFF

/-- The character of a pair of surrogates. -/
def pairChar (high low : Nat) : Char :=
  Char.ofNat ((high - 0xD800) * 0x400 + (low - 0xDC00) + 0x10000)

/-- The character of a one-letter escape. -/
def shortEscape? (c : Char) : Option Char :=
  if c = '"' ∨ c = '\\' ∨ c = '/' then some c
  else if c = 'b' then some (Char.ofNat 8)
  else if c = 'f' then some (Char.ofNat 12)
  else if c = 'n' then some '\n'
  else if c = 'r' then some '\r'
  else if c = 't' then some '\t'
  else none

/-- The second half of a pair of surrogates, as an escape of its own. -/
def readLowSurrogate (high : Nat) : List Char → Except Defect (Char × List Char)
  | [] => .error .truncated
  | ['\\'] => .error .truncated
  | '\\' :: 'u' :: rest => do
    let (low, rest) ← hexUnit rest
    if isLowSurrogate low then .ok (pairChar high low, rest) else .error .malformed
  | _ => .error .malformed

/-- The character that an escape stands for; the backslash is read already. -/
def readEscape : List Char → Except Defect (Char × List Char)
  | [] => .error .truncated
  | c :: rest =>
    if c = 'u' then do
      let (n, rest) ← hexUnit rest
      if isLowSurrogate n then .error .malformed
      else if isHighSurrogate n then readLowSurrogate n rest
      else .ok (Char.ofNat n, rest)
    else
      match shortEscape? c with
      | some x => .ok (x, rest)
      | none => .error .malformed

theorem length_readLowSurrogate {high : Nat} {cs rest : List Char} {c : Char}
    (h : readLowSurrogate high cs = .ok (c, rest)) : rest.length < cs.length := by
  unfold readLowSurrogate at h
  split at h
  · simp at h
  · simp at h
  · next tail =>
    cases hu : hexUnit tail with
    | error d => simp [hu, bind, Except.bind] at h
    | ok r =>
      obtain ⟨n, rest'⟩ := r
      have hl := length_hexUnit hu
      simp only [hu, bind, Except.bind] at h
      split at h
      · simp only [Except.ok.injEq, Prod.mk.injEq] at h
        obtain ⟨-, rfl⟩ := h
        simp only [List.length_cons]
        omega
      · simp at h
  · simp at h

theorem length_readEscape {cs rest : List Char} {c : Char} (h : readEscape cs = .ok (c, rest)) :
    rest.length < cs.length := by
  unfold readEscape at h
  split at h
  · simp at h
  · next x tail =>
    split at h
    · cases hu : hexUnit tail with
      | error d => simp [hu, bind, Except.bind] at h
      | ok r =>
        obtain ⟨n, rest'⟩ := r
        have hl := length_hexUnit hu
        simp only [hu, bind, Except.bind] at h
        split at h
        · simp at h
        · split at h
          · have := length_readLowSurrogate h
            simp only [List.length_cons]
            omega
          · simp only [Except.ok.injEq, Prod.mk.injEq] at h
            obtain ⟨-, rfl⟩ := h
            simp only [List.length_cons]
            omega
    · split at h
      · simp only [Except.ok.injEq, Prod.mk.injEq] at h
        obtain ⟨-, rfl⟩ := h
        simp
      · simp at h

/-- The characters of a string up to its closing quote; the opening quote is read already. -/
def readString : List Char → Except Defect (List Char)
  | [] => .error .truncated
  | c :: rest =>
    if c = '"' then .ok []
    else if c = '\\' then
      match _h : readEscape rest with
      | .error d => .error d
      | .ok (x, rest') => (readString rest').map (x :: ·)
    else if c.toNat < 0x20 then .error .malformed
    else (readString rest).map (c :: ·)
termination_by cs => cs.length
decreasing_by
  · have := length_readEscape _h
    simp only [List.length_cons]
    omega
  · simp

/-- Skip an escape; the backslash is read already. -/
def skipEscape : List Char → Except Defect (List Char)
  | [] => .error .truncated
  | c :: rest =>
    if c = 'u' then (hexUnit rest).map Prod.snd
    else if (shortEscape? c).isSome then .ok rest
    else .error .malformed

theorem length_skipEscape {cs rest : List Char} (h : skipEscape cs = .ok rest) :
    rest.length < cs.length := by
  unfold skipEscape at h
  split at h
  · simp at h
  · next x tail =>
    split at h
    · cases hu : hexUnit tail with
      | error d => simp [hu, Except.map] at h
      | ok r =>
        obtain ⟨n, rest'⟩ := r
        have hl := length_hexUnit hu
        simp only [hu, Except.map, Except.ok.injEq] at h
        subst h
        simp only [List.length_cons]
        omega
    · split at h
      · obtain rfl := Except.ok.inj h
        simp
      · simp at h

/-- What comes after the closing quote of a string; the opening quote is read already. -/
def skipString : List Char → Except Defect (List Char)
  | [] => .error .truncated
  | c :: rest =>
    if c = '"' then .ok rest
    else if c = '\\' then
      match _h : skipEscape rest with
      | .error d => .error d
      | .ok rest' => skipString rest'
    else if c.toNat < 0x20 then .error .malformed
    else skipString rest
termination_by cs => cs.length
decreasing_by
  · have := length_skipEscape _h
    simp only [List.length_cons]
    omega
  · simp

theorem length_skipString {cs rest : List Char} (h : skipString cs = .ok rest) :
    rest.length < cs.length := by
  fun_induction skipString cs with
  | case1 => simp at h
  | case2 => simp_all
  | case3 => simp at h
  | case4 rest₀ rest' he _ ih =>
    have := length_skipEscape he
    have := ih h
    simp only [List.length_cons]
    omega
  | case5 => simp at h
  | case6 c rest₀ hq hb hc ih =>
    have := ih h
    simp only [List.length_cons]
    omega

/-! ## Numbers -/

/-- A number in parts: its digits before and after the point, and its exponent. -/
structure NumberParts where
  /-- The digits before the point. -/
  whole : List Char
  /-- The digits after the point. -/
  fraction : List Char
  /-- The sign of the exponent is a minus. -/
  negativeExponent : Bool
  /-- The digits of the exponent. -/
  exponent : List Char
deriving DecidableEq

/-- Digits are missing: because the text ends, or because something else stands there. -/
inductive MissingDigits where
  /-- The text ends. -/
  | atEnd
  /-- Something else stands there. -/
  | elsewhere
deriving DecidableEq

/-- Whether the text ends where digits are missing. -/
def missingDigits (cs : List Char) : MissingDigits := if cs.isEmpty then .atEnd else .elsewhere

/-- The whole part of a number: a zero alone, or digits that do not start with one. -/
def scanWhole : List Char → Except MissingDigits (List Char × List Char)
  | [] => .error .atEnd
  | c :: rest =>
    if c = '0' then
      if (rest.head?.map Char.isDigit).getD false then .error .elsewhere else .ok (['0'], rest)
    else if c.isDigit then .ok (c :: rest.takeWhile Char.isDigit, rest.dropWhile Char.isDigit)
    else .error .elsewhere

/-- The digits after the point, if there is one. -/
def scanFraction : List Char → Except MissingDigits (List Char × List Char)
  | '.' :: rest =>
    let digits := rest.takeWhile Char.isDigit
    let rest := rest.dropWhile Char.isDigit
    if digits.isEmpty then .error (missingDigits rest) else .ok (digits, rest)
  | cs => .ok ([], cs)

/-- The sign of an exponent, if there is one. -/
def scanSign : List Char → Bool × List Char
  | '-' :: rest => (true, rest)
  | '+' :: rest => (false, rest)
  | cs => (false, cs)

/-- The exponent, if there is one. -/
def scanExponent (cs : List Char) : Except MissingDigits (Bool × List Char × List Char) :=
  match cs with
  | [] => .ok (false, [], [])
  | c :: rest =>
    if c = 'e' ∨ c = 'E' then
      let (negative, rest) := scanSign rest
      let digits := rest.takeWhile Char.isDigit
      let rest := rest.dropWhile Char.isDigit
      if digits.isEmpty then .error (missingDigits rest) else .ok (negative, digits, rest)
    else .ok (false, [], cs)

/-- The sign of a number does not matter to what is asked of it. -/
def dropMinus : List Char → List Char
  | '-' :: rest => rest
  | cs => cs

/-- A number and what comes after it. -/
def scanNumber (cs : List Char) : Except MissingDigits (NumberParts × List Char) := do
  let (whole, cs) ← scanWhole (dropMinus cs)
  let (fraction, cs) ← scanFraction cs
  let (negative, exponent, cs) ← scanExponent cs
  return (⟨whole, fraction, negative, exponent⟩, cs)

/-- The significand that a number is read with.  Digits after the point go on where those before it
stopped. -/
def NumberParts.significand (p : NumberParts) : Nat :=
  (appendDigits (appendDigits 0 p.whole).1 p.fraction).1

/-- The exponent of ten that belongs to the significand: the one that is written, raised by each digit
before the point that did not fit and lowered by each digit after the point that did. -/
def NumberParts.scale (p : NumberParts) : Int :=
  let (n, left) := appendDigits 0 p.whole
  let taken := p.fraction.length - (appendDigits n p.fraction).2
  let written : Int := digitsValue p.exponent
  (if p.negativeExponent then -written else written) + left - taken

/-- The number is too large for a double. -/
def NumberParts.overflows (p : NumberParts) : Bool := isTooLarge p.significand p.scale

/-- The defect of a number that is read. -/
def readingDefect : Except MissingDigits (NumberParts × List Char) → Option Defect
  | .error .atEnd => some .truncated
  | .error .elsewhere => some .malformed
  | .ok (p, _) => if p.overflows then some .malformed else none

theorem length_scanWhole {cs digits rest : List Char} (h : scanWhole cs = .ok (digits, rest)) :
    rest.length < cs.length := by
  unfold scanWhole at h
  split at h
  · simp at h
  · next c tail =>
    split at h
    · split at h
      · simp at h
      · simp only [Except.ok.injEq, Prod.mk.injEq] at h
        obtain ⟨-, rfl⟩ := h
        simp
    · split at h
      · simp only [Except.ok.injEq, Prod.mk.injEq] at h
        obtain ⟨-, rfl⟩ := h
        exact Nat.lt_succ_of_le (List.dropWhile_sublist _).length_le
      · simp at h

theorem length_scanFraction {cs digits rest : List Char}
    (h : scanFraction cs = .ok (digits, rest)) : rest.length ≤ cs.length := by
  unfold scanFraction at h
  split at h
  · next tail =>
    simp only at h
    split at h
    · simp at h
    · simp only [Except.ok.injEq, Prod.mk.injEq] at h
      obtain ⟨-, rfl⟩ := h
      exact Nat.le_succ_of_le (List.dropWhile_sublist _).length_le
  · simp only [Except.ok.injEq, Prod.mk.injEq] at h
    obtain ⟨-, rfl⟩ := h
    exact Nat.le_refl _

theorem length_scanSign (cs : List Char) : (scanSign cs).2.length ≤ cs.length := by
  unfold scanSign
  split <;> simp

theorem length_scanExponent {cs digits rest : List Char} {negative : Bool}
    (h : scanExponent cs = .ok (negative, digits, rest)) : rest.length ≤ cs.length := by
  unfold scanExponent at h
  split at h
  · simp only [Except.ok.injEq, Prod.mk.injEq] at h
    obtain ⟨-, -, rfl⟩ := h
    exact Nat.le_refl _
  · next c tail =>
    split at h
    · simp only at h
      split at h
      · simp at h
      · simp only [Except.ok.injEq, Prod.mk.injEq] at h
        obtain ⟨-, -, rfl⟩ := h
        exact Nat.le_succ_of_le
          (Nat.le_trans (List.dropWhile_sublist _).length_le (length_scanSign tail))
    · simp only [Except.ok.injEq, Prod.mk.injEq] at h
      obtain ⟨-, -, rfl⟩ := h
      exact Nat.le_refl _

theorem length_dropMinus (cs : List Char) : (dropMinus cs).length ≤ cs.length := by
  unfold dropMinus
  split <;> simp

/-- A number takes up at least one character. -/
theorem length_scanNumber {cs rest : List Char} {p : NumberParts}
    (h : scanNumber cs = .ok (p, rest)) : rest.length < cs.length := by
  unfold scanNumber at h
  cases hw : scanWhole (dropMinus cs) with
  | error m => simp [hw, bind, Except.bind] at h
  | ok w =>
    obtain ⟨whole, r₁⟩ := w
    cases hf : scanFraction r₁ with
    | error m => simp [hw, hf, bind, Except.bind] at h
    | ok f =>
      obtain ⟨fraction, r₂⟩ := f
      cases he : scanExponent r₂ with
      | error m => simp [hw, hf, he, bind, Except.bind] at h
      | ok x =>
        obtain ⟨negative, exponent, r₃⟩ := x
        simp only [hw, hf, he, bind, Except.bind, pure, Except.pure, Except.ok.injEq,
          Prod.mk.injEq] at h
        obtain ⟨-, rfl⟩ := h
        have h1 := length_scanWhole hw
        have h2 := length_scanFraction hf
        have h3 := length_scanExponent he
        have h4 := length_dropMinus cs
        omega

end Enabledness.Json
