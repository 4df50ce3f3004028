import Enabledness.Procedure

/-!
# Reading a procedure

The text of a procedure, read line by line.  Blanks, commas, parentheses, semicolons and `&` divide the
words of a line, and the words say what the line does; only the type in a declaration is taken as it
stands.

* `readProcedure?` : the lines between the braces.
* `readLine?_indented` : a line is read from its text, if its names are words and its types have no line
  break.
* `readProcedure?_eq` : so is a list of lines between a heading and a closing brace.
-/

namespace Enabledness

namespace Procedure

/-! ## Words -/

/-- The character stands between words. -/
def isBreak (c : Char) : Bool := decide (c ∈ [' ', ',', '(', ')', ';', '&', '\n'])

/-- A word: one or more characters, none of which stands between words. -/
structure IsWord (w : List Char) : Prop where
  ne_nil : w ≠ []
  not_break : ∀ c ∈ w, isBreak c = false

instance (w : List Char) : Decidable (IsWord w) :=
  decidable_of_iff (w ≠ [] ∧ w.any isBreak = false)
    ⟨fun h => ⟨h.1, fun c hc => by simpa using List.any_eq_false.1 h.2 c hc⟩,
      fun h => ⟨h.ne_nil, List.any_eq_false.2 fun c hc => by simp [h.not_break c hc]⟩⟩

/-- The words of a line. -/
def words (cs : List Char) : List (List Char) := (cs.splitOnP isBreak).filter (· ≠ [])

section Words

variable {c : Char} (hc : isBreak c = true) {w : List Char}

include hc

/-- A break divides the words before it from those after it. -/
theorem words_append_break (cs rest : List Char) : words (cs ++ c :: rest) = words cs ++ words rest := by
  unfold words
  rw [List.splitOnP_append_cons cs rest hc, List.filter_append]

theorem words_cons_break (rest : List Char) : words (c :: rest) = words rest := by
  have h := words_append_break hc [] rest
  rwa [List.nil_append, show words [] = [] from rfl, List.nil_append] at h

/-- A word up to a break is one of the words. -/
theorem words_word_append (hw : IsWord w) (rest : List Char) :
    words (w ++ c :: rest) = w :: words rest := by
  rw [words_append_break hc]
  have hone : words w = [w] := by
    unfold words
    rw [List.splitOnP_eq_singleton hw.not_break]
    simp [hw.ne_nil]
  rw [hone, List.singleton_append]

omit hc in
/-- Breaks in front of a text make no words. -/
theorem words_append_breaks (sep : List Char) (hsep : sep.all isBreak = true)
    (rest : List Char) : words (sep ++ rest) = words rest := by
  induction sep with
  | nil => rfl
  | cons c sep ih =>
    rw [List.all_cons, Bool.and_eq_true] at hsep
    rw [List.cons_append, words_cons_break hsep.1, ih hsep.2]

/-- Words with a separator in front of each. -/
theorem words_flatMap_append {sep : List Char} (hsep : sep.all isBreak = true) (hne : sep ≠ [])
    {l : List (List Char)} (hl : ∀ w ∈ l, IsWord w) (rest : List Char) :
    words (l.flatMap (sep ++ ·) ++ c :: rest) = l ++ words rest := by
  induction l with
  | nil => rw [List.flatMap_nil, List.nil_append, words_cons_break hc, List.nil_append]
  | cons w l ih =>
    obtain ⟨hw, hl⟩ := List.forall_mem_cons.1 hl
    rw [List.flatMap_cons, List.append_assoc, List.append_assoc, words_append_breaks sep hsep,
      List.cons_append]
    -- the word ends at the next separator, or at the character after the list
    cases l with
    | nil =>
      rw [List.flatMap_nil, List.nil_append, words_word_append hc hw]
      rfl
    | cons w' l =>
      obtain ⟨d, sep, rfl⟩ := List.exists_cons_of_ne_nil hne
      have hd := List.all_eq_true.1 hsep d List.mem_cons_self
      rw [← ih hl, List.flatMap_cons, List.append_assoc, List.append_assoc, List.cons_append,
        words_word_append hd hw, words_cons_break hd]

/-- Words with a separator between them. -/
theorem words_intercalate_append {sep : List Char} (hsep : sep.all isBreak = true)
    (hne : sep ≠ []) {l : List (List Char)} (hl : ∀ w ∈ l, IsWord w) (rest : List Char) :
    words (sep.intercalate l ++ c :: rest) = l ++ words rest := by
  have hfront : ∀ w l, sep ++ sep.intercalate (w :: l) = (w :: l).flatMap (sep ++ ·) := by
    intro w l
    induction l generalizing w with
    | nil => simp
    | cons w' l ih => rw [List.intercalate_cons_cons, List.flatMap_cons, ← ih w', List.append_assoc,
        List.append_assoc]
  cases l with
  | nil => rw [List.intercalate_nil, List.nil_append, words_cons_break hc, List.nil_append]
  | cons w l =>
    rw [← words_append_breaks sep hsep, ← List.append_assoc, hfront, words_flatMap_append hc hsep hne hl]

end Words

/-! ## Variables and literals -/

/-- Read a number. -/
def readNumber? (cs : List Char) : Option Nat :=
  if cs ≠ [] ∧ cs.all Char.isDigit then some (Nat.ofDigitChars 10 cs 0) else none

/-- Read a variable. -/
def readVar? : List Char → Option Var
  | ['$', 'i', 'n', 'v'] => some .inv
  | ['$', 'r', 'e', 't'] => some .ret
  | '$' :: 'p' :: 'r' :: 'e' :: cs => (readNumber? cs).map .pre
  | '$' :: 'a' :: cs => do
    let k ← readNumber? (cs.takeWhile (· ≠ '_'))
    let i ← readNumber? ((cs.dropWhile (· ≠ '_')).drop 1)
    return .arg k i
  | _ => none

/-- Read a literal. -/
def readLiteral? : List Char → Option Literal
  | '!' :: cs => (readVar? cs).map (⟨false, ·⟩)
  | cs => (readVar? cs).map (⟨true, ·⟩)

theorem readNumber?_toDigits (n : Nat) : readNumber? (Nat.toDigits 10 n) = some n := by
  have hdigits : (Nat.toDigits 10 n).all Char.isDigit = true :=
    List.all_eq_true.2 fun c hc => Nat.isDigit_of_mem_toDigits (by decide) (by decide) hc
  rw [readNumber?, if_pos ⟨Nat.toDigits_ne_nil, hdigits⟩, Nat.ofDigitChars_ten_toDigits]

/-- A variable is read back from its text. -/
theorem readVar?_text (x : Var) : readVar? x.text.toList = some x := by
  cases x with
  | inv => rfl
  | ret => rfl
  | pre k => simp [Var.text, readVar?, readNumber?_toDigits]
  | arg k i =>
    have hk : ∀ c ∈ Nat.toDigits 10 k, decide (c ≠ '_') = true := by
      intro c hc
      rw [decide_eq_true_iff]
      rintro rfl
      exact Nat.underscore_not_in_toDigits hc
    have hchars : (Var.arg k i).text.toList =
        '$' :: 'a' :: (Nat.toDigits 10 k ++ '_' :: Nat.toDigits 10 i) := by
      simp [Var.text]
    rw [hchars, readVar?, List.takeWhile_append_of_pos hk, List.dropWhile_append_of_pos hk]
    simp [readNumber?_toDigits]

/-- A literal is read back from its text. -/
theorem readLiteral?_text (l : Literal) : readLiteral? l.text.toList = some l := by
  have hvar : ∀ x : Var, ∃ cs, x.text.toList = '$' :: cs := by
    intro x
    cases x with
    | inv => exact ⟨_, rfl⟩
    | ret => exact ⟨_, rfl⟩
    | pre k => exact ⟨_, by simp [Var.text]; rfl⟩
    | arg k i => exact ⟨_, by simp [Var.text]; rfl⟩
  obtain ⟨positive, x⟩ := l
  cases positive with
  | false => simp [Literal.text, readLiteral?, readVar?_text]
  | true =>
    obtain ⟨cs, hcs⟩ := hvar x
    have hread := readVar?_text x
    rw [hcs] at hread
    simp [Literal.text, hcs, readLiteral?, hread]

/-- The character is a letter, a digit, `$` or `_`. -/
def isNameChar (c : Char) : Bool := c.isAlphanum || c == '$' || c == '_'

/-- Variables are written with letters, digits, `$` and `_`. -/
theorem isNameChar_of_mem_text {x : Var} {c : Char} (hc : c ∈ x.text.toList) : isNameChar c = true := by
  have hdigits : ∀ n, (Nat.toDigits 10 n).all isNameChar = true := by
    intro n
    refine List.all_eq_true.2 fun d hd => ?_
    have hdigit : d.isDigit = true := Nat.isDigit_of_mem_toDigits (by decide) (by decide) hd
    simp [isNameChar, Char.isAlphanum, hdigit]
  have hall : x.text.toList.all isNameChar = true := by
    cases x with
    | inv => decide
    | ret => decide
    | pre k => simp [Var.text, hdigits]; decide
    | arg k i => simp [Var.text, hdigits]; decide
  exact List.all_eq_true.1 hall c hc

theorem isBreak_eq_false_of_isNameChar {c : Char} (hc : isNameChar c = true) : isBreak c = false := by
  rw [isBreak, decide_eq_false_iff_not]
  intro hmem
  have hnone : [' ', ',', '(', ')', ';', '&', '\n'].any isNameChar = false := by decide
  exact List.any_eq_false.1 hnone c hmem hc

/-- The text of a variable is a word. -/
theorem isWord_var (x : Var) : IsWord x.text.toList := by
  refine ⟨fun hnil => ?_, fun c hc => isBreak_eq_false_of_isNameChar (isNameChar_of_mem_text hc)⟩
  have hread := readVar?_text x
  rw [hnil] at hread
  simp [readVar?] at hread

/-- The text of a literal is a word. -/
theorem isWord_literal (l : Literal) : IsWord l.text.toList := by
  obtain ⟨positive, x⟩ := l
  have hx := isWord_var x
  cases positive with
  | true => simpa [Literal.text] using hx
  | false =>
    have hchars : (Literal.text ⟨false, x⟩).toList = '!' :: x.text.toList := by simp [Literal.text]
    rw [hchars]
    exact ⟨List.cons_ne_nil _ _, List.forall_mem_cons.2 ⟨by decide, hx.not_break⟩⟩

/-! ## Lines -/

/-- Read what is asserted. -/
def readAssertion? (completion : Completion) : List String → Option Line
  | ["!", "true"] => some (.assertNotAll completion [])
  | "!" :: literals => (literals.mapM fun w => readLiteral? w.toList).map (.assertNotAll completion)
  | [literal] => (readLiteral? literal.toList).map (.assert completion)
  | _ => none

/-- Read a line that is no declaration from its words. -/
def readWords? : List String → Option Line
  | [] => some .blank
  | ["assume", "this", "!=", "null"] => some .assumeReceiver
  | ["assume", "$Exception", "==", "null"] => some .assumeReturned
  | ["assume", "$Exception", "!=", "null"] => some .assumeThrown
  | ["assume", literal] => (readLiteral? literal.toList).map .assume
  | ["$Exception", ":=", "null"] => some .clearException
  | "havoc" :: vars => (vars.mapM fun w => readVar? w.toList).map .havoc
  | "call" :: x :: ":=" :: name :: "this" :: args => do
    let x ← readVar? x.toList
    let args ← args.mapM fun w => readVar? w.toList
    return .call (some x) name args
  | "call" :: name :: "this" :: args =>
    (args.mapM fun w => readVar? w.toList).map (.call none name)
  | "assert" :: "\x7b:exceptional_path\x7d" :: rest => readAssertion? .exceptional rest
  | "assert" :: rest => readAssertion? .normal rest
  | _ => none

/-- Read a declaration after its keyword.  The type ends at the semicolon that ends the line. -/
def readDeclaration? (cs : List Char) : Option Line := do
  let x ← readVar? (cs.takeWhile (· ≠ ':'))
  return .declare x (String.ofList ((cs.dropWhile (· ≠ ':')).drop 2).dropLast)

/-- Read a line. -/
def readLine? (cs : List Char) : Option Line :=
  match cs.dropWhile (· = ' ') with
  | 'v' :: 'a' :: 'r' :: ' ' :: rest => readDeclaration? rest
  | cs => readWords? ((words cs).map String.ofList)

/-- A line can be read back: the name of a procedure is a word, and a type has no line break. -/
def Line.IsPlain : Line → Prop
  | declare _ type => '\n' ∉ type.toList
  | call _ procedure _ => IsWord procedure.toList
  | _ => True

/-- A list is read back if each of its members is. -/
theorem mapM_map_eq_some {α β : Type} {f : α → β} {g : β → Option α} {l : List α}
    (h : ∀ a ∈ l, g (f a) = some a) : (l.map f).mapM g = some l := by
  induction l with
  | nil => rfl
  | cons a l ih =>
    obtain ⟨ha, hl⟩ := List.forall_mem_cons.1 h
    simp [ha, ih hl]

theorem mapM_readVar? (vars : List Var) :
    ((vars.map Var.text).mapM fun w => readVar? w.toList) = some vars :=
  mapM_map_eq_some (g := fun w : String => readVar? w.toList) fun x _ => readVar?_text x

theorem mapM_readLiteral? (literals : List Literal) :
    ((literals.map Literal.text).mapM fun w => readLiteral? w.toList) = some literals :=
  mapM_map_eq_some (g := fun w : String => readLiteral? w.toList) fun l _ => readLiteral?_text l

/-- A declaration is read back, whatever its type is: the type reaches up to the semicolon that ends the
line. -/
theorem readLine?_declare (x : Var) (type : String) :
    readLine? (' ' :: ' ' :: (Line.declare x type).text.toList) = some (.declare x type) := by
  have hx : ∀ c ∈ x.text.toList, decide (c ≠ ':') = true := by
    intro c hc
    rw [decide_eq_true_iff]
    rintro rfl
    exact absurd (isNameChar_of_mem_text hc) (by decide)
  have hchars : (Line.declare x type).text.toList =
      'v' :: 'a' :: 'r' :: ' ' :: (x.text.toList ++ ':' :: ' ' :: (type.toList ++ [';'])) := by
    simp [Line.text]
  have hread : readLine? (' ' :: ' ' :: (Line.declare x type).text.toList) =
      readDeclaration? (x.text.toList ++ ':' :: ' ' :: (type.toList ++ [';'])) := by
    rw [hchars]
    rfl
  rw [hread, readDeclaration?, List.takeWhile_append_of_pos hx, List.dropWhile_append_of_pos hx]
  simp [readVar?_text]

/-- A line that starts with another letter than a declaration is read by its words. -/
theorem readLine?_of_words {text : String} {ws : List String} {c : Char} {cs : List Char}
    (hhead : text.toList = c :: cs) (hc : c ∈ ['a', 'c', 'h'])
    (hwords : words text.toList = ws.map String.toList) :
    readLine? (' ' :: ' ' :: text.toList) = readWords? ws := by
  have hread : readLine? (' ' :: ' ' :: text.toList) =
      readWords? ((words text.toList).map String.ofList) := by
    rw [hhead]
    simp only [List.mem_cons, List.not_mem_nil, or_false] at hc
    rcases hc with rfl | rfl | rfl
    all_goals rfl
  rw [hread, hwords, List.map_map]
  congr 1
  exact (List.map_congr_left fun w _ => String.ofList_toList).trans (List.map_id ws)

/-- An assumption is read back. -/
theorem readLine?_assume (l : Literal) :
    readLine? (' ' :: ' ' :: (Line.assume l).text.toList) = some (.assume l) := by
  have hchars : (Line.assume l).text.toList = "assume".toList ++ ' ' :: (l.text.toList ++ ';' :: []) := by
    simp [Line.text]
  have hwords : words (Line.assume l).text.toList = ["assume", l.text].map String.toList := by
    rw [hchars, words_word_append (by decide) (by decide), words_word_append (by decide) (isWord_literal l)]
    rfl
  rw [readLine?_of_words (hchars.trans rfl) (by decide) hwords]
  simp [readWords?, readLiteral?_text]

/-- A choice of new values is read back, with all its variables. -/
theorem readLine?_havoc (vars : List Var) :
    readLine? (' ' :: ' ' :: (Line.havoc vars).text.toList) = some (.havoc vars) := by
  have hchars : (Line.havoc vars).text.toList = "havoc".toList ++ ' ' ::
      ([',', ' '].intercalate ((vars.map Var.text).map String.toList) ++ ';' :: []) := by
    simp [Line.text]
  have hwords : words (Line.havoc vars).text.toList =
      ("havoc" :: vars.map Var.text).map String.toList := by
    rw [hchars, words_word_append (by decide) (by decide),
      words_intercalate_append (by decide) (by decide) (by decide) (by simp [isWord_var]),
      show words [] = [] from rfl, List.append_nil]
    rfl
  rw [readLine?_of_words (hchars.trans rfl) (by decide) hwords, readWords?,
    mapM_readVar?]
  rfl

/-- A call is read back if the name of the procedure is a word; the third word of the line is `:=` if there
is a result, and `this` if there is none. -/
theorem readLine?_call (result : Option Var) {name : String} (hname : IsWord name.toList)
    (args : List Var) :
    readLine? (' ' :: ' ' :: (Line.call result name args).text.toList) =
      some (.call result name args) := by
  have hend : words (name.toList ++ '(' :: ("this".toList ++
      (((args.map Var.text).map String.toList).flatMap ([',', ' '] ++ ·) ++ ')' :: [';']))) =
      (name :: "this" :: args.map Var.text).map String.toList := by
    have hargs : ∀ w ∈ "this".toList :: (args.map Var.text).map String.toList, IsWord w := by
      simp [isWord_var]
      decide
    rw [words_word_append (by decide) hname, ← words_append_breaks [',', ' '] (by decide),
      ← List.append_assoc, ← List.append_assoc, ← List.flatMap_cons (f := ([',', ' '] ++ ·)),
      words_flatMap_append (by decide) (by decide) (by decide) hargs, show words [';'] = [] from rfl,
      List.append_nil]
    rfl
  cases result with
  | none =>
    have hchars : (Line.call none name args).text.toList = "call".toList ++ ' ' :: (name.toList ++ '(' ::
        ("this".toList ++
          (((args.map Var.text).map String.toList).flatMap ([',', ' '] ++ ·) ++ ')' :: [';']))) := by
      simp [Line.text, List.flatMap_map]
    have hwords : words (Line.call none name args).text.toList =
        ("call" :: name :: "this" :: args.map Var.text).map String.toList := by
      rw [hchars, words_word_append (by decide) (by decide), hend]
      rfl
    rw [readLine?_of_words (hchars.trans rfl) (by decide) hwords, readWords?,
      mapM_readVar?]
    rfl
  | some x =>
    have hchars : (Line.call (some x) name args).text.toList = "call".toList ++ ' ' :: (x.text.toList ++
        ' ' :: (":=".toList ++ ' ' :: (name.toList ++ '(' :: ("this".toList ++
          (((args.map Var.text).map String.toList).flatMap ([',', ' '] ++ ·) ++ ')' :: [';']))))) := by
      simp [Line.text, List.flatMap_map]
    have hwords : words (Line.call (some x) name args).text.toList =
        ("call" :: x.text :: ":=" :: name :: "this" :: args.map Var.text).map String.toList := by
      rw [hchars, words_word_append (by decide) (by decide), words_word_append (by decide) (isWord_var x),
        words_word_append (by decide) (by decide), hend]
      rfl
    rw [readLine?_of_words (hchars.trans rfl) (by decide) hwords, readWords?, readVar?_text,
      mapM_readVar?]
    rfl

/-- The words that open an assertion. -/
def assertWords : Completion → List String
  | .normal => ["assert"]
  | .exceptional => ["assert", "\x7b:exceptional_path\x7d"]

/-- The word that opens an assertion says how the call is to complete. -/
theorem words_assertWord (completion : Completion) (cs : List Char) :
    words ((assertWord completion).toList ++ ' ' :: cs) =
      (assertWords completion).map String.toList ++ words cs := by
  cases completion with
  | normal => exact words_word_append (by decide) (by decide) cs
  | exceptional =>
    have hchars : (assertWord .exceptional).toList ++ ' ' :: cs =
        "assert".toList ++ ' ' :: ("\x7b:exceptional_path\x7d".toList ++ ' ' :: cs) := by
      rfl
    rw [hchars, words_word_append (by decide) (by decide), words_word_append (by decide) (by decide)]
    rfl

/-- A line that opens as an assertion is read as one, with the completion that its first words name. -/
theorem readLine?_of_assert {text : String} {completion : Completion} {cs : List Char} {ws : List String}
    (hchars : text.toList = (assertWord completion).toList ++ ' ' :: cs)
    (hwords : words cs = ws.map String.toList) (hws : ws.head? ≠ some "\x7b:exceptional_path\x7d") :
    readLine? (' ' :: ' ' :: text.toList) = readAssertion? completion ws := by
  have hall : words text.toList = (assertWords completion ++ ws).map String.toList := by
    rw [hchars, words_assertWord, hwords, List.map_append]
  obtain ⟨cs', hhead⟩ : ∃ cs', text.toList = 'a' :: cs' := by
    cases completion with
    | normal => exact ⟨_, hchars.trans rfl⟩
    | exceptional => exact ⟨_, hchars.trans rfl⟩
  rw [readLine?_of_words hhead (by decide) hall]
  cases completion with
  | normal =>
    cases ws with
    | nil => rfl
    | cons w ws =>
      have hw : w ≠ "\x7b:exceptional_path\x7d" := fun h => hws (congrArg some h)
      simp [assertWords, readWords?, hw]
  | exceptional => rfl

theorem text_ne_of_unreadable (l : Literal) {w : String} (h : readLiteral? w.toList = none) :
    l.text ≠ w := by
  rintro rfl
  rw [readLiteral?_text] at h
  simp at h

theorem readAssertion?_literal {completion : Completion} {w : String} (hw : w ≠ "!") :
    readAssertion? completion [w] = (readLiteral? w.toList).map (.assert completion) := by
  unfold readAssertion?
  split
  · simp_all
  · simp_all
  · simp_all
  · simp_all

/-- An assertion of a literal is read back. -/
theorem readLine?_assert (completion : Completion) (l : Literal) :
    readLine? (' ' :: ' ' :: (Line.assert completion l).text.toList) = some (.assert completion l) := by
  have hchars : (Line.assert completion l).text.toList =
      (assertWord completion).toList ++ ' ' :: (l.text.toList ++ ';' :: []) := by
    simp [Line.text]
  have hwords : words (l.text.toList ++ ';' :: []) = [l.text].map String.toList :=
    words_word_append (by decide) (isWord_literal l) []
  have hmark := text_ne_of_unreadable l (w := "!") rfl
  have hpath := text_ne_of_unreadable l (w := "\x7b:exceptional_path\x7d") rfl
  rw [readLine?_of_assert hchars hwords (by simpa using hpath), readAssertion?_literal hmark,
    readLiteral?_text]
  rfl

/-- An assertion that not all literals hold is read back; without literals it says `true`. -/
theorem readLine?_assertNotAll (completion : Completion) (ls : List Literal) :
    readLine? (' ' :: ' ' :: (Line.assertNotAll completion ls).text.toList) =
      some (.assertNotAll completion ls) := by
  cases ls with
  | nil =>
    have hchars : (Line.assertNotAll completion []).text.toList =
        (assertWord completion).toList ++ ' ' :: "!(true);".toList := by
      simp [Line.text]
    have hwords : words "!(true);".toList = ["!", "true"].map String.toList := rfl
    rw [readLine?_of_assert hchars hwords (by decide)]
    rfl
  | cons l ls =>
    have hchars : (Line.assertNotAll completion (l :: ls)).text.toList =
        (assertWord completion).toList ++ ' ' :: ("!".toList ++ '(' ::
          ([' ', '&', '&', ' '].intercalate (((l :: ls).map Literal.text).map String.toList) ++
            ')' :: [';'])) := by
      simp [Line.text]
    have hwords : words ("!".toList ++ '(' ::
        ([' ', '&', '&', ' '].intercalate (((l :: ls).map Literal.text).map String.toList) ++
          ')' :: [';'])) = ("!" :: (l :: ls).map Literal.text).map String.toList := by
      rw [words_word_append (by decide) (by decide),
        words_intercalate_append (by decide) (by decide) (by decide) (by simp [isWord_literal]),
        show words [';'] = [] from rfl, List.append_nil]
      rfl
    have htrue := text_ne_of_unreadable l (w := "true") rfl
    have hread : readAssertion? completion ("!" :: (l :: ls).map Literal.text) =
        (((l :: ls).map Literal.text).mapM fun w => readLiteral? w.toList).map
          (.assertNotAll completion) := by
      cases ls with
      | nil => simp [readAssertion?, htrue]
      | cons l' ls => simp [readAssertion?]
    rw [readLine?_of_assert hchars hwords (by simp), hread, mapM_readLiteral?]
    rfl

/-- **Lines are read back**, if their names are words. -/
theorem readLine?_text (l : Line) (h : l.IsPlain) : readLine? (' ' :: ' ' :: l.text.toList) = some l := by
  cases l with
  | declare x type => exact readLine?_declare x type
  | blank => rfl
  | assumeReceiver => rfl
  | assumeReturned => rfl
  | assumeThrown => rfl
  | clearException => rfl
  | assume l => exact readLine?_assume l
  | havoc vars => exact readLine?_havoc vars
  | call result name args => exact readLine?_call result h args
  | assert completion l => exact readLine?_assert completion l
  | assertNotAll completion ls => exact readLine?_assertNotAll completion ls

/-! ## Procedures -/

/-- The lines between a line that opens a brace and one that closes it. -/
def between (lines : List (List Char)) : List (List Char) :=
  ((lines.dropWhile (· ≠ ['\x7b'])).drop 1).takeWhile (· ≠ ['\x7d'])

/-- Read the body of a procedure. -/
def readProcedure? (text : String) : Option (List Line) :=
  (between (text.toList.splitOn '\n')).mapM readLine?

/-- The lines between the braces are found, if no heading opens a brace and no line inside closes one. -/
theorem between_append {heading inside : List (List Char)} (hheading : ∀ line ∈ heading, line ≠ ['\x7b'])
    (hinside : ∀ line ∈ inside, line ≠ ['\x7d']) (rest : List (List Char)) :
    between (heading ++ ['\x7b'] :: (inside ++ ['\x7d'] :: rest)) = inside := by
  have hskip : ∀ line ∈ heading, decide (line ≠ ['\x7b']) = true := fun line hline =>
    decide_eq_true (hheading line hline)
  have htake : ∀ line ∈ inside, decide (line ≠ ['\x7d']) = true := fun line hline =>
    decide_eq_true (hinside line hline)
  rw [between, List.dropWhile_append_of_pos hskip, List.dropWhile_cons_of_neg (by simp),
    List.drop_succ_cons, List.drop_zero, List.takeWhile_append_of_pos htake,
    List.takeWhile_cons_of_neg (by simp), List.append_nil]

/-- The characters of a line, without its line break. -/
def Line.chars : Line → List Char
  | blank => []
  | l => ' ' :: ' ' :: l.text.toList

/-- A line with its indentation and its line break. -/
theorem Line.toList_indented (l : Line) : l.indented.toList = l.chars ++ ['\n'] := by
  cases l
  all_goals simp [Line.indented, Line.chars]

theorem flatMap_indented (lines : List Line) :
    (lines.map Line.indented).flatMap String.toList =
      (lines.map Line.chars).flatMap (· ++ ['\n']) := by
  rw [List.flatMap_map, List.flatMap_map]
  congr 1
  funext l
  exact l.toList_indented

/-- An empty line, which is not indented, is read back too. -/
theorem readLine?_chars {l : Line} (h : l.IsPlain) : readLine? l.chars = some l := by
  cases l with
  | blank => rfl
  | _ => exact readLine?_text _ h

theorem IsWord.newline_not_mem {w : List Char} (h : IsWord w) : '\n' ∉ w :=
  fun hmem => absurd (h.not_break _ hmem) (by decide)

theorem not_mem_intercalate {c : Char} {sep : List Char} {l : List (List Char)} (hsep : c ∉ sep)
    (hl : ∀ w ∈ l, c ∉ w) : c ∉ sep.intercalate l := by
  induction l with
  | nil => simp
  | cons w l ih =>
    obtain ⟨hw, hl⟩ := List.forall_mem_cons.1 hl
    cases l with
    | nil => simpa using hw
    | cons w' l =>
      rw [List.intercalate_cons_cons]
      simp [hw, hsep, ih hl]

/-- No line breaks inside. -/
theorem Line.newline_not_mem_chars {l : Line} (h : l.IsPlain) : '\n' ∉ l.chars := by
  have hvar : ∀ x : Var, '\n' ∉ x.text.toList := fun x => (isWord_var x).newline_not_mem
  have hliteral : ∀ l : Literal, '\n' ∉ l.text.toList := fun l => (isWord_literal l).newline_not_mem
  have hassert : ∀ c : Completion, '\n' ∉ (assertWord c).toList := by
    intro c
    cases c
    all_goals decide
  cases l with
  | declare x type =>
    have htype : '\n' ∉ type.toList := h
    simp [Line.chars, Line.text, hvar, htype]
  | call result name args =>
    have hname : '\n' ∉ name.toList := IsWord.newline_not_mem h
    cases result with
    | none => simp [Line.chars, Line.text, hvar, hname]
    | some x => simp [Line.chars, Line.text, hvar, hname]
  | havoc vars =>
    have hvars : '\n' ∉ [',', ' '].intercalate ((vars.map Var.text).map String.toList) :=
      not_mem_intercalate (by decide) (by simpa using fun x _ => hvar x)
    rw [List.map_map] at hvars
    simpa [Line.chars, Line.text] using hvars
  | assertNotAll completion ls =>
    have hls : '\n' ∉ [' ', '&', '&', ' '].intercalate ((ls.map Literal.text).map String.toList) :=
      not_mem_intercalate (by decide) (by simpa using fun l _ => hliteral l)
    rw [List.map_map] at hls
    by_cases hnone : ls = []
    · simp [Line.chars, Line.text, hassert, hnone]
    · simpa [Line.chars, Line.text, hassert, hnone] using hls
  | _ => simp [Line.chars, Line.text, hliteral, hassert]

/-- Lines with a line break after each. -/
theorem splitOn_flatMap_append {l : List (List Char)} (hl : ∀ line ∈ l, '\n' ∉ line) (rest : List Char) :
    (l.flatMap (· ++ ['\n']) ++ rest).splitOn '\n' = l ++ rest.splitOn '\n' := by
  induction l with
  | nil => rfl
  | cons line l ih =>
    obtain ⟨hline, hl⟩ := List.forall_mem_cons.1 hl
    rw [List.flatMap_cons, List.append_assoc, List.append_assoc, List.singleton_append,
      List.splitOn_append_cons_self_of_not_mem hline, ih hl, List.cons_append]

/-- **A procedure is read back.**  The heading is whatever stands before the brace. -/
theorem readProcedure?_eq {text : String} {heading : List (List Char)} {body : List Line}
    (htext : text.toList =
      (heading ++ ['\x7b'] :: (body.map Line.chars ++ [['\x7d']])).flatMap (· ++ ['\n']))
    (hheading : ∀ line ∈ heading, '\n' ∉ line ∧ line ≠ ['\x7b']) (hbody : ∀ l ∈ body, l.IsPlain) :
    readProcedure? text = some body := by
  have hlines : text.toList.splitOn '\n' =
      heading ++ ['\x7b'] :: (body.map Line.chars ++ [['\x7d'], []]) := by
    have hchars : ∀ line ∈ body.map Line.chars, '\n' ∉ line := by
      intro line hline
      obtain ⟨l, hl, rfl⟩ := List.mem_map.1 hline
      exact Line.newline_not_mem_chars (hbody l hl)
    have hall : ∀ line ∈ heading ++ ['\x7b'] :: body.map Line.chars, '\n' ∉ line := by
      refine List.forall_mem_append.2 ⟨fun line hline => (hheading line hline).1, ?_⟩
      exact List.forall_mem_cons.2 ⟨by decide, hchars⟩
    have hflat : text.toList =
        (heading ++ ['\x7b'] :: body.map Line.chars).flatMap (· ++ ['\n']) ++ ['\x7d', '\n'] := by
      rw [htext]
      simp
    rw [hflat, splitOn_flatMap_append hall, List.append_assoc]
    rfl
  have hinside : ∀ line ∈ body.map Line.chars, line ≠ ['\x7d'] := by
    intro line hline
    obtain ⟨l, -, rfl⟩ := List.mem_map.1 hline
    cases l
    all_goals simp [Line.chars]
  rw [readProcedure?, hlines, between_append (fun line hline => (hheading line hline).2) hinside]
  exact mapM_map_eq_some fun l hl => readLine?_chars (hbody l hl)

end Procedure

end Enabledness
