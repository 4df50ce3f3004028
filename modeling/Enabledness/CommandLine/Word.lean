/-!
# Words of a command line

Whether a word is an option, a group of option letters, the end of all options or a plain word, and
which number it stands for.
-/

namespace Enabledness.CommandLine

/-- How a word reads. -/
inductive Word where
  /-- `--`: only plain words follow. -/
  | endOfOptions
  /-- `--name` or `--name=value`. -/
  | long (name : String) (value : Option String)
  /-- `-abc`: one letter for each option. -/
  | short (letters : List Char)
  /-- Any other word, a lone `-` among them. -/
  | plain (text : String)
deriving DecidableEq

/-- The part before the first `=`, and the part after it if there is one. -/
def splitAtEquals : List Char → List Char × Option (List Char)
  | [] => ([], none)
  | '=' :: rest => ([], some rest)
  | c :: rest => (c :: (splitAtEquals rest).1, (splitAtEquals rest).2)

/-- Nothing is lost when a word is split. -/
theorem splitAtEquals_append (cs : List Char) :
    (splitAtEquals cs).1 ++ (match (splitAtEquals cs).2 with
      | some rest => '=' :: rest
      | none => []) = cs := by
  fun_induction splitAtEquals cs with
  | case1 => rfl
  | case2 rest => rfl
  | case3 c rest _ ih => rw [List.cons_append, ih]

/-- Read a word. -/
def Word.ofText (text : String) : Word :=
  match text.toList with
  | ['-', '-'] => .endOfOptions
  | '-' :: '-' :: rest =>
    .long (String.ofList (splitAtEquals rest).1) ((splitAtEquals rest).2.map String.ofList)
  | ['-'] => .plain text
  | '-' :: letters => .short letters
  | _ => .plain text

/-- The number that decimal digits stand for. -/
def decimal (digits : List Char) : Nat :=
  digits.foldl (fun n c => n * 10 + (c.toNat - '0'.toNat)) 0

/-- The number written with decimal digits, at least one, none of them foreign. -/
def digits? (cs : List Char) : Option Nat :=
  if !cs.isEmpty && cs.all Char.isDigit then some (decimal cs) else none

/-- The natural number that a text stands for, after an optional plus sign. -/
def natural? (text : String) : Option Nat :=
  match text.toList with
  | '+' :: rest => digits? rest
  | cs => digits? cs

/-- The integer that a text stands for, after an optional sign. -/
def integer? (text : String) : Option Int :=
  match text.toList with
  | '-' :: rest => (digits? rest).map fun n => -(n : Int)
  | _ => (natural? text).map Int.ofNat

end Enabledness.CommandLine
