import Mathlib.Data.List.Infix
import Enabledness.Automaton.Dot
import Enabledness.Proofs.AutomatonGrowth

/-!
# Reading a drawing

The drawing of an automaton, read back from its text.  A label is whatever stands between two quotes;
inside, a backslash takes the next character as it is, so labels may hold quotes, backslashes and line
breaks.

* `Dot.read?` : the statements of a drawing, in order.
* `Dot.readQuoted?_escape` : a label is read back, whatever its characters and whatever follows.
* `Dot.isLineOf_nodeLine`, `Dot.isLineOf_line` : so is a statement.
* `Automaton.edges_after` : the edges are the transitions without their repetitions.
* `Automaton.read?_dot_after` : the drawing of an automaton is read back.
-/

namespace Enabledness

namespace Dot

/-! ## The reader -/

/-- A statement of a drawing. -/
inductive Statement where
  /-- There is a node, with a label and a number of borders. -/
  | node (number : Nat) (label : String) (peripheries : Nat)
  /-- There is an edge, with a label, drawn solid or dashed. -/
  | edge (source target : Nat) (label : String) (existence : Existence)
deriving DecidableEq

/-- The statement of an edge. -/
def Edge.statement (e : Edge) : Statement := .edge e.source e.target e.action.text e.existence

/-- Go past a word that has to stand here. -/
def skip? (word : String) (cs : List Char) : Option (List Char) := word.toList.isPrefixOf? cs

/-- Read a number as far as its digits go. -/
def readNumber? (cs : List Char) : Option (Nat × List Char) :=
  match cs.takeWhile Char.isDigit with
  | [] => none
  | digits => some (Nat.ofDigitChars 10 digits 0, cs.dropWhile Char.isDigit)

/-- Read up to the closing quote. -/
def readQuoted? : List Char → Option (List Char × List Char)
  | [] => none
  | '"' :: rest => some ([], rest)
  | '\\' :: c :: rest => (readQuoted? rest).map fun p => (c :: p.1, p.2)
  | c :: rest => (readQuoted? rest).map fun p => (c :: p.1, p.2)

/-- Read a label with both its quotes. -/
def readLabel? (cs : List Char) : Option (String × List Char) := do
  let cs ← skip? "\"" cs
  let (label, cs) ← readQuoted? cs
  return (String.ofList label, cs)

/-- Read a line style. -/
def readStyle? (cs : List Char) : Option (Existence × List Char) :=
  match skip? "solid" cs with
  | some cs => some (.confirmed, cs)
  | none => (skip? "dashed" cs).map (.possible, ·)

/-- Read what follows the number of a node. -/
def readNode? (number : Nat) (cs : List Char) : Option (Statement × List Char) := do
  let cs ← skip? " [label=" cs
  let (label, cs) ← readLabel? cs
  let cs ← skip? ", peripheries=" cs
  let (peripheries, cs) ← readNumber? cs
  let cs ← skip? "];\n" cs
  return (.node number label peripheries, cs)

/-- Read what follows the arrow of an edge. -/
def readEdge? (source : Nat) (cs : List Char) : Option (Statement × List Char) := do
  let (target, cs) ← readNumber? cs
  let cs ← skip? " [label=" cs
  let (label, cs) ← readLabel? cs
  let cs ← skip? ", style=" cs
  let (existence, cs) ← readStyle? cs
  let cs ← skip? "];\n" cs
  return (.edge source target label existence, cs)

/-- Read a statement. -/
def readStatement? (cs : List Char) : Option (Statement × List Char) := do
  let cs ← skip? "    s" cs
  let (number, cs) ← readNumber? cs
  match skip? " -> s" cs with
  | some cs => readEdge? number cs
  | none => readNode? number cs

/-- Read statements up to the closing brace, behind which nothing may stand. -/
def readStatements? (cs : List Char) : Option (List Statement) :=
  match readStatement? cs with
  | some (statement, rest) =>
    if rest.length < cs.length then (readStatements? rest).map (statement :: ·) else none
  | none => if cs = ['\x7d', '\n'] then some [] else none
termination_by cs.length

/-- Read a drawing. -/
def read? (text : String) : Option (List Statement) := do
  let cs ← skip? "digraph epa \x7b\n    rankdir=LR;\n    node [shape=box];\n" text.toList
  readStatements? cs

/-! ## What was written is read -/

variable (rest : List Char)

theorem skip?_append (word : String) : skip? word (word.toList ++ rest) = some rest :=
  List.isPrefixOf?_eq_some_iff_append_eq.2 rfl

/-- A number is read back if a word follows that starts with no digit. -/
theorem readNumber?_append (n : Nat) (word : String)
    (hword : (word.toList.head?.any fun c => !c.isDigit) = true) :
    readNumber? ((Nat.repr n).toList ++ (word.toList ++ rest)) = some (n, word.toList ++ rest) := by
  obtain ⟨c, cs, hcs⟩ : ∃ c cs, word.toList = c :: cs :=
    List.exists_cons_of_ne_nil fun hnil => by simp [hnil] at hword
  have hc : ¬ c.isDigit = true := by simpa [hcs] using hword
  have hdigits : ∀ d ∈ Nat.toDigits 10 n, d.isDigit = true := fun d hd =>
    Nat.isDigit_of_mem_toDigits (by decide) (by decide) hd
  rw [Nat.toList_repr, hcs, List.cons_append]
  have htake : (Nat.toDigits 10 n ++ c :: (cs ++ rest)).takeWhile Char.isDigit =
      Nat.toDigits 10 n := by
    rw [List.takeWhile_append_of_pos hdigits, List.takeWhile_cons_of_neg hc, List.append_nil]
  have hdrop : (Nat.toDigits 10 n ++ c :: (cs ++ rest)).dropWhile Char.isDigit =
      c :: (cs ++ rest) := by
    rw [List.dropWhile_append_of_pos hdigits, List.dropWhile_cons_of_neg hc]
  rw [readNumber?, htake, hdrop]
  split
  case h_1 hnil => exact absurd hnil Nat.toDigits_ne_nil
  case h_2 => rw [Nat.ofDigitChars_ten_toDigits]

/-- **A label is read back.**  The quote that ends it is the first one without a backslash. -/
theorem readQuoted?_escape (cs : List Char) :
    readQuoted? (escape cs ++ '"' :: rest) = some (cs, rest) := by
  induction cs with
  | nil => rfl
  | cons c cs ih =>
    by_cases hc : c = '"' ∨ c = '\\'
    · rw [escape, if_pos hc, List.cons_append, List.cons_append, readQuoted?, ih, Option.map_some]
    · obtain ⟨hquote, hslash⟩ := not_or.1 hc
      rw [escape, if_neg hc, List.cons_append, readQuoted?, ih, Option.map_some]
      · exact hquote
      · exact fun d ds hd _ => hslash hd

theorem readLabel?_quoted (label : String) :
    readLabel? ((quoted label).toList ++ rest) = some (label, rest) := by
  have hquoted : (quoted label).toList ++ rest =
      "\"".toList ++ (escape label.toList ++ '"' :: rest) := by
    simp [quoted]
  rw [readLabel?, hquoted, skip?_append]
  simp only [Option.bind_eq_bind, Option.bind_some, readQuoted?_escape, String.ofList_toList,
    Option.pure_def]

theorem readStyle?_style (existence : Existence) :
    readStyle? ((style existence).toList ++ rest) = some (existence, rest) := by
  unfold readStyle?
  cases existence with
  | confirmed => rw [style, skip?_append]
  | possible =>
    have hsolid : skip? "solid" ("dashed".toList ++ rest) = none := rfl
    rw [style, hsolid, skip?_append]
    rfl

/-- A line that is read as a statement, whatever follows it. -/
def IsLineOf (line : String) (statement : Statement) : Prop :=
  line ≠ "" ∧ ∀ rest, readStatement? (line.toList ++ rest) = some (statement, rest)

theorem isLineOf_nodeLine (number : Nat) (label : String) (isInitial : Bool) :
    IsLineOf (nodeLine number label isInitial)
      (.node number label (if isInitial then 2 else 1)) := by
  refine ⟨by simp [nodeLine], fun rest => ?_⟩
  have hborders : (if isInitial then "2" else "1") = Nat.repr (if isInitial then 2 else 1) := by
    cases isInitial <;> rfl
  -- a node is told from an edge by what follows its number
  have harrow : ∀ cs, skip? " -> s" (" [label=".toList ++ cs) = none := fun _ => rfl
  simp only [nodeLine, hborders, String.toList_append, List.append_assoc, readStatement?, readNode?,
    skip?_append, readNumber?_append _ _ " [label=" rfl, harrow, readLabel?_quoted,
    readNumber?_append _ _ "];\n" rfl, Option.bind_eq_bind, Option.bind_some, Option.pure_def]

theorem isLineOf_line (e : Edge) : IsLineOf e.line e.statement := by
  refine ⟨by simp [Edge.line], fun rest => ?_⟩
  simp only [Edge.line, String.toList_append, List.append_assoc, readStatement?, readEdge?,
    skip?_append, readNumber?_append _ _ " -> s" rfl, readNumber?_append _ _ " [label=" rfl,
    readLabel?_quoted, readStyle?_style, Option.bind_eq_bind, Option.bind_some, Option.pure_def,
    Edge.statement]

theorem readStatements?_append {line : String} {statement : Statement}
    (h : IsLineOf line statement) :
    readStatements? (line.toList ++ rest) = (readStatements? rest).map (statement :: ·) := by
  have hlength : 0 < line.toList.length :=
    List.length_pos_iff.2 fun hnil => h.1 (String.toList_eq_nil_iff.1 hnil)
  rw [readStatements?, h.2]
  simp only [List.length_append]
  rw [if_pos (by omega)]

/-- Statements are read one after the other. -/
theorem readStatements?_lines {α : Type} {l : List α} {line : α → String}
    {statement : α → Statement} (h : ∀ a ∈ l, IsLineOf (line a) (statement a)) :
    readStatements? ((l.map line).flatMap String.toList ++ rest) =
      (readStatements? rest).map (l.map statement ++ ·) := by
  induction l with
  | nil => simp
  | cons a l ih =>
    obtain ⟨ha, hl⟩ := List.forall_mem_cons.1 h
    rw [List.map_cons, List.flatMap_cons, List.append_assoc, readStatements?_append _ ha, ih hl,
      Option.map_map]
    rfl

theorem readStatements?_end : readStatements? ['\x7d', '\n'] = some [] := by
  have hnone : readStatement? ['\x7d', '\n'] = none := rfl
  rw [readStatements?, hnone]
  rfl

end Dot

namespace Automaton

/-! ## The drawing of an automaton -/

/-- The statement that draws a state with its number. -/
def nodeStatement (p : State × Nat) : Dot.Statement :=
  .node p.2 p.1.text (if p.2 = 0 then 2 else 1)

/-- The edge from the number of one end of a transition to that of the other. -/
def edgeOf (a : Automaton) (t : Transition) : Dot.Edge :=
  ⟨a.states.toList.idxOf t.source, a.states.toList.idxOf t.target, t.action, t.existence⟩

/-- Any automaton is read back as its nodes and edges. -/
theorem read?_dot (a : Automaton) : Dot.read? a.dot =
    some (a.states.toList.zipIdx.map (fun p =>
        .node p.2 p.1.text (if decide (p.1 = a.initial) then 2 else 1)) ++
      a.edges.map Dot.Edge.statement) := by
  have hbrace : "\x7d\n".toList = ['\x7d', '\n'] := rfl
  have htext : a.dot.toList =
      "digraph epa \x7b\n    rankdir=LR;\n    node [shape=box];\n".toList ++
        ((a.states.toList.zipIdx.map fun p => Dot.nodeLine p.2 p.1.text (p.1 = a.initial)).flatMap
            String.toList ++
          ((a.edges.map Dot.Edge.line).flatMap String.toList ++ ['\x7d', '\n'])) := by
    unfold dot
    simp only [String.toList_append, String.toList_join, List.append_assoc]
    rw [hbrace]
  rw [Dot.read?, htext, Dot.skip?_append, Option.bind_eq_bind, Option.bind_some,
    Dot.readStatements?_lines _ fun _ _ => Dot.isLineOf_nodeLine ..,
    Dot.readStatements?_lines _ fun e _ => Dot.isLineOf_line e, Dot.readStatements?_end]
  simp

theorem idxOf?_eq_some_idxOf {s : State} {l : List State} (h : s ∈ l) :
    l.idxOf? s = some (l.idxOf s) := by
  obtain ⟨i, hi⟩ := Option.isSome_iff_exists.1 (List.isSome_idxOf?.2 h)
  rw [List.idxOf_eq_getD_idxOf?, hi, Option.getD_some]

/-- Lists that are mapped by a function that tells their members apart repeat the same members. -/
theorem eraseDups_map {α β : Type} [DecidableEq α] [DecidableEq β] {f : α → β} {l : List α}
    (h : ∀ x ∈ l, ∀ y ∈ l, f x = f y → x = y) : (l.map f).eraseDups = l.eraseDups.map f := by
  induction l using List.reverseRecOn with
  | nil => rfl
  | append_singleton l a ih =>
    have hl : (l.map f).eraseDups = l.eraseDups.map f := ih fun x hx y hy =>
      h x (List.mem_append_left _ hx) y (List.mem_append_left _ hy)
    have hmem : f a ∈ l.eraseDups.map f ↔ a ∈ l.eraseDups := by
      refine ⟨fun hf => ?_, List.mem_map_of_mem⟩
      obtain ⟨x, hx, hxa⟩ := List.mem_map.1 hf
      have hx' : x ∈ l := List.mem_eraseDups.1 hx
      exact h x (List.mem_append_left _ hx') a (by simp) hxa ▸ hx
    rw [List.map_append, List.map_singleton, Table.eraseDups_concat, Table.eraseDups_concat, hl]
    by_cases ha : a ∈ l.eraseDups
    · rw [if_pos ha, if_pos (hmem.2 ha)]
    · rw [if_neg ha, if_neg fun hf => ha (hmem.1 hf), List.map_append, List.map_singleton]

section After

variable (initial : State) (calls : List Call)

/-- No transition is left out of the drawing. -/
theorem edge?_after {t : Transition} (ht : t ∈ (after initial calls).transitions) :
    (after initial calls).edge? t = some ((after initial calls).edgeOf t) := by
  obtain ⟨hsource, htarget⟩ := ends_mem_states initial calls ht
  rw [edge?, idxOf?_eq_some_idxOf hsource, idxOf?_eq_some_idxOf htarget]
  rfl

/-- **The edges are the transitions without their repetitions.** -/
theorem edges_after : (after initial calls).edges =
    (after initial calls).transitions.eraseDups.map (after initial calls).edgeOf := by
  have hall : (after initial calls).transitions.filterMap (after initial calls).edge? =
      (after initial calls).transitions.map (after initial calls).edgeOf := by
    rw [← List.filterMap_eq_map]
    exact Table.filterMap_eq_of_mem fun t ht => edge?_after initial calls ht
  rw [edges, hall, Roster.toList_ofList]
  refine eraseDups_map fun t ht t' ht' heq => ?_
  -- states with the same number are the same state
  obtain ⟨hsource, htarget⟩ := ends_mem_states initial calls ht
  obtain ⟨s, e, action, existence⟩ := t
  obtain ⟨s', e', action', existence'⟩ := t'
  simp only [edgeOf, Dot.Edge.mk.injEq] at heq
  obtain ⟨hs, he, rfl, rfl⟩ := heq
  obtain rfl : s = s' := (List.idxOf_inj hsource).1 hs
  obtain rfl : e = e' := (List.idxOf_inj htarget).1 he
  rfl

/-- The initial state is the one with number 0. -/
theorem eq_initial_iff {s : State} {number : Nat}
    (h : (after initial calls).states.toList[number]? = some s) : s = initial ↔ number = 0 := by
  have hfirst : (after initial calls).states.toList[0]? = some initial := by
    rw [← List.head?_eq_getElem?, head?_states_after]
  have hlt : number < (after initial calls).states.toList.length := by
    obtain ⟨hlt, -⟩ := List.getElem?_eq_some_iff.1 h
    exact hlt
  rw [← List.getElem?_inj hlt (Roster.nodup _), h, hfirst, Option.some.injEq]

/-- **The drawing of an automaton is read back.**  After any calls on an automaton that has an initial
state only, the text of its drawing holds these statements and no other:

* for each state in order of discovery a node with the number and the text of the state; the first
  node alone, which is that of the initial state, has two borders;
* for each transition, in the order in which transitions were first added, one edge from the number of
  its source to that of its target, with the text of its action and its existence.

No transition is left out, and the numbers of its ends are those of its states. -/
theorem read?_dot_after :
    Dot.read? (after initial calls).dot =
      some ((after initial calls).states.toList.zipIdx.map nodeStatement ++
        (after initial calls).transitions.eraseDups.map fun t =>
          ((after initial calls).edgeOf t).statement) ∧
    (after initial calls).states.toList.head? = some initial ∧
    ∀ t ∈ (after initial calls).transitions,
      (after initial calls).edge? t = some ((after initial calls).edgeOf t) ∧
      (after initial calls).states.toList[((after initial calls).edgeOf t).source]? = some t.source ∧
      (after initial calls).states.toList[((after initial calls).edgeOf t).target]? = some t.target := by
  have hnodes : (after initial calls).states.toList.zipIdx.map (fun p =>
      Dot.Statement.node p.2 p.1.text
        (if decide (p.1 = (after initial calls).initial) then 2 else 1)) =
      (after initial calls).states.toList.zipIdx.map nodeStatement := by
    refine List.map_congr_left fun p hp => ?_
    have hiff := eq_initial_iff initial calls (List.mk_mem_zipIdx_iff_getElem?.1 hp)
    rw [nodeStatement, initial_after]
    simp only [decide_eq_true_eq, hiff]
  refine ⟨?_, head?_states_after initial calls, fun t ht => ⟨edge?_after initial calls ht, ?_⟩⟩
  · rw [read?_dot, hnodes, edges_after, List.map_map]
    rfl
  · obtain ⟨hsource, htarget⟩ := ends_mem_states initial calls ht
    exact ⟨List.getElem?_idxOf hsource, List.getElem?_idxOf htarget⟩

end After

/-- An action whose name holds a quote, a backslash and a line break. -/
def knot (owner : String) : Action where
  precondition := { qualifiedName := owner ++ "#a\"\\\nb_pre", returnType := some boolType }
  operation := { qualifiedName := owner ++ "#a\"\\\nb" }

/-- Pulling a knot, while both can be pulled, leaves nothing to do. -/
def knotPull (owner : String) : Transition :=
  ⟨.ofList [knot "A", knot "B"], .empty, knot owner, .confirmed⟩

/-- Two knots are pulled, the first one twice. -/
def knotCalls : List Call :=
  [.addTransition (knotPull "A"), .addTransition (knotPull "B"), .addTransition (knotPull "A")]

/-- Two actions with the same text give two edges, and one action gives one edge. -/
theorem read?_dot_after_knots :
    knotPull "A" ∈ (after (knotPull "A").source knotCalls).transitions ∧
      Dot.read? (after (knotPull "A").source knotCalls).dot =
        some [.node 0 "\x7ba\"\\\nb(), a\"\\\nb()\x7d" 2, .node 1 "\x7b\x7d" 1,
          .edge 0 1 "a\"\\\nb()" .confirmed, .edge 0 1 "a\"\\\nb()" .confirmed] ∧
      (after (knotPull "A").source knotCalls).edge? (knotPull "A") =
        some ⟨0, 1, knot "A", .confirmed⟩ := by
  obtain ⟨hread, -, hedges⟩ := read?_dot_after (knotPull "A").source knotCalls
  have hmem : knotPull "A" ∈ (after (knotPull "A").source knotCalls).transitions := by decide
  exact ⟨hmem, hread.trans (by decide), (hedges _ hmem).1.trans (by decide)⟩

end Automaton

end Enabledness
