import Enabledness.Proofs.QueryMeaning

/-!
# The lines of a procedure

Which lines the procedure of a query has: first the declarations, then lines of a few forms, whose
variables belong to the actions of the class.

* `Query.HasLine` : the forms of the lines after the declarations.
* `Query.hasLine_of_mem_body` : there are no others.
-/

namespace Enabledness

open Procedure

/-- The variable keeps the value of the invariant or of the precondition of an action. -/
def ActionSet.IsFlag (set : ActionSet) : Var → Prop
  | .inv => True
  | .pre k => ∃ a ∈ set.actions, k = set.number a
  | .arg _ _ => False
  | .ret => False

namespace Query

variable {q : Query} {set : ActionSet} {code : ClassCode}

/-- The lines of a procedure after the declarations. -/
def body (q : Query) (set : ActionSet) (code : ClassCode) : List Line :=
  .blank :: q.assumptions set code ++ [.blank, q.mainCall set code] ++ q.assumeCompletion ++ [.blank] ++
    q.conclusion set code

/-- All declarations come first. -/
theorem bodyLines_eq : q.bodyLines set code = q.declarations set ++ q.body set code := by
  simp [bodyLines, body]

/-- The variables of a procedure are declared, with their types, and nothing else is. -/
theorem mem_declarations_iff {l : Line} :
    l ∈ q.declarations set ↔ ∃ x type, l = .declare x type ∧ q.IsVariable set x type := by
  rw [declarations_eq, declares, List.mem_map]
  constructor
  · rintro ⟨⟨x, type⟩, hx, rfl⟩
    exact ⟨x, type, rfl, mem_typedVars.1 hx⟩
  · rintro ⟨x, type, rfl, hx⟩
    exact ⟨(x, type), mem_typedVars.2 hx, rfl⟩

/-- The forms of the lines of a procedure after the declarations. -/
inductive HasLine (q : Query) (set : ActionSet) (code : ClassCode) : Line → Prop
  | blank : HasLine q set code .blank
  | assumeReceiver : HasLine q set code .assumeReceiver
  | callInvariant : HasLine q set code (callInvariant code set)
  | callPrecondition {a : Action} (ha : a ∈ set.actions) :
      HasLine q set code (callPrecondition code (set.number a) a)
  | assume {l : Literal} (hl : set.IsFlag l.var) : HasLine q set code (.assume l)
  | mainCall : HasLine q set code (.call (q.main.operation.returnType.map fun _ => .ret)
      (code.procedureName q.main.operation) (argVars (set.number q.main) q.main))
  | assumeReturned : HasLine q set code .assumeReturned
  | assumeThrown : HasLine q set code .assumeThrown
  | clearException : HasLine q set code .clearException
  | havoc {a : Action} (ha : a ∈ set.actions) : HasLine q set code (.havoc (argVars (set.number a) a))
  | assert {c : Completion} {l : Literal} (hl : set.IsFlag l.var) : HasLine q set code (.assert c l)
  | assertNotAll {c : Completion} {ls : List Literal} (hls : ∀ l ∈ ls, set.IsFlag l.var) :
      HasLine q set code (.assertNotAll c ls)

/-- Before the call: the invariant, and the preconditions of the actions. -/
theorem hasLine_of_mem_assumptions : ∀ l ∈ q.assumptions set code, q.HasLine set code l := by
  intro l hl
  rcases List.mem_append.1 hl with hl | hl
  · simp only [List.mem_cons, List.not_mem_nil, or_false] at hl
    rcases hl with rfl | rfl | rfl
    · exact .assumeReceiver
    · exact .callInvariant
    · exact .assume trivial
  · obtain ⟨⟨a, k⟩, hx, hl⟩ := List.mem_flatMap.1 hl
    obtain ⟨ha, rfl⟩ := ActionSet.mem_zipIdx_iff.1 hx
    dsimp only at hl
    split at hl
    · exact absurd hl List.not_mem_nil
    · rcases List.mem_cons.1 hl with rfl | hl
      · exact .callPrecondition ha
      · obtain rfl := List.mem_singleton.1 hl
        exact .assume ⟨a, ha, rfl⟩

/-- The call of the main action. -/
theorem hasLine_mainCall (hmain : q.main ∈ set.actions) : q.HasLine set code (q.mainCall set code) := by
  unfold Query.mainCall
  rw [ActionSet.idxOf?_eq hmain]
  exact .mainCall

theorem hasLine_of_mem_assumeCompletion : ∀ l ∈ q.assumeCompletion, q.HasLine set code l := by
  intro l hl
  unfold assumeCompletion at hl
  split at hl
  · obtain rfl := List.mem_singleton.1 hl
    exact .assumeReturned
  · rcases List.mem_cons.1 hl with rfl | hl
    · exact .assumeThrown
    · obtain rfl := List.mem_singleton.1 hl
      exact .clearException

theorem hasLine_of_mem_havocArgs {a : Action} (ha : a ∈ set.actions) :
    ∀ l ∈ havocArgs (set.number a) a, q.HasLine set code l := by
  intro l hl
  unfold havocArgs at hl
  split at hl
  · exact absurd hl List.not_mem_nil
  · obtain rfl := List.mem_singleton.1 hl
    exact .havoc ha

/-- After the call: new arguments, preconditions or the invariant, and the assertion about them. -/
theorem hasLine_of_mem_conclusion (hq : q.IsOver set) :
    ∀ l ∈ q.conclusion set code, q.HasLine set code l := by
  intro l hl
  unfold conclusion at hl
  split at hl
  · rcases List.mem_cons.1 hl with rfl | hl
    · exact .callInvariant
    · obtain rfl := List.mem_singleton.1 hl
      exact .assert trivial
  · rcases List.mem_append.1 hl with hl | hl
    · obtain ⟨⟨a, k⟩, hx, hl⟩ := List.mem_flatMap.1 hl
      obtain ⟨ha, rfl⟩ := ActionSet.mem_zipIdx_iff.1 hx
      rcases List.mem_append.1 hl with hl | hl
      · exact hasLine_of_mem_havocArgs ha l hl
      · obtain rfl := List.mem_singleton.1 hl
        exact .callPrecondition ha
    · obtain rfl := List.mem_singleton.1 hl
      refine .assertNotAll fun literal hliteral => ?_
      obtain ⟨⟨a, k⟩, hx, rfl⟩ := List.mem_map.1 hliteral
      obtain ⟨ha, rfl⟩ := ActionSet.mem_zipIdx_iff.1 hx
      exact ⟨a, ha, rfl⟩
  · next polarity scope tested hkind =>
    have htested := hq.mem_of_tested tested (by rw [Query.tested?, hkind])
    rw [ActionSet.idxOf?_eq htested] at hl
    rcases List.mem_append.1 hl with hl | hl
    · exact hasLine_of_mem_havocArgs htested l hl
    · simp only [List.mem_cons, List.not_mem_nil, or_false] at hl
      rcases hl with rfl | rfl
      · exact .callPrecondition htested
      · exact .assert ⟨tested, htested, rfl⟩

/-- **The lines of a procedure** have one of a few forms. -/
theorem hasLine_of_mem_body (hq : q.IsOver set) : ∀ l ∈ q.body set code, q.HasLine set code l := by
  have hmain : q.main ∈ set.actions := hq.mem_of_source _ q.main_mem_source
  intro l hl
  simp only [body, List.mem_append, List.mem_cons, List.not_mem_nil, or_false] at hl
  rcases hl with (((((rfl | hl) | rfl | rfl) | hl) | rfl) | hl)
  · exact .blank
  · exact hasLine_of_mem_assumptions l hl
  · exact .blank
  · exact hasLine_mainCall hmain
  · exact hasLine_of_mem_assumeCompletion l hl
  · exact .blank
  · exact hasLine_of_mem_conclusion hq l hl

end Query

end Enabledness
