import Enabledness.Proofs.ProcedureMeaning

/-!
# Global necessity

A necessity query is global if it assumes no more than the invariant and the precondition of its main
action.  Its answer is used again in every source that enables the main action.  The procedures say why
this is right: the procedure of a query about a source has all the lines of the global procedure, in their
order, and besides them two lines for every other action, which call its precondition and assume what it
gives.

* `Query.IsGlobalOf` : a query asks globally what another query asks about its source.
* `Query.bodyLines_of_isGlobal`, `Query.bodyLines_of_not_isGlobal` : the lines of the two procedures.
* `Query.global_lines_sublist` : the lines that the global procedure leaves out.
* `Query.IsGlobalOf.canFail` : what the global procedure proves, the other one proves too.
-/

namespace Enabledness

open Procedure

/-- The actions of a class in their order, split at one of them. -/
theorem ActionSet.exists_split {set : ActionSet} {a : Action} (ha : a ∈ set.actions) :
    ∃ before after, set.actions.toList.zipIdx = before ++ (a, set.number a) :: after ∧
      ∀ x ∈ before ++ after, x.1 ≠ a := by
  obtain ⟨before, after, hsplit⟩ := List.append_of_mem (ActionSet.mem_zipIdx_iff.2 ⟨ha, rfl⟩)
  refine ⟨before, after, hsplit, fun x hx heq => ?_⟩
  have hnodup : (before.map Prod.fst ++ a :: after.map Prod.fst).Nodup := by
    have hmap : (set.actions.toList.zipIdx.map Prod.fst).Nodup := by
      rw [List.zipIdx_map_fst]
      exact set.actions.nodup_toList
    rwa [hsplit, List.map_append, List.map_cons] at hmap
  have hmem : a ∈ before.map Prod.fst ++ after.map Prod.fst := by
    rw [← List.map_append]
    exact List.mem_map.2 ⟨x, hx, heq⟩
  exact (List.nodup_middle.1 hnodup).notMem hmem

namespace Query

variable {q l g : Query} {set : ActionSet} {code : ClassCode}

/-- The lines of a procedure up to the first action: the declarations, and what is assumed of the
receiver. -/
def opening (q : Query) (set : ActionSet) (code : ClassCode) : List Line :=
  q.declarations set ++ [.blank, .assumeReceiver, callInvariant code set, .assume ⟨true, .inv⟩]

/-- The lines of a procedure after the last action: the main call, and what follows it. -/
def ending (q : Query) (set : ActionSet) (code : ClassCode) : List Line :=
  .blank :: q.mainCall set code :: (q.assumeCompletion ++ .blank :: q.conclusion set code)

/-- What is assumed about the enabledness of some actions, each with its number. -/
def assumeAll (q : Query) (code : ClassCode) (actions : List (Action × Nat)) : List Line :=
  actions.flatMap fun x => q.assumeEnabledness code x.2 x.1

theorem bodyLines_of_not_isGlobal (h : q.isGlobal = false) :
    q.bodyLines set code =
      q.opening set code ++ q.assumeAll code set.actions.toList.zipIdx ++ q.ending set code := by
  simp [bodyLines, opening, ending, assumeAll, assumptions, h]

theorem bodyLines_of_isGlobal (h : q.isGlobal = true) (hmain : q.main ∈ set.actions) :
    q.bodyLines set code =
      q.opening set code ++ q.assumeAll code [(q.main, set.number q.main)] ++ q.ending set code := by
  obtain ⟨before, after, hsplit, hne⟩ := ActionSet.exists_split hmain
  have hothers : ∀ xs ⊆ before ++ after, (xs.flatMap fun x =>
      if q.isGlobal = true ∧ x.1 ≠ q.main then [] else q.assumeEnabledness code x.2 x.1) = [] := by
    intro xs hxs
    exact List.flatMap_eq_nil_iff.2 fun x hx => if_pos ⟨h, hne x (hxs hx)⟩
  simp only [bodyLines, opening, ending, assumeAll, assumptions, hsplit, List.flatMap_append,
    List.flatMap_cons, hothers before (List.subset_append_left _ _),
    hothers after (List.subset_append_right _ _)]
  simp

/-- The first query asks globally what the second asks about its source. -/
structure IsGlobalOf (g l : Query) : Prop where
  main_eq : g.main = l.main
  kinds : ∃ polarity tested, l.kind = .necessity polarity .atSource tested ∧
    g.kind = .necessity polarity .global tested

namespace IsGlobalOf

variable (h : g.IsGlobalOf l)

include h

theorem isGlobal : g.isGlobal = true := by
  obtain ⟨_, _, -, hg⟩ := h.kinds
  rw [Query.isGlobal, hg]

theorem not_isGlobal : l.isGlobal = false := by
  obtain ⟨_, _, hl, -⟩ := h.kinds
  rw [Query.isGlobal, hl]

theorem completion_eq : g.completion = l.completion := by
  obtain ⟨_, _, hl, hg⟩ := h.kinds
  rw [completion, completion, completion?, completion?, hl, hg]

theorem declarations_eq : g.declarations set = l.declarations set := by
  rw [declarations, declarations, h.main_eq]

theorem opening_eq : g.opening set code = l.opening set code := by
  rw [opening, opening, h.declarations_eq]

theorem ending_eq : g.ending set code = l.ending set code := by
  obtain ⟨_, _, hl, hg⟩ := h.kinds
  have hcall : g.mainCall set code = l.mainCall set code := by rw [mainCall, mainCall, h.main_eq]
  have hcompletion : g.assumeCompletion = l.assumeCompletion := by
    rw [assumeCompletion, assumeCompletion, h.completion_eq]
  have hconclusion : g.conclusion set code = l.conclusion set code := by
    rw [conclusion, conclusion, hl, hg]
  rw [ending, ending, hcall, hcompletion, hconclusion]

/-- Both queries assume that the main action is enabled. -/
theorem assumeAll_main_eq (k : Nat) : g.assumeAll code [(g.main, k)] = l.assumeAll code [(l.main, k)] := by
  have hg : g.main ∈ g.source := g.main_mem_source
  have hl : l.main ∈ l.source := l.main_mem_source
  rw [h.main_eq] at hg ⊢
  simp [assumeAll, assumeEnabledness, hg, hl]

theorem bodyLines_eq (hmain : l.main ∈ set.actions) :
    g.bodyLines set code =
      l.opening set code ++ l.assumeAll code [(l.main, set.number l.main)] ++ l.ending set code := by
  rw [bodyLines_of_isGlobal h.isGlobal (h.main_eq ▸ hmain), h.opening_eq, h.ending_eq,
    h.assumeAll_main_eq, h.main_eq]

theorem isOver (hl : l.IsOver set) : g.IsOver set := by
  obtain ⟨_, tested, hlkind, hgkind⟩ := h.kinds
  refine isOver_of_necessity (fun a ha => ?_) hgkind (hl.mem_of_tested tested (by rw [tested?, hlkind]))
  have hmem : a ∈ g.source.toList := ha
  rw [toList_source_of_isGlobal h.isGlobal, List.mem_singleton, h.main_eq] at hmem
  rw [hmem]
  exact hl.mem_of_source _ l.main_mem_source

/-- What the query about the source looks for, the global query looks for too. -/
theorem asks {V D : Type} {m : ClassMeaning V D} (hl : l.IsOver set) (hasks : m.Asks set l) :
    m.Asks set g := by
  obtain ⟨v, args, hinv, hfits, hmatches, v', hvalue, hfinds⟩ := hasks
  refine ⟨v, args, hinv, hfits, fun a ha honly => ?_, v', ?_, ?_⟩
  · -- the main action is the only one that the global query looks at, and both sources have it
    obtain rfl : a = g.main := honly h.isGlobal
    rw [decide_eq_true g.main_mem_source, h.main_eq]
    have hmain := hmatches l.main (hl.mem_of_source _ l.main_mem_source) fun _ => rfl
    rwa [decide_eq_true l.main_mem_source] at hmain
  · rwa [h.main_eq, h.completion_eq]
  · obtain ⟨_, _, hlkind, hgkind⟩ := h.kinds
    rw [hlkind] at hfinds
    rw [hgkind]
    exact hfinds

/-- **A global answer holds for every source**: if the procedure of the query about a source can fail,
so can the global procedure. -/
theorem canFail {V D : Type} {m : ClassMeaning V D} (hcode : code.TellsApart set) (hl : l.IsOver set)
    (hfails : CanFail (m.procedures set code) (l.bodyLines set code)) :
    CanFail (m.procedures set code) (g.bodyLines set code) := by
  rw [canFail_bodyLines_iff hcode m (h.isOver hl)]
  exact h.asks hl ((canFail_bodyLines_iff hcode m hl).1 hfails)

end IsGlobalOf

/-- A necessity query about a source and the global one can both be asked. -/
theorem exists_isGlobalOf {source : State} {main tested : Action} (hsource : main ∈ source)
    (hne : tested ≠ main) (polarity : Polarity) :
    ∃ l g, make source main (.necessity polarity .atSource tested) = .ok l ∧
      make (.ofList [main]) main (.necessity polarity .global tested) = .ok g ∧
      l.main = main ∧ g.IsGlobalOf l := by
  have hl : queryFault? source main (.necessity polarity .atSource tested) = none := by
    simp [queryFault?, hsource, hne]
  have hg : queryFault? (.ofList [main]) main (.necessity polarity .global tested) = none := by
    have hmem : main ∈ (SortedSet.ofList [main] : State) := SortedSet.mem_ofList.2 List.mem_cons_self
    have hsingle : State.single? (SortedSet.ofList [main]) = some main := rfl
    simp [queryFault?, hmem, hne, hsingle]
  exact ⟨_, _, make_of_faultless hl, make_of_faultless hg, rfl, rfl, polarity, tested, rfl, rfl⟩

/-- **The lines of a global procedure** are lines of the procedure for every source that enables the main
action.  What is left out are the calls of the preconditions of the other actions, each with the line that
assumes its result; the declarations, the main call and all that follows it are the same. -/
theorem global_lines_sublist (set : ActionSet) (code : ClassCode) {source : State} {main tested : Action}
    (hmain : main ∈ set.actions) (hsource : main ∈ source) (hne : tested ≠ main) (polarity : Polarity) :
    ∃ l g, make source main (.necessity polarity .atSource tested) = .ok l ∧
      make (.ofList [main]) main (.necessity polarity .global tested) = .ok g ∧
      (g.bodyLines set code).Sublist (l.bodyLines set code) ∧
      g.declarations set = l.declarations set ∧ g.ending set code = l.ending set code ∧
      ∃ before after, set.actions.toList.zipIdx = before ++ (main, set.number main) :: after ∧
        (∀ x ∈ before ++ after, x.1 ≠ main) ∧
        l.bodyLines set code = l.opening set code ++ l.assumeAll code before ++
          l.assumeAll code [(main, set.number main)] ++ l.assumeAll code after ++ l.ending set code ∧
        g.bodyLines set code = l.opening set code ++
          l.assumeAll code [(main, set.number main)] ++ l.ending set code := by
  obtain ⟨l, g, hl, hg, rfl, h⟩ := exists_isGlobalOf hsource hne polarity
  obtain ⟨before, after, hsplit, hothers⟩ := ActionSet.exists_split hmain
  have hlines : l.bodyLines set code = l.opening set code ++ l.assumeAll code before ++
      l.assumeAll code [(l.main, set.number l.main)] ++ l.assumeAll code after ++ l.ending set code := by
    rw [bodyLines_of_not_isGlobal h.not_isGlobal, hsplit]
    simp [assumeAll]
  refine ⟨l, g, hl, hg, ?_, h.declarations_eq, h.ending_eq, before, after, hsplit, hothers, hlines,
    h.bodyLines_eq hmain⟩
  rw [hlines, h.bodyLines_eq hmain]
  refine List.Sublist.append ?_ (List.Sublist.refl _)
  exact ((List.sublist_append_left _ _).append (List.Sublist.refl _)).trans
    (List.sublist_append_left _ _)

/-- Whether coins can always be taken after coins were put into the till: the procedure for the till that
has room and is not empty has two lines more than the global one. -/
theorem global_lines_till : tillAdd ∈ tillSet.actions ∧ tillAdd ∈ tillQuery.source ∧ tillTake ≠ tillAdd ∧
    ∃ l g, make tillQuery.source tillAdd (.necessity .enabled .atSource tillTake) = .ok l ∧
      make (.ofList [tillAdd]) tillAdd (.necessity .enabled .global tillTake) = .ok g ∧
      (g.bodyLines tillSet tillCode).Sublist (l.bodyLines tillSet tillCode) ∧
      (l.bodyLines tillSet tillCode).length = (g.bodyLines tillSet tillCode).length + 2 := by
  have hmain : tillAdd ∈ tillSet.actions := by decide
  have hsource : tillAdd ∈ tillQuery.source := by decide
  have hne : tillTake ≠ tillAdd := by decide
  obtain ⟨l, g, hl, hg, hsublist, -, -, before, after, hsplit, -, hlines, hglobal⟩ :=
    global_lines_sublist tillSet tillCode hmain hsource hne .enabled
  refine ⟨hmain, hsource, hne, l, g, hl, hg, hsublist, ?_⟩
  have hcount : 2 = before.length + 1 + after.length := by
    have hlength := congrArg List.length hsplit
    simp only [List.length_zipIdx, List.length_append, List.length_cons] at hlength
    have htwo : tillSet.actions.toList.length = 2 := rfl
    omega
  have hpairs : ∀ xs, (l.assumeAll tillCode xs).length = xs.length * 2 := by
    intro xs
    simp [assumeAll, assumeEnabledness]
  rw [hlines, hglobal]
  simp only [List.length_append, hpairs, List.length_singleton]
  omega

end Query

end Enabledness
