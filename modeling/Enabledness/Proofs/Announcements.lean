import Enabledness.Proofs.AutomatonGrowth

/-!
# Which states are announced as new

A call of an automaton tells whether the state that it is about was new: the state to register, or the
target of the transition.  The source of a transition is registered before its target, and nobody is
told.

* `Call.returns_iff` : when a call announces its state.
* `nodup_announcedFrom`, `not_mem_announcedFrom` : no state is announced twice, and none after it was
  registered.
* `count_announced_of_first` : whether a state is announced is settled by the first call that names it.
* `announced_by_first_call` : what follows for all states that calls are about.
-/

namespace Enabledness

namespace Automaton

/-! ## What a call returns -/

namespace Call

/-- The state that a call is about. -/
def subject : Call → State
  | addState s => s
  | addTransition t => t.target

/-- The state that a call registers on the way. -/
def source? : Call → Option State
  | addState _ => none
  | addTransition t => some t.source

/-- The answer of a call: its state was new. -/
def returns : Call → Automaton → Bool
  | addState s, a => a.isNew s
  | addTransition t, a => a.isDiscovery t

theorem mem_registers {c : Call} {s : State} : s ∈ c.registers ↔ c.source? = some s ∨ c.subject = s := by
  cases c with
  | addState s' => simp [registers, source?, subject, eq_comm]
  | addTransition t => simp [registers, source?, subject, eq_comm]

theorem mem_states_apply {c : Call} {a : Automaton} {s : State} :
    s ∈ (c.apply a).states ↔ s ∈ c.registers ∨ s ∈ a.states := by
  cases c with
  | addState s' =>
    show s ∈ a.states.insert s' ↔ _
    rw [Roster.mem_insert, registers, List.mem_singleton]
  | addTransition t =>
    rw [apply, mem_states_addTransition]
    simp only [registers, List.mem_cons, List.not_mem_nil, or_false]
    tauto

/-- A call announces its state if that was not registered and is not the source as well. -/
theorem returns_iff {c : Call} {a : Automaton} :
    c.returns a = true ↔ c.subject ∉ a.states ∧ c.source? ≠ some c.subject := by
  cases c with
  | addState s => simp [returns, isNew, subject, source?]
  | addTransition t =>
    rw [returns, isDiscovery, decide_eq_true_iff, Roster.mem_insert, not_or, and_comm, eq_comm]
    simp [subject, source?]

/-- The state that a call announces, if it does. -/
def announces (c : Call) (a : Automaton) : List State := if c.returns a then [c.subject] else []

theorem mem_announces {c : Call} {a : Automaton} {s : State} :
    s ∈ c.announces a ↔ c.returns a = true ∧ c.subject = s := by
  unfold announces
  split
  · next h => simp [h, eq_comm]
  · next h => simp [h]

end Call

/-! ## What some calls announce -/

/-- The states that calls announce, one after the other. -/
def announcedFrom (a : Automaton) : List Call → List State
  | [] => []
  | c :: calls => c.announces a ++ (c.apply a).announcedFrom calls

/-- A state that is registered is not announced any more. -/
theorem not_mem_announcedFrom {a : Automaton} {s : State} (hs : s ∈ a.states) (calls : List Call) :
    s ∉ a.announcedFrom calls := by
  induction calls generalizing a with
  | nil => exact List.not_mem_nil
  | cons c calls ih =>
    rw [announcedFrom, List.mem_append, not_or]
    refine ⟨fun hc => ?_, ih (Call.mem_states_apply.2 (Or.inr hs))⟩
    obtain ⟨hreturns, rfl⟩ := Call.mem_announces.1 hc
    exact (Call.returns_iff.1 hreturns).1 hs

/-- No state is announced twice. -/
theorem nodup_announcedFrom (a : Automaton) (calls : List Call) : (a.announcedFrom calls).Nodup := by
  induction calls generalizing a with
  | nil => exact List.nodup_nil
  | cons c calls ih =>
    rw [announcedFrom]
    refine List.nodup_append.2 ⟨?_, ih _, ?_⟩
    · unfold Call.announces
      split
      · exact List.pairwise_singleton _ _
      · exact List.nodup_nil
    · -- what a call announces is registered by it
      rintro s hs s' hs' rfl
      obtain ⟨-, hsubject⟩ := Call.mem_announces.1 hs
      have hregistered : s ∈ c.registers := Call.mem_registers.2 (Or.inr hsubject)
      exact not_mem_announcedFrom (Call.mem_states_apply.2 (Or.inl hregistered)) calls hs'

theorem announcedFrom_append (a : Automaton) (calls more : List Call) :
    a.announcedFrom (calls ++ more) =
      a.announcedFrom calls ++ (calls.foldl (fun a c => c.apply a) a).announcedFrom more := by
  induction calls generalizing a with
  | nil => rfl
  | cons c calls ih => rw [List.cons_append, announcedFrom, ih, announcedFrom, List.append_assoc,
      List.foldl_cons]

/-- The states that calls announce on an automaton that has an initial state only. -/
def announced (initial : State) (calls : List Call) : List State := (start initial).announcedFrom calls

variable {initial : State} {calls before : List Call} {c : Call} {s : State}

/-- All that was announced is registered. -/
theorem mem_states_of_mem_announced (h : s ∈ announced initial calls) :
    s ∈ (after initial calls).states := by
  induction calls using List.reverseRecOn with
  | nil => exact absurd h List.not_mem_nil
  | append_singleton calls c ih =>
    rw [announced, announcedFrom_append, List.mem_append] at h
    rw [after_snoc, Call.mem_states_apply]
    rcases h with h | h
    · exact Or.inr (ih h)
    · rw [announcedFrom, announcedFrom, List.append_nil] at h
      exact Or.inl (Call.mem_registers.2 (Or.inr (Call.mem_announces.1 h).2))

/-- **The first call that names a state** announces it, unless it has the state as its source. -/
theorem count_announced_of_first (hnew : s ∉ (after initial before).states) (hs : s ∈ c.registers)
    (rest : List Call) :
    (announced initial (before ++ c :: rest)).count s = if c.source? = some s then 0 else 1 := by
  have hbefore : s ∉ announced initial before := fun h => hnew (mem_states_of_mem_announced h)
  have hrest : s ∉ (c.apply (after initial before)).announcedFrom rest :=
    not_mem_announcedFrom (Call.mem_states_apply.2 (Or.inl hs)) rest
  have hsplit : announced initial (before ++ c :: rest) = announced initial before ++
      (c.announces (after initial before) ++
        (c.apply (after initial before)).announcedFrom rest) := announcedFrom_append ..
  rw [hsplit, List.count_append, List.count_append, List.count_eq_zero.2 hbefore,
    List.count_eq_zero.2 hrest, Nat.zero_add, Nat.add_zero]
  split
  · next hsource =>
    refine List.count_eq_zero.2 fun h => ?_
    obtain ⟨hreturns, rfl⟩ := Call.mem_announces.1 h
    exact (Call.returns_iff.1 hreturns).2 hsource
  · next hsource =>
    obtain rfl : c.subject = s := (Call.mem_registers.1 hs).resolve_left hsource
    rw [Call.announces, if_pos (Call.returns_iff.2 ⟨hnew, hsource⟩), List.count_singleton_self]

/-- A state that a call is about is the initial one, or there is a first call that names it. -/
theorem exists_first (hs : s ≠ initial) (hc : ∃ c ∈ calls, s ∈ c.registers) :
    ∃ before c rest, calls = before ++ c :: rest ∧ s ∈ c.registers ∧ s ∉ (after initial before).states := by
  obtain ⟨c, hfind⟩ := Option.isSome_iff_exists.1 (List.find?_isSome.2
    (hc.imp fun c h => ⟨h.1, decide_eq_true h.2⟩))
  obtain ⟨hnames, before, rest, rfl, hbefore⟩ := List.find?_eq_some_iff_append.1 hfind
  refine ⟨before, c, rest, rfl, of_decide_eq_true hnames, fun hmem => ?_⟩
  rw [mem_states_after, registered, List.mem_cons, List.mem_flatMap] at hmem
  obtain ⟨c', hc', hs'⟩ := hmem.resolve_left hs
  simpa [hs'] using hbefore c' hc'

/-- **A state is announced by the first call that names it**, and by no other, on an automaton that
starts with an initial state only.

* No state is announced twice, and the initial one never.
* A state that calls are about is announced by the first call that names it if this call does not have
  it as its source.
* It is never announced if that call has it as its source and is about another state.
* After any calls, adding a transition announces a target that was not registered and is not the source
  as well. -/
theorem announced_by_first_call (initial : State) (calls : List Call) :
    (∀ s, (announced initial calls).count s ≤ 1) ∧
    initial ∉ announced initial calls ∧
    (∀ s, s ≠ initial → (∃ c ∈ calls, c.subject = s) → ∃ before c rest, calls = before ++ c :: rest ∧
      s ∈ c.registers ∧ s ∉ (after initial before).states ∧
      (c.source? ≠ some s → c.subject = s ∧ c.returns (after initial before) = true ∧
        (announced initial calls).count s = 1) ∧
      (c.subject ≠ s → (announced initial calls).count s = 0)) ∧
    ∀ t : Transition, t.target ∉ (after initial calls).states → t.target ≠ t.source →
      (Call.addTransition t).returns (after initial calls) = true := by
  refine ⟨fun s => ?_, ?_, fun s hs hc => ?_, fun t hnew hne => ?_⟩
  · exact List.nodup_iff_count.1 (nodup_announcedFrom _ calls) s
  · refine not_mem_announcedFrom ?_ calls
    exact (mem_states_after initial []).2 List.mem_cons_self
  · obtain ⟨before, c, rest, rfl, hmem, hnew⟩ :=
      exists_first hs (hc.imp fun c h => ⟨h.1, Call.mem_registers.2 (Or.inr h.2)⟩)
    have hcount := count_announced_of_first hnew hmem rest
    refine ⟨before, c, rest, rfl, hmem, hnew, fun hsource => ?_, fun hsubject => ?_⟩
    · obtain rfl : c.subject = s := (Call.mem_registers.1 hmem).resolve_left hsource
      rw [if_neg hsource] at hcount
      exact ⟨rfl, Call.returns_iff.2 ⟨hnew, hsource⟩, hcount⟩
    · rwa [if_pos ((Call.mem_registers.1 hmem).resolve_right hsubject)] at hcount
  · exact Call.returns_iff.2 ⟨hnew, fun hsource => hne (Option.some.inj hsource).symm⟩

/-! ## A valve -/

/-- An action of a valve. -/
def valveAction (name : String) : Action where
  precondition := { qualifiedName := "C#" ++ name ++ "_pre", returnType := some boolType }
  operation := { qualifiedName := "C#" ++ name }

/-- A transition between states of a valve. -/
def valveTurn (source target : List String) (name : String) : Transition :=
  ⟨.ofList (source.map valveAction), .ofList (target.map valveAction), valveAction name, .confirmed⟩

/-- A valve starts with nothing enabled.  The first call registers its source on the way, and the third
one is about a state of which nothing was heard. -/
def valveCalls : List Call :=
  [.addTransition (valveTurn ["open"] ["close"] "open"),
    .addTransition (valveTurn ["close"] ["open"] "close"),
    .addTransition (valveTurn ["close", "open"] ["close", "open"] "open")]

/-- The target of the first call is announced by it.  Its source is the target of the second call, and
nobody announces it. -/
theorem announced_by_first_call_valve :
    (announced .empty valveCalls).count (.ofList [valveAction "close"]) = 1 ∧
      (announced .empty valveCalls).count (.ofList [valveAction "open"]) = 0 := by
  obtain ⟨-, -, hfirst, -⟩ := announced_by_first_call .empty valveCalls
  -- the first call of all names both states
  have hhead : ∀ {s before c rest}, valveCalls = before ++ c :: rest →
      s ∈ registered .empty (valveCalls.take 1) → s ∉ (after .empty before).states →
        c = .addTransition (valveTurn ["open"] ["close"] "open") := by
    intro s before c rest hcalls hs hnew
    cases before with
    | nil => exact (List.cons.inj hcalls).1.symm
    | cons c' before =>
      obtain ⟨rfl, -⟩ := List.cons.inj hcalls
      rw [mem_states_after, ← List.singleton_append, registered_append] at hnew
      exact absurd (List.mem_append_left _ hs) hnew
  constructor
  · obtain ⟨before, c, rest, hcalls, -, hnew, hone, -⟩ := hfirst (.ofList [valveAction "close"])
      (by decide) ⟨_, List.mem_cons_self, by decide⟩
    obtain rfl := hhead hcalls (by decide) hnew
    exact (hone (by decide)).2.2
  · obtain ⟨before, c, rest, hcalls, -, hnew, -, hnone⟩ := hfirst (.ofList [valveAction "open"])
      (by decide) ⟨_, List.mem_cons_of_mem _ List.mem_cons_self, by decide⟩
    obtain rfl := hhead hcalls (by decide) hnew
    exact hnone (by decide)

/-- Not every state that the calls are about is announced, and after the first two of them adding a
transition does not announce every target that was not registered. -/
theorem not_every_target_announced :
    (¬ ∀ s, s ≠ .empty → (∃ c ∈ valveCalls, c.subject = s) →
      (announced .empty valveCalls).count s = 1) ∧
    ¬ ∀ t : Transition, t.target ∉ (after .empty (valveCalls.take 2)).states →
      (Call.addTransition t).returns (after .empty (valveCalls.take 2)) = true := by
  constructor
  · intro hall
    have hone := hall (.ofList [valveAction "open"]) (by decide)
      ⟨_, List.mem_cons_of_mem _ List.mem_cons_self, by decide⟩
    exact absurd hone (by decide +kernel)
  · intro hall
    have htrue := hall (valveTurn ["close", "open"] ["close", "open"] "open") (by decide +kernel)
    exact absurd htrue (by decide +kernel)

end Automaton

end Enabledness
