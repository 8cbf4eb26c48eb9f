namespace MachineRuns

-- Machines whose step takes an action in a state, or refuses it. Runs are lists
-- of actions, so every interleaving is one list.
variable {State Action : Type}

def run (step : State → Action → Option State) : State → List Action → Option State
  | s,[] => some s
  | s,a :: rest => (step s a).bind (run step · rest)

def Along (step : State → Action → Option State) (allowed : State → Action → Prop) : State → List Action → Prop
  | _,[] => True
  | s,a :: rest => allowed s a ∧ ∀ next, step s a = some next → Along step allowed next rest

instance decidableAlong (step : State → Action → Option State) (allowed : State → Action → Prop)
    [∀ s a, Decidable (allowed s a)] : ∀ s actions, Decidable (Along step allowed s actions)
  | _,[] => isTrue trivial
  | s,a :: rest =>
    match taken : step s a with
    | none => decidable_of_iff (allowed s a) ⟨fun here => ⟨here,by simp [taken]⟩,And.left⟩
    | some next =>
      have := decidableAlong step allowed next rest
      decidable_of_iff (allowed s a ∧ Along step allowed next rest) (by simp [Along,taken])

variable {step : State → Action → Option State}

theorem run_cons {s : State} {a : Action} {rest : List Action} {after : State} :
    run step s (a :: rest) = some after ↔ ∃ next, step s a = some next ∧ run step next rest = some after := by
  simp [run,Option.bind_eq_some_iff]

theorem run_append {s : State} {first second : List Action} {after : State} :
    run step s (first ++ second) = some after ↔
      ∃ middle, run step s first = some middle ∧ run step middle second = some after := by
  induction first generalizing s with
  | nil => simp [run]
  | cons a rest ih =>
    rw [List.cons_append,run_cons]
    constructor
    · rintro ⟨next,taken,more⟩
      obtain ⟨middle,reached,tail⟩ := ih.mp more
      exact ⟨middle,run_cons.mpr ⟨next,taken,reached⟩,tail⟩
    · rintro ⟨middle,ran,tail⟩
      obtain ⟨next,taken,reached⟩ := run_cons.mp ran
      exact ⟨next,taken,ih.mpr ⟨middle,reached,tail⟩⟩

theorem along_of_forall {allowed : State → Action → Prop} {actions : List Action} (all : ∀ a ∈ actions, ∀ s, allowed s a) (s : State) :
    Along step allowed s actions := by
  induction actions generalizing s with
  | nil => trivial
  | cons a rest ih => exact ⟨all a List.mem_cons_self s,fun next _ => ih (fun b there => all b (List.mem_cons_of_mem a there)) next⟩

theorem along_and {allowed : State → Action → Prop} {kind : Action → Prop} {s : State} {actions : List Action}
    (along : Along step allowed s actions) (all : ∀ a ∈ actions, kind a) : Along step (fun s a => allowed s a ∧ kind a) s actions := by
  induction actions generalizing s with
  | nil => trivial
  | cons a rest ih =>
    exact ⟨⟨along.1,all a List.mem_cons_self⟩,fun next taken => ih (along.2 next taken) fun b there => all b (List.mem_cons_of_mem a there)⟩

theorem along_append {allowed : State → Action → Prop} {s : State} {first second : List Action}
    (along : Along step allowed s (first ++ second)) :
    Along step allowed s first ∧ ∀ middle, run step s first = some middle → Along step allowed middle second := by
  induction first generalizing s with
  | nil =>
    refine ⟨trivial,fun middle ran => ?_⟩
    cases ran
    exact along
  | cons a rest ih =>
    refine ⟨⟨along.1,fun next taken => (ih (along.2 next taken)).1⟩,fun middle ran => ?_⟩
    obtain ⟨next,taken,more⟩ := run_cons.mp ran
    exact (ih (along.2 next taken)).2 middle more

theorem along_take {allowed : State → Action → Prop} {s : State} {actions : List Action} (along : Along step allowed s actions)
    (n : Nat) : Along step allowed s (actions.take n) := by
  induction actions generalizing s n with
  | nil => rwa [List.take_nil]
  | cons a rest ih =>
    cases n with
    | zero => trivial
    | succ n => exact ⟨along.1,fun next taken => ih (along.2 next taken) n⟩

-- The invariant rule: what allowed steps preserve holds after every run of them.
theorem along_invariant {Inv : State → Prop} {allowed : State → Action → Prop}
    (preserved : ∀ s a next, Inv s → allowed s a → step s a = some next → Inv next)
    {s after : State} {actions : List Action} (valid : Inv s) (along : Along step allowed s actions)
    (ran : run step s actions = some after) : Inv after := by
  induction actions generalizing s with
  | nil => cases ran; exact valid
  | cons a rest ih =>
    obtain ⟨next,taken,more⟩ := run_cons.mp ran
    exact ih (preserved s a next valid along.1 taken) (along.2 next taken) more

-- What an invariant gives for each allowed action holds all along the run.
theorem along_of_invariant {Inv : State → Prop} {allowed good : State → Action → Prop}
    (preserved : ∀ s a next, Inv s → allowed s a → step s a = some next → Inv next)
    (holds : ∀ s a, Inv s → allowed s a → good s a) {s : State} {actions : List Action} (valid : Inv s)
    (along : Along step allowed s actions) : Along step good s actions := by
  induction actions generalizing s with
  | nil => trivial
  | cons a rest ih =>
    refine ⟨holds s a valid along.1,?_⟩
    intro next taken
    exact ih (preserved s a next valid along.1 taken) (along.2 next taken)

theorem along_at {good : State → Action → Prop} {s middle : State} (first : List Action) {a : Action}
    {rest : List Action} (along : Along step good s (first ++ a :: rest)) (ran : run step s first = some middle) : good middle a := by
  induction first generalizing s with
  | nil => cases ran; exact along.1
  | cons b first ih =>
    obtain ⟨next,taken,more⟩ := run_cons.mp ran
    exact ih (along.2 next taken) more

-- A guard is exact when, in a valid state, it holds of a step just in case the
-- step is good, and good steps keep the state valid.
theorem along_iff {Inv : State → Prop} {allowed good : State → Action → Prop}
    (exact' : ∀ s a, Inv s → (allowed s a ↔ good s a))
    (preserved : ∀ s a next, Inv s → good s a → step s a = some next → Inv next)
    {s : State} (valid : Inv s) (actions : List Action) :
    Along step allowed s actions ↔ Along step good s actions := by
  induction actions generalizing s with
  | nil => exact Iff.rfl
  | cons a rest ih =>
    constructor
    · rintro ⟨here,later⟩
      have now := (exact' s a valid).mp here
      exact ⟨now,fun next taken => (ih (preserved s a next valid now taken)).mp (later next taken)⟩
    · rintro ⟨now,later⟩
      exact ⟨(exact' s a valid).mpr now,
        fun next taken => (ih (preserved s a next valid now taken)).mpr (later next taken)⟩

-- The same for a guard told from the actions before the step alone, where an invariant
-- says what they have led to.
theorem along_iff_history {Tracked : List Action → State → Prop} {clear : List Action → Action → Prop} {good : State → Action → Prop}
    (exact' : ∀ done s a next, Tracked done s → step s a = some next → (clear done a ↔ good s a))
    (preserved : ∀ done s a next, Tracked done s → good s a → step s a = some next → Tracked (done ++ [a]) next)
    {done actions : List Action} {s after : State} (tracked : Tracked done s) (ran : run step s actions = some after) :
    (∀ first a rest, actions = first ++ a :: rest → clear (done ++ first) a) ↔ Along step good s actions := by
  induction actions generalizing s done with
  | nil => exact iff_of_true (fun first a rest same => absurd same.symm (List.append_ne_nil_of_right_ne_nil _ (List.cons_ne_nil _ _))) trivial
  | cons a rest ih =>
    obtain ⟨next,taken,more⟩ := run_cons.mp ran
    have here := exact' done s a next tracked taken
    constructor
    · intro all
      have now : good s a := here.mp (by simpa using all [] a rest rfl)
      refine ⟨now,?_⟩
      intro next' taken'
      cases taken.symm.trans taken'
      apply (ih (preserved done s a next tracked now taken) more).mp
      intro first b later same
      have clear' := all (a :: first) b later (by rw [same]; rfl)
      rwa [List.append_assoc]
    · rintro ⟨now,later⟩ first b more' same
      cases first with
      | nil =>
        cases same
        rw [List.append_nil]
        exact here.mpr now
      | cons _ first =>
        obtain ⟨rfl,same'⟩ := List.cons.inj same
        have clear' := (ih (preserved done s a next tracked now taken) more).mpr (later next taken) first b more' same'
        rwa [List.append_assoc] at clear'

-- What the steps of a run cost together.
def total (step : State → Action → Option State) (cost : State → State → Nat) : State → List Action → Nat
  | _,[] => 0
  | s,a :: rest =>
    match step s a with
    | none => 0
    | some next => cost s next + total step cost next rest

-- A rank that pays for every step bounds what the run costs while the rank is held.
theorem total_le {Inv Held : State → Prop} {allowed : State → Action → Prop} {cost : State → State → Nat} {rank : State → Nat}
    (preserved : ∀ s a next, Inv s → allowed s a → step s a = some next → Inv next)
    (pays : ∀ s a next, Inv s → Held s → allowed s a → step s a = some next → Held next → rank next + cost s next ≤ rank s)
    {s after : State} {actions : List Action} (valid : Inv s) (along : Along step (fun s a => Held s ∧ allowed s a) s actions)
    (ran : run step s actions = some after) (held : Held after) : rank after + total step cost s actions ≤ rank s := by
  induction actions generalizing s with
  | nil =>
    cases ran
    exact Nat.le_refl _
  | cons a rest ih =>
    obtain ⟨next,taken,more⟩ := run_cons.mp ran
    have held' : Held next := by
      cases rest with
      | nil =>
        cases more
        exact held
      | cons b rest => exact (along.2 next taken).1.1
    have now := pays s a next valid along.1.1 along.1.2 taken held'
    have later := ih (preserved s a next valid along.1.2 taken) (along.2 next taken) more
    simp only [total,taken]
    omega

end MachineRuns
