namespace OutputLoops

-- Loops whose round gives one output and the next state, or ends the loop. The
-- number of rounds is a bound for the definition only: none means that the loop
-- is still running after that many.
variable {State Output : Type}

def collect (round : State → Option (Output × State)) : Nat → State → Option (List Output)
  | 0,_ => none
  | rounds+1,s => match round s with
    | none => some []
    | some (out,next) => (collect round rounds next).map (out :: ·)

def Ends (round : State → Option (Output × State)) (s : State) (outs : List Output) : Prop :=
  ∃ rounds, collect round rounds s = some outs

inductive Goes (round : State → Option (Output × State)) : State → List Output → State → Prop where
  | here (s : State) : Goes round s [] s
  | next {s between after : State} {out : Output} {outs : List Output} (going : round s = some (out,between))
      (rest : Goes round between outs after) : Goes round s (out :: outs) after

variable {round : State → Option (Output × State)}

theorem ends_iff_of_none {s : State} (ended : round s = none) (outs : List Output) : Ends round s outs ↔ outs = [] := by
  constructor
  · rintro ⟨rounds,ran⟩
    cases rounds with
    | zero => cases ran
    | succ rounds =>
      simp only [collect,ended] at ran
      exact (Option.some.inj ran).symm
  · rintro rfl
    exact ⟨1,by simp [collect,ended]⟩

theorem ends_iff_of_some {s next : State} {out : Output} (going : round s = some (out,next)) (outs : List Output) :
    Ends round s outs ↔ ∃ rest, outs = out :: rest ∧ Ends round next rest := by
  constructor
  · rintro ⟨rounds,ran⟩
    cases rounds with
    | zero => cases ran
    | succ rounds =>
      simp only [collect,going] at ran
      obtain ⟨rest,reached,shape⟩ := Option.map_eq_some_iff.mp ran
      exact ⟨rest,shape.symm,rounds,reached⟩
  · rintro ⟨rest,rfl,rounds,ran⟩
    exact ⟨rounds+1,by simp [collect,going,ran]⟩

theorem goes_append {s between after : State} {first second : List Output} (left : Goes round s first between)
    (right : Goes round between second after) : Goes round s (first ++ second) after := by
  induction left with
  | here _ => exact right
  | next going _ ih => exact .next going (ih right)

theorem ends_through {s after : State} {passed : List Output} (goes : Goes round s passed after) (outs : List Output) :
    Ends round s outs ↔ ∃ rest, outs = passed ++ rest ∧ Ends round after rest := by
  induction goes generalizing outs with
  | here s => simp
  | next going _ ih =>
    rw [ends_iff_of_some going]
    constructor
    · rintro ⟨more,rfl,ended⟩
      obtain ⟨rest,rfl,last⟩ := (ih more).mp ended
      exact ⟨rest,rfl,last⟩
    · rintro ⟨rest,rfl,last⟩
      exact ⟨_,rfl,(ih _).mpr ⟨rest,rfl,last⟩⟩

-- A loop that keeps an invariant under which no round ends it never ends.
theorem never_ends (Inv : State → Prop) (goes : ∀ s, Inv s → ∃ out next, round s = some (out,next) ∧ Inv next)
    {s : State} (valid : Inv s) (rounds : Nat) : collect round rounds s = none := by
  induction rounds generalizing s with
  | zero => rfl
  | succ rounds ih =>
    obtain ⟨out,next,going,kept⟩ := goes s valid
    simp [collect,going,ih kept]

-- The counted loop of an unsigned counter of eight bits below an int bound, as a
-- part of another loop. The counter wraps, so a bound past 255 is never reached.
theorem count_goes (at' : UInt8 → State) (body : UInt8 → Output) {bound i rest : Nat} (small : bound ≤ 255)
    (steps : ∀ c : UInt8, c.toNat < bound → round (at' c) = some (body c,at' (c+1))) (total : i + rest = bound) :
    Goes round (at' (UInt8.ofNat i)) ((List.range' i rest).map fun k => body (UInt8.ofNat k)) (at' (UInt8.ofNat bound)) := by
  induction rest generalizing i with
  | zero =>
    cases total
    exact .here _
  | succ rest ih =>
    have value : (UInt8.ofNat i).toNat = i := by rw [UInt8.toNat_ofNat']; omega
    have next : UInt8.ofNat i + 1 = UInt8.ofNat (i+1) := by rw [UInt8.ofNat_add]; rfl
    have going := steps (UInt8.ofNat i) (by rw [value]; omega)
    rw [next] at going
    exact .next going (ih (by omega))

theorem count_never_ends (at' : UInt8 → State) (body : UInt8 → Output) {bound : Nat} (large : 256 ≤ bound)
    (steps : ∀ c : UInt8, c.toNat < bound → round (at' c) = some (body c,at' (c+1))) (c : UInt8) (outs : List Output) :
    ¬Ends round (at' c) outs := by
  rintro ⟨rounds,ran⟩
  have never := never_ends (fun s => ∃ c, s = at' c) (by
    rintro s ⟨c,rfl⟩
    have below := c.toNat_lt
    exact ⟨_,_,steps c (by omega),c+1,rfl⟩) ⟨c,rfl⟩ rounds
  rw [never] at ran
  cases ran

end OutputLoops
