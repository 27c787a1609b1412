/-
  HackPlatform.Proofs.Attempt
  ────────────────────────────────
  **LAWS OF ATTEMPTS: steps that can fail, alone, in a chain and in a fold.**

  Both tools read and place one line after another and stop at the first fault, so
  each of their passes is a chain of steps or a fold over one.  A chain succeeds iff
  each step does, and fails where the first of them fails; a fold keeps whatever each
  of its steps keeps.

      bind_eq_ok_iff, bind_eq_error_iff       chains
      map_eq_ok_iff, mapError_eq_error_iff    what is made of a result, or of a fault
      inv_of_foldlM                           invariants of a fold
      exists_of_foldlM_error, foldlM_error    where a fold fails
      foldlM_again                            a fold that is run a second time
      foldlM_hom                              folds over mapped items
-/

namespace HackPlatform

/-! ## §1. Chains. -/

section
variable {ε ε' α β : Type} {x : Except ε α} {b : β}

theorem bind_eq_ok_iff {f : α → Except ε β} :
    (x >>= f) = .ok b ↔ ∃ a, x = .ok a ∧ f a = .ok b := by
  cases x with
  | error e =>
      constructor
      · intro h
        cases h
      · rintro ⟨a, ha, -⟩
        cases ha
  | ok a =>
      constructor
      · intro h
        exact ⟨a, rfl, h⟩
      · rintro ⟨a', ha, h⟩
        cases ha
        exact h

/-- What fails in a chain of steps fails in one of them. -/
theorem bind_eq_error_iff {f : α → Except ε β} {e : ε} :
    (x >>= f) = .error e ↔ x = .error e ∨ ∃ a, x = .ok a ∧ f a = .error e := by
  cases x with
  | error e' =>
      constructor
      · intro h
        cases h
        exact .inl rfl
      · rintro (h | ⟨a, ha, -⟩)
        · cases h
          rfl
        · cases ha
  | ok a =>
      constructor
      · intro h
        exact .inr ⟨a, rfl, h⟩
      · rintro (h | ⟨a', ha, h⟩)
        · cases h
        · cases ha
          exact h

theorem map_eq_ok_iff {f : α → β} : x.map f = .ok b ↔ ∃ a, x = .ok a ∧ f a = b := by
  cases x with
  | error e => simp [Except.map]
  | ok a => simp [Except.map]

theorem map_eq_error_iff {f : α → β} {e : ε} : x.map f = .error e ↔ x = .error e := by
  cases x with
  | error e' => simp [Except.map]
  | ok a => simp [Except.map]

theorem mapError_eq_ok_iff {f : ε → ε'} {a : α} : x.mapError f = .ok a ↔ x = .ok a := by
  cases x with
  | error e =>
      constructor
      · intro h
        cases h
      · intro h
        cases h
  | ok a' =>
      constructor
      · intro h
        cases h
        rfl
      · intro h
        cases h
        rfl

theorem mapError_eq_error_iff {f : ε → ε'} {e' : ε'} :
    x.mapError f = .error e' ↔ ∃ e, x = .error e ∧ f e = e' := by
  cases x with
  | error e =>
      constructor
      · intro h
        exact ⟨e, rfl, Except.error.inj h⟩
      · rintro ⟨e'', he, h⟩
        cases he
        exact congrArg Except.error h
  | ok a =>
      constructor
      · intro h
        cases h
      · rintro ⟨e, he, -⟩
        cases he

/-- A computation that gives something gives it by succeeding. -/
theorem exists_ok_of_map {f : α → β} (h : x.toOption.map f = some b) :
    ∃ a, x = .ok a ∧ f a = b := by
  cases x with
  | error _ => cases h
  | ok a => exact ⟨a, rfl, Option.some.inj h⟩

end

/-! ## §2. Folds. -/

section
variable {ε α β : Type} {step : β → α → Except ε β}

/-- What holds before a fold and is kept by each step holds after it, of all that was
folded. -/
theorem inv_of_foldlM (Inv : List α → β → Prop)
    (hstep : ∀ done b a b', Inv done b → step b a = .ok b' → Inv (done ++ [a]) b')
    {items : List α} {b b' : β} (h : Inv [] b) (hfold : items.foldlM step b = .ok b') :
    Inv items b' := by
  -- by induction on what is still to fold, with what is done before it
  suffices hfrom : ∀ done, Inv done b → Inv (done ++ items) b' from hfrom [] h
  clear h
  induction items generalizing b with
  | nil =>
      intro done h
      cases hfold
      rwa [List.append_nil]
  | cons a items ih =>
      intro done h
      rw [List.foldlM_cons] at hfold
      obtain ⟨c, ha, hrest⟩ := bind_eq_ok_iff.mp hfold
      have hinv := ih hrest (done ++ [a]) (hstep done b a c h ha)
      rwa [List.append_assoc] at hinv

/-- A fold fails at one item, behind others that it went through. -/
theorem exists_of_foldlM_error {items : List α} {b : β} {e : ε}
    (h : items.foldlM step b = .error e) :
    ∃ before a after b', items = before ++ a :: after ∧ before.foldlM step b = .ok b'
      ∧ step b' a = .error e := by
  induction items generalizing b with
  | nil => cases h
  | cons a items ih =>
      rw [List.foldlM_cons] at h
      rcases bind_eq_error_iff.mp h with ha | ⟨c, ha, hrest⟩
      · exact ⟨[], a, items, b, rfl, rfl, ha⟩
      · obtain ⟨before, a', after, b', rfl, hbefore, ha'⟩ := ih hrest
        refine ⟨a :: before, a', after, b', rfl, ?_, ha'⟩
        rw [List.foldlM_cons, ha]
        exact hbefore

/-- What fails at an item fails there whatever follows. -/
theorem foldlM_error {before : List α} {a : α} {b b' : β} {e : ε}
    (hbefore : before.foldlM step b = .ok b') (ha : step b' a = .error e) (after : List α) :
    (before ++ a :: after).foldlM step b = .error e := by
  rw [List.foldlM_append, hbefore]
  show (a :: after).foldlM step b' = .error e
  rw [List.foldlM_cons, ha]
  rfl

end

/-- A fold that went through goes through again from other states, if each of its steps does
so wherever the state after it is below some bound.  The bound is handed back from the end. -/
theorem foldlM_again {ε α β : Type} {step : β → α → Except ε β} (Below : β → Prop) (onto : β → β)
    (hstep : ∀ b a b', step b a = .ok b' → Below b' →
      Below b ∧ step (onto b) a = .ok (onto b'))
    {items : List α} {b b' : β} (h : items.foldlM step b = .ok b') (hbelow : Below b') :
    Below b ∧ items.foldlM step (onto b) = .ok (onto b') := by
  induction items generalizing b with
  | nil =>
      cases h
      exact ⟨hbelow, rfl⟩
  | cons a items ih =>
      rw [List.foldlM_cons] at h
      obtain ⟨c, ha, hrest⟩ := bind_eq_ok_iff.mp h
      obtain ⟨hc, hagain⟩ := ih hrest
      obtain ⟨hb, hfirst⟩ := hstep b a c ha hc
      refine ⟨hb, ?_⟩
      rw [List.foldlM_cons, hfirst]
      exact hagain

/-- A fold over mapped items is the fold mapped, if that is so of each step. -/
theorem foldlM_hom {ε ε' α α' β β' : Type} {step : β → α → Except ε β}
    {step' : β' → α' → Except ε' β'} {state : β → β'} {item : α → α'} {fault : ε → ε'}
    (hstep : ∀ b a, step' (state b) (item a) = ((step b a).map state).mapError fault)
    (items : List α) (b : β) :
    (items.map item).foldlM step' (state b)
      = ((items.foldlM step b).map state).mapError fault := by
  -- for every state at once: the rest of the fold goes on from the mapped state
  induction items generalizing b with
  | nil => rfl
  | cons a items ih =>
      rw [List.map_cons, List.foldlM_cons, List.foldlM_cons, hstep]
      cases step b a with
      | error e => rfl
      | ok c => exact ih c

end HackPlatform
