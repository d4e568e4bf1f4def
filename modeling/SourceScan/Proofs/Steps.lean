/-!
# Steps that may fail

What has to hold for a chain of steps to succeed: each step succeeds, and the rest of the chain
does so on its result.  The steps of a list succeed if each of them does.
-/

namespace SourceScan

variable {ε ε' α β γ : Type}

/-! ## One step after another -/

section Steps

variable {x : Except ε α} {y : Except ε β}

theorem ok_of_bind {f : α → Except ε β} {b : β} (h : x >>= f = .ok b) :
    ∃ a, x = .ok a ∧ f a = .ok b := by
  cases x with
  | error e => cases h
  | ok a => exact ⟨a, rfl, h⟩

theorem ok_of_map {f : α → β} {b : β} (h : x.map f = .ok b) : ∃ a, x = .ok a ∧ b = f a := by
  cases x with
  | error e => cases h
  | ok a =>
      cases h
      exact ⟨a, rfl, rfl⟩

theorem ok_of_mapError {f : ε → ε'} {a : α} (h : x.mapError f = .ok a) :
    x = .ok a := by
  cases x with
  | error e => cases h
  | ok a =>
      cases h
      rfl

theorem exists_bind_ok {f : α → Except ε β} :
    (∃ b, x >>= f = .ok b) ↔ ∃ a, x = .ok a ∧ ∃ b, f a = .ok b := by
  cases x <;> simp [bind, Except.bind]

theorem exists_bind_error {f : α → Except ε β} {p : ε → Prop} :
    (∃ e, x >>= f = .error e ∧ p e) ↔
      (∃ e, x = .error e ∧ p e) ∨ ∃ a, x = .ok a ∧ ∃ e, f a = .error e ∧ p e := by
  cases x <;> simp [bind, Except.bind]

theorem mapError_ok {f : ε → ε'} (a : α) : (Except.ok a).mapError f = .ok a := rfl

theorem mapError_error {f : ε → ε'} (e : ε) :
    (Except.error e : Except ε α).mapError f = .error (f e) := rfl

theorem mapError_eq_ok {f : ε → ε'} {a : α} : x.mapError f = .ok a ↔ x = .ok a := by
  refine ⟨ok_of_mapError, ?_⟩
  rintro rfl
  rfl

theorem exists_error_bind {f : α → Except ε β} {q : Prop}
    (hf : ∀ a, x = .ok a → ((∃ e, f a = .error e) ↔ q)) :
    (∃ e, x >>= f = .error e) ↔ (∃ e, x = .error e) ∨ q := by
  cases hstep : x with
  | error e => exact iff_of_true ⟨e, rfl⟩ (.inl ⟨e, rfl⟩)
  | ok a => exact (hf a hstep).trans (or_iff_right (by simp)).symm

theorem exists_map_iff {f : α → γ} :
    (∃ c, (do return f (← x)) = Except.ok c) ↔ ∃ a, x = .ok a := by
  cases x <;> simp [bind, Except.bind, pure, Except.pure]

theorem exists_map₂_iff {f : α → β → γ} :
    (∃ c, (do let a ← x; return f a (← y)) = Except.ok c) ↔
      (∃ a, x = .ok a) ∧ ∃ b, y = .ok b := by
  cases x <;> cases y <;> simp [bind, Except.bind, pure, Except.pure]

end Steps

/-! ## The steps of a list -/

section Lists

variable {xs : List α} {ys : List β} {f : α → Except ε β}

theorem exists_mapM_ok (h : ∀ x ∈ xs, ∃ y, f x = .ok y) : ∃ ys, xs.mapM f = .ok ys := by
  induction xs with
  | nil => exact ⟨[], rfl⟩
  | cons x xs ih =>
      obtain ⟨⟨y, hy⟩, hxs⟩ := List.forall_mem_cons.1 h
      obtain ⟨ys, hys⟩ := ih hxs
      exact ⟨y :: ys, by rw [List.mapM_cons, hy, hys]; rfl⟩

theorem exists_mapM_error : (∃ e, xs.mapM f = .error e) ↔ ∃ x ∈ xs, ∃ e, f x = .error e := by
  induction xs with
  | nil => simp [pure, Except.pure]
  | cons x xs ih =>
      rw [List.mapM_cons]
      simp only [List.mem_cons, exists_eq_or_imp, ← ih]
      cases f x with
      | error e => simp [bind, Except.bind]
      | ok y => cases xs.mapM f <;> simp [bind, Except.bind, pure, Except.pure]

theorem of_mapM_error {e : ε} (h : xs.mapM f = .error e) : ∃ x ∈ xs, f x = .error e := by
  induction xs with
  | nil => cases h
  | cons x xs ih =>
      rw [List.mapM_cons] at h
      cases hx : f x with
      | error e' =>
          rw [hx] at h
          cases h
          exact ⟨x, List.mem_cons_self, hx⟩
      | ok y =>
          rw [hx] at h
          cases hxs : xs.mapM f with
          | ok ys =>
              rw [hxs] at h
              cases h
          | error e' =>
              rw [hxs] at h
              cases h
              obtain ⟨z, hz, hfz⟩ := ih hxs
              exact ⟨z, List.mem_cons_of_mem _ hz, hfz⟩

theorem mem_of_mapM (h : xs.mapM f = .ok ys) {y : β} : y ∈ ys ↔ ∃ x ∈ xs, f x = .ok y := by
  induction xs generalizing ys with
  | nil =>
      cases h
      simp
  | cons x xs ih =>
      rw [List.mapM_cons] at h
      obtain ⟨first, hfirst, h⟩ := ok_of_bind h
      obtain ⟨rest, hrest, h⟩ := ok_of_bind h
      cases h
      simp [ih hrest, hfirst, eq_comm]

theorem foldlM_eq_error {f : β → α → Except ε β} {b : β} {e : ε} :
    xs.foldlM f b = .error e ↔ ∃ before x after b', xs = before ++ x :: after ∧
      before.foldlM f b = .ok b' ∧ f b' x = .error e := by
  induction xs generalizing b with
  | nil => simp [pure, Except.pure]
  | cons x xs ih =>
      rw [List.foldlM_cons]
      cases hx : f b x with
      | error e' =>
          constructor
          · rintro ⟨⟩
            exact ⟨[], x, xs, b, rfl, rfl, hx⟩
          · rintro ⟨before, z, after, b', hsplit, hbefore, hz⟩
            cases before with
            | nil =>
                cases hsplit
                cases hbefore
                exact hx.symm.trans hz
            | cons y before =>
                cases hsplit
                rw [List.foldlM_cons, hx] at hbefore
                cases hbefore
      | ok next =>
          refine (ih (b := next)).trans ⟨?_, ?_⟩
          · rintro ⟨before, z, after, b', rfl, hbefore, hz⟩
            refine ⟨x :: before, z, after, b', rfl, ?_, hz⟩
            rw [List.foldlM_cons, hx]
            exact hbefore
          · rintro ⟨before, z, after, b', hsplit, hbefore, hz⟩
            cases before with
            | nil =>
                cases hsplit
                cases hbefore
                cases hx.symm.trans hz
            | cons y before =>
                cases hsplit
                rw [List.foldlM_cons, hx] at hbefore
                exact ⟨before, z, after, b', rfl, hbefore, hz⟩

/-! ### What a run keeps -/

section Runs

variable {σ : Type} {I : σ → Prop} {s t : σ}

theorem keeps_of_foldlM_ok {step : σ → α → Except ε σ}
    (hstep : ∀ {x s t}, x ∈ xs → I s → step s x = .ok t → I t) (h : I s)
    (hrun : xs.foldlM step s = .ok t) : I t := by
  induction xs generalizing s with
  | nil =>
      cases hrun
      exact h
  | cons x xs ih =>
      rw [List.foldlM_cons] at hrun
      obtain ⟨next, hnext, hrest⟩ := ok_of_bind hrun
      exact ih (fun hx => hstep (List.mem_cons_of_mem _ hx)) (hstep List.mem_cons_self h hnext)
        hrest

theorem keeps_of_foldlM_some {step : σ → α → Option σ}
    (hstep : ∀ {x s t}, x ∈ xs → I s → step s x = some t → I t) (h : I s)
    (hrun : xs.foldlM step s = some t) : I t := by
  induction xs generalizing s with
  | nil =>
      cases hrun
      exact h
  | cons x xs ih =>
      obtain ⟨next, hnext, hrest⟩ := Option.bind_eq_some_iff.1 hrun
      exact ih (fun hx => hstep (List.mem_cons_of_mem _ hx)) (hstep List.mem_cons_self h hnext)
        hrest

end Runs

variable {p q : α → Except ε Bool}

theorem filterM_congr (h : ∀ x ∈ xs, p x = q x) : xs.filterM p = xs.filterM q := by
  have haux : ∀ (xs found : List α), (∀ x ∈ xs, p x = q x) →
      xs.filterAuxM p found = xs.filterAuxM q found := by
    intro xs
    induction xs with
    | nil => simp [List.filterAuxM]
    | cons x xs ih =>
        intro found h
        rw [List.filterAuxM, List.filterAuxM, h x List.mem_cons_self]
        refine congrArg _ (funext fun b => ?_)
        exact ih _ fun other hother => h other (List.mem_cons_of_mem _ hother)
  rw [List.filterM, List.filterM, haux xs [] h]

theorem exists_filterM_error :
    (∃ e, xs.filterM p = .error e) ↔ ∃ x ∈ xs, ∃ e, p x = .error e := by
  have haux : ∀ (xs found : List α), (∃ e, xs.filterAuxM p found = .error e) ↔
      ∃ x ∈ xs, ∃ e, p x = .error e := by
    intro xs
    induction xs with
    | nil => simp [List.filterAuxM, pure, Except.pure]
    | cons x xs ih =>
        intro found
        rw [List.filterAuxM]
        simp only [List.mem_cons, exists_eq_or_imp]
        cases p x with
        | error e => simp [bind, Except.bind]
        | ok b => simpa [bind, Except.bind] using ih _
  rw [← haux xs [], List.filterM]
  cases xs.filterAuxM p [] <;> simp [bind, Except.bind, pure, Except.pure]

end Lists

end SourceScan
