import Mathlib

namespace loop

variable {ε σ α : Type*} {f : σ → α → Except ε σ} {g : σ → α → σ} {l : List α}

/-- A loop that may throw runs to its end when no element makes a round throw. -/
theorem isOk_foldlM {ok : α → Prop} (hstep : ∀ s a, (f s a).isOk = true ↔ ok a) (l : List α) (s : σ) :
    (l.foldlM f s).isOk = true ↔ ∀ a ∈ l, ok a := by
  induction l generalizing s with
  | nil => simp [pure, Except.pure, Except.isOk, Except.toBool]
  | cons a rest ih =>
    rw [List.foldlM_cons, List.forall_mem_cons, ← hstep s a]
    cases hfirst : f s a with
    | error e => simp [bind, Except.bind, Except.isOk, Except.toBool]
    | ok next =>
      change (rest.foldlM f next).isOk = true ↔ _
      rw [ih next]
      simp [Except.isOk, Except.toBool]

/-- A loop that ends has gone through its rounds. -/
theorem eq_foldl_of_foldlM {s final : σ} (h : ∀ s, ∀ a ∈ l, ∀ next, f s a = .ok next → next = g s a)
    (hrun : l.foldlM f s = .ok final) : final = l.foldl g s := by
  induction l generalizing s with
  | nil =>
    cases hrun
    rfl
  | cons a rest ih =>
    rw [List.foldlM_cons] at hrun
    cases hstep : f s a with
    | error e => rw [hstep] at hrun; cases hrun
    | ok next =>
      rw [hstep] at hrun
      rw [List.foldl_cons, ← h s a List.mem_cons_self next hstep]
      exact ih (fun s b hb => h s b (List.mem_cons_of_mem _ hb)) hrun

/-- A loop with one round that cannot throw. -/
theorem foldlM_append_cons {before after : List α} {a : α} (h : ∀ s, f s a = .ok (g s a)) (s : σ) :
    (before ++ a :: after).foldlM f s = before.foldlM f s >>= fun s => after.foldlM f (g s a) := by
  rw [List.foldlM_append]
  refine congrArg (before.foldlM f s >>= ·) (funext fun s => ?_)
  rw [List.foldlM_cons, h s]
  rfl

/-- A loop that ends, with one round of which the outcome is known. -/
theorem bind_of_foldlM_append_cons {before after : List α} {a : α} {s final : σ}
    (h : ∀ s next, f s a = .ok next → next = g s a) (hrun : (before ++ a :: after).foldlM f s = .ok final) :
    (before.foldlM f s >>= fun s => after.foldlM f (g s a)) = .ok final := by
  rw [List.foldlM_append] at hrun
  cases hbefore : before.foldlM f s with
  | error e => rw [hbefore] at hrun; cases hrun
  | ok mid =>
    rw [hbefore] at hrun
    change (a :: after).foldlM f mid = .ok final at hrun
    rw [List.foldlM_cons] at hrun
    cases hstep : f mid a with
    | error e => rw [hstep] at hrun; cases hrun
    | ok next =>
      rw [hstep, h mid next hstep] at hrun
      exact hrun

/-- A step whose throw is renamed. -/
theorem mapError_bind_eq_ok_iff.{u} {δ ε : Type*} {α β : Type u} {x : Except δ α} {rename : δ → ε} {next : α → Except ε β} {b : β} :
    x.mapError rename >>= next = .ok b ↔ ∃ a, x = .ok a ∧ next a = .ok b := by
  cases x with
  | error e => exact iff_of_false (fun h => nomatch h) fun ⟨_, h, _⟩ => nomatch h
  | ok a => exact ⟨fun h => ⟨a, rfl, h⟩, fun ⟨_, hok, h⟩ => Except.ok.inj hok ▸ h⟩

/-- A pass that may throw and did not: every element with its result. -/
theorem mapM_eq_ok_iff {β : Type*} {f : α → Except ε β} {l : List α} {results : List β} :
    l.mapM f = .ok results ↔ List.Forall₂ (fun a result => f a = .ok result) l results := by
  induction l generalizing results with
  | nil =>
    rw [List.mapM_nil, List.forall₂_nil_left_iff]
    exact ⟨fun h => (Except.ok.inj h).symm, fun h => congrArg Except.ok h.symm⟩
  | cons a rest ih =>
    rw [List.mapM_cons, List.forall₂_cons_left_iff]
    cases hfirst : f a with
    | error e => exact iff_of_false (fun h => nomatch h) fun ⟨_, _, h, _⟩ => nomatch h
    | ok first =>
      change (rest.mapM f >>= fun later => pure (first :: later)) = Except.ok results ↔ _
      constructor
      · intro h
        cases hrest : rest.mapM f with
        | error e => rw [hrest] at h; cases h
        | ok later =>
          rw [hrest] at h
          cases h
          exact ⟨first, later, rfl, ih.mp hrest, rfl⟩
      · rintro ⟨_, later, hok, hlater, rfl⟩
        rw [ih.mpr hlater, ← Except.ok.inj hok]
        rfl

/-- The order of the elements is the order of the results. -/
theorem mapM_perm {β : Type*} {f : α → Except ε β} {l l' : List α} {results : List β} (h : l.mapM f = .ok results)
    (hperm : l.Perm l') : ∃ results', results.Perm results' ∧ l'.mapM f = .ok results' := by
  obtain ⟨results', hall, hresults⟩ := List.perm_comp_forall₂ hperm.symm (mapM_eq_ok_iff.mp h)
  exact ⟨results', hresults.symm, mapM_eq_ok_iff.mpr hall⟩

end loop
