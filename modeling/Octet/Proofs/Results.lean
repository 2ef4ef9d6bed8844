import Mathlib.Tactic

/-!
# Results

When a computation that may fail succeeds, and where it fails. Each way of combining computations
has one lemma, which opens it into the results of its parts.
-/
namespace Octet.Results

variable {ε ε' α β : Type}

theorem bind_ok_iff {x : Except ε α} {f : α → Except ε β} {b : β} :
    (x >>= f) = .ok b ↔ ∃ a, x = .ok a ∧ f a = .ok b := by
  cases x <;> simp [bind, Except.bind]

theorem map_ok_iff {x : Except ε α} {f : α → β} {b : β} :
    x.map f = .ok b ↔ ∃ a, x = .ok a ∧ f a = b := by
  cases x <;> simp [Except.map]

theorem exists_map_ok_iff {x : Except ε α} {f : α → β} :
    (∃ b, x.map f = .ok b) ↔ ∃ a, x = .ok a := by
  cases x <;> simp [Except.map]

theorem map_ok_iff_of_injective {x : Except ε α} {f : α → β} (hf : Function.Injective f) {a : α} :
    x.map f = .ok (f a) ↔ x = .ok a := by
  cases x <;> simp [Except.map, hf.eq_iff]

theorem map_error_iff {x : Except ε α} {f : α → β} {e : ε} : x.map f = .error e ↔ x = .error e := by
  cases x <;> simp [Except.map]

theorem mapError_ok_iff {x : Except ε α} {f : ε → ε'} {a : α} :
    x.mapError f = .ok a ↔ x = .ok a := by
  cases x <;> simp [Except.mapError]

theorem ite_ok_iff {p : Prop} [Decidable p] {x : Except ε α} {e : ε} {a : α} :
    (if p then x else .error e) = .ok a ↔ p ∧ x = .ok a := by
  by_cases h : p <;> simp [h]

theorem mapM_ok_iff {f : α → Except ε β} {xs : List α} {ys : List β} :
    xs.mapM f = .ok ys ↔ List.Forall₂ (fun x y => f x = .ok y) xs ys := by
  induction xs generalizing ys with
  | nil => simp [pure, Except.pure, eq_comm]
  | cons x xs ih =>
    rw [List.mapM_cons, bind_ok_iff, List.forall₂_cons_left_iff]
    refine exists_congr fun y => ?_
    rw [bind_ok_iff]
    constructor
    · rintro ⟨hy, rest, hrest, heq⟩
      exact ⟨rest, hy, ih.mp hrest, (Except.ok.inj heq).symm⟩
    · rintro ⟨rest, hy, hrest, rfl⟩
      exact ⟨hy, rest, ih.mpr hrest, rfl⟩

lemma exists_of_mem_mapM_ok {f : α → Except ε β} {xs : List α} {ys : List β}
    (h : xs.mapM f = .ok ys) {y : β} (hy : y ∈ ys) : ∃ x ∈ xs, f x = .ok y := by
  induction mapM_ok_iff.mp h with
  | nil => cases hy
  | cons hx hxs ih =>
    rcases List.mem_cons.mp hy with rfl | hy
    · exact ⟨_, List.mem_cons_self, hx⟩
    · obtain ⟨x, hmem, hok⟩ := ih (mapM_ok_iff.mpr hxs) hy
      exact ⟨x, List.mem_cons_of_mem _ hmem, hok⟩

/-! ### Failures -/

theorem exists_ok_iff {x : Except ε α} : (∃ a, x = .ok a) ↔ ∀ e, x ≠ .error e := by
  cases x <;> simp

theorem bind_error_iff {x : Except ε α} {f : α → Except ε β} {e : ε} :
    (x >>= f) = .error e ↔ x = .error e ∨ ∃ a, x = .ok a ∧ f a = .error e := by
  cases x <;> simp [bind, Except.bind]

theorem mapError_error_iff {x : Except ε α} {f : ε → ε'} {e : ε'} :
    x.mapError f = .error e ↔ ∃ cause, x = .error cause ∧ f cause = e := by
  cases x <;> simp [Except.mapError]

/-- What fails on a list fails on the first member that it fails on. -/
theorem mapM_error_iff {f : α → Except ε β} {xs : List α} {e : ε} :
    xs.mapM f = .error e ↔ ∃ before x after, xs = before ++ x :: after ∧
      (∀ y ∈ before, ∃ b, f y = .ok b) ∧ f x = .error e := by
  induction xs with
  | nil => simp [pure, Except.pure]
  | cons x xs ih =>
    rw [List.mapM_cons, bind_error_iff]
    constructor
    · rintro (hx | ⟨y, hy, hrest⟩)
      · exact ⟨[], x, xs, rfl, by simp, hx⟩
      · rcases bind_error_iff.mp hrest with hxs | ⟨_, _, hpure⟩
        · obtain ⟨before, x', after, rfl, hbefore, hx'⟩ := ih.mp hxs
          exact ⟨x :: before, x', after, rfl, List.forall_mem_cons.mpr ⟨⟨y, hy⟩, hbefore⟩, hx'⟩
        · cases hpure
    · rintro ⟨before, x', after, hsplit, hbefore, hx'⟩
      obtain _ | ⟨y, before⟩ := before
      · obtain ⟨rfl, rfl⟩ := List.cons_eq_cons.mp hsplit
        exact .inl hx'
      · obtain ⟨rfl, rfl⟩ := List.cons_eq_cons.mp hsplit
        obtain ⟨⟨b, hb⟩, hbefore⟩ := List.forall_mem_cons.mp hbefore
        have hxs := ih.mpr ⟨before, x', after, rfl, hbefore, hx'⟩
        exact .inr ⟨b, hb, bind_error_iff.mpr (.inl hxs)⟩

theorem exists_of_mapM_error {f : α → Except ε β} {xs : List α} {e : ε}
    (h : xs.mapM f = .error e) : ∃ x ∈ xs, f x = .error e := by
  obtain ⟨before, x, after, rfl, _, hx⟩ := mapM_error_iff.mp h
  exact ⟨x, by simp, hx⟩

/-- A fold that fails does so at a member, in the state that those in front of it lead to. -/
theorem foldlM_error_iff {f : β → α → Except ε β} {xs : List α} {b : β} {e : ε} :
    xs.foldlM f b = .error e ↔ ∃ before x after state, xs = before ++ x :: after ∧
      before.foldlM f b = .ok state ∧ f state x = .error e := by
  constructor
  · intro h
    induction xs generalizing b with
    | nil => cases h
    | cons x xs ih =>
      rw [List.foldlM_cons, bind_error_iff] at h
      rcases h with hx | ⟨middle, hmiddle, hxs⟩
      · exact ⟨[], x, xs, b, rfl, rfl, hx⟩
      · obtain ⟨before, x', after, state, rfl, hstate, hx'⟩ := ih hxs
        refine ⟨x :: before, x', after, state, rfl, ?_, hx'⟩
        rw [List.foldlM_cons]
        exact bind_ok_iff.mpr ⟨middle, hmiddle, hstate⟩
  · rintro ⟨before, x, after, state, rfl, hstate, hx⟩
    rw [List.foldlM_append]
    refine bind_error_iff.mpr (.inr ⟨state, hstate, ?_⟩)
    rw [List.foldlM_cons]
    exact bind_error_iff.mpr (.inl hx)

/-- A fold that has failed would not have failed before, and it does not recover. -/
theorem exists_foldlM_take_error_iff {f : β → α → Except ε β} {before after : List α} {x : α}
    {b state : β} {e : ε} (hstate : before.foldlM f b = .ok state) (hx : f state x = .error e)
    {n : ℕ} : (∃ e', ((before ++ x :: after).take n).foldlM f b = .error e') ↔
      before.length < n := by
  constructor
  · rintro ⟨e', h⟩
    by_contra hle
    have hbefore : before = before.take n ++ before.drop n := (List.take_append_drop n before).symm
    rw [List.take_append_of_le_length (not_lt.mp hle)] at h
    rw [hbefore, List.foldlM_append] at hstate
    obtain ⟨_, hok, _⟩ := bind_ok_iff.mp hstate
    rw [h] at hok
    cases hok
  · intro hlt
    obtain ⟨m, rfl⟩ := Nat.exists_eq_add_of_lt hlt
    refine ⟨e, foldlM_error_iff.mpr ⟨before, x, after.take m, state, ?_, hstate, hx⟩⟩
    rw [Nat.add_assoc, List.take_length_add_append, List.take_succ_cons]

/-! ### Work in place -/

section Work

variable {σ : Type} {s s' : σ}

theorem run_bind_ok {x : EStateM ε σ α} {f : α → EStateM ε σ β} {a : α}
    (hx : x.run s = .ok a s') : (x >>= f).run s = (f a).run s' := by
  change EStateM.bind x f s = _
  rw [EStateM.bind, show x s = .ok a s' from hx]
  rfl

theorem run_bind_error {x : EStateM ε σ α} {f : α → EStateM ε σ β} {e : ε}
    (hx : x.run s = .error e s') : (x >>= f).run s = .error e s' := by
  change EStateM.bind x f s = _
  rw [EStateM.bind, show x s = .error e s' from hx]

end Work

/-! ### Results seen from outside -/

section View

variable {γ δ ε' : Type}

/-- A result as it is seen by someone who looks at successes through `f` and at errors through
`e`. -/
def view (f : α → γ) (e : ε → ε') (x : Except ε α) : Except ε' γ := (x.map f).mapError e

/-- Results that look alike still do after what comes next, if that does not see more. -/
theorem view_bind_congr {f : α → γ} {g : β → δ} {e : ε → ε'} {x x' : Except ε α}
    {y y' : α → Except ε β} (hx : view f e x = view f e x')
    (hy : ∀ a a', f a = f a' → view g e (y a) = view g e (y' a')) :
    view g e (x >>= y) = view g e (x' >>= y') := by
  cases x with
  | error => cases x' with
    | error => exact congrArg Except.error (Except.error.inj hx)
    | ok => cases hx
  | ok a => cases x' with
    | error => cases hx
    | ok a' => exact hy a a' (Except.ok.inj hx)

theorem view_foldlM_congr {f : β → γ} {e : ε → ε'} {step : β → α → Except ε β}
    {R : α → α → Prop} {xs xs' : List α} {b b' : β}
    (hstep : ∀ x x' b b', R x x' → f b = f b' → view f e (step b x) = view f e (step b' x'))
    (h : List.Forall₂ R xs xs') (hb : f b = f b') :
    view f e (xs.foldlM step b) = view f e (xs'.foldlM step b') := by
  induction h generalizing b b' with
  | nil => exact congrArg Except.ok hb
  | cons hx _ ih =>
    rw [List.foldlM_cons, List.foldlM_cons]
    exact view_bind_congr (hstep _ _ _ _ hx hb) fun _ _ hnext => ih hnext

end View

end Octet.Results
