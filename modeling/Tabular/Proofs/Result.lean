import Tabular.Derive.Keys

/-!
# Results of derivation steps

A derivation is a sequence of steps each of which may fail. This file says what a successful
sequence consists of, for the three ways in which steps are put together: one after the other,
along a list (`List.foldlM`), and side by side (`collect`).

## Main definitions

* `KeptIn`: whatever one computation returns, another one returns as well.

## Main results

* `bind_eq_ok_iff`: a sequence of two steps succeeds when both do.
* `foldlM_ok_induction`, `foldlM_ok_induction₂`: what every step of a fold, or of two folds along
  one list, preserves holds after the fold.
* `foldlM_ok_of_mem`: the step of a fold for one element.
* `exists_step_of_foldlM`: the step of a fold in which something becomes true.
* `exists_of_foldlM_eq_error`: the step at which a fold fails.
* `KeptIn.bind`, `KeptIn.foldlM`: sequences of steps whose results another sequence keeps.
* `collect_ok_iff`, `mem_collect_iff`: the results that are collected.
* `collect_append_eq_ok_iff`, `collect_eq_ok_of_forall`: collections part by part.
* `exists_of_collect_eq_error`: the failure that is reported.
-/

namespace Tabular

variable {ε α β σ : Type}

theorem bind_eq_ok_iff {x : Except ε α} {f : α → Except ε β} {b : β} :
    x >>= f = .ok b ↔ ∃ a, x = .ok a ∧ f a = .ok b := by
  cases x with
  | error e => simp [bind, Except.bind]
  | ok a => simp [bind, Except.bind]

theorem bind_eq_error_iff {x : Except ε α} {f : α → Except ε β} {e : ε} :
    x >>= f = .error e ↔ x = .error e ∨ ∃ a, x = .ok a ∧ f a = .error e := by
  cases x with
  | error e' => simp [bind, Except.bind]
  | ok a => simp [bind, Except.bind]

theorem map_eq_ok_iff {x : Except ε α} {f : α → β} {b : β} :
    f <$> x = .ok b ↔ ∃ a, x = .ok a ∧ f a = b := by
  cases x <;> simp [Functor.map, Except.map]

theorem map_eq_error_iff {x : Except ε α} {f : α → β} {e : ε} :
    f <$> x = .error e ↔ x = .error e := by
  cases x <;> simp [Functor.map, Except.map]

@[simp] theorem pure_eq_ok_iff {a b : α} : (pure a : Except ε α) = .ok b ↔ a = b := by
  simp [pure, Except.pure]

@[simp] theorem pure_ne_error {a : α} {e : ε} : (pure a : Except ε α) ≠ .error e := by
  simp [pure, Except.pure]

/-- A computation whose result passes a test has a result. -/
theorem exists_eq_ok_of_any {x : Except ε α} {p : α → Bool} (h : x.toOption.any p = true) :
    ∃ a, x = .ok a ∧ p a = true := by
  cases x with
  | error e => simp [Except.toOption] at h
  | ok a => exact ⟨a, rfl, by simpa [Except.toOption] using h⟩

/-- What holds at the start and is preserved by every successful step along a list holds at the
end. -/
theorem foldlM_ok_induction {f : σ → α → Except ε σ} (motive : σ → Prop) {xs : List α}
    (step : ∀ s a s', a ∈ xs → motive s → f s a = .ok s' → motive s') {s s' : σ}
    (start : motive s) (h : xs.foldlM f s = .ok s') : motive s' := by
  induction xs generalizing s with
  | nil =>
    simp only [List.foldlM_nil, pure_eq_ok_iff] at h
    exact h ▸ start
  | cons a rest ih =>
    rw [List.foldlM_cons, bind_eq_ok_iff] at h
    obtain ⟨mid, hmid, hrest⟩ := h
    refine ih (fun t b t' hb => step t b t' (List.mem_cons_of_mem a hb)) ?_ hrest
    exact step s a mid List.mem_cons_self start hmid

/-- The same for two folds along one list, for a relation between what they have reached. -/
theorem foldlM_ok_induction₂ {τ : Type} {f : σ → α → Except ε σ} {g : τ → α → Except ε τ}
    (motive : σ → τ → Prop) {xs : List α}
    (step : ∀ s t a s' t', a ∈ xs → motive s t → f s a = .ok s' → g t a = .ok t' → motive s' t')
    {s s' : σ} {t t' : τ} (start : motive s t) (hf : xs.foldlM f s = .ok s')
    (hg : xs.foldlM g t = .ok t') : motive s' t' := by
  induction xs generalizing s t with
  | nil =>
    simp only [List.foldlM_nil, pure_eq_ok_iff] at hf hg
    exact hf ▸ hg ▸ start
  | cons a rest ih =>
    rw [List.foldlM_cons, bind_eq_ok_iff] at hf hg
    obtain ⟨s₁, hs₁, hf⟩ := hf
    obtain ⟨t₁, ht₁, hg⟩ := hg
    refine ih (fun x y b x' y' hb => step x y b x' y' (List.mem_cons_of_mem a hb)) ?_ hf hg
    exact step s t a s₁ t₁ List.mem_cons_self start hs₁ ht₁

/-- A successful fold along a list consists of the steps before an element, the step for it, and the
steps after it. -/
theorem foldlM_ok_of_mem {f : σ → α → Except ε σ} {xs : List α} {s s' : σ}
    (h : xs.foldlM f s = .ok s') {a : α} (ha : a ∈ xs) : ∃ before after t t',
      xs = before ++ a :: after ∧ before.foldlM f s = .ok t ∧ f t a = .ok t' ∧
        after.foldlM f t' = .ok s' := by
  obtain ⟨before, after, rfl⟩ := List.append_of_mem ha
  simp only [List.foldlM_append, List.foldlM_cons, bind_eq_ok_iff] at h
  obtain ⟨t, ht, t', ht', hrest⟩ := h
  exact ⟨before, after, t, t', rfl, ht, ht', hrest⟩

/-- If a successful fold along a list makes something true, it becomes true in one of the steps. -/
theorem exists_step_of_foldlM {f : σ → α → Except ε σ} {P : σ → Prop} {xs : List α} {s s' : σ}
    (h : xs.foldlM f s = .ok s') (hs : ¬P s) (hs' : P s') : ∃ before a after t t',
      xs = before ++ a :: after ∧ before.foldlM f s = .ok t ∧ f t a = .ok t' ∧
        after.foldlM f t' = .ok s' ∧ ¬P t ∧ P t' := by
  induction xs generalizing s with
  | nil =>
    simp only [List.foldlM_nil, pure_eq_ok_iff] at h
    exact absurd (h ▸ hs') hs
  | cons a rest ih =>
    rw [List.foldlM_cons, bind_eq_ok_iff] at h
    obtain ⟨mid, hmid, hrest⟩ := h
    by_cases hP : P mid
    · exact ⟨[], a, rest, s, mid, rfl, rfl, hmid, hrest, hs, hP⟩
    · obtain ⟨before, b, after, t, t', rfl, hbefore, hstep, hafter, ht, ht'⟩ := ih hrest hP
      refine ⟨a :: before, b, after, t, t', rfl, ?_, hstep, hafter, ht, ht'⟩
      rw [List.foldlM_cons, bind_eq_ok_iff]
      exact ⟨mid, hmid, hbefore⟩

/-- What every step preserves along an initial segment of the natural numbers, for a property of the
number of steps made. -/
theorem foldlM_range_ok_induction {f : σ → Nat → Except ε σ} (motive : Nat → σ → Prop) {n : Nat}
    (step : ∀ k s s', k < n → motive k s → f s k = .ok s' → motive (k + 1) s') {s s' : σ}
    (start : motive 0 s) (h : (List.range n).foldlM f s = .ok s') : motive n s' := by
  induction n generalizing s' with
  | zero =>
    simp only [List.range_zero, List.foldlM_nil, pure_eq_ok_iff] at h
    exact h ▸ start
  | succ n ih =>
    rw [List.range_succ, List.foldlM_append, bind_eq_ok_iff] at h
    obtain ⟨mid, hmid, h⟩ := h
    rw [List.foldlM_cons, bind_eq_ok_iff] at h
    obtain ⟨last, hlast, h⟩ := h
    simp only [List.foldlM_nil, pure_eq_ok_iff] at h
    subst h
    have hstep := ih (fun k t t' hk => step k t t' (Nat.lt_succ_of_lt hk)) hmid
    exact step n mid last (Nat.lt_succ_self n) hstep hlast

/-- A fold along a list that fails consists of the steps before an element and the failing step for
it. -/
theorem exists_of_foldlM_eq_error {f : σ → α → Except ε σ} {xs : List α} {s : σ} {err : ε}
    (h : xs.foldlM f s = .error err) : ∃ before a after t,
      xs = before ++ a :: after ∧ before.foldlM f s = .ok t ∧ f t a = .error err := by
  induction xs generalizing s with
  | nil => simp at h
  | cons a rest ih =>
    rw [List.foldlM_cons, bind_eq_error_iff] at h
    rcases h with h | ⟨mid, hmid, h⟩
    · exact ⟨[], a, rest, s, rfl, rfl, h⟩
    · obtain ⟨before, b, after, t, rfl, hbefore, hfail⟩ := ih h
      refine ⟨a :: before, b, after, t, rfl, ?_, hfail⟩
      rw [List.foldlM_cons, bind_eq_ok_iff]
      exact ⟨mid, hmid, hbefore⟩

theorem foldlM_congr {f g : σ → α → Except ε σ} {xs : List α}
    (h : ∀ s, ∀ a ∈ xs, f s a = g s a) {s : σ} : xs.foldlM f s = xs.foldlM g s := by
  induction xs generalizing s with
  | nil => rfl
  | cons a rest ih =>
    rw [List.foldlM_cons, List.foldlM_cons, h s a List.mem_cons_self]
    exact congrArg _ (funext fun _ => ih fun t b hb => h t b (List.mem_cons_of_mem a hb))

/-- Whatever the first computation returns, the second returns as well. -/
def KeptIn (x y : Except ε α) : Prop :=
  ∀ a, x = .ok a → y = .ok a

namespace KeptIn

theorem refl (x : Except ε α) : KeptIn x x :=
  fun _ h => h

theorem of_eq {x y : Except ε α} (h : y = x) : KeptIn x y :=
  fun _ ha => h.trans ha

theorem of_error (e : ε) (y : Except ε α) : KeptIn (.error e) y :=
  fun _ h => nomatch h

theorem bind {x y : Except ε α} {f g : α → Except ε β} (h : KeptIn x y)
    (hfg : ∀ a, x = .ok a → KeptIn (f a) (g a)) : KeptIn (x >>= f) (y >>= g) := by
  intro b hb
  obtain ⟨a, ha, hab⟩ := bind_eq_ok_iff.mp hb
  exact bind_eq_ok_iff.mpr ⟨a, h a ha, hfg a ha b hab⟩

theorem foldlM {f g : σ → α → Except ε σ} {xs : List α}
    (h : ∀ s, ∀ a ∈ xs, KeptIn (f s a) (g s a)) (s : σ) :
    KeptIn (xs.foldlM f s) (xs.foldlM g s) := by
  induction xs generalizing s with
  | nil => exact .refl _
  | cons a rest ih =>
    rw [List.foldlM_cons, List.foldlM_cons]
    refine (h s a List.mem_cons_self).bind fun next _ => ih (fun t b hb => ?_) next
    exact h t b (List.mem_cons_of_mem a hb)

end KeptIn

/-- The results of a successful collection are those of its parts. -/
theorem mem_collect_iff {f : α → BuildResult (List β)} {xs : List α} {ys : List β}
    (h : collect f xs = .ok ys) {y : β} : y ∈ ys ↔ ∃ x ∈ xs, ∃ zs, f x = .ok zs ∧ y ∈ zs := by
  induction xs generalizing ys with
  | nil =>
    simp only [collect, Except.ok.injEq] at h
    simp [← h]
  | cons x rest ih =>
    simp only [collect, bind_eq_ok_iff, pure_eq_ok_iff] at h
    obtain ⟨bs, hbs, cs, hcs, rfl⟩ := h
    simp [List.mem_append, ih hcs, hbs]

/-- A collection succeeds when every part does. -/
theorem collect_ok_iff {f : α → BuildResult (List β)} {xs : List α} :
    (∃ ys, collect f xs = .ok ys) ↔ ∀ x ∈ xs, ∃ zs, f x = .ok zs := by
  induction xs with
  | nil => simp [collect]
  | cons x rest ih =>
    simp only [collect, bind_eq_ok_iff, pure_eq_ok_iff, List.forall_mem_cons, ← ih]
    constructor
    · rintro ⟨_, bs, hbs, cs, hcs, rfl⟩
      exact ⟨⟨bs, hbs⟩, cs, hcs⟩
    · rintro ⟨⟨bs, hbs⟩, cs, hcs⟩
      exact ⟨bs ++ cs, bs, hbs, cs, hcs, rfl⟩

/-- A collection along two lists, one after the other. -/
theorem collect_append_eq_ok_iff {f : α → BuildResult (List β)} {xs ys : List α} {zs : List β} :
    collect f (xs ++ ys) = .ok zs ↔
      ∃ as bs, collect f xs = .ok as ∧ collect f ys = .ok bs ∧ zs = as ++ bs := by
  induction xs generalizing zs with
  | nil => simp [collect]
  | cons x rest ih =>
    simp only [List.cons_append, collect, bind_eq_ok_iff, pure_eq_ok_iff, ih]
    constructor
    · rintro ⟨cs, hcs, _, ⟨as, bs, has, hbs, rfl⟩, rfl⟩
      exact ⟨cs ++ as, bs, ⟨cs, hcs, as, has, rfl⟩, hbs, (List.append_assoc cs as bs).symm⟩
    · rintro ⟨_, bs, ⟨cs, hcs, as, has, rfl⟩, hbs, rfl⟩
      exact ⟨cs, hcs, as ++ bs, ⟨as, bs, has, hbs, rfl⟩, (List.append_assoc cs as bs).symm⟩

theorem collect_map (f : β → BuildResult (List σ)) (g : α → β) (xs : List α) :
    collect f (xs.map g) = collect (fun x => f (g x)) xs := by
  induction xs with
  | nil => rfl
  | cons x rest ih => rw [List.map_cons, collect, collect, ih]

theorem collect_congr {f g : α → BuildResult (List β)} {xs : List α} (h : ∀ x ∈ xs, f x = g x) :
    collect f xs = collect g xs := by
  induction xs with
  | nil => rfl
  | cons x rest ih =>
    rw [List.forall_mem_cons] at h
    rw [collect, collect, h.1, ih h.2]

/-- A collection keeps its result if every part does. -/
theorem collect_eq_ok_of_forall {f g : α → BuildResult (List β)} {xs : List α} {ys : List β}
    (hparts : ∀ x ∈ xs, ∀ zs, f x = .ok zs → g x = .ok zs) (h : collect f xs = .ok ys) :
    collect g xs = .ok ys := by
  induction xs generalizing ys with
  | nil => exact h
  | cons x rest ih =>
    rw [List.forall_mem_cons] at hparts
    simp only [collect, bind_eq_ok_iff, pure_eq_ok_iff] at h ⊢
    obtain ⟨bs, hbs, cs, hcs, rfl⟩ := h
    exact ⟨bs, hparts.1 bs hbs, cs, ih hparts.2 hcs, rfl⟩

/-- Two collections along one list have equally many results if their parts do. -/
theorem length_eq_of_collect {f g : α → BuildResult (List β)} {xs : List α} {ys zs : List β}
    (hparts : ∀ x ∈ xs, ∀ as bs, f x = .ok as → g x = .ok bs → as.length = bs.length)
    (hys : collect f xs = .ok ys) (hzs : collect g xs = .ok zs) : ys.length = zs.length := by
  induction xs generalizing ys zs with
  | nil =>
    simp only [collect, Except.ok.injEq] at hys hzs
    rw [← hys, ← hzs]
  | cons x rest ih =>
    rw [List.forall_mem_cons] at hparts
    simp only [collect, bind_eq_ok_iff, pure_eq_ok_iff] at hys hzs
    obtain ⟨as, has, ys, hys, rfl⟩ := hys
    obtain ⟨bs, hbs, zs, hzs, rfl⟩ := hzs
    rw [List.length_append, List.length_append, hparts.1 as bs has hbs, ih hparts.2 hys hzs]

/-- The failure of a collection is the failure of one of its parts. -/
theorem exists_of_collect_eq_error {f : α → BuildResult (List β)} {xs : List α} {e : BuildError}
    (h : collect f xs = .error e) : ∃ x ∈ xs, f x = .error e := by
  induction xs with
  | nil => simp [collect] at h
  | cons x rest ih =>
    simp only [collect, bind_eq_error_iff, pure_ne_error, and_false, exists_false, or_false] at h
    rcases h with h | ⟨_, _, h⟩
    · exact ⟨x, List.mem_cons_self, h⟩
    · obtain ⟨y, hy, hfail⟩ := ih h
      exact ⟨y, List.mem_cons_of_mem x hy, hfail⟩

end Tabular
