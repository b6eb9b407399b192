import Mathlib.Data.List.Find
import Mathlib.Data.List.Induction

/-!
# Loops in the error monad

A C loop over an array is translated as a monadic loop over the indices, each body
reading its element through a fallible access. This file removes the monad again:
when every access of the loop succeeds, the loop is the pure list function over the
elements read.
-/

namespace IpApps
namespace ExceptLoops

variable {ε α β : Type}

/-- A step that succeeded. -/
theorem ok_bind (a : α) (f : α → Except ε β) : (Except.ok a >>= f) = f a := rfl

/-! ## Loops whose bodies succeed -/

theorem findM?_eq_ok {xs : List α} {f : α → Except ε Bool} {p : α → Bool}
    (h : ∀ x ∈ xs, f x = .ok (p x)) : xs.findM? f = .ok (xs.find? p) := by
  induction xs with
  | nil => rfl
  | cons x xs ih =>
    have hx : f x = .ok (p x) := h x List.mem_cons_self
    have ih' := ih fun y hy => h y (List.mem_cons_of_mem _ hy)
    rw [List.findM?, hx, List.find?_cons]
    cases hp : p x with
    | false => exact ih'
    | true => rfl

theorem anyM_eq_ok {xs : List α} {f : α → Except ε Bool} {p : α → Bool}
    (h : ∀ x ∈ xs, f x = .ok (p x)) : xs.anyM f = .ok (xs.any p) := by
  induction xs with
  | nil => rfl
  | cons x xs ih =>
    have hx : f x = .ok (p x) := h x List.mem_cons_self
    have ih' := ih fun y hy => h y (List.mem_cons_of_mem _ hy)
    rw [List.anyM, hx, List.any_cons]
    cases hp : p x with
    | false => exact ih'
    | true => rfl

/-- A search whose test does not look at the element. -/
theorem anyM_const {xs : List α} (hne : xs ≠ []) (b : Except ε Bool) :
    xs.anyM (fun _ => b) = b := by
  induction xs with
  | nil => exact absurd rfl hne
  | cons x xs ih =>
    rw [List.anyM]
    cases b with
    | error e => rfl
    | ok found =>
      cases found with
      | true => rfl
      | false =>
        cases xs with
        | nil => rfl
        | cons y ys => exact ih (List.cons_ne_nil y ys)

theorem foldlM_congr {xs : List α} {f g : β → α → Except ε β} {b : β}
    (h : ∀ c x, f c x = g c x) : xs.foldlM f b = xs.foldlM g b := by
  rw [funext fun c => funext (h c)]

/-- A sequence succeeds if its first part does and the second does with its value. -/
theorem bind_eq_ok {x : Except ε α} {f : α → Except ε β} {b : β} (h : (x >>= f) = .ok b) :
    ∃ a, x = .ok a ∧ f a = .ok b := by
  cases x with
  | error e => cases h
  | ok a => exact ⟨a, rfl, h⟩

/-- What every round keeps holds after the loop. -/
theorem foldlM_preserves {P : β → Prop} {f : β → α → Except ε β} {xs : List α} {b b' : β}
    (hstep : ∀ c x c', P c → f c x = .ok c' → P c') (hb : P b) (h : xs.foldlM f b = .ok b') :
    P b' := by
  induction xs generalizing b with
  | nil =>
    cases h
    exact hb
  | cons x xs ih =>
    rw [List.foldlM_cons] at h
    obtain ⟨c, hc, hrest⟩ := bind_eq_ok h
    exact ih (hstep b x c hb hc) hrest

/-- A counting loop each of whose rounds succeeds. -/
theorem foldlM_range_exists {P : ℕ → β → Prop} {f : β → ℕ → Except ε β} {n : ℕ} {b : β}
    (hstep : ∀ i c, i < n → P i c → ∃ c', f c i = .ok c' ∧ P (i + 1) c') (hb : P 0 b) :
    ∃ b', (List.range n).foldlM f b = .ok b' ∧ P n b' := by
  induction n with
  | zero => exact ⟨b, rfl, hb⟩
  | succ n ih =>
    obtain ⟨c, hc, hround⟩ := ih fun i c hi => hstep i c (Nat.lt_succ_of_lt hi)
    obtain ⟨c', hc', hround'⟩ := hstep n c (Nat.lt_succ_self n) hround
    refine ⟨c', ?_, hround'⟩
    rw [List.range_succ, List.foldlM_append, hc, ok_bind, List.foldlM_cons, hc']
    rfl

/-- What holds after the first rounds of a counting loop, by the number of rounds. -/
theorem foldlM_range_rounds {P : ℕ → β → Prop} {f : β → ℕ → Except ε β} {n : ℕ} {b b' : β}
    (hstep : ∀ i c c', i < n → P i c → f c i = .ok c' → P (i + 1) c') (hb : P 0 b)
    (h : (List.range n).foldlM f b = .ok b') : P n b' := by
  induction n generalizing b' with
  | zero =>
    cases h
    exact hb
  | succ n ih =>
    rw [List.range_succ, List.foldlM_append] at h
    obtain ⟨c, hc, hlast⟩ := bind_eq_ok h
    have hround : f c n = .ok b' := by simpa [List.foldlM_cons] using hlast
    have hc' := ih (fun i c c' hi => hstep i c c' (Nat.lt_succ_of_lt hi)) hc
    exact hstep n c b' (Nat.lt_succ_self n) hc' hround

/-! ## Loops over the indices of an array -/

/-- The elements an access function reads at the indices of `xs`. -/
theorem map_range_eq {xs : List α} {get : ℕ → Except ε α}
    (h : ∀ (i : ℕ) (hi : i < xs.length), get i = .ok xs[i]) :
    (List.range xs.length).map get = xs.map Except.ok := by
  refine List.ext_getElem (by simp) fun i hi _ => ?_
  have hi' : i < xs.length := by simpa using hi
  simp only [List.getElem_map, List.getElem_range]
  exact h i hi'

/-- An accumulating loop over the indices is the loop over the elements. -/
theorem foldlM_range_eq {xs : List α} {get : ℕ → Except ε α} (f : β → α → Except ε β)
    (h : ∀ (i : ℕ) (hi : i < xs.length), get i = .ok xs[i]) (b : β) :
    (List.range xs.length).foldlM (fun acc i => get i >>= f acc) b = xs.foldlM f b := by
  have hmap : ∀ (ys : List (Except ε α)) (c : β),
      (List.range xs.length).map get = ys →
      (List.range xs.length).foldlM (fun acc i => get i >>= f acc) c
        = ys.foldlM (fun acc x => x >>= f acc) c := by
    rintro _ c rfl
    rw [List.foldlM_map]
  rw [hmap _ b (map_range_eq h), List.foldlM_map]
  rfl

/-- A test of the element read at an index, with the access discharged. -/
theorem accessed {xs : List α} {get : ℕ → Except ε α} (p : α → Bool)
    (h : ∀ (i : ℕ) (hi : i < xs.length), get i = .ok xs[i]) :
    ∀ i ∈ List.range xs.length,
      (do return p (← get i) : Except ε Bool) = .ok (xs[i]?.any p) := by
  intro i hi
  have hi' : i < xs.length := List.mem_range.mp hi
  rw [h i hi', List.getElem?_eq_getElem hi']
  rfl

/-- The least index of a match, as a search over the indices. -/
theorem find?_range_eq_findIdx? (p : α → Bool) (xs : List α) :
    (List.range xs.length).find? (fun i => xs[i]?.any p) = xs.findIdx? p := by
  induction xs using List.reverseRecOn with
  | nil => rfl
  | append_singleton xs x ih =>
    have hcongr : (List.range xs.length).find? (fun i => (xs ++ [x])[i]?.any p)
        = (List.range xs.length).find? (fun i => xs[i]?.any p) := by
      refine List.find?_congr fun i hi => ?_
      rw [List.getElem?_append_left (List.mem_range.mp hi)]
    rw [List.length_append, List.length_singleton, List.range_succ, List.find?_append, hcongr,
      ih, List.findIdx?_append]
    cases xs.findIdx? p <;> cases hp : p x <;> simp [List.findIdx?_cons, hp]

/-- A search over the indices returns the index of the first matching element. -/
theorem findM?_range_eq {xs : List α} {get : ℕ → Except ε α} (p : α → Bool)
    (h : ∀ (i : ℕ) (hi : i < xs.length), get i = .ok xs[i]) :
    (List.range xs.length).findM? (fun i => do return p (← get i)) = .ok (xs.findIdx? p) := by
  rw [findM?_eq_ok (accessed p h), find?_range_eq_findIdx?]

/-- A search with early exit over the indices is `List.any` over the elements. -/
theorem anyM_range_eq {xs : List α} {get : ℕ → Except ε α} (p : α → Bool)
    (h : ∀ (i : ℕ) (hi : i < xs.length), get i = .ok xs[i]) :
    (List.range xs.length).anyM (fun i => do return p (← get i)) = .ok (xs.any p) := by
  rw [anyM_eq_ok (accessed p h)]
  congr 1
  rw [Bool.eq_iff_iff, List.any_eq_true, List.any_eq_true]
  constructor
  · rintro ⟨i, hi, hp⟩
    rw [List.getElem?_eq_getElem (List.mem_range.mp hi)] at hp
    exact ⟨_, List.getElem_mem _, hp⟩
  · rintro ⟨x, hx, hp⟩
    obtain ⟨i, hi, rfl⟩ := List.mem_iff_getElem.mp hx
    exact ⟨i, List.mem_range.mpr hi, by rw [List.getElem?_eq_getElem hi]; exact hp⟩

/-- A loop over the indices of a list whose rounds keep `P` and read the element at their
index is a fold over the list. -/
theorem foldlM_range_fold {xs : List α} {f : β → ℕ → Except ε β} {g : β → α → β} {P : β → Prop}
    (h : ∀ (b : β) (i : ℕ) (hi : i < xs.length), P b → f b i = .ok (g b xs[i]))
    (hkeep : ∀ b x, P b → P (g b x)) {b : β} (hb : P b) :
    (List.range xs.length).foldlM f b = .ok (xs.foldl g b) ∧ P (xs.foldl g b) := by
  induction xs using List.reverseRecOn with
  | nil => exact ⟨rfl, hb⟩
  | append_singleton xs x ih =>
    have hinit := ih fun c i hi hc => by
      have hround := h c i (by rw [List.length_append]; omega) hc
      rwa [List.getElem_append_left hi] at hround
    have hlast := h (xs.foldl g b) xs.length (by simp) hinit.2
    rw [List.getElem_append_right (Nat.le_refl _)] at hlast
    simp only [Nat.sub_self, List.getElem_cons_zero] at hlast
    rw [List.length_append, List.length_singleton, List.range_succ, List.foldlM_append,
      hinit.1, List.foldl_append]
    refine ⟨?_, hkeep _ x hinit.2⟩
    show (List.foldlM f _ [xs.length]) = _
    rw [List.foldlM_cons, hlast]
    rfl

/-! ## Walks that change one place at a time -/

section walk

variable {σ κ V : Type}

/-- A walk whose step at `a` looks at and changes the place `key a` only. When no step
fails, each place is changed by its own step and the others stay. -/
theorem foldlM_walk {f : σ → α → Except ε σ} {key : α → κ} {view : σ → κ → V}
    {inv : σ → Prop} {good : α → V → Prop} {fails : α → V → Prop} {local' : α → V → V → Prop}
    (hstep : ∀ s a, inv s → good a (view s (key a)) → ¬fails a (view s (key a)) →
      ∃ s', f s a = .ok s' ∧ inv s' ∧ local' a (view s (key a)) (view s' (key a)) ∧
        ∀ k, k ≠ key a → view s' k = view s k)
    (es : List α) : ∀ {s : σ}, (es.map key).Nodup → inv s →
      (∀ a ∈ es, good a (view s (key a))) → (∀ a ∈ es, ¬fails a (view s (key a))) →
      ∃ s', es.foldlM f s = .ok s' ∧ inv s' ∧
        (∀ a ∈ es, local' a (view s (key a)) (view s' (key a))) ∧
        ∀ k, k ∉ es.map key → view s' k = view s k := by
  induction es with
  | nil =>
    intro s _ hinv _ _
    exact ⟨s, rfl, hinv, by simp, fun _ _ => rfl⟩
  | cons a es ih =>
    intro s hnodup hinv hgood hok
    rw [List.map_cons, List.nodup_cons] at hnodup
    obtain ⟨s₁, hrun, hinv₁, hlocal, hframe⟩ :=
      hstep s a hinv (hgood a List.mem_cons_self) (hok a List.mem_cons_self)
    have hlater : ∀ b ∈ es, view s₁ (key b) = view s (key b) := by
      intro b hb
      apply hframe
      intro heq
      exact hnodup.1 (heq ▸ List.mem_map_of_mem hb)
    obtain ⟨s', hrun', hinv', hlocal', hframe'⟩ := ih hnodup.2 hinv₁
      (fun b hb => by rw [hlater b hb]; exact hgood b (List.mem_cons_of_mem _ hb))
      (fun b hb => by rw [hlater b hb]; exact hok b (List.mem_cons_of_mem _ hb))
    refine ⟨s', by rw [List.foldlM_cons, hrun]; exact hrun', hinv', ?_, ?_⟩
    · intro b hb
      rcases List.mem_cons.mp hb with rfl | hb
      · rw [hframe' (key b) hnodup.1]
        exact hlocal
      · rw [← hlater b hb]
        exact hlocal' b hb
    · intro k hk
      rw [List.map_cons, List.mem_cons, not_or] at hk
      rw [hframe' k hk.2, hframe k hk.1]

/-- The walk fails if one of its steps would fail at the start. -/
theorem foldlM_walk_fails {f : σ → α → Except ε σ} {key : α → κ} {view : σ → κ → V}
    {inv : σ → Prop} {good : α → V → Prop} {fails : α → V → Prop} {local' : α → V → V → Prop}
    {bad : ε → Prop}
    (hstep : ∀ s a, inv s → good a (view s (key a)) → ¬fails a (view s (key a)) →
      ∃ s', f s a = .ok s' ∧ inv s' ∧ local' a (view s (key a)) (view s' (key a)) ∧
        ∀ k, k ≠ key a → view s' k = view s k)
    (hfail : ∀ s a, inv s → good a (view s (key a)) → fails a (view s (key a)) →
      ∃ err, f s a = .error err ∧ bad err)
    (es : List α) : ∀ {s : σ}, (es.map key).Nodup → inv s →
      (∀ a ∈ es, good a (view s (key a))) → (∃ a ∈ es, fails a (view s (key a))) →
      ∃ err, es.foldlM f s = .error err ∧ bad err := by
  induction es with
  | nil =>
    intro s _ _ _ hsome
    obtain ⟨a, ha, _⟩ := hsome
    exact absurd ha List.not_mem_nil
  | cons a es ih =>
    intro s hnodup hinv hgood hsome
    rw [List.map_cons, List.nodup_cons] at hnodup
    rw [List.foldlM_cons]
    by_cases hfails : fails a (view s (key a))
    · obtain ⟨err, herr, hbad⟩ := hfail s a hinv (hgood a List.mem_cons_self) hfails
      exact ⟨err, by rw [herr]; rfl, hbad⟩
    · obtain ⟨s₁, hrun, hinv₁, _, hframe⟩ :=
        hstep s a hinv (hgood a List.mem_cons_self) hfails
      have hlater : ∀ b ∈ es, view s₁ (key b) = view s (key b) := by
        intro b hb
        apply hframe
        intro heq
        exact hnodup.1 (heq ▸ List.mem_map_of_mem hb)
      rw [hrun, ok_bind]
      apply ih hnodup.2 hinv₁
      · intro b hb
        rw [hlater b hb]
        exact hgood b (List.mem_cons_of_mem _ hb)
      · obtain ⟨b, hb, hfb⟩ := hsome
        rcases List.mem_cons.mp hb with rfl | hb
        · exact absurd hfb hfails
        · exact ⟨b, hb, by rw [hlater b hb]; exact hfb⟩

/-- The same for steps that fail in one way only. -/
theorem foldlM_walk_error {f : σ → α → Except ε σ} {key : α → κ} {view : σ → κ → V}
    {inv : σ → Prop} {good : α → V → Prop} {fails : α → V → Prop} {local' : α → V → V → Prop}
    {err : ε}
    (hstep : ∀ s a, inv s → good a (view s (key a)) → ¬fails a (view s (key a)) →
      ∃ s', f s a = .ok s' ∧ inv s' ∧ local' a (view s (key a)) (view s' (key a)) ∧
        ∀ k, k ≠ key a → view s' k = view s k)
    (hfail : ∀ s a, inv s → good a (view s (key a)) → fails a (view s (key a)) →
      f s a = .error err)
    (es : List α) {s : σ} (hnodup : (es.map key).Nodup) (hinv : inv s)
    (hgood : ∀ a ∈ es, good a (view s (key a))) (hsome : ∃ a ∈ es, fails a (view s (key a))) :
    es.foldlM f s = .error err := by
  obtain ⟨err', herr, rfl⟩ := @foldlM_walk_fails _ _ _ _ _ f key view inv good fails local'
    (· = err) hstep (fun s a hinv hgood hfails => ⟨err, hfail s a hinv hgood hfails, rfl⟩) es s
    hnodup hinv hgood hsome
  exact herr

end walk

/-! ## Lookups that all succeed -/

/-- A partial function defined on all of a list, applied to the list. -/
theorem map_eq_map_some_filterMap {xs : List α} {f : α → Option β}
    (h : ∀ x ∈ xs, ∃ y, f x = some y) : xs.map f = (xs.filterMap f).map some := by
  induction xs with
  | nil => rfl
  | cons x xs ih =>
    obtain ⟨y, hy⟩ := h x List.mem_cons_self
    rw [List.map_cons, List.filterMap_cons, hy, List.map_cons,
      ih fun z hz => h z (List.mem_cons_of_mem _ hz)]

theorem length_filterMap_eq {xs : List α} {f : α → Option β}
    (h : ∀ x ∈ xs, ∃ y, f x = some y) : (xs.filterMap f).length = xs.length := by
  rw [← List.length_map (f := some), ← map_eq_map_some_filterMap h, List.length_map]

theorem getElem?_filterMap_eq {xs : List α} {f : α → Option β}
    (h : ∀ x ∈ xs, ∃ y, f x = some y) (i : ℕ) (hi : i < xs.length) :
    (xs.filterMap f)[i]? = f xs[i] := by
  have hget := congrArg (·[i]?) (map_eq_map_some_filterMap h)
  simp only [List.getElem?_map, List.getElem?_eq_getElem hi,
    List.getElem?_eq_getElem ((length_filterMap_eq h).symm ▸ hi), Option.map_some,
    Option.some.injEq] at hget
  rw [hget, List.getElem?_eq_getElem ((length_filterMap_eq h).symm ▸ hi)]

end ExceptLoops
end IpApps
