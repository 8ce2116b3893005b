import DocTree.Log
import DocTree.Proofs.Sequence

/-!
# Outcomes

What a chain of computations that may fail comes to, step by step.
-/
namespace DocTree

variable {ε α β : Type}

theorem bind_eq_ok {x : Except ε α} {f : α → Except ε β} {b : β} :
    x >>= f = .ok b ↔ ∃ a, x = .ok a ∧ f a = .ok b := by
  cases x with
  | error e => simp [bind, Except.bind]
  | ok a => simp [bind, Except.bind]

theorem pure_eq_ok {a b : α} : (pure a : Except ε α) = .ok b ↔ a = b := by
  simp [pure, Except.pure]

theorem exists_ok_of_isOk {x : Except ε α} (h : x.isOk) : ∃ a, x = .ok a := by
  cases x with
  | error e => cases h
  | ok a => exact ⟨a, rfl⟩

/-- A list of computations gives something if each of them does, one by one. -/
theorem forall₂_of_mapM {ι : Type} {f : ι → Except ε α} {xs : List ι} {ys : List α}
    (h : xs.mapM f = .ok ys) : List.Forall₂ (fun i y => f i = .ok y) xs ys := by
  induction xs generalizing ys with
  | nil =>
    cases h
    exact .nil
  | cons i xs ih =>
    rw [List.mapM_cons] at h
    obtain ⟨y, hy, h⟩ := bind_eq_ok.mp h
    obtain ⟨rest, hrest, h⟩ := bind_eq_ok.mp h
    cases h
    exact .cons hy (ih hrest)

/-- What a list of computations gives comes from one of them each. -/
theorem exists_of_mem_mapM {ι : Type} {f : ι → Except ε α} {xs : List ι} {ys : List α}
    (h : xs.mapM f = .ok ys) : ∀ y ∈ ys, ∃ i ∈ xs, f i = .ok y :=
  exists_left_of_forall₂ (forall₂_of_mapM h)

/-- Each of a list of computations gives something if all of them together do. -/
theorem exists_ok_of_mapM {ι : Type} {f : ι → Except ε α} {xs : List ι} {ys : List α}
    (h : xs.mapM f = .ok ys) : ∀ i ∈ xs, ∃ y ∈ ys, f i = .ok y :=
  exists_right_of_forall₂ (forall₂_of_mapM h)

/-- All of a list of computations give something if each of them does. -/
theorem exists_mapM {ι : Type} {f : ι → Except ε α} {xs : List ι}
    (h : ∀ i ∈ xs, ∃ y, f i = .ok y) : ∃ ys, xs.mapM f = .ok ys := by
  induction xs with
  | nil => exact ⟨[], rfl⟩
  | cons i xs ih =>
    obtain ⟨y, hy⟩ := h i (by simp)
    obtain ⟨ys, hys⟩ := ih fun j hj => h j (by simp [hj])
    rw [List.mapM_cons, hy, hys]
    exact ⟨y :: ys, rfl⟩

/-- Computations that give what others do give it all together. -/
theorem mapM_eq_ok_of_imp {ι : Type} {f g : ι → Except ε α} {xs : List ι} {ys : List α}
    (h : xs.mapM f = .ok ys) (hfg : ∀ i ∈ xs, ∀ y, f i = .ok y → g i = .ok y) :
    xs.mapM g = .ok ys := by
  induction xs generalizing ys with
  | nil => exact h
  | cons i xs ih =>
    rw [List.mapM_cons] at h ⊢
    obtain ⟨y, hy, h⟩ := bind_eq_ok.mp h
    obtain ⟨rest, hrest, h⟩ := bind_eq_ok.mp h
    rw [hfg i (by simp) y hy, ih hrest fun j hj => hfg j (by simp [hj])]
    exact h

/-- From a list of computations those may be left out whose results are dropped. -/
theorem exists_mapM_filter {ι : Type} {f : ι → Except ε α} {keep : ι → Bool} {p : α → Bool}
    {xs : List ι} {ys : List α} (h : xs.mapM f = .ok ys)
    (hdropped : ∀ i ∈ xs, ¬ keep i → ∀ y, f i = .ok y → ¬ p y) :
    ∃ zs, (xs.filter keep).mapM f = .ok zs ∧ zs.filter p = ys.filter p := by
  induction xs generalizing ys with
  | nil =>
    cases h
    exact ⟨[], rfl, rfl⟩
  | cons i xs ih =>
    rw [List.mapM_cons] at h
    obtain ⟨y, hy, h⟩ := bind_eq_ok.mp h
    obtain ⟨rest, hrest, h⟩ := bind_eq_ok.mp h
    cases h
    obtain ⟨zs, hzs, hfilter⟩ := ih hrest fun j hj => hdropped j (by simp [hj])
    by_cases hi : keep i
    · refine ⟨y :: zs, ?_, by simp [List.filter_cons, hfilter]⟩
      rw [List.filter_cons_of_pos hi, List.mapM_cons, hy, hzs]
      rfl
    · refine ⟨zs, by rwa [List.filter_cons_of_neg hi], ?_⟩
      rw [List.filter_cons_of_neg (hdropped i (by simp) hi y hy), hfilter]

/-- To a list of computations those may be added that succeed and whose results are dropped. -/
theorem exists_mapM_of_filter {ι : Type} {f : ι → Except ε α} {keep : ι → Bool} {p : α → Bool}
    {xs : List ι} {zs : List α} (h : (xs.filter keep).mapM f = .ok zs)
    (hdropped : ∀ i ∈ xs, ¬ keep i → ∃ y, f i = .ok y ∧ ¬ p y) :
    ∃ ys, xs.mapM f = .ok ys ∧ ys.filter p = zs.filter p := by
  have hall : ∀ i ∈ xs, ∃ y, f i = .ok y := by
    intro i hi
    by_cases hkeep : keep i
    · obtain ⟨y, -, hy⟩ := exists_ok_of_mapM h i (List.mem_filter.mpr ⟨hi, hkeep⟩)
      exact ⟨y, hy⟩
    · obtain ⟨y, hy, -⟩ := hdropped i hi hkeep
      exact ⟨y, hy⟩
  obtain ⟨ys, hys⟩ := exists_mapM hall
  have hnone : ∀ i ∈ xs, ¬ keep i → ∀ y, f i = .ok y → ¬ p y := by
    intro i hi hkeep y hy
    obtain ⟨y', hy', hp⟩ := hdropped i hi hkeep
    rw [hy] at hy'
    cases hy'
    exact hp
  obtain ⟨zs', hzs', hfilter⟩ := exists_mapM_filter hys hnone
  rw [h] at hzs'
  cases hzs'
  exact ⟨ys, hys, hfilter.symm⟩

/-- Elements that come from different things one by one are apart if the things keep them apart. -/
theorem pairwise_of_mapM {ι : Type} {f : ι → Except ε α} {R : ι → ι → Prop}
    {S : α → α → Prop} {xs : List ι} {ys : List α} (h : xs.mapM f = .ok ys) (hxs : xs.Pairwise R)
    (hS : ∀ i ∈ xs, ∀ j ∈ xs, R i j → ∀ y z, f i = .ok y → f j = .ok z → S y z) :
    ys.Pairwise S := by
  have hall := forall₂_of_mapM h
  clear h
  induction hall with
  | nil => exact .nil
  | cons hy hrest ih =>
    obtain ⟨hi, hxs⟩ := List.pairwise_cons.mp hxs
    refine List.pairwise_cons.mpr ⟨?_, ih hxs fun a ha b hb => hS a (by simp [ha]) b (by simp [hb])⟩
    intro z hz
    obtain ⟨j, hj, hfj⟩ := exists_left_of_forall₂ hrest z hz
    exact hS _ (by simp) j (by simp [hj]) (hi j hj) _ z hy hfj

theorem map_eq_ok {x : Except ε α} {f : α → β} {b : β} :
    x.map f = .ok b ↔ ∃ a, x = .ok a ∧ f a = b := by
  cases x with
  | error e => simp [Except.map]
  | ok a => simp [Except.map]

theorem map_eq_error {x : Except ε α} {f : α → β} {e : ε} :
    x.map f = .error e ↔ x = .error e := by
  cases x with
  | error e => simp [Except.map]
  | ok a => simp [Except.map]

-- Two computations agree in a view of their results if they fail alike, and the results look alike
-- where they succeed.

section

variable {α' β' γ δ : Type} {x : Except ε α} {x' : Except ε α'} {v : α → γ} {v' : α' → γ}

theorem eq_error_of_map_eq (h : x'.map v' = x.map v) {e : ε} (hx : x = .error e) :
    x' = .error e := by
  subst hx
  cases x' with
  | error e' =>
    simp only [Except.map] at h
    rw [Except.error.inj h]
  | ok a => cases h

theorem exists_ok_of_map_eq (h : x'.map v' = x.map v) {a : α} (hx : x = .ok a) :
    ∃ a', x' = .ok a' ∧ v' a' = v a := by
  subst hx
  exact map_eq_ok.mp h

/-- Computations agree if their first steps do, and what follows results that look alike. -/
theorem map_bind_congr {w : β → δ} {w' : β' → δ} {f : α → Except ε β} {f' : α' → Except ε β'}
    (h : x'.map v' = x.map v) (hf : ∀ a a', v' a' = v a → (f' a').map w' = (f a).map w) :
    (x' >>= f').map w' = (x >>= f).map w := by
  cases hx : x with
  | error e =>
    rw [eq_error_of_map_eq h hx]
    rfl
  | ok a =>
    obtain ⟨a', hx', hv⟩ := exists_ok_of_map_eq h hx
    rw [hx']
    exact hf a a' hv

/-- Computations agree if they begin alike and what follows agrees. -/
theorem map_bind_congr_right {w : β → δ} {w' : β' → δ} {f : α → Except ε β} {f' : α → Except ε β'}
    (hf : ∀ a, (f' a).map w' = (f a).map w) : (x >>= f').map w' = (x >>= f).map w := by
  cases x with
  | error e => rfl
  | ok a => exact hf a

theorem map_mapM_congr {ι : Type} {xs : List ι} {f : ι → Except ε α} {f' : ι → Except ε α'}
    (h : ∀ i ∈ xs, (f' i).map v' = (f i).map v) :
    (xs.mapM f').map (List.map v') = (xs.mapM f).map (List.map v) := by
  induction xs with
  | nil => rfl
  | cons i xs ih =>
    rw [List.mapM_cons, List.mapM_cons]
    refine map_bind_congr (h i (by simp)) fun a a' hv => ?_
    refine map_bind_congr (ih fun j hj => h j (by simp [hj])) fun as as' hvs => ?_
    simp [pure, Except.pure, Except.map, hv, hvs]

end

namespace Traced

@[simp] theorem outcome_lift (x : Except Fault α) : (lift x).outcome = x := rfl

@[simp] theorem outcome_report (records : List Record) : (report records).outcome = .ok () := rfl

theorem outcome_bind (t : Traced α) (f : α → Traced β) :
    (t >>= f).outcome = t.outcome >>= fun a => (f a).outcome := by
  change (t.bind f).outcome = _
  cases h : t.outcome with
  | error e =>
    simp only [Traced.bind, h]
    rfl
  | ok a =>
    simp only [Traced.bind, h]
    rfl

theorem ext {t t' : Traced α} (hr : t.records = t'.records) (ho : t.outcome = t'.outcome) :
    t = t' := by
  cases t
  cases t'
  cases hr
  cases ho
  rfl

/-- What a computation reports, and then what the one after it does. -/
theorem records_bind (t : Traced α) (f : α → Traced β) :
    (t >>= f).records = t.records ++ match t.outcome with
      | .ok a => (f a).records
      | .error _ => [] := by
  change (t.bind f).records = _
  cases h : t.outcome with
  | error e => simp [Traced.bind, h]
  | ok a => simp [Traced.bind, h]

instance : LawfulMonad Traced :=
  LawfulMonad.mk' Traced
    (fun t => by
      change t >>= pure = t
      refine ext ?_ ?_
      · rw [records_bind]
        cases t.outcome <;> simp [pure, lift]
      · rw [outcome_bind]
        cases t.outcome <;> rfl)
    (fun a f => by
      refine ext ?_ ?_
      · rw [records_bind]
        rfl
      · rw [outcome_bind]
        rfl)
    (fun t f g => by
      refine ext ?_ ?_
      · simp only [records_bind, outcome_bind]
        cases t.outcome with
        | error e => simp [Bind.bind, Except.bind]
        | ok a => cases h : (f a).outcome <;> simp [Bind.bind, Except.bind, h]
      · simp only [outcome_bind]
        cases t.outcome <;> rfl)

theorem outcome_mapM (f : α → Traced β) (xs : List α) :
    (xs.mapM f).outcome = xs.mapM fun a => (f a).outcome := by
  induction xs with
  | nil => rfl
  | cons a xs ih =>
    simp only [List.mapM_cons, outcome_bind, ih]
    rfl

end Traced

end DocTree
