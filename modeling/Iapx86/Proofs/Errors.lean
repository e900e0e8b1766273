import Iapx86.Proofs.Names
import Mathlib.Data.List.Perm.Basic

/-!
# Results that may be errors

Two results are `Alike` if both are errors or both are values, and these are related; what is done
next with values that are related leaves results that are alike (`Alike.bind`).

A function that may fail, taken through a list, gives all its values or the first of its errors
(`mapM_cases`). If the members of the list have names and stand in their order, the error is that of
the first name at which there is one (`exists_mapM_eq_error`).
-/

namespace Iapx86

variable {ε ζ α β γ δ : Type*}

/-- Whether two results are both errors or both values, and related. -/
inductive Alike (q : ε → ζ → Prop) (r : α → β → Prop) : Except ε α → Except ζ β → Prop where
  | error {e : ε} {e' : ζ} (h : q e e') : Alike q r (.error e) (.error e')
  | ok {a : α} {b : β} (h : r a b) : Alike q r (.ok a) (.ok b)

theorem Alike.bind {q : ε → ζ → Prop} {r : α → β → Prop} {s : γ → δ → Prop} {x : Except ε α}
    {y : Except ζ β} {f : α → Except ε γ} {g : β → Except ζ δ} (hxy : Alike q r x y)
    (hfg : ∀ {a b}, r a b → Alike q s (f a) (g b)) : Alike q s (x.bind f) (y.bind g) := by
  cases hxy with
  | error h => exact .error h
  | ok h => exact hfg h

theorem bind_eq_ok_iff {x : Except ε α} {f : α → Except ε β} {b : β} :
    x.bind f = .ok b ↔ ∃ a, x = .ok a ∧ f a = .ok b := by
  cases x <;> simp [Except.bind]

theorem map_eq_ok_iff {x : Except ε α} {f : α → β} {b : β} :
    x.map f = .ok b ↔ ∃ a, x = .ok a ∧ f a = b := by
  cases x <;> simp [Except.map]

theorem toOption_eq_some_iff {x : Except ε α} {a : α} : x.toOption = some a ↔ x = .ok a := by
  cases x <;> simp [Except.toOption]

/-- A check that gives an error has to be passed for a value. -/
theorem ite_error_eq_ok_iff {p : Prop} [Decidable p] {e : ε} {x : Except ε α} {a : α} :
    (if p then .error e else x) = .ok a ↔ ¬ p ∧ x = .ok a := by
  split <;> simp_all

theorem ite_ok_eq_ok_iff {p : Prop} [Decidable p] {e : ε} {a : α} :
    (if p then .ok a else .error e) = Except.ok a ↔ p := by
  split <;> simp_all

/-- Taken through a list, a function that may fail gives all values, or the error of the first
member at which it fails. -/
theorem mapM_cases (f : α → Except ε β) (xs : List α) :
    (∃ ys, xs.mapM f = .ok ys ∧ xs.map f = ys.map .ok) ∨
      ∃ before x behind e, xs = before ++ x :: behind ∧ (∀ a ∈ before, ∃ b, f a = .ok b)
        ∧ f x = .error e ∧ xs.mapM f = .error e := by
  induction xs with
  | nil => exact .inl ⟨[], rfl, rfl⟩
  | cons x xs ih =>
      rw [List.mapM_cons]
      cases hx : f x with
      | error e => exact .inr ⟨[], x, xs, e, rfl, nofun, hx, rfl⟩
      | ok y =>
          obtain ⟨ys, hys, hmap⟩ | ⟨before, z, behind, e, rfl, hbefore, hz, herror⟩ := ih
          · refine .inl ⟨y :: ys, ?_, ?_⟩
            · rw [hys]
              rfl
            · rw [List.map_cons, List.map_cons, hx, hmap]
          · refine .inr ⟨x :: before, z, behind, e, rfl, ?_, hz, ?_⟩
            · exact List.forall_mem_cons.mpr ⟨⟨y, hx⟩, hbefore⟩
            · rw [herror]
              rfl

theorem exists_mapM_eq_ok {f : α → Except ε β} {xs : List α}
    (h : ∀ x ∈ xs, ¬ ∃ e, f x = .error e) :
    ∃ ys, xs.mapM f = .ok ys ∧ List.Forall₂ (fun x y => f x = .ok y) xs ys := by
  obtain ⟨ys, hys, hmap⟩ | ⟨before, x, behind, e, rfl, -, hx, -⟩ := mapM_cases f xs
  · have hpairs : List.Forall₂ (· = ·) (xs.map f) (ys.map .ok) := by
      rw [List.forall₂_eq_eq_eq]
      exact hmap
    exact ⟨ys, hys, List.forall₂_map_right_iff.mp (List.forall₂_map_left_iff.mp hpairs)⟩
  · exact absurd ⟨e, hx⟩ (h x List.mem_append_cons_self)

theorem map_eq_map_ok {f : α → Except ε β} {xs : List α} {ys : List β}
    (h : xs.mapM f = .ok ys) : xs.map f = ys.map .ok := by
  obtain ⟨ys', hys, hmap⟩ | ⟨-, -, -, e, -, -, -, herror⟩ := mapM_cases f xs
  · obtain rfl := Except.ok.inj (h.symm.trans hys)
    exact hmap
  · cases h.symm.trans herror

theorem exists_ok_of_mem {f : α → Except ε β} {xs : List α} {ys : List β} (h : xs.mapM f = .ok ys)
    {x : α} (hx : x ∈ xs) : ∃ y ∈ ys, f x = .ok y := by
  have hmem : f x ∈ ys.map .ok := map_eq_map_ok h ▸ List.mem_map_of_mem hx
  obtain ⟨y, hy, heq⟩ := List.mem_map.mp hmem
  exact ⟨y, hy, heq.symm⟩

theorem exists_eq_ok_of_mem {f : α → Except ε β} {xs : List α} {ys : List β}
    (h : xs.mapM f = .ok ys) {y : β} (hy : y ∈ ys) : ∃ x ∈ xs, f x = .ok y := by
  have hmem : .ok y ∈ xs.map f := map_eq_map_ok h ▸ List.mem_map_of_mem hy
  exact List.mem_map.mp hmem

/-- A function that gives a value for each member of a list gives one for each of some of them, in
whatever order, and these are just the values of these. -/
theorem exists_mapM_eq_ok_of_perm_filter {f : α → Except ε β} {p : α → Bool} {q : β → Bool}
    {xs xs' : List α} {ys : List β} (h : xs.mapM f = .ok ys)
    (hpq : ∀ x y, f x = .ok y → p x = q y) (hperm : xs'.Perm (xs.filter p)) :
    ∃ ys', xs'.mapM f = .ok ys' ∧ ys'.Perm (ys.filter q) := by
  have hnone {x : α} (hx : x ∈ xs) : ¬ ∃ e, f x = .error e := by
    rintro ⟨e, he⟩
    obtain ⟨y, -, hy⟩ := exists_ok_of_mem h hx
    cases he.symm.trans hy
  obtain ⟨ys₁, hys, hpairs⟩ := exists_mapM_eq_ok fun x hx => hnone hx
  obtain rfl := Except.ok.inj (h.symm.trans hys)
  obtain ⟨ys', hys', hpairs'⟩ := exists_mapM_eq_ok fun x hx =>
    hnone (List.mem_of_mem_filter (hperm.subset hx))
  have hfiltered : List.Forall₂ (fun x y => f x = .ok y) (xs.filter p) (ys.filter q) :=
    List.rel_filter (fun x y hxy => Bool.eq_iff_iff.mp (hpq x y hxy)) hpairs
  have hunique : Relator.RightUnique fun x y => f x = .ok y :=
    fun x y z hy hz => Except.ok.inj (hy.symm.trans hz)
  exact ⟨ys', hys', List.rel_perm_imp hunique hpairs' hfiltered hperm⟩

/-- Taken through things in the order of their names, a function that fails somewhere gives the
error at the first name at which it fails. -/
theorem exists_mapM_eq_error {f : α → Except ε β} {name : α → String} {xs : List α}
    (hascending : Ascending name xs) (h : ∃ x ∈ xs, ∃ e, f x = .error e) :
    ∃ x ∈ xs, ∃ e, f x = .error e ∧ xs.mapM f = .error e
      ∧ ∀ y ∈ xs, (∃ e, f y = .error e) → y = x ∨ name x < name y := by
  obtain ⟨ys, -, hmap⟩ | ⟨before, x, behind, e, rfl, hbefore, hx, hall⟩ := mapM_cases f xs
  · obtain ⟨x, hx, e, he⟩ := h
    have hmem : f x ∈ ys.map .ok := hmap ▸ List.mem_map_of_mem hx
    obtain ⟨y, -, hy⟩ := List.mem_map.mp hmem
    rw [he] at hy
    cases hy
  · refine ⟨x, List.mem_append_cons_self, e, hx, hall, fun y hy ⟨e', he'⟩ => ?_⟩
    obtain hy | hy := List.mem_append.mp hy
    · obtain ⟨b, hb⟩ := hbefore y hy
      rw [he'] at hb
      cases hb
    · obtain rfl | hy := List.mem_cons.mp hy
      · exact .inl rfl
      · exact .inr ((List.pairwise_cons.mp (List.pairwise_append.mp hascending).2.1).1 y hy)

end Iapx86
