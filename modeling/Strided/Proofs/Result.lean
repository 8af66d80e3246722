import Mathlib.Algebra.Group.Int.Defs
import Mathlib.Algebra.GroupWithZero.Nat
import Mathlib.Data.List.Forall2
import Strided.Fault

set_option autoImplicit false

namespace Strided

variable {ε α β γ δ : Type}

@[simp] theorem ok_bind (x : α) (f : α → Except ε β) : (Except.ok x >>= f) = f x := rfl

@[simp] theorem error_bind (e : ε) (f : α → Except ε β) : (Except.error e >>= f) = Except.error e := rfl

@[simp] theorem bind_ok (r : Except ε α) : (r >>= fun x => Except.ok x) = r := by cases r <;> rfl

@[simp] theorem pure_eq_ok (x : α) : (pure x : Except ε α) = Except.ok x := rfl

theorem bind_eq_ok {r : Except ε α} {f : α → Except ε β} {y : β} :
    (r >>= f) = .ok y ↔ ∃ x, r = .ok x ∧ f x = .ok y := by
  cases r <;> simp

theorem bind_eq_error {r : Except ε α} {f : α → Except ε β} {e : ε} :
    (r >>= f) = .error e ↔ r = .error e ∨ ∃ x, r = .ok x ∧ f x = .error e := by
  cases r <;> simp

theorem refuse_inj {e e' : ArrayError} : (refuse e : Result α) = refuse e' ↔ e = e' := by
  simp [refuse]

theorem mapM_eq_ok {f : α → Except ε β} {xs : List α} {ys : List β} :
    xs.mapM f = .ok ys ↔ xs.map f = ys.map .ok := by
  induction xs generalizing ys with
  | nil => cases ys <;> simp
  | cons x xs ih =>
    simp only [List.mapM_cons,bind_eq_ok,pure_eq_ok,Except.ok.injEq,List.map_cons,ih]
    constructor
    · rintro ⟨y,hy,ys,hys,rfl⟩
      simp [hy,hys]
    · intro h
      cases ys with
      | nil => simp at h
      | cons y ys =>
        simp only [List.map_cons,List.cons.injEq] at h
        exact ⟨y,h.1,ys,h.2,rfl⟩

theorem exists_of_mapM_eq_error {f : α → Except ε β} {xs : List α} {e : ε} (h : xs.mapM f = .error e) :
    ∃ x ∈ xs, f x = .error e := by
  induction xs with
  | nil => simp at h
  | cons x xs ih =>
    simp only [List.mapM_cons,bind_eq_error,pure_eq_ok,reduceCtorEq,and_false,exists_false,or_false] at h
    rcases h with h | ⟨y,-,h⟩
    · exact ⟨x,by simp,h⟩
    · obtain ⟨z,hz,he⟩ := ih h
      exact ⟨z,by simp [hz],he⟩

theorem mapM_congr {f g : α → Except ε β} {xs : List α} (h : ∀ x ∈ xs, f x = g x) : xs.mapM f = xs.mapM g := by
  induction xs with
  | nil => rfl
  | cons x xs ih => simp only [List.mapM_cons,h x (by simp),ih fun y hy => h y (by simp [hy])]

theorem mapM_ok {f : α → Except ε β} {g : α → β} {xs : List α} (h : ∀ x ∈ xs, f x = .ok (g x)) :
    xs.mapM f = .ok (xs.map g) := by
  rw [mapM_eq_ok,List.map_map]
  exact List.map_congr_left h

theorem length_of_mapM_eq_ok {f : α → Except ε β} {xs : List α} {ys : List β} (h : xs.mapM f = .ok ys) :
    ys.length = xs.length := by
  simpa using (congrArg List.length (mapM_eq_ok.1 h)).symm

theorem mapM_zip_map {f : α → Except ε β} {xs : List α} {ys : List β} (h : xs.mapM f = .ok ys) (g : α → γ)
    (k : β → γ → Except ε δ) :
    (ys.zip (xs.map g)).mapM (fun p => k p.1 p.2) = xs.mapM (fun x => do k (← f x) (g x)) := by
  induction xs generalizing ys with
  | nil => cases ys <;> simp_all
  | cons x xs ih =>
    rw [mapM_eq_ok] at h
    cases ys with
    | nil => simp at h
    | cons y ys =>
      simp only [List.map_cons,List.cons.injEq] at h
      simp only [List.map_cons,List.zip_cons_cons,List.mapM_cons,ih (mapM_eq_ok.2 h.2),h.1,ok_bind]

theorem foldlM_ok {f : β → α → Except ε β} {g : β → α → β} (h : ∀ b x, f b x = .ok (g b x))
    (xs : List α) (b : β) : xs.foldlM f b = .ok (xs.foldl g b) := by
  induction xs generalizing b with
  | nil => rfl
  | cons x xs ih => simp [h,ih]

theorem map_eq_of_forall₂ {xs : List α} {ys : List β} {f : α → γ} {g : β → γ} (h : List.Forall₂ (fun x y => f x = g y) xs ys) :
    xs.map f = ys.map g := by
  induction h with
  | nil => rfl
  | cons hx _ ih => rw [List.map_cons,List.map_cons,hx,ih]

theorem mapM_eq_of_forall₂ {xs : List α} {ys : List β} {f : α → Except ε γ} {g : β → Except ε γ}
    (h : List.Forall₂ (fun x y => f x = g y) xs ys) :
    xs.mapM f = ys.mapM g := by
  induction h with
  | nil => rfl
  | cons hx _ ih => rw [List.mapM_cons,List.mapM_cons,hx,ih]

theorem foldlM_eq_of_forall₂ {xs : List α} {ys : List β} {f : γ → α → Except ε γ} {g : γ → β → Except ε γ}
    (h : List.Forall₂ (fun x y => ∀ c, f c x = g c y) xs ys) (c : γ) : xs.foldlM f c = ys.foldlM g c := by
  induction h generalizing c with
  | nil => rfl
  | cons hx _ ih => simp only [List.foldlM_cons,hx,ih]

/-- If there is a result at all, `P` holds of it. -/
def Ensures (P : α → Prop) (r : Except ε α) : Prop := ∀ x, r = .ok x → P x

theorem ensures_ok {P : α → Prop} {x : α} (h : P x) : Ensures P (.ok x : Except ε α) := by
  intro y hy
  cases hy
  exact h

theorem ensures_error {P : α → Prop} (e : ε) : Ensures P (.error e : Except ε α) := nofun

theorem ensures_bind {P : β → Prop} {r : Except ε α} {f : α → Except ε β} (h : ∀ x, r = .ok x → Ensures P (f x)) :
    Ensures P (r >>= f) := by
  intro y hy
  obtain ⟨x,hx,hf⟩ := bind_eq_ok.1 hy
  exact h x hx y hf

theorem ensures_mapM {P : β → Prop} {f : α → Except ε β} {xs : List α} (h : ∀ x ∈ xs, Ensures P (f x)) :
    Ensures (fun ys => ∀ y ∈ ys, P y) (xs.mapM f) := by
  intro ys hys y hy
  have hm : (.ok y : Except ε β) ∈ xs.map f := by
    rw [mapM_eq_ok.1 hys]
    exact List.mem_map_of_mem hy
  obtain ⟨x,hx,hf⟩ := List.mem_map.1 hm
  exact h x hx y hf

end Strided
