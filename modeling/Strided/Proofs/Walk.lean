import Strided.Proofs.Result
import Strided.Walk

set_option autoImplicit false

/-!
Traversals by the lists they stand for. Something that answers with the values of a list, one after the other, is
walked like that list; and what is done with a walk over a list is done with the list. So the other theories speak
of lists only.
-/
namespace Strided

variable {σ α β γ δ : Type}

namespace Steps

/-- Asked again and again, it answers with the values in order and after the last of them with nothing. To answer
with nothing leaves it as it is, so from then on it does so for ever. -/
def Answers (next? : σ → Result (Option (α × σ))) : List α → σ → Prop
  | [], s => next? s = .ok none
  | x :: xs, s => ∃ t, next? s = .ok (some (x,t)) ∧ Answers next? xs t

theorem unfold_eq_ofList {next? : σ → Result (Option (α × σ))} {xs : List α} {s : σ}
    (h : Answers next? xs s) {n : Nat} (hn : xs.length ≤ n) : unfold next? n s = ofList xs := by
  induction n generalizing xs s with
  | zero =>
    have hx : xs = [] := by simpa using hn
    subst hx
    rfl
  | succ n ih =>
    cases xs with
    | nil =>
      have hs : next? s = .ok none := h
      simp only [unfold,hs,ofList]
    | cons x xs =>
      obtain ⟨t,ht,hxs⟩ := h
      simp only [unfold,ht,ofList,ih hxs (by simpa using hn)]

theorem Answers.map {next? : σ → Result (Option (α × σ))} {next'? : δ → Result (Option (β × δ))}
    {wrap : σ → δ} {f : α → Result β} {g : α → β}
    (hnone : ∀ s, next? s = .ok none → next'? (wrap s) = .ok none)
    (hsome : ∀ s x t y, next? s = .ok (some (x,t)) → f x = .ok y → next'? (wrap s) = .ok (some (y,wrap t)))
    {xs : List α} {s : σ} (hx : ∀ x ∈ xs, f x = .ok (g x)) (h : Answers next? xs s) :
    Answers next'? (xs.map g) (wrap s) := by
  induction xs generalizing s with
  | nil => exact hnone s h
  | cons x xs ih =>
    obtain ⟨t,ht,hxs⟩ := h
    exact ⟨wrap t,hsome s x t _ ht (hx x (by simp)),ih (fun y hy => hx y (by simp [hy])) hxs⟩

def Breaks (next? : σ → Result (Option (α × σ))) (cause : Fault) : List α → σ → Prop
  | [], s => next? s = .error cause
  | x :: xs, s => ∃ t, next? s = .ok (some (x,t)) ∧ Breaks next? cause xs t

theorem Breaks.map {next? : σ → Result (Option (α × σ))} {next'? : δ → Result (Option (β × δ))} {cause : Fault}
    {wrap : σ → δ} {f : α → Result β} {g : α → β}
    (herror : ∀ s, next? s = .error cause → next'? (wrap s) = .error cause)
    (hsome : ∀ s x t y, next? s = .ok (some (x,t)) → f x = .ok y → next'? (wrap s) = .ok (some (y,wrap t)))
    {xs : List α} {s : σ} (hx : ∀ x ∈ xs, f x = .ok (g x)) (h : Breaks next? cause xs s) :
    Breaks next'? cause (xs.map g) (wrap s) := by
  induction xs generalizing s with
  | nil => exact herror s h
  | cons x xs ih =>
    obtain ⟨t,ht,hxs⟩ := h
    exact ⟨wrap t,hsome s x t _ ht (hx x (by simp)),ih (fun y hy => hx y (by simp [hy])) hxs⟩

theorem foldl_unfold_of_breaks {next? : σ → Result (Option (α × σ))} {cause : Fault} {xs : List α} {s : σ}
    (h : Breaks next? cause xs s) {n : Nat} (hn : xs.length < n) {f : β → α → Result β} {g : β → α → β}
    (hf : ∀ b x, f b x = .ok (g b x)) (b : β) : (unfold next? n s).foldl f b = .error cause := by
  induction xs generalizing n s b with
  | nil =>
    obtain ⟨n,rfl⟩ : ∃ m, n = m+1 := ⟨n-1,by simp at hn; omega⟩
    have hs : next? s = .error cause := h
    simp only [unfold,hs,foldl]
  | cons x xs ih =>
    obtain ⟨n,rfl⟩ : ∃ m, n = m+1 := ⟨n-1,by simp at hn; omega⟩
    obtain ⟨t,ht,hxs⟩ := h
    simp only [unfold,ht,foldl,hf,ih hxs (by simpa using hn)]

@[simp] theorem foldl_ofList (f : β → α → Result β) (b : β) (xs : List α) :
    (ofList xs).foldl f b = xs.foldlM f b := by
  induction xs generalizing b with
  | nil => rfl
  | cons x xs ih =>
    simp only [ofList,foldl,List.foldlM_cons]
    cases h : f b x with
    | ok c => exact ih c
    | error e => rfl

theorem foldl_map (f : α → Result β) (g : γ → β → Result γ) (c : γ) (s : Steps α) :
    (s.map f).foldl g c = s.foldl (fun acc x => do g acc (← f x)) c := by
  induction s generalizing c with
  | done => rfl
  | fault cause => rfl
  | next x rest ih =>
    simp only [map,foldl]
    cases hx : f x with
    | error e => rfl
    | ok y =>
      simp only [step,foldl,ok_bind]
      cases hy : g c y with
      | ok c => exact ih () c
      | error e => rfl

theorem foldl_zipWith_ofList (f : α → β → Result δ) (g : γ → δ → Result γ) (c : γ) (xs : List α) (ys : List β) :
    (zipWith f (ofList xs) (ofList ys)).foldl g c =
      (xs.zip ys).foldlM (fun acc p => do g acc (← f p.1 p.2)) c := by
  induction xs generalizing ys c with
  | nil => rfl
  | cons x xs ih =>
    cases ys with
    | nil => rfl
    | cons y ys =>
      simp only [ofList,zipWith,List.zip_cons_cons,List.foldlM_cons]
      cases hx : f x y with
      | error e => rfl
      | ok z =>
        simp only [step,foldl,ok_bind]
        cases hy : g c z with
        | ok c => exact ih c ys
        | error e => rfl

theorem map_ofList_ok (f : α → β) (xs : List α) : (ofList xs).map (fun x => .ok (f x)) = ofList (xs.map f) := by
  induction xs with
  | nil => rfl
  | cons x xs ih => simp only [ofList,map,step,ih,List.map_cons]

theorem zipWith_ofList_ok (f : α → β → γ) (g : σ → α) (g' : σ → β) (xs : List σ) :
    zipWith (fun x y => .ok (f x y)) (ofList (xs.map g)) (ofList (xs.map g')) =
      ofList (xs.map fun x => f (g x) (g' x)) := by
  induction xs with
  | nil => rfl
  | cons x xs ih => simp only [List.map_cons,ofList,zipWith,step,ih]

theorem tabulate_eq_ofList {f : Nat → Result α} {g : Nat → α} {n first : Nat}
    (h : ∀ i, i < first+n → f i = .ok (g i)) : tabulate f n first = ofList ((List.range' first n).map g) := by
  induction n generalizing first with
  | zero => rfl
  | succ n ih =>
    rw [tabulate,h first (by omega),ih fun i hi => h i (by omega)]
    rfl

end Steps

namespace Walk

/-- Gathering what `f` makes of a list, last first, is gathering it in order. -/
theorem foldlM_cons_eq_mapM (f : α → Result β) (xs : List α) :
    (do let ys ← xs.foldlM (fun ys x => do .ok ((← f x) :: ys)) []; .ok ys.reverse) = xs.mapM f := by
  rw [List.mapM_eq_reverse_foldlM_cons]
  rfl

@[simp] theorem toList_ofList (xs : List α) : (ofList xs).toList = .ok xs := by
  have h : xs.mapM (fun x => (.ok x : Result α)) = .ok xs := by
    simp [mapM_eq_ok]
  rw [← h,← foldlM_cons_eq_mapM]
  simp only [toList,foldl,ofList,Steps.foldl_ofList,ok_bind]

@[simp] theorem toList_map_ofList (f : α → Result β) (xs : List α) : ((ofList xs).map f).toList = xs.mapM f := by
  rw [← foldlM_cons_eq_mapM]
  simp only [toList,map,foldl,ofList,Steps.foldl_map,Steps.foldl_ofList]

@[simp] theorem toList_zipWith_ofList (f : α → β → Result γ) (xs : List α) (ys : List β) :
    (zipWith f (ofList xs) (ofList ys)).toList = (xs.zip ys).mapM fun p => f p.1 p.2 := by
  rw [← foldlM_cons_eq_mapM]
  simp only [toList,zipWith,foldl,ofList,Steps.foldl_zipWith_ofList]

@[simp] theorem foldl_ofList (f : β → α → Result β) (b : β) (xs : List α) :
    (ofList xs).foldl f b = xs.foldlM f b := Steps.foldl_ofList f b xs

@[simp] theorem length_ofList (xs : List α) : (ofList xs).length = xs.length := rfl

@[simp] theorem length_map (f : α → Result β) (w : Walk α) : (w.map f).length = w.length := rfl

@[simp] theorem length_zipWith (f : α → β → Result γ) (v : Walk α) (w : Walk β) :
    (zipWith f v w).length = min v.length w.length := rfl

theorem map_ofList_ok (f : α → β) (xs : List α) : (ofList xs).map (fun x => .ok (f x)) = ofList (xs.map f) := by
  simp [map,ofList,Steps.map_ofList_ok]

theorem zipWith_ofList_ok (f : α → β → γ) (g : σ → α) (g' : σ → β) (xs : List σ) :
    zipWith (fun x y => .ok (f x y)) (ofList (xs.map g)) (ofList (xs.map g')) =
      ofList (xs.map fun x => f (g x) (g' x)) := by
  simp [zipWith,ofList,Steps.zipWith_ofList_ok]

theorem unfold_eq_ofList {next? : σ → Result (Option (α × σ))} {xs : List α} {s : σ}
    (h : Steps.Answers next? xs s) : unfold next? xs.length s = ofList xs := by
  rw [unfold,Steps.unfold_eq_ofList h (Nat.le_refl _)]
  rfl

theorem toList_unfold_of_breaks {next? : σ → Result (Option (α × σ))} {cause : Fault} {xs : List α} {s : σ}
    (h : Steps.Breaks next? cause xs s) {n : Nat} (hn : xs.length < n) : (unfold next? n s).toList = .error cause := by
  rw [toList,foldl,unfold,Steps.foldl_unfold_of_breaks h hn (fun _ _ => rfl),error_bind]

theorem room_eq_ok_iff {width : Nat} {w : Walk α} : w.room width = .ok () ↔ width*w.length ≤ Capacity.maxBytes := by
  unfold room
  by_cases h : width*w.length ≤ Capacity.maxBytes
  · simp [h]
  · cases hs : w.steps <;> simp [h,abort]

theorem room_eq_ok {width : Nat} {w : Walk α} (hw : width ≤ 8191) (hn : w.length ≤ 2^50) :
    w.room width = .ok () := by
  have h : width*w.length ≤ 8191*2^50 := Nat.mul_le_mul hw hn
  exact room_eq_ok_iff.2 (Nat.le_trans h (by decide))

theorem room_width_eq_ok [Element α] {w : Walk α} (hn : w.length ≤ 2^50) : w.room (Element.width α) = .ok () :=
  room_eq_ok (Nat.le_trans Element.width_le (by decide)) hn

theorem collect_eq_toList [Element α] {w : Walk α} (hn : w.length ≤ 2^50) : w.collect = w.toList := by
  simp only [collect,collectWide,room_width_eq_ok hn,ok_bind]

end Walk

end Strided
