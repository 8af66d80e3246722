import Mathlib.Data.List.Induction
import Mathlib.Data.List.Nodup
import Strided.OpTable.Builtin

set_option autoImplicit false

/-!
Tables by what was registered last. A name finds in each arity the function of its latest registration in that arity.
The entries may be in any order, and in another one after each registration: what a table lists goes by the bytes of the
names and has each of them once, so neither that order nor the order of the registrations shows.
-/
namespace Strided

namespace Dictionary

variable {β : Type} {name other : String} {x : β}

theorem get?_empty : (empty : Dictionary β).get? name = none := rfl

theorem find?_insertEntry {entries : List (String × β)} :
    (insertEntry name x entries).find? (fun entry => entry.1 = other) =
      if name = other then some (name,x) else entries.find? fun entry => entry.1 = other := by
  induction entries with
  | nil => simp [insertEntry]
  | cons entry rest ih =>
    obtain ⟨first,y⟩ := entry
    unfold insertEntry
    split
    · -- What stood under the name is gone, and nothing else is found in its place.
      rename_i hsame
      subst hsame
      by_cases hn : name = other <;> simp [hn]
    · rename_i hother
      by_cases hf : first = other
      · have hn : ¬name = other := fun hn => hother (hn.trans hf.symm)
        simp [hf,hn]
      · simp [hf,ih]

theorem get?_insert {d : Dictionary β} : (d.insert name x).get? other = if name = other then some x else d.get? other := by
  simp only [get?,insert,find?_insertEntry]
  split <;> rfl

theorem get?_foldl_insert {entries : List (String × β)} {d : Dictionary β} :
    (entries.foldl (fun d (name,x) => d.insert name x) d).get? other =
      ((entries.reverse.find? fun entry => entry.1 = other).map Prod.snd).or (d.get? other) := by
  induction entries generalizing d with
  | nil => simp
  | cons entry rest ih =>
    rw [List.foldl_cons,ih,get?_insert,List.reverse_cons,List.find?_append,List.find?_singleton]
    cases rest.reverse.find? fun entry => entry.1 = other <;> grind

theorem get?_ofList {entries : List (String × β)} :
    (ofList entries).get? other = (entries.reverse.find? fun entry => entry.1 = other).map Prod.snd := by
  rw [ofList,get?_foldl_insert,get?_empty,Option.or_none]

end Dictionary

theorem toList_loop (bytes : ByteArray) (i : Nat) (r : List UInt8) :
    ByteArray.toList.loop bytes i r = r.reverse++bytes.data.toList.drop i := by
  fun_induction ByteArray.toList.loop bytes i r with
  | case1 i r h ih =>
    have hi : i < bytes.data.toList.length := by simpa using h
    rw [ih,List.drop_eq_getElem_cons hi]
    simp [ByteArray.get!,h]
  | case2 i r h =>
    rw [List.drop_eq_nil_of_le (by simpa using Nat.le_of_not_lt h),List.append_nil]

namespace Dictionary

variable {β γ : Type}

theorem key_injective {name other : String} (h : key name = key other) : name = other := by
  have hl (s : String) : key s = s.toByteArray.data.toList := by
    rw [key,String.toUTF8,ByteArray.toList,toList_loop,List.reverse_nil,List.nil_append,List.drop_zero]
  rw [hl,hl] at h
  exact String.toByteArray_inj.1 (ByteArray.ext (Array.toList_inj.1 h))

def Increasing (names : List String) : Prop := names.Pairwise fun name other => key name < key other

instance (names : List String) : Decidable (Increasing names) := inferInstanceAs (Decidable (names.Pairwise _))

theorem Increasing.nodup {names : List String} (h : Increasing names) : names.Nodup :=
  List.Pairwise.imp (fun {name other} hlt (he : name = other) => List.lt_irrefl _ (he ▸ hlt)) h

theorem Increasing.eq_of_mem_iff {names others : List String} (hn : Increasing names) (ho : Increasing others)
    (h : ∀ name, name ∈ names ↔ name ∈ others) : names = others :=
  ((List.perm_ext_iff_of_nodup hn.nodup ho.nodup).2 h).eq_of_pairwise
    (fun _ _ _ _ hlt hgt => absurd hgt (List.lt_asymm hlt)) hn ho

theorem sorted_pairwise (names : List String) : (sorted names).Pairwise fun name other => key name ≤ key other := by
  have hs := @List.pairwise_mergeSort _ (fun name other => decide (key name ≤ key other))
    (fun _ _ _ h1 h2 => decide_eq_true (List.le_trans (of_decide_eq_true h1) (of_decide_eq_true h2)))
    (fun name other => by simpa using List.le_total (key name) (key other)) names
  exact hs.imp of_decide_eq_true

/-- Names that have the same bytes are the same, so sorting leaves nothing of the order in which they came. -/
theorem sorted_eq_of_perm {names others : List String} (h : names.Perm others) : sorted names = sorted others :=
  (((List.mergeSort_perm names _).trans h).trans (List.mergeSort_perm others _).symm).eq_of_pairwise
    (fun _ _ _ _ hle hge => key_injective (List.le_antisymm hle hge)) (sorted_pairwise names) (sorted_pairwise others)

theorem mem_loop_eraseReps {name other : String} {names seen : List String} :
    name ∈ List.eraseRepsBy.loop (· == ·) other names seen ↔ name ∈ seen ∨ name = other ∨ name ∈ names := by
  induction names generalizing other seen with
  | nil => simp [List.eraseRepsBy.loop,or_comm]
  | cons first rest ih =>
    unfold List.eraseRepsBy.loop
    split
    · rename_i hsame
      obtain rfl : other = first := by simpa using hsame
      rw [ih]
      simp
    · rw [ih]
      simp only [List.mem_cons]
      tauto

theorem mem_eraseReps {name : String} {names : List String} : name ∈ names.eraseReps ↔ name ∈ names := by
  cases names with
  | nil => rfl
  | cons first rest =>
    rw [List.mem_cons,List.eraseReps,List.eraseRepsBy,mem_loop_eraseReps]
    simp

/-- The invariant of the loop: what has been kept increases up to the name at hand, and what follows does not fall
below it. -/
theorem increasing_loop_eraseReps {other : String} {names seen : List String}
    (hseen : Increasing (seen.reverse++[other])) (hnames : (other :: names).Pairwise fun a b => key a ≤ key b) :
    Increasing (List.eraseRepsBy.loop (· == ·) other names seen) := by
  induction names generalizing other seen with
  | nil => simpa [List.eraseRepsBy.loop] using hseen
  | cons first rest ih =>
    obtain ⟨hother,hrest⟩ := List.pairwise_cons.1 hnames
    unfold List.eraseRepsBy.loop
    split
    · rename_i hsame
      obtain rfl : other = first := by simpa using hsame
      exact ih hseen hrest
    · rename_i hdiffer
      have hlt : key other < key first := by
        refine (List.le_iff_lt_or_eq.1 (hother first (by simp))).resolve_right fun he => ?_
        simp [key_injective he] at hdiffer
      refine ih ?_ hrest
      rw [List.reverse_cons]
      refine List.pairwise_append.2 ⟨hseen,by simp,fun name hname last hlast => ?_⟩
      rw [List.mem_singleton.1 hlast]
      rcases List.mem_append.1 hname with hname | hname
      · exact List.lt_trans ((List.pairwise_append.1 hseen).2.2 name hname other (by simp)) hlt
      · rwa [List.mem_singleton.1 hname]

theorem increasing_eraseReps {names : List String} (h : names.Pairwise fun a b => key a ≤ key b) :
    Increasing names.eraseReps := by
  cases names with
  | nil => exact List.Pairwise.nil
  | cons first rest => exact @increasing_loop_eraseReps first rest [] (by simp [Increasing]) h

theorem ofList_concat (entries : List (String × β)) (entry : String × β) :
    ofList (entries++[entry]) = (ofList entries).insert entry.1 entry.2 := by
  rw [ofList,List.foldl_append]
  rfl

theorem mem_names {d : Dictionary β} {name : String} : name ∈ d.names ↔ (d.get? name).isSome = true := by
  simp [names,get?,List.find?_isSome]

theorem get?_eq_some_iff {d : Dictionary β} {name : String} {x : β} :
    d.get? name = some x ↔ (name,x) ∈ d.entries := by
  obtain ⟨entries,hnodup⟩ := d
  induction entries with
  | nil => simp [get?]
  | cons entry rest ih =>
    obtain ⟨first,y⟩ := entry
    obtain ⟨hfirst,hrest⟩ := List.nodup_cons.1 hnodup
    have hr : (rest.find? fun entry => entry.1 = name).map Prod.snd = some x ↔ (name,x) ∈ rest := ih hrest
    by_cases hn : first = name
    · subst hn
      have hnot : (first,x) ∉ rest := fun hm => hfirst (List.mem_map.2 ⟨_,hm,rfl⟩)
      simp [get?,hnot,eq_comm]
    · have hn' : ¬ name = first := fun he => hn he.symm
      simp [get?,hn,hn',hr]

def Rearranges (d e : Dictionary β) : Prop := d.entries.Perm e.entries

theorem Rearranges.names_perm {d e : Dictionary β} (h : d.Rearranges e) : d.names.Perm e.names := h.map Prod.fst

theorem Rearranges.text_eq {d e : Dictionary β} (h : d.Rearranges e) : d.text = e.text := by
  rw [text,text,sorted_eq_of_perm h.names_perm]

theorem rearranges_iff {d e : Dictionary β} : d.Rearranges e ↔ ∀ name, d.get? name = e.get? name := by
  constructor
  · intro h name
    refine Option.ext fun x => ?_
    rw [get?_eq_some_iff,get?_eq_some_iff]
    exact h.mem_iff
  · intro h
    refine (List.perm_ext_iff_of_nodup (List.Nodup.of_map _ d.nodup) (List.Nodup.of_map _ e.nodup)).2 fun entry => ?_
    rw [← get?_eq_some_iff,← get?_eq_some_iff,h]

theorem Rearranges.insert {d e : Dictionary β} (h : d.Rearranges e) (name : String) (x : β) :
    (d.insert name x).Rearranges (e.insert name x) :=
  rearranges_iff.2 fun other => by rw [get?_insert,get?_insert,rearranges_iff.1 h]

def latest (entries : List (String × β)) (name : String) : Option β :=
  (entries.reverse.find? fun entry => entry.1 = name).map Prod.snd

end Dictionary

open Dictionary (Increasing latest)

inductive Registration (α : Type) where
  | unary (name : String) (f : α → Result α)
  | binary (name : String) (f : α → α → Result α)
  | compare (name : String) (test : α → α → Bool)

namespace Registration

variable {α : Type}

def name : Registration α → String
  | .unary name _ => name
  | .binary name _ => name
  | .compare name _ => name

def unary? : Registration α → Option (String × (α → Result α))
  | .unary name f => some (name,f)
  | _ => none

def binary? : Registration α → Option (String × (α → α → Result α))
  | .binary name f => some (name,f)
  | _ => none

def compare? : Registration α → Option (String × (α → α → Bool))
  | .compare name test => some (name,test)
  | _ => none

/-- In each arity both sequences register the same function last under every name, or none. -/
def Agree (rs rs' : List (Registration α)) : Prop := ∀ name,
  latest (rs.filterMap unary?) name = latest (rs'.filterMap unary?) name ∧
    latest (rs.filterMap binary?) name = latest (rs'.filterMap binary?) name ∧
      latest (rs.filterMap compare?) name = latest (rs'.filterMap compare?) name

theorem exists_name_eq {rs : List (Registration α)} {name : String} :
    (∃ r ∈ rs, r.name = name) ↔ name ∈ (rs.filterMap unary?).map Prod.fst ∨
      name ∈ (rs.filterMap binary?).map Prod.fst ∨ name ∈ (rs.filterMap compare?).map Prod.fst := by
  induction rs with
  | nil => simp
  | cons r rs ih =>
    simp only [List.mem_cons,exists_eq_or_imp,ih]
    cases r <;> simp [Registration.name,unary?,binary?,compare?,eq_comm,or_assoc,or_left_comm]

end Registration

namespace OpTable

variable {α : Type}

def register (t : OpTable α) : Registration α → OpTable α
  | .unary name f => t.withUnary name f
  | .binary name f => t.withBinary name f
  | .compare name test => t.withCompare name test

def ofRegistrations (rs : List (Registration α)) : OpTable α := rs.foldl register empty

structure Rearranges (t u : OpTable α) : Prop where
  unary : t.unary.Rearranges u.unary
  binary : t.binary.Rearranges u.binary
  compare : t.compare.Rearranges u.compare

theorem Rearranges.refl (t : OpTable α) : t.Rearranges t := ⟨.refl _,.refl _,.refl _⟩

theorem Rearranges.trans {t u w : OpTable α} (h : t.Rearranges u) (h' : u.Rearranges w) : t.Rearranges w :=
  ⟨List.Perm.trans h.unary h'.unary,List.Perm.trans h.binary h'.binary,List.Perm.trans h.compare h'.compare⟩

theorem Rearranges.register {t u : OpTable α} (h : t.Rearranges u) (r : Registration α) :
    (t.register r).Rearranges (u.register r) := by
  cases r with
  | unary name f => exact ⟨h.unary.insert name f,h.binary,h.compare⟩
  | binary name f => exact ⟨h.unary,h.binary.insert name f,h.compare⟩
  | compare name test => exact ⟨h.unary,h.binary,h.compare.insert name test⟩

/-- The tables that registrations on an empty table may lead to. Each of them may put the entries in another order. -/
inductive Leads : List (Registration α) → OpTable α → Prop
  | empty : Leads [] .empty
  | register {rs : List (Registration α)} {t u : OpTable α} (r : Registration α) : Leads rs t →
      u.Rearranges (t.register r) → Leads (rs++[r]) u

theorem ofRegistrations_concat (rs : List (Registration α)) (r : Registration α) :
    ofRegistrations (rs++[r]) = (ofRegistrations rs).register r := by
  rw [ofRegistrations,List.foldl_append]
  rfl

theorem leads_ofRegistrations (rs : List (Registration α)) : Leads rs (ofRegistrations rs) := by
  induction rs using List.reverseRecOn with
  | nil => exact .empty
  | append_singleton rs r ih => exact .register r ih (by rw [ofRegistrations_concat]; exact .refl _)

theorem Leads.rearranges {rs : List (Registration α)} {t : OpTable α} (h : Leads rs t) :
    t.Rearranges (ofRegistrations rs) := by
  induction h with
  | empty => exact .refl _
  | register r _ hu ih =>
    rw [ofRegistrations_concat]
    exact hu.trans (ih.register r)

theorem ofRegistrations_eq (rs : List (Registration α)) :
    ofRegistrations rs =
      ⟨.ofList (rs.filterMap Registration.unary?),.ofList (rs.filterMap Registration.binary?),
        .ofList (rs.filterMap Registration.compare?)⟩ := by
  induction rs using List.reverseRecOn with
  | nil => rfl
  | append_singleton rs r ih =>
    rw [ofRegistrations_concat,ih]
    cases r <;> simp [register,withUnary,withBinary,withCompare,List.filterMap_cons,Registration.unary?,
      Registration.binary?,Registration.compare?,Dictionary.ofList_concat]

theorem Leads.get?_eq {rs : List (Registration α)} {t : OpTable α} (h : Leads rs t) (name : String) :
    t.unary.get? name = latest (rs.filterMap Registration.unary?) name ∧
      t.binary.get? name = latest (rs.filterMap Registration.binary?) name ∧
      t.compare.get? name = latest (rs.filterMap Registration.compare?) name := by
  obtain ⟨hu,hb,hc⟩ := h.rearranges
  rw [Dictionary.rearranges_iff.1 hu,Dictionary.rearranges_iff.1 hb,Dictionary.rearranges_iff.1 hc,ofRegistrations_eq]
  exact ⟨Dictionary.get?_ofList,Dictionary.get?_ofList,Dictionary.get?_ofList⟩

theorem mem_names {t : OpTable α} {name : String} :
    name ∈ t.names ↔ name ∈ t.unary.names ∨ name ∈ t.binary.names ∨ name ∈ t.compare.names := by
  rw [names,Dictionary.mem_eraseReps,Dictionary.sorted,List.mem_mergeSort]
  simp

theorem contains_iff_mem_names {t : OpTable α} {name : String} : t.contains name = true ↔ name ∈ t.names := by
  rw [mem_names,Dictionary.mem_names,Dictionary.mem_names,Dictionary.mem_names]
  simp [contains,Dictionary.contains,or_assoc]

theorem increasing_names (t : OpTable α) : Increasing t.names :=
  Dictionary.increasing_eraseReps (Dictionary.sorted_pairwise _)

theorem Leads.mem_names {rs : List (Registration α)} {t : OpTable α} (h : Leads rs t) (name : String) :
    name ∈ t.names ↔ ∃ r ∈ rs, r.name = name := by
  have hl := h.get?_eq name
  rw [OpTable.mem_names,Dictionary.mem_names,Dictionary.mem_names,Dictionary.mem_names,hl.1,hl.2.1,hl.2.2,
    Registration.exists_name_eq]
  simp [latest,List.find?_isSome]

/-- Neither the order of the entries nor that of the arities shows in what a table lists. -/
theorem Rearranges.lists_eq {t u : OpTable α} (h : t.Rearranges u) : t.names = u.names ∧ t.text = u.text := by
  have hall := (h.unary.names_perm.append h.binary.names_perm).append h.compare.names_perm
  refine ⟨?_,?_⟩
  · rw [names,names,Dictionary.sorted_eq_of_perm hall]
  · unfold text
    rw [h.unary.text_eq,h.binary.text_eq,h.compare.text_eq]

/-- Whatever order the entries are in after each of the registrations on an empty table, a name finds in each arity the
function of its latest registration there, and nothing without one. The names are those of all registrations in strict
byte order; and tables whose registrations agree on the latest ones cannot be told apart. -/
theorem ofRegistrations_latest {rs : List (Registration α)} {t : OpTable α} (h : Leads rs t) :
    (∀ name, t.unary.get? name = latest (rs.filterMap Registration.unary?) name ∧
      t.binary.get? name = latest (rs.filterMap Registration.binary?) name ∧
      t.compare.get? name = latest (rs.filterMap Registration.compare?) name) ∧
      (Increasing t.names ∧ ∀ name, name ∈ t.names ↔ ∃ r ∈ rs, r.name = name) ∧
      (∀ name, t.contains name = true ↔ name ∈ t.names) ∧
      ∀ {rs' : List (Registration α)} {u : OpTable α}, Leads rs' u → Registration.Agree rs rs' →
        (∀ name, t.unary.get? name = u.unary.get? name ∧ t.binary.get? name = u.binary.get? name ∧
          t.compare.get? name = u.compare.get? name) ∧
        t.names = u.names ∧ t.text = u.text := by
  refine ⟨h.get?_eq,⟨increasing_names t,h.mem_names⟩,fun name => contains_iff_mem_names,fun {rs' u} hu hagree => ?_⟩
  have hget (name : String) : t.unary.get? name = u.unary.get? name ∧ t.binary.get? name = u.binary.get? name ∧
      t.compare.get? name = u.compare.get? name := by
    have h1 := h.get?_eq name
    have h2 := hu.get?_eq name
    obtain ⟨hunary,hbinary,hcompare⟩ := hagree name
    exact ⟨h1.1.trans (hunary.trans h2.1.symm),h1.2.1.trans (hbinary.trans h2.2.1.symm),
      h1.2.2.trans (hcompare.trans h2.2.2.symm)⟩
  have hr : t.Rearranges u := ⟨Dictionary.rearranges_iff.2 fun name => (hget name).1,
    Dictionary.rearranges_iff.2 fun name => (hget name).2.1,Dictionary.rearranges_iff.2 fun name => (hget name).2.2⟩
  exact ⟨hget,hr.lists_eq⟩

def revised : List (Registration Bool) := [
  .unary "b" fun x => .ok x,
  .compare "é" fun x y => x == y,
  .binary "b" fun x y => .ok (x && y),
  .unary "b" fun x => .ok !x,
  .unary "a" fun x => .ok x]

def settled : List (Registration Bool) := [
  .unary "a" fun x => .ok x,
  .binary "b" fun x y => .ok (x && y),
  .unary "b" fun x => .ok !x,
  .compare "é" fun x y => x == y]

def shuffled : OpTable Bool where
  unary := ⟨[("a",fun x => .ok x),("b",fun x => .ok !x)],by decide⟩
  binary := .ofList [("b",fun x y => .ok (x && y))]
  compare := .ofList [("é",fun x y => x == y)]

theorem revised_latest : Leads revised shuffled ∧ (ofRegistrations revised).unary.names = ["b","a"] ∧
    shuffled.unary.names = ["a","b"] ∧ Registration.Agree revised settled ∧ shuffled.names = ["a","b","é"] ∧
    shuffled.text = (ofRegistrations revised).text ∧ shuffled.text = (ofRegistrations settled).text := by
  have hleads : Leads revised shuffled := by
    have hbefore : Leads (revised.take 4) (ofRegistrations (revised.take 4)) := leads_ofRegistrations _
    exact hbefore.register (.unary "a" fun x => .ok x) ⟨List.Perm.swap _ _ _,.refl _,.refl _⟩
  have hagree : Registration.Agree revised settled := by
    refine fun name => ⟨?_,rfl,rfl⟩
    have hr : revised.filterMap Registration.unary? =
        [("b",fun x => .ok x),("b",fun x => .ok !x),("a",fun x => .ok x)] := rfl
    have hs : settled.filterMap Registration.unary? = [("a",fun x => .ok x),("b",fun x => .ok !x)] := rfl
    rw [hr,hs]
    by_cases ha : "a" = name
    · subst ha
      rfl
    · by_cases hb : "b" = name <;> simp [latest,ha,hb]
  obtain ⟨-,⟨hincreasing,hmem⟩,-,hsame⟩ := ofRegistrations_latest hleads
  have hnames : shuffled.names = ["a","b","é"] := by
    refine hincreasing.eq_of_mem_iff (by decide +kernel) fun name => ?_
    rw [hmem]
    simp [revised,Registration.name,eq_comm,or_comm,or_left_comm]
  exact ⟨hleads,rfl,rfl,hagree,hnames,(hsame (leads_ofRegistrations revised) fun _ => ⟨rfl,rfl,rfl⟩).2.2,
    (hsame (leads_ofRegistrations settled) hagree).2.2⟩

end OpTable

end Strided
