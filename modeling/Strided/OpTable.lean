import Strided.Fault
import Strided.Text

set_option autoImplicit false

/-!
Tables of named scalar operations. A table holds one function for each name and arity, the one registered last. The
entries of a table are in no order that anything may depend on; whatever lists names puts them in byte order first.
-/
namespace Strided

/-- Values under names, each name once, in whatever order. -/
structure Dictionary (β : Type) where
  entries : List (String × β)
  nodup : (entries.map Prod.fst).Nodup

namespace Dictionary

def empty {β : Type} : Dictionary β := ⟨[],List.nodup_nil⟩

def insertEntry {β : Type} (name : String) (x : β) : List (String × β) → List (String × β)
  | [] => [(name,x)]
  | (other,y) :: rest => if name = other then (name,x) :: rest else (other,y) :: insertEntry name x rest

theorem map_fst_insertEntry {β : Type} (name : String) (x : β) (entries : List (String × β)) :
    (insertEntry name x entries).map Prod.fst =
      if name ∈ entries.map Prod.fst then entries.map Prod.fst else entries.map Prod.fst++[name] := by
  induction entries with
  | nil => rfl
  | cons entry rest ih =>
    obtain ⟨other,y⟩ := entry
    unfold insertEntry
    by_cases hn : name = other
    · simp [hn]
    · by_cases hr : name ∈ rest.map Prod.fst
      · rw [if_pos hr] at ih
        simp only [hn,↓reduceIte,List.map_cons,ih,List.mem_cons,hr,or_true]
      · rw [if_neg hr] at ih
        simp only [hn,↓reduceIte,List.map_cons,ih,List.mem_cons,hr,or_self,List.cons_append]

theorem nodup_insertEntry {β : Type} {name : String} {x : β} {entries : List (String × β)}
    (h : (entries.map Prod.fst).Nodup) : ((insertEntry name x entries).map Prod.fst).Nodup := by
  rw [map_fst_insertEntry]
  split
  · exact h
  · rename_i hn
    exact List.nodup_append.2 ⟨h,by simp,fun other ho last hl he => hn (by rwa [← List.mem_singleton.1 hl,← he])⟩

def insert {β : Type} (d : Dictionary β) (name : String) (x : β) : Dictionary β :=
  ⟨insertEntry name x d.entries,nodup_insertEntry d.nodup⟩

def get? {β : Type} (d : Dictionary β) (name : String) : Option β :=
  (d.entries.find? fun entry => entry.1 = name).map Prod.snd

def contains {β : Type} (d : Dictionary β) (name : String) : Bool := (d.get? name).isSome

/-- The names in the order in which the entries happen to be. -/
def names {β : Type} (d : Dictionary β) : List String := d.entries.map Prod.fst

def ofList {β : Type} (entries : List (String × β)) : Dictionary β :=
  entries.foldl (fun d (name,x) => d.insert name x) empty

def key (name : String) : List UInt8 := name.toUTF8.toList

def sorted (names : List String) : List String := names.mergeSort fun name other => key name ≤ key other

def text {β : Type} (d : Dictionary β) : String := Text.bracketed ((sorted d.names).map Text.quoted)

end Dictionary

structure OpTable (α : Type) where
  unary : Dictionary (α → Result α)
  binary : Dictionary (α → α → Result α)
  compare : Dictionary (α → α → Bool)

namespace OpTable

def empty {α : Type} : OpTable α := ⟨.empty,.empty,.empty⟩

def withUnary {α : Type} (t : OpTable α) (name : String) (f : α → Result α) : OpTable α :=
  { t with unary := t.unary.insert name f }

def withBinary {α : Type} (t : OpTable α) (name : String) (f : α → α → Result α) : OpTable α :=
  { t with binary := t.binary.insert name f }

def withCompare {α : Type} (t : OpTable α) (name : String) (f : α → α → Bool) : OpTable α :=
  { t with compare := t.compare.insert name f }

def contains {α : Type} (t : OpTable α) (name : String) : Bool :=
  t.unary.contains name || t.binary.contains name || t.compare.contains name

/-- The names of all operations: those of the three arities together are sorted, and of equal neighbours one stays. -/
def names {α : Type} (t : OpTable α) : List String :=
  (Dictionary.sorted (t.unary.names++t.binary.names++t.compare.names)).eraseReps

def text {α : Type} (t : OpTable α) : String :=
  "OpTable \x7b unary: " ++ t.unary.text ++ ", binary: " ++ t.binary.text ++ ", compare: " ++ t.compare.text ++ " \x7d"

def required {β : Type} (name : String) (found : Option β) : Result β :=
  match found with
  | some f => .ok f
  | none => refuse (.unknownOperation name)

end OpTable

end Strided
