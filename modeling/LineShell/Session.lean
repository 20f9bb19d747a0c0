import LineShell.Value
/-!
# Session — what lasts from one statement to the next
-/
namespace LineShell

/-- **Values bound to names**, in ascending order of names. -/
structure Bindings where
  entries : List (String × Value)
  deriving DecidableEq, Repr

namespace Bindings

def empty : Bindings := ⟨[]⟩

instance : Inhabited Bindings := ⟨empty⟩

def lookup (bindings : Bindings) (name : String) : Option Value := bindings.entries.lookup name

/-- **An entry put in its place** in an ascending list, instead of an entry of the same name. -/
def insertEntry (name : String) (value : Value) : List (String × Value) → List (String × Value)
  | [] => [(name, value)]
  | (first, old) :: rest =>
    if name = first then (name, value) :: rest
    else if name < first then (name, value) :: (first, old) :: rest
    else (first, old) :: insertEntry name value rest

/-- **A name bound to a value**, whatever it was bound to before. -/
def bind (bindings : Bindings) (name : String) (value : Value) : Bindings :=
  ⟨insertEntry name value bindings.entries⟩

/-- Looking a name up compares it with the first entry's. -/
theorem lookup_entry (other first : String) (value : Value) (rest : List (String × Value)) :
    ((first, value) :: rest).lookup other = if other = first then some value else rest.lookup other := by
  rw [List.lookup_cons]
  by_cases h : other = first
  · rw [if_pos h, beq_iff_eq.2 h]
  · rw [if_neg h, beq_eq_false_iff_ne.2 h]

theorem lookup_insertEntry (name other : String) (value : Value) (entries : List (String × Value)) :
    (insertEntry name value entries).lookup other = if other = name then some value else entries.lookup other := by
  induction entries with
  | nil => exact lookup_entry other name value []
  | cons entry rest ih =>
    obtain ⟨first, old⟩ := entry
    unfold insertEntry
    split
    · rename_i h
      subst h
      simp only [lookup_entry]
      split <;> rfl
    · rename_i hne
      split
      · rw [lookup_entry]
      · simp only [lookup_entry, ih]
        by_cases h : other = first
        · have hn : other ≠ name := fun e => hne (e.symm.trans h)
          simp [h, h ▸ hn]
        · simp [h]

/-- **A name bound is bound to its value**, and every other name as before. -/
@[simp] theorem lookup_bind (bindings : Bindings) (name other : String) (value : Value) :
    (bindings.bind name value).lookup other = if other = name then some value else bindings.lookup other :=
  lookup_insertEntry name other value bindings.entries

/-- **The names bound**, in ascending order. -/
def names (bindings : Bindings) : List String := bindings.entries.map Prod.fst

theorem mem_names_iff {bindings : Bindings} {name : String} :
    name ∈ bindings.names ↔ bindings.lookup name ≠ none := by
  rw [← Option.isSome_iff_ne_none, lookup, List.lookup_isSome_iff, names, List.mem_map]
  exact exists_congr fun entry => and_congr_right fun _ => eq_comm.trans beq_iff_eq.symm

/-- **The bindings of a list of entries**; of two entries for one name the later counts. -/
def ofList (entries : List (String × Value)) : Bindings :=
  entries.foldl (fun bindings (name, value) => bindings.bind name value) empty

end Bindings

/-- **A machine word is a number** where one is wanted. -/
instance numberOfWord : Coe UInt64 Nat := ⟨UInt64.toNat⟩

/-- **The state of a session**: the names bound, and how many statements were dispatched. The count is a machine word,
so past the largest it begins again at nought. -/
structure Session where
  vars : Bindings
  dispatched : UInt64
  deriving DecidableEq, Repr

namespace Session

/-- **A session with names bound and nothing dispatched.** -/
def start (vars : Bindings) : Session := ⟨vars, 0⟩

instance : Inhabited Session := ⟨start .empty⟩

end Session

end LineShell
