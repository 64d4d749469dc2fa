set_option autoImplicit false

/-!
# The variables of a run

A store gives values to names, upper and lower case apart. It remembers in which order the names
were first set. `get?_set` is its law.
-/
namespace NumberedBasic

/-- Puts a value in the place of a name, or at the end if the name is new. -/
def putEntry (name : String) (x : Float) : List (String × Float) → List (String × Float)
  | [] => [(name, x)]
  | (other, y) :: rest =>
    if other = name then (name, x) :: rest else (other, y) :: putEntry name x rest

theorem lookup_putEntry (name key : String) (x : Float) (entries : List (String × Float)) :
    (putEntry name x entries).lookup key = if key = name then some x else entries.lookup key := by
  induction entries with
  | nil =>
    by_cases h : key = name
    · simp [putEntry, h]
    · simp [putEntry, List.lookup_cons, h, beq_eq_false_iff_ne.2 h]
  | cons entry rest ih =>
    obtain ⟨other, y⟩ := entry
    by_cases ho : other = name
    · subst ho
      by_cases h : key = other
      · simp [putEntry, h]
      · simp [putEntry, List.lookup_cons, h, beq_eq_false_iff_ne.2 h]
    · by_cases h : key = name
      · subst h
        simp [putEntry, ho, List.lookup_cons, beq_eq_false_iff_ne.2 (Ne.symm ho), ih]
      · simp [putEntry, ho, List.lookup_cons, h, ih]

structure Store where
  entries : List (String × Float)
  deriving DecidableEq

namespace Store

def empty : Store := ⟨[]⟩

def get? (s : Store) (name : String) : Option Float := s.entries.lookup name

def contains (s : Store) (name : String) : Bool := (s.get? name).isSome

def set (s : Store) (name : String) (x : Float) : Store := ⟨putEntry name x s.entries⟩

def names (s : Store) : List String := s.entries.map (·.1)

def size (s : Store) : Nat := s.entries.length

@[simp] theorem get?_empty (name : String) : empty.get? name = none := rfl

theorem get?_set (s : Store) (name key : String) (x : Float) :
    (s.set name x).get? key = if key = name then some x else s.get? key :=
  lookup_putEntry name key x s.entries

end Store

end NumberedBasic
