/-!
# Value — what evaluation produces, and its text
-/
namespace LineShell

inductive Value where
  | nil
  | bool (b : Bool)
  | int (n : Int64)
  | array (items : List Value)
  deriving Repr, Inhabited

/-- **The kinds that an error message tells apart.** -/
inductive Kind where
  | nil
  | true
  | false
  | integer
  | array
  deriving DecidableEq, Repr

def Kind.name : Kind → String
  | nil => "NilClass"
  | true => "TrueClass"
  | false => "FalseClass"
  | integer => "Integer"
  | array => "Array"

namespace Value

def kind : Value → Kind
  | nil => .nil
  | bool .true => .true
  | bool .false => .false
  | int _ => .integer
  | array _ => .array

/-- **Only `nil` and `false` are not true.** -/
def isTruthy : Value → Bool
  | nil => false
  | bool b => b
  | _ => true

mutual

/-- **Equality of values**, item by item. -/
def same : Value → Value → Bool
  | nil, nil => true
  | bool a, bool b => a == b
  | int a, int b => a == b
  | array as, array bs => sameItems as bs
  | _, _ => false

/-- **Equality of lists of values**: as many items, and the same ones. -/
def sameItems : List Value → List Value → Bool
  | [], [] => true
  | a :: as, b :: bs => same a b && sameItems as bs
  | _, _ => false

end

mutual

theorem same_iff : ∀ a b : Value, same a b = true ↔ a = b
  | nil, b => by cases b <;> simp [same]
  | bool _, b => by cases b <;> simp [same]
  | int _, b => by cases b <;> simp [same]
  | array as, b => by
    cases b with
    | array bs => simp [same, sameItems_iff as bs]
    | _ => simp [same]

theorem sameItems_iff : ∀ as bs : List Value, sameItems as bs = true ↔ as = bs
  | [], bs => by cases bs <;> simp [sameItems]
  | a :: as, bs => by
    cases bs with
    | nil => simp [sameItems]
    | cons b bs => simp [sameItems, same_iff a b, sameItems_iff as bs]

end

instance : DecidableEq Value := fun a b => decidable_of_iff _ (same_iff a b)

mutual

/-- **The text of a value set after `before`.** -/
def write (before : String) : Value → String
  | nil => before ++ "nil"
  | bool .true => before ++ "true"
  | bool .false => before ++ "false"
  | int n => before ++ toString n.toInt
  | array [] => before ++ "[]"
  | array (item :: items) => writeMore (write (before ++ "[") item) items

/-- **The rest of an array's text set after `before`**: the items after the first, and the closing bracket. -/
def writeMore (before : String) : List Value → String
  | [] => before ++ "]"
  | item :: items => writeMore (write (before ++ ", ") item) items

end

/-- **The text of a value**: `nil`, `true`, `-3`, `[1, [], nil]`. -/
def text (v : Value) : String := write "" v

end Value

end LineShell
