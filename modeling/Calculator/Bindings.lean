import Calculator.Diagnostic.Cause

/-! # Variables and constants

    The bindings of a session are a list without repeated names, in the order
    of declaration. A name is declared once, as a variable or as a constant;
    only a variable is assigned to, and nothing is ever removed.

    A declaration or an assignment either fails and changes nothing, or makes
    exactly one `Change`. Names are looked up from the front, and it is the entry
    that is found there which is assigned to.
-/

namespace Calculator

/-- A name with its value. -/
structure Binding where
  name : String
  value : Float
  constant : Bool := false
deriving DecidableEq

/-- The names of a session. -/
structure Bindings where
  /-- In the order of declaration. -/
  entries : List Binding := []
deriving DecidableEq

/-- What has changed in the bindings. -/
inductive Change where
  | declared (name : String) (value : Float) (constant : Bool)
  /-- The value `old` has been replaced. -/
  | assigned (name : String) (value old : Float)
deriving DecidableEq

namespace Bindings

/-- The binding of a name. -/
def find? (b : Bindings) (name : String) : Option Binding := b.entries.find? (·.name == name)

/-- The value of a name. -/
def get (b : Bindings) (name : String) : Except Cause Float :=
  match b.find? name with
  | some v => .ok v.value
  | none => .error (.undefinedName name)

/-- The entries with a new value in the first one of a name. -/
def replaceFirst (name : String) (value : Float) : List Binding → List Binding
  | [] => []
  | v :: rest =>
    if v.name == name then { v with value } :: rest else v :: replaceFirst name value rest

/-- The bindings with a new value for a name. -/
def replace (b : Bindings) (name : String) (value : Float) : Bindings :=
  ⟨replaceFirst name value b.entries⟩

/-- Makes a change. -/
def apply (b : Bindings) : Change → Bindings
  | .declared name value constant => ⟨b.entries ++ [⟨name, value, constant⟩]⟩
  | .assigned name value _ => b.replace name value

/-- The change that declares a name, if it is free. -/
def declare (b : Bindings) (name : String) (value : Float) (constant : Bool) :
    Except Cause Change :=
  if (b.find? name).isSome then .error (.alreadyDeclared name)
  else .ok (.declared name value constant)

/-- The change that assigns to a name, if it is that of a variable. -/
def assign (b : Bindings) (name : String) (value : Float) : Except Cause Change :=
  match b.find? name with
  | none => .error (.undefinedName name)
  | some v =>
    if v.constant then .error (.constantAssigned name)
    else .ok (.assigned name value v.value)

/-- The constants that every session starts with. -/
def predefined : List (String × Float) :=
  [("E", 2.71828182845904523536),
   ("LOG2E", 1.44269504088896340736),
   ("LOG10E", 0.434294481903251827651),
   ("LN2", 0.693147180559945309417),
   ("LN10", 2.30258509299404568402),
   ("PI", 3.14159265358979323846),
   ("PI_2", 1.57079632679489661923),
   ("PI_4", 0.785398163397448309616),
   ("SQRT2", 1.41421356237309504880)]

/-- The changes that declare the predefined constants. -/
def predefinedChanges : List Change :=
  predefined.map fun (name, value) => .declared name value true

/-- The bindings at the start of a session. -/
def initial : Bindings := predefinedChanges.foldl apply {}

end Bindings

end Calculator
