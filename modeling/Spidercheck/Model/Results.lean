import Spidercheck.Text.Basic

/-! The exceptions that the program meets, and the two result classes of
`results.py`. -/
namespace Spidercheck

open Text

inductive ErrorKind where
  | valueError
  | unicodeDecodeError
  | typeError
  | attributeError
  | assertionError
  | osError
  | doesNotExist
  | integrityError
  | dataError
  | other
  deriving DecidableEq, Repr

/-- An exception and its `str`. -/
structure PyError where
  kind : ErrorKind
  text : Str
  deriving DecidableEq, Repr

section Except
variable {Error Value Other : Type} (value : Value) (e : Error) (k : Value → Except Error Other)

@[simp] theorem ok_bind : (Except.ok value >>= k) = k value := rfl

@[simp] theorem error_bind : (Except.error e >>= k) = .error e := rfl

@[simp] theorem pure_eq_ok : (pure value : Except Error Value) = .ok value := rfl

@[simp] theorem throw_eq_error : (throw e : Except Error Value) = .error e := rfl

/-- A sequence returns exactly when both of its parts do. -/
theorem except_bind_eq_ok {r : Except Error Value} {other : Other} :
    (r >>= k) = .ok other ↔ ∃ value, r = .ok value ∧ k value = .ok other := by
  cases r <;> simp

end Except

def httpError (code : Nat) (reason : Str) : PyError :=
  { kind := .osError, text := "HTTP Error " ++ ofInt code ++ ": " ++ reason }

inductive Result (Value : Type) where
  | success (value : Value)
  | failure (errorMessage : Str) (code : Option Int)
  deriving DecidableEq, Repr

namespace Result
variable {Value : Type}

/-- `Failure(error_message)`, whose code is `None`. -/
def fail (errorMessage : Str) : Result Value := failure errorMessage none

/-- `bool(result)`, which is also `is_success()`. -/
def isSuccess : Result Value → Bool
  | success _ => true
  | failure _ _ => false

def isFailure : Result Value → Bool
  | success _ => false
  | failure _ _ => true

def failureText (errorMessage : Str) : Option Int → Str
  | none => errorMessage
  | some code => ofInt code ++ ": " ++ errorMessage

end Result

/-- `int(code)` for the `code` of a `Failure`. -/
def intOfCode : Option Int → Except PyError Int
  | some code => .ok code
  | none => .error
      { kind := .typeError,
        text := "int() argument must be a string, a bytes-like object or a real number, not 'NoneType'" }

end Spidercheck
