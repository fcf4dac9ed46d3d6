import Mathlib.Logic.Basic

/-!
# Errors of storage operations

`io::Error` values as the storage code builds them: a kind and a message. The messages of the
operating system and of the `nojson` parser are not part of this repository, so a message is either
one of the texts of the source or names the error that was passed on.
-/

set_option autoImplicit false
set_option relaxedAutoImplicit false

namespace Sukari

/-- The members of `io::ErrorKind` that the storage code produces or passes on. -/
inductive ErrorKind
  | notFound
  | alreadyExists
  | invalidInput
  | invalidData
  | fileTooLarge
  deriving DecidableEq, Repr

/-- `nojson::JsonParseError` by its cause. -/
inductive JsonParseError
  | invalid (message : String)
  | invalidInteger
  | missingMember (name : String)
  | unexpectedType
  deriving DecidableEq, Repr

inductive ErrorMessage
  | text (message : String)
  | json (error : JsonParseError)
  | system
  deriving DecidableEq, Repr

structure IoError where
  kind : ErrorKind
  message : ErrorMessage
  deriving DecidableEq, Repr

def invalidInput (message : String) : IoError := ⟨.invalidInput, .text message⟩

def invalidData (message : String) : IoError := ⟨.invalidData, .text message⟩

def invalidJson (error : JsonParseError) : IoError := ⟨.invalidData, .json error⟩

/-- The error of the operating system for a file that does not exist. -/
def fileNotFound : IoError := ⟨.notFound, .system⟩

/-- The error of the operating system for a file that should not exist yet. -/
def fileAlreadyExists : IoError := ⟨.alreadyExists, .system⟩

/-- The error of the operating system for a write beyond the largest file. -/
def fileTooLarge : IoError := ⟨.fileTooLarge, .system⟩

/-- The statement `if condition { return Err(error); }`. -/
def failIf {m : Type → Type} [Monad m] [MonadExcept IoError m] (condition : Prop)
    [Decidable condition] (error : IoError) : m Unit :=
  if condition then throw error else pure ()

/-! ### Fallible steps in sequence -/

section Except

variable {α β ι : Type} {error : IoError}

@[simp] theorem failIf_eq_ok_iff {condition : Prop} [Decidable condition] {value : Unit} :
    (failIf condition error : Except IoError Unit) = .ok value ↔ ¬ condition := by
  unfold failIf
  split <;> simp_all [throw, throwThe, MonadExceptOf.throw, pure, Except.pure]

@[simp] theorem failIf_eq_error_iff {condition : Prop} [Decidable condition] {error' : IoError} :
    (failIf condition error : Except IoError Unit) = .error error' ↔
      condition ∧ error = error' := by
  unfold failIf
  split <;> simp_all [throw, throwThe, MonadExceptOf.throw, pure, Except.pure]

theorem bind_eq_ok_iff {first : Except IoError α} {next : α → Except IoError β} {value : β} :
    (first >>= next) = .ok value ↔ ∃ x, first = .ok x ∧ next x = .ok value := by
  cases first <;> simp [bind, Except.bind]

theorem check_bind_eq_ok_iff {check : Except IoError Unit} {next : Unit → Except IoError β}
    {value : β} : (check >>= next) = .ok value ↔ check = .ok () ∧ next () = .ok value := by
  cases check <;> simp [bind, Except.bind]

theorem bind_eq_error_iff {first : Except IoError α} {next : α → Except IoError β} :
    (first >>= next) = .error error ↔
      first = .error error ∨ ∃ x, first = .ok x ∧ next x = .error error := by
  cases first <;> simp [bind, Except.bind]

theorem forM_eq_ok_iff {items : List ι} {step : ι → Except IoError Unit} {value : Unit} :
    items.forM step = .ok value ↔ ∀ item ∈ items, step item = .ok () := by
  induction items with
  | nil => simp [pure, Except.pure]
  | cons item rest ih =>
    rw [List.forM, check_bind_eq_ok_iff, List.forall_mem_cons, ih]

theorem exists_of_forM_eq_error {items : List ι} {step : ι → Except IoError Unit}
    (h : items.forM step = .error error) : ∃ item ∈ items, step item = .error error := by
  induction items with
  | nil => simp [pure, Except.pure] at h
  | cons item rest ih =>
    rw [List.forM, bind_eq_error_iff] at h
    rcases h with h | ⟨_, -, h⟩
    · exact ⟨item, by simp, h⟩
    · obtain ⟨item', hmem, h'⟩ := ih h
      exact ⟨item', by simp [hmem], h'⟩

end Except

/-- The result `Ok` of a fallible function. -/
def Succeeds {ε α : Type} : Except ε α → Prop
  | .ok _ => True
  | .error _ => False

instance {ε α : Type} (result : Except ε α) : Decidable (Succeeds result) :=
  match result with
  | .ok _ => .isTrue trivial
  | .error _ => .isFalse not_false

theorem succeeds_iff {ε α : Type} {result : Except ε α} :
    Succeeds result ↔ ∃ value, result = .ok value := by
  cases result with
  | ok value => exact ⟨fun _ ↦ ⟨value, rfl⟩, fun _ ↦ trivial⟩
  | error e => exact ⟨False.elim, fun ⟨_, h⟩ ↦ nomatch h⟩

theorem toOption_eq_some_iff {ε α : Type} {result : Except ε α} {value : α} :
    result.toOption = some value ↔ result = .ok value := by
  cases result <;> simp [Except.toOption]

end Sukari
