/-
  PuppetMaster.Core.Check — checks as results.

  A check returns early on an error: `Status.check` on a status, `refuse` on a condition,
  `createName` on a name that is not valid. `within` puts text in front of an error's
  message. Each comes with the condition it succeeds under.
-/

import Mathlib.Data.List.Forall2
import PuppetMaster.Core.Name

namespace PuppetMaster.Core

/-- `if (!status.ok()) return status;`. -/
def Status.check (status : Status) : Result Unit := if status.isOk then .ok () else .error status

def invalidArgument {α : Type} (message : Bytes) : Result α := .error (.error .invalidArgument message)

def refuse (condition : Prop) [Decidable condition] (message : Bytes) : Result Unit :=
  if condition then invalidArgument message else .ok ()

/-- The same error, with `before` in front of its message. -/
def within {α : Type} (before : Bytes) : Result α → Result α
  | .ok value => .ok value
  | .error status => .error (.error status.code (before ++ status.message))

/-- `NamedValue::Create`. -/
def createName (label : String) (value : Bytes) : Result Bytes := do
  (validateName label value).check
  return value

/-! ## When they succeed -/

variable {α β : Type}

theorem bind_eq_ok {ε : Type} {x : Except ε α} {f : α → Except ε β} {b : β} : x >>= f = .ok b ↔ ∃ a, x = .ok a ∧ f a = .ok b := by
  cases x with
  | error s => exact ⟨fun h => (by cases h), fun ⟨a, h, _⟩ => (by cases h)⟩
  | ok a => exact ⟨fun h => ⟨a, rfl, h⟩, fun ⟨_, h, hf⟩ => by cases h; exact hf⟩

theorem then_eq_ok {x : Result Unit} {f : Unit → Result β} {b : β} : x >>= f = .ok b ↔ x = .ok () ∧ f () = .ok b := by
  rw [bind_eq_ok]
  exact ⟨fun ⟨_, h⟩ => h, fun h => ⟨(), h⟩⟩

theorem pure_eq_ok {a b : α} : (pure a : Result α) = .ok b ↔ a = b := Except.ok.injEq a b ▸ Iff.rfl

theorem Status.eq_ok {status : Status} (h : status.isOk = true) : status = .ok := by
  obtain ⟨code, message, hmessage⟩ := status
  have hcode : code = .ok := eq_of_beq h
  subst hcode
  obtain rfl := hmessage rfl
  rfl

theorem Status.check_eq_ok {status : Status} : status.check = .ok () ↔ status.isOk = true := by
  unfold check
  split <;> simp_all

theorem refuse_eq_ok {condition : Prop} [Decidable condition] {message : Bytes} :
    refuse condition message = .ok () ↔ ¬ condition := by
  unfold refuse invalidArgument
  split <;> simp_all

theorem within_eq_ok {before : Bytes} {result : Result α} {value : α} :
    within before result = .ok value ↔ result = .ok value := by
  cases result with
  | ok a => exact Iff.rfl
  | error status => exact ⟨fun h => (by cases h), fun h => (by cases h)⟩

theorem createName_eq_ok {label : String} {value name : Bytes} :
    createName label value = .ok name ↔ (validateName label value).isOk = true ∧ value = name := by
  rw [createName, then_eq_ok, Status.check_eq_ok, pure_eq_ok]

theorem forM_eq_ok {f : α → Result Unit} {as : List α} : as.forM f = .ok () ↔ ∀ a ∈ as, f a = .ok () := by
  induction as with
  | nil => exact ⟨fun _ _ h => absurd h List.not_mem_nil, fun _ => rfl⟩
  | cons a as ih =>
    rw [List.forall_mem_cons, ← ih]
    exact then_eq_ok

theorem mapM_eq_ok {f : α → Result β} {as : List α} {bs : List β} :
    as.mapM f = .ok bs ↔ List.Forall₂ (fun a b => f a = .ok b) as bs := by
  induction as generalizing bs with
  | nil => cases bs <;> simp [pure_eq_ok]
  | cons a as ih =>
    rw [List.mapM_cons, bind_eq_ok, List.forall₂_cons_left_iff]
    simp only [bind_eq_ok, pure_eq_ok, ih]
    constructor
    · intro h
      obtain ⟨b, hb, bs', hbs, rfl⟩ := h
      exact ⟨b, bs', hb, hbs, rfl⟩
    · intro h
      obtain ⟨b, bs', hb, hbs, rfl⟩ := h
      exact ⟨b, hb, bs', hbs, rfl⟩

end PuppetMaster.Core
