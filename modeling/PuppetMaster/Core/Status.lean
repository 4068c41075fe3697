/-
  PuppetMaster.Core.Status — `core::StatusCode`, `core::Status`, `core::Result`.

  A `std::string` is its bytes, so a message can hold anything a peer sends. A status
  is only built by `Status::Ok` and `Status::Error`; the second gives back an Ok status
  for code `kOk`, so an Ok status never carries a message (`ok_message`). A `Result`
  built from an Ok status holds an Internal error instead.
-/

import Mathlib.Logic.Basic

namespace PuppetMaster.Core

/-- A `std::string`, or a `transport::ByteBuffer`. -/
abbrev Bytes := List UInt8

theorem Bytes.lt_trans {a b c : Bytes} (hab : a < b) (hbc : b < c) : a < c := List.lt_trans hab hbc

instance : Trans (α := Bytes) (· < ·) (· < ·) (· < ·) := ⟨Bytes.lt_trans⟩

def text (s : String) : Bytes := s.toUTF8.toList

inductive StatusCode where
  | ok
  | cancelled
  | unknown
  | invalidArgument
  | notFound
  | alreadyExists
  | failedPrecondition
  | outOfRange
  | permissionDenied
  | resourceExhausted
  | unsupported
  | unavailable
  | deadlineExceeded
  | dataLoss
  | internal
  deriving DecidableEq, Repr

structure Status where
  code : StatusCode
  message : Bytes
  ok_message : code = .ok → message = []
  deriving DecidableEq

namespace Status

def ok : Status := ⟨.ok, [], fun _ => rfl⟩

/-- `Status::Error`: an Ok code gives an Ok status, and drops the message. -/
def error (code : StatusCode) (message : Bytes) : Status :=
  if h : code = .ok then ok else ⟨code, message, fun h' => absurd h' h⟩

def isOk (s : Status) : Bool := s.code == .ok

end Status

/-- `core::Result<T>`. -/
abbrev Result (α : Type) := Except Status α

/-- `Result<T>::FromStatus`. -/
def Result.fromStatus {α : Type} (s : Status) : Result α :=
  .error (if s.isOk then
    .error .internal (text "Result<T> cannot store an OK status without a value") else s)

end PuppetMaster.Core
