import Mathlib.Tactic.Common

/-! Errors with causes, as the `failure` crate keeps them: what an error displays
as, the backtrace it knows of, and the error that caused it. -/

namespace PaymentsNotifications.Failure

abbrev Text := List Char

/-- A piece of text without a line break. -/
structure Line where
  text : Text
  unbroken : '\n' ∉ text

/-- A frame: the line with its symbol, and the line with its place when it is known. -/
structure Frame where
  symbol : Line
  location : Option Line

/-- A backtrace as it is displayed. Nothing is captured unless the process asks for it. -/
inductive Backtrace where
  | empty
  | captured (header : Line) (frames : List Frame)

def Frame.lines (frame : Frame) : List Line := frame.symbol :: frame.location.toList

/-- Lines, each behind a line break. -/
def continued (lines : List Line) : Text := lines.flatMap fun line => '\n' :: line.text

def Backtrace.display : Backtrace → Text
  | .empty => []
  | .captured header frames => header.text ++ continued (frames.flatMap Frame.lines)

/-- `&Fail`, seen through its methods. -/
inductive Fail where
  | root (message : Text) (backtrace : Option Backtrace)
  | because (message : Text) (backtrace : Option Backtrace) (cause : Fail)

namespace Fail

def message : Fail → Text
  | root message _ => message
  | because message _ _ => message

def cause : Fail → Option Fail
  | root _ _ => none
  | because _ _ cause => some cause

def backtrace : Fail → Option Backtrace
  | root _ backtrace => backtrace
  | because _ backtrace _ => backtrace

/-- `Fail::context`: the backtrace is the one of the error, or the one captured here. -/
def context (error : Fail) (message : Text) (captured : Backtrace) : Fail :=
  because message (some (error.backtrace.getD captured)) error

/-- The error, its cause, the cause of that, down to the root. -/
def chain : Fail → List Fail
  | root message backtrace => [root message backtrace]
  | because message backtrace cause => because message backtrace cause :: cause.chain

/-- What `ectx!` wraps around an error: the place with the arguments, then the
contexts in the order they are given. -/
def ectx (error : Fail) (captured : Backtrace) (place : Text) (contexts : List Text) : Fail :=
  contexts.foldl (fun error context => error.context context captured)
    (error.context place captured)

end Fail

/-- `"at {file}:{line}"` and the arguments, each pretty-printed. -/
def place (file : String) (line : Nat) (args : List (String × Text)) : Text :=
  "at ".toList ++ file.toList ++ ':' :: Nat.toDigits 10 line ++
    args.flatMap fun arg => "\nwith args - ".toList ++ arg.1.toList ++ ": ".toList ++ arg.2

/-- The backtrace is the one of the error, or the one captured with the first context. -/
theorem Fail.backtrace_ectx (error : Fail) (captured : Backtrace) (place : Text) (contexts : List Text) :
    (error.ectx captured place contexts).backtrace = some (error.backtrace.getD captured) := by
  have hfold : ∀ (error : Fail) (bt : Backtrace) (contexts : List Text), error.backtrace = some bt →
      (contexts.foldl (fun error context => error.context context captured) error).backtrace =
        some bt := by
    intro error bt contexts h
    induction contexts generalizing error with
    | nil => exact h
    | cons context contexts ih =>
      rw [List.foldl_cons]
      apply ih
      rw [Fail.context, Fail.backtrace, h, Option.getD_some]
  exact hfold _ _ contexts rfl

/-- Splitting a text at its line breaks gives its lines back. -/
theorem splitOn_lines (header : Line) (lines : List Line) :
    (header.text ++ continued lines).splitOn '\n' = header.text :: lines.map Line.text := by
  induction lines generalizing header with
  | nil => simpa [continued] using List.splitOn_eq_singleton header.unbroken
  | cons line lines ih =>
    have hstep : header.text ++ continued (line :: lines) =
        header.text ++ '\n' :: (line.text ++ continued lines) := by
      simp [continued]
    rw [hstep, List.splitOn_append_cons_self_of_not_mem header.unbroken, ih, List.map_cons]

end PaymentsNotifications.Failure
