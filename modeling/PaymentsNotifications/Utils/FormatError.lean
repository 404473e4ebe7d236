import Mathlib.Data.List.Infix
import PaymentsNotifications.Failure

/-! `format_error` (`utils.rs`): the messages of the cause chain, root first, and the
part of the backtrace that belongs to the service. -/

namespace PaymentsNotifications.Utils
open Failure

/-- `slice::chunks(2)`. -/
def chunks {α : Type} : List α → List (α × Option α)
  | [] => []
  | [a] => [(a, none)]
  | a :: b :: rest => (a, some b) :: chunks rest

/-- `str::contains`. -/
def contains (line pattern : Text) : Bool := decide (pattern <:+: line)

/-- The crate name the lines of the backtrace are searched for. -/
def searched : Text := "transactions_lib".toList

def heading : Text := "\nRelevant backtrace:\n".toList

/-- What is printed of two lines of the backtrace. -/
def chunkText (chunk : Text × Option Text) : Text :=
  if contains chunk.1 searched then
    chunk.1 ++ ['\n'] ++
      match chunk.2 with
      | some line2 => line2 ++ ['\n']
      | none => []
  else []

def backtraceText (bt : Text) : Text :=
  let lines := (bt.splitOn '\n').drop 1
  (if lines.isEmpty then heading else []) ++ (chunks lines).flatMap chunkText

def messagesText (error : Fail) : Text :=
  error.chain.reverse.flatMap fun err => err.message ++ ['\n']

def formatError (error : Fail) : Text :=
  messagesText error ++
    match error.backtrace with
    | some bt => backtraceText bt.display
    | none => []

/-- The text `log_error` and `log_warn` give to the logger. -/
def logText (error : Fail) : Text := '\n' :: formatError error

/-! ## What the text should be -/

/-- The messages from the root cause to the error itself. -/
def rootFirst : Fail → List Text
  | .root message _ => [message]
  | .because message _ cause => rootFirst cause ++ [message]

/-- The name of this crate. -/
def crateName : Text := "payments_notifications_lib".toList

def Relevant (frame : Frame) : Bool := contains frame.symbol.text crateName

def frameText (frame : Frame) : Text := frame.lines.flatMap fun line => line.text ++ ['\n']

/-- The frames of this crate under a heading, or nothing. -/
def relevantText (frames : List Frame) : Text :=
  if frames.any Relevant then heading ++ (frames.filter Relevant).flatMap frameText else []

def Backtrace.report : Backtrace → Text
  | .empty => []
  | .captured _ frames => relevantText frames

def report (error : Fail) : Text :=
  ((rootFirst error).flatMap fun message => message ++ ['\n']) ++
    match error.backtrace with
    | some bt => Backtrace.report bt
    | none => []

/-- A backtrace with frames, none of this crate, and no line that is first of its
pair and names the other crate. -/
def Unremarkable : Backtrace → Prop
  | .empty => False
  | .captured _ frames =>
    frames ≠ [] ∧ (∀ frame ∈ frames, Relevant frame = false) ∧
      ∀ i line, ((frames.flatMap Frame.lines).map Line.text)[2 * i]? = some line →
        contains line searched = false

theorem messagesText_eq (error : Fail) :
    messagesText error = (rootFirst error).flatMap fun message => message ++ ['\n'] := by
  rw [messagesText]
  induction error with
  | root message backtrace => rfl
  | because message backtrace cause ih =>
    simp only [Fail.chain, List.reverse_cons, List.flatMap_append, ih, rootFirst]
    rfl

/-- The messages of an error under `ectx!`, root first. -/
theorem rootFirst_ectx (error : Fail) (captured : Backtrace) (place : Text) (contexts : List Text) :
    rootFirst (error.ectx captured place contexts) = rootFirst error ++ place :: contexts := by
  have hfold : ∀ (error : Fail) (contexts : List Text),
      rootFirst (contexts.foldl (fun error context => error.context context captured) error) =
        rootFirst error ++ contexts := by
    intro error contexts
    induction contexts generalizing error with
    | nil => simp
    | cons context contexts ih =>
      rw [List.foldl_cons, ih, Fail.context, rootFirst]
      simp
  rw [Fail.ectx, hfold, Fail.context, rootFirst]
  simp

/-! ## The pairs of lines -/

theorem chunkText_eq_nil {chunk : Text × Option Text} :
    chunkText chunk = [] ↔ contains chunk.1 searched = false := by
  unfold chunkText
  cases contains chunk.1 searched with
  | true => simp
  | false => simp

/-- Nothing is printed of lines none of which, at an even place, names the crate. -/
theorem chunks_text_eq_nil {lines : List Text} :
    (chunks lines).flatMap chunkText = [] ↔
      ∀ i line, lines[2 * i]? = some line → contains line searched = false := by
  induction lines using chunks.induct with
  | case1 => simp [chunks]
  | case2 a =>
    simp only [chunks, List.flatMap_cons, List.flatMap_nil, List.append_nil, chunkText_eq_nil]
    constructor
    · intro ha i line hline
      cases i with
      | zero =>
        obtain rfl : a = line := by simpa using hline
        exact ha
      | succ i => simp [Nat.mul_add] at hline
    · intro h
      exact h 0 a rfl
  | case3 a b rest ih =>
    simp only [chunks, List.flatMap_cons, List.append_eq_nil_iff, chunkText_eq_nil, ih]
    constructor
    · rintro ⟨ha, hrest⟩ i line hline
      cases i with
      | zero =>
        obtain rfl : a = line := by simpa using hline
        exact ha
      | succ i => exact hrest i line (by simpa [Nat.mul_add] using hline)
    · intro h
      exact ⟨h 0 a rfl, fun i line hline => h (i + 1) line (by simpa [Nat.mul_add] using hline)⟩

theorem not_contains_nil : contains [] searched = false := by decide

theorem chunkText_head {a : Text} {b : Option Text} (hbreak : '\n' ∉ a) :
    (chunkText (a, b)).head? ≠ some '\n' := by
  cases hc : contains a searched with
  | false =>
    rw [chunkText_eq_nil.mpr hc]
    simp
  | true =>
    cases a with
    | nil => exact Bool.noConfusion (hc.symm.trans not_contains_nil)
    | cons c a =>
      intro hhead
      rw [chunkText, if_pos hc] at hhead
      obtain rfl : c = '\n' := by simpa using hhead
      simp at hbreak

/-- What is printed of the pairs does not begin with a line break. -/
theorem chunks_text_head {lines : List Text} (h : ∀ line ∈ lines, '\n' ∉ line) :
    ((chunks lines).flatMap chunkText).head? ≠ some '\n' := by
  induction lines using chunks.induct with
  | case1 => simp [chunks]
  | case2 a =>
    rw [chunks, List.flatMap_singleton]
    exact chunkText_head (h a (by simp))
  | case3 a b rest ih =>
    have hfirst : (chunkText (a, some b)).head? ≠ some '\n' := chunkText_head (h a (by simp))
    rw [chunks, List.flatMap_cons, List.head?_append]
    cases hhead : (chunkText (a, some b)).head? with
    | none => exact ih fun line hline => h line (by simp [hline])
    | some c =>
      rw [hhead] at hfirst
      exact hfirst

/-! ## The backtrace -/

theorem heading_head : heading = '\n' :: heading.tail := by decide

/-- The lines of a backtrace are the lines of its frames, the header is skipped. -/
theorem backtraceText_captured (header : Line) (frames : List Frame) :
    backtraceText (Backtrace.captured header frames).display =
      (if frames = [] then heading else []) ++
        (chunks ((frames.flatMap Frame.lines).map Line.text)).flatMap chunkText := by
  have hlines : ((Backtrace.captured header frames).display.splitOn '\n').drop 1 =
      (frames.flatMap Frame.lines).map Line.text := by
    rw [Backtrace.display, splitOn_lines, List.drop_one, List.tail_cons]
  have hempty : ((frames.flatMap Frame.lines).map Line.text).isEmpty = true ↔ frames = [] := by
    cases frames with
    | nil => simp
    | cons frame frames => simp [Frame.lines]
  simp only [backtraceText, hlines, hempty]

theorem backtraceText_iff (bt : Backtrace) :
    backtraceText bt.display = Backtrace.report bt ↔ Unremarkable bt := by
  cases bt with
  | empty =>
    have hne : backtraceText Backtrace.empty.display ≠ [] := by decide
    simpa [Backtrace.report, Unremarkable] using hne
  | captured header frames =>
    rw [backtraceText_captured]
    simp only [Backtrace.report, relevantText, Unremarkable]
    by_cases hframes : frames = []
    · subst hframes
      rw [heading_head]
      simp
    · rw [if_neg hframes, List.nil_append]
      cases hany : frames.any Relevant with
      | true =>
        -- the heading would be needed, and the text cannot begin like it
        have hunbroken : ∀ line ∈ (frames.flatMap Frame.lines).map Line.text, '\n' ∉ line := by
          intro line hline
          obtain ⟨l, -, rfl⟩ := List.mem_map.mp hline
          exact l.unbroken
        have hhead := chunks_text_head hunbroken
        obtain ⟨frame, hmem, hrel⟩ := List.any_eq_true.mp hany
        constructor
        · intro heq
          rw [heq, heading_head] at hhead
          simp at hhead
        · rintro ⟨-, hnone, -⟩
          exact Bool.noConfusion (hrel.symm.trans (hnone frame hmem))
      | false =>
        rw [List.any_eq_false] at hany
        simp only [Bool.false_eq_true, if_false, chunks_text_eq_nil]
        constructor
        · intro heven
          exact ⟨hframes, fun frame hmem => by simpa using hany frame hmem, heven⟩
        · rintro ⟨-, -, heven⟩
          exact heven

/-- **When `format_error` reports the error and its frames.** -/
theorem formatError_eq_report_iff (error : Fail) :
    formatError error = report error ↔ ∀ bt, error.backtrace = some bt → Unremarkable bt := by
  rw [formatError, report, messagesText_eq, List.append_right_inj]
  cases error.backtrace with
  | none => simp
  | some bt => simpa using backtraceText_iff bt

/-- A frame of the service, captured when the broker cannot be reached. -/
def serviceFrame : Frame where
  symbol := ⟨"   5: payments_notifications_lib::start_server".toList, by decide⟩
  location := some ⟨"             at src/lib.rs:97".toList, by decide⟩

/-- The frame is left out, and the heading with it. -/
theorem service_frame_missing :
    formatError (.root "rabbit error".toList
        (some (.captured ⟨"stack backtrace:".toList, by decide⟩ [serviceFrame]))) ≠
      report (.root "rabbit error".toList
        (some (.captured ⟨"stack backtrace:".toList, by decide⟩ [serviceFrame]))) := by
  decide +kernel

end PaymentsNotifications.Utils
