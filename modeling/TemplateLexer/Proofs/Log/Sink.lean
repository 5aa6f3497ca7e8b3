import TemplateLexer.Log.Sink

/-!
# What writing does to sinks

Writing a record to a sink and flushing it add at most one delivery, and only for a capture sink
(`Sink.captured_write`, `Sink.captured_flush`). A log file changes with every record it takes, so sinks
are compared by what stays the same (`Sink.fixed`). Both carry over to all sinks of a list
(`captured_eachSink`, `fixed_eachSink`).
-/

namespace TemplateLexer.Log

open Bytes

/-- The number of a capture sink. -/
def Sink.captureId? : Sink → Option Nat
  | .capture id => some id
  | _ => none

/-- A sink without what it keeps back: what stays the same as long as the sink is there. -/
def Sink.fixed : Sink → Sink
  | .file f => .file { f with position := 0, pending := #[] }
  | sink => sink

theorem Sink.captureId?_eq_some_iff {sink : Sink} {id : Nat} :
    sink.captureId? = some id ↔ sink = .capture id := by
  cases sink <;> simp [captureId?]

theorem Sink.captureId?_fixed (sink : Sink) : sink.fixed.captureId? = sink.captureId? := by
  cases sink <;> rfl

theorem LogFile.fixed_drain (f : LogFile) (fs : Files) :
    (Sink.file (f.drain fs).1).fixed = (Sink.file f).fixed := by
  unfold drain
  split <;> rfl

theorem LogFile.fixed_put (f : LogFile) (line : Bytes) (fs : Files) :
    (Sink.file (f.put line fs).1).fixed = (Sink.file f).fixed := by
  unfold put
  dsimp only
  split
  · exact LogFile.fixed_drain _ fs
  · rfl

theorem Sink.fixed_write (sink : Sink) (r : Record) (h : Host) :
    (sink.write r h).1.fixed = sink.fixed := by
  cases sink with
  | console colored format => rfl
  | capture id => rfl
  | file f =>
    unfold write
    dsimp only
    split
    · exact (LogFile.fixed_drain _ _).trans (f.fixed_put _ _)
    · exact f.fixed_put _ _

theorem Sink.fixed_flush (sink : Sink) (h : Host) : (sink.flush h).1.fixed = sink.fixed := by
  cases sink with
  | console colored format => rfl
  | capture id => rfl
  | file f => exact f.fixed_drain _

/-- What keeps each sink keeps the list of sinks. -/
theorem fixed_eachSink {act : Sink → Host → Sink × Host}
    (hact : ∀ sink h, (act sink h).1.fixed = sink.fixed) (sinks : List Sink) (h : Host) :
    (eachSink act sinks h).1.map Sink.fixed = sinks.map Sink.fixed := by
  induction sinks generalizing h with
  | nil => rfl
  | cons sink rest ih =>
    show (act sink h).1.fixed :: (eachSink act rest (act sink h).2).1.map Sink.fixed = _
    rw [hact, ih, List.map_cons]

/-- What adds the same delivery for each capture sink adds one for each of a list. -/
theorem captured_eachSink {act : Sink → Host → Sink × Host} {deliver : Nat → Delivery}
    (hact : ∀ sink h, (act sink h).2.captured.toList =
      h.captured.toList ++ (sink.captureId?.map deliver).toList) (sinks : List Sink) (h : Host) :
    (eachSink act sinks h).2.captured.toList =
      h.captured.toList ++ (sinks.filterMap Sink.captureId?).map deliver := by
  induction sinks generalizing h with
  | nil => exact (List.append_nil _).symm
  | cons sink rest ih =>
    show (eachSink act rest (act sink h).2).2.captured.toList = _
    rw [ih, hact, List.append_assoc]
    cases hid : sink.captureId? <;> simp [hid]

theorem Sink.captured_write (sink : Sink) (r : Record) (h : Host) :
    (sink.write r h).2.captured.toList =
      h.captured.toList ++ (sink.captureId?.map fun id => .record id r.toEntry).toList := by
  cases sink with
  | console colored format => exact (List.append_nil _).symm
  | file f => exact (List.append_nil _).symm
  | capture id => exact Array.toList_push

theorem Sink.captured_flush (sink : Sink) (h : Host) :
    (sink.flush h).2.captured.toList =
      h.captured.toList ++ (sink.captureId?.map Delivery.flush).toList := by
  cases sink with
  | console colored format => exact (List.append_nil _).symm
  | file f => exact (List.append_nil _).symm
  | capture id => exact Array.toList_push

theorem Sink.captured_close (sink : Sink) (h : Host) : (sink.close h).captured = h.captured := by
  cases sink <;> rfl

end TemplateLexer.Log
