import TemplateLexer.Proofs.Workspace.Levels

/-!
# The way of entries to sinks

A *call* is an entry that an operation gives to the sinks: an entry that is logged, or one that is told
and passes the logger at that moment (`calls`). Here the calls of a history are compared with what its
capture sinks received.

* `records_performAll`: the deliveries of a history are its calls, each to every capture sink there is
  at that moment, in the order of the sinks;
* `received_performAll`: a capture sink that is there and stays there receives the calls, each once;
* `dispatches_of_workspace`: from its addition to the next clearing, a capture sink gets every call and
  nothing else. Only starting the logger, adding a sink and clearing the sinks change which sinks there
  are.
-/

namespace TemplateLexer.Workspace

open Bytes Log

/-! ## Operations -/

/-- Does the operation remove the sinks there are? -/
def Operation.clears : Operation → Bool
  | .start _ | .clearSinks => true
  | _ => false

/-- The sink that an operation adds to those there are. -/
def Operation.added? : Operation → Option Sink
  | .addSink sink => some sink
  | _ => none

/-- Does the operation have something to say? -/
def Operation.speaks : Operation → Bool
  | .log _ | .tell _ | .scan _ _ _ => true
  | _ => false

/-- The entries that pass when they are told one after the other. -/
def passed (w : Workspace) : List Entry → List Entry
  | [] => []
  | e :: rest =>
    if w.logger.admits e.level e.module then e :: passed (w.tell e) rest
    else passed (w.tell e) rest

/-- The entries that an operation gives to the sinks. -/
def calls (w : Workspace) : Operation → List Entry
  | .log e => [e]
  | .tell e => w.passed [e]
  | .scan t source given => w.passed (t.scan source given).1.entries
  | _ => []

/-- The entries that a history gives to the sinks. -/
def callsOf (w : Workspace) : List Operation → List Entry
  | [] => []
  | op :: rest => w.calls op ++ callsOf (w.perform op) rest

/-- The numbers of the capture sinks there are, in the order in which they were added. -/
def captureIds (w : Workspace) : List Nat := w.logger.sinks.filterMap Sink.captureId?

/-- The records that capture sinks were given, with their numbers. -/
def records (w : Workspace) : List (Nat × Entry) :=
  w.host.captured.toList.filterMap fun
    | .record id e => some (id, e)
    | .flush _ => none

/-- The records that the capture sink of a number was given. -/
def received (w : Workspace) (id : Nat) : List Entry :=
  (w.records.filter fun p => p.1 = id).map Prod.snd

/-- The records that the calls of a history are for the capture sinks there are at that moment. -/
def recordsOf (w : Workspace) : List Operation → List (Nat × Entry)
  | [] => []
  | op :: rest =>
    (w.calls op).flatMap (fun e => w.captureIds.map fun id => (id, e)) ++
      recordsOf (w.perform op) rest

/-- The record of an entry that is made now. -/
def record (w : Workspace) (e : Entry) : Record :=
  { e with timestamp := w.host.now.epochMillis }

/-- Gives a record to the sink at a place. -/
def writeAt (r : Record) (w : Workspace) (place : Nat) : Workspace :=
  match w.logger.sinks[place]? with
  | none => w
  | some sink =>
    { logger := { w.logger with sinks := w.logger.sinks.set place (sink.write r w.host).1 }
      host := (sink.write r w.host).2 }

variable (w : Workspace)

/-! ## Calls -/

/-- What is told does not change what passes. -/
theorem passed_eq_filter (entries : List Entry) :
    w.passed entries = entries.filter fun e => w.logger.admits e.level e.module := by
  induction entries generalizing w with
  | nil => rfl
  | cons e rest ih =>
    rw [passed, ih, Logger.admits_eq_of_levels_eq (w.levels_tell e), List.filter_cons]

/-- Telling entries is logging those that pass. -/
theorem tellAll_eq_foldl_log (entries : List Entry) :
    w.tellAll entries = (w.passed entries).foldl log w := by
  induction entries generalizing w with
  | nil => rfl
  | cons e rest ih =>
    have hrest := ih (w.tell e)
    show (w.tell e).tellAll rest = _
    rw [passed, hrest]
    cases hpass : w.logger.admits e.level e.module with
    | true =>
      have htell : w.tell e = w.log e := if_pos hpass
      rw [if_pos rfl, List.foldl_cons, htell]
    | false =>
      have htell : w.tell e = w := if_neg (Bool.eq_false_iff.mp hpass)
      rw [if_neg Bool.false_ne_true, htell]

/-- What an operation has to say reaches the sinks as its calls. -/
theorem perform_eq_foldl_log {op : Operation} (h : op.speaks = true) :
    w.perform op = (w.calls op).foldl log w := by
  cases op with
  | log e => rfl
  | tell e => exact w.tellAll_eq_foldl_log [e]
  | scan t source given => exact w.tellAll_eq_foldl_log _
  | _ => cases h

theorem calls_of_not_speaks {op : Operation} (h : op.speaks = false) : w.calls op = [] := by
  cases op with
  | log e => cases h
  | tell e => cases h
  | scan t source given => cases h
  | _ => rfl

/-- A call gives its record to each sink once, in the order of the sinks. -/
theorem log_eq_foldl_writeAt (e : Entry) :
    w.log e = (List.range w.logger.sinks.length).foldl (writeAt (w.record e)) w := by
  -- the sinks before a place have their record, those from there on do not
  have hrest : ∀ (r : Record) (l : Logger) (rest done : List Sink) (h : Host),
      (List.range' done.length rest.length).foldl (writeAt r) ⟨{ l with sinks := done ++ rest }, h⟩ =
        ⟨{ l with sinks := done ++ (eachSink (fun sink h => sink.write r h) rest h).1 },
          (eachSink (fun sink h => sink.write r h) rest h).2⟩ := by
    intro r l rest
    induction rest with
    | nil =>
      intro done h
      rfl
    | cons sink rest ih =>
      intro done h
      have hset : writeAt r ⟨{ l with sinks := done ++ sink :: rest }, h⟩ done.length =
          ⟨{ l with sinks := (done ++ [(sink.write r h).1]) ++ rest }, (sink.write r h).2⟩ := by
        simp [writeAt]
      have hih := ih (done ++ [(sink.write r h).1]) (sink.write r h).2
      rw [List.length_append, List.length_singleton] at hih
      rw [List.length_cons, List.range'_succ, List.foldl_cons, hset, hih, List.append_assoc]
      rfl
  rw [List.range_eq_range']
  exact (hrest (w.record e) w.logger w.logger.sinks [] w.host).symm

/-! ## Which sinks there are -/

section sinks

theorem fixed_log (e : Entry) :
    (w.log e).logger.sinks.map Sink.fixed = w.logger.sinks.map Sink.fixed :=
  fixed_eachSink (fun sink h => sink.fixed_write _ h) _ _

theorem fixed_foldl_log (entries : List Entry) :
    (entries.foldl log w).logger.sinks.map Sink.fixed = w.logger.sinks.map Sink.fixed := by
  induction entries generalizing w with
  | nil => rfl
  | cons e rest ih => exact (ih (w.log e)).trans (w.fixed_log e)

/-- Without a clearing, an operation leaves the sinks there, and may add one after them. -/
theorem fixed_perform {op : Operation} (h : op.clears = false) :
    (w.perform op).logger.sinks.map Sink.fixed =
      (w.logger.sinks ++ op.added?.toList).map Sink.fixed := by
  have hsame : w.logger.sinks.map Sink.fixed =
      (w.logger.sinks ++ (none : Option Sink).toList).map Sink.fixed :=
    congrArg _ (List.append_nil _).symm
  cases op with
  | start c => cases h
  | clearSinks => cases h
  | addSink sink => rfl
  | setLevel level => exact hsame
  | setFilter spec => exact hsame
  | flush => exact (fixed_eachSink (fun sink h => sink.fixed_flush h) _ _).trans hsame
  | log e => exact (w.fixed_log e).trans hsame
  | tell e =>
    rw [w.perform_eq_foldl_log rfl]
    exact (w.fixed_foldl_log _).trans hsame
  | scan t source given =>
    rw [w.perform_eq_foldl_log rfl]
    exact (w.fixed_foldl_log _).trans hsame

theorem captureIds_eq_of_fixed {w : Workspace} {sinks : List Sink}
    (h : w.logger.sinks.map Sink.fixed = sinks.map Sink.fixed) :
    w.captureIds = sinks.filterMap Sink.captureId? := by
  have hfixed : ∀ sinks : List Sink,
      (sinks.map Sink.fixed).filterMap Sink.captureId? = sinks.filterMap Sink.captureId? := by
    intro sinks
    rw [List.filterMap_map]
    exact congrFun (congrArg _ (funext Sink.captureId?_fixed)) sinks
  rw [captureIds, ← hfixed, h, hfixed]

theorem captureIds_foldl_log (entries : List Entry) :
    (entries.foldl log w).captureIds = w.captureIds :=
  captureIds_eq_of_fixed (w.fixed_foldl_log entries)

theorem captureIds_perform {op : Operation} (h : op.clears = false) :
    (w.perform op).captureIds = w.captureIds ++ (op.added?.bind Sink.captureId?).toList := by
  rw [captureIds_eq_of_fixed (w.fixed_perform h), List.filterMap_append, captureIds]
  cases op.added? with
  | none => rfl
  | some sink => cases hid : sink.captureId? <;> simp [hid]

/-- A started logger has no capture sinks. -/
theorem captureIds_start (c : Config) : (w.start c).captureIds = [] := by
  obtain ⟨sinks, host, heq, hids, -⟩ := w.exists_start_eq c
  rw [captureIds, heq]
  exact hids

theorem captureIds_of_clears {op : Operation} (h : op.clears = true) :
    (w.perform op).captureIds = [] := by
  cases op with
  | start c => exact w.captureIds_start c
  | clearSinks => rfl
  | _ => cases h

end sinks

/-! ## What capture sinks receive -/

section records

theorem records_log (e : Entry) :
    (w.log e).records = w.records ++ w.captureIds.map fun id => (id, e) := by
  have hcaptured : (w.log e).host.captured.toList =
      w.host.captured.toList ++ w.captureIds.map fun id => .record id e :=
    captured_eachSink (fun sink h => sink.captured_write _ h) _ _
  rw [records, hcaptured, List.filterMap_append, List.filterMap_map]
  exact congrArg (w.records ++ ·) (congrFun List.filterMap_eq_map w.captureIds)

theorem records_foldl_log (entries : List Entry) :
    (entries.foldl log w).records =
      w.records ++ entries.flatMap fun e => w.captureIds.map fun id => (id, e) := by
  induction entries generalizing w with
  | nil => exact (List.append_nil _).symm
  | cons e rest ih =>
    have hids : (w.log e).captureIds = w.captureIds := w.captureIds_foldl_log [e]
    rw [List.foldl_cons, ih, hids, records_log, List.append_assoc, List.flatMap_cons]

theorem records_eq_of_captured {w w' : Workspace} (h : w'.host.captured = w.host.captured) :
    w'.records = w.records := by
  rw [records, h, records]

theorem captured_start (c : Config) : (w.start c).host.captured = w.host.captured := by
  obtain ⟨sinks, host, heq, -, hcaptured⟩ := w.exists_start_eq c
  rw [heq]
  exact hcaptured

theorem records_flush : w.flush.records = w.records := by
  have hcaptured : w.flush.host.captured.toList =
      w.host.captured.toList ++ w.captureIds.map Delivery.flush :=
    captured_eachSink (fun sink h => sink.captured_flush h) _ _
  rw [records, hcaptured, List.filterMap_append, List.filterMap_map]
  simp [records]

theorem records_perform_of_not_speaks {op : Operation} (h : op.speaks = false) :
    (w.perform op).records = w.records := by
  cases op with
  | start c => exact records_eq_of_captured (w.captured_start c)
  | clearSinks => exact records_eq_of_captured w.captured_clearSinks
  | flush => exact w.records_flush
  | log e => cases h
  | tell e => cases h
  | scan t source given => cases h
  | _ => rfl

/-- An operation gives each of its calls to every capture sink there is, and nothing else. -/
theorem records_perform (op : Operation) :
    (w.perform op).records =
      w.records ++ (w.calls op).flatMap fun e => w.captureIds.map fun id => (id, e) := by
  cases hspeaks : op.speaks with
  | true =>
    rw [w.perform_eq_foldl_log hspeaks]
    exact w.records_foldl_log _
  | false =>
    rw [w.calls_of_not_speaks hspeaks, w.records_perform_of_not_speaks hspeaks]
    exact (List.append_nil _).symm

theorem records_performAll (history : List Operation) :
    (w.performAll history).records = w.records ++ w.recordsOf history := by
  induction history generalizing w with
  | nil => exact (List.append_nil _).symm
  | cons op rest ih =>
    show ((w.perform op).performAll rest).records = _
    rw [ih, records_perform, List.append_assoc, recordsOf]

end records

/-! ## What one capture sink receives -/

section received

variable {id : Nat}

theorem Operation.not_mem_added {op : Operation} (h : op.added? ≠ some (.capture id)) :
    id ∉ (op.added?.bind Sink.captureId?).toList := by
  intro hmem
  obtain ⟨sink, hsink, hid⟩ := Option.bind_eq_some_iff.mp (Option.mem_toList.mp hmem)
  rw [Sink.captureId?_eq_some_iff.mp hid] at hsink
  exact h hsink

/-- What goes to all capture sinks, a sink receives as often as it is there. -/
theorem received_of_records {w w' : Workspace} {entries : List Entry} (id : Nat)
    (h : w'.records = w.records ++ entries.flatMap fun e => w.captureIds.map fun i => (i, e)) :
    w'.received id =
      w.received id ++ entries.flatMap fun e => List.replicate (w.captureIds.count id) e := by
  have hone : ∀ (ids : List Nat) (e : Entry),
      ((ids.map fun i => (i, e)).filter fun p => p.1 = id).map Prod.snd =
        List.replicate (ids.count id) e := by
    intro ids e
    induction ids with
    | nil => rfl
    | cons i rest ih =>
      by_cases hi : i = id
      · simpa [hi, List.replicate_succ] using ih
      · simpa [hi] using ih
  have hall : ((entries.flatMap fun e => w.captureIds.map fun i => (i, e)).filter
        fun p => p.1 = id).map Prod.snd =
      entries.flatMap fun e => List.replicate (w.captureIds.count id) e := by
    clear h
    induction entries with
    | nil => rfl
    | cons e rest ih =>
      rw [List.flatMap_cons, List.flatMap_cons, List.filter_append, List.map_append, hone, ih]
  rw [received, h, List.filter_append, List.map_append, hall, received]

theorem received_perform (id : Nat) (op : Operation) :
    (w.perform op).received id =
      w.received id ++
        (w.calls op).flatMap fun e => List.replicate (w.captureIds.count id) e :=
  received_of_records id (w.records_perform op)

/-- A sink that is there once receives what is logged. -/
theorem received_foldl_log (h : w.captureIds.count id = 1) (entries : List Entry) :
    (entries.foldl log w).received id = w.received id ++ entries := by
  rw [received_of_records id (w.records_foldl_log entries), h]
  simp

theorem received_perform_of_not_mem {op : Operation} (h : id ∉ w.captureIds) :
    (w.perform op).received id = w.received id := by
  rw [received_perform, List.count_eq_zero.mpr h]
  simp

theorem not_mem_captureIds_perform {op : Operation} (h : id ∉ w.captureIds)
    (hop : op.added? ≠ some (.capture id)) : id ∉ (w.perform op).captureIds := by
  cases hclears : op.clears with
  | true =>
    rw [w.captureIds_of_clears hclears]
    exact List.not_mem_nil
  | false =>
    rw [w.captureIds_perform hclears]
    intro hmem
    rcases List.mem_append.mp hmem with hold | hnew
    · exact h hold
    · exact Operation.not_mem_added hop hnew

/-- A sink that is not there, and is not added, receives nothing. -/
theorem received_of_absent {history : List Operation} (h : id ∉ w.captureIds)
    (hadd : ∀ op ∈ history, op.added? ≠ some (.capture id)) :
    (w.performAll history).received id = w.received id ∧
      id ∉ (w.performAll history).captureIds := by
  induction history generalizing w with
  | nil => exact ⟨rfl, h⟩
  | cons op rest ih =>
    obtain ⟨hop, hrest⟩ := List.forall_mem_cons.mp hadd
    obtain ⟨hreceived, habsent⟩ := ih (w.perform op) (w.not_mem_captureIds_perform h hop) hrest
    exact ⟨hreceived.trans (w.received_perform_of_not_mem h), habsent⟩

/-- From a clearing on, no sink from before receives anything. -/
theorem received_of_cleared {after : List Operation}
    (hclears : ∀ op ∈ after.head?, op.clears = true)
    (hadd : ∀ op ∈ after, op.added? ≠ some (.capture id)) :
    (w.performAll after).received id = w.received id := by
  cases after with
  | nil => rfl
  | cons op rest =>
    have hclear : op.clears = true := hclears op rfl
    have hgone : id ∉ (w.perform op).captureIds := by
      rw [w.captureIds_of_clears hclear]
      exact List.not_mem_nil
    have hsilent : op.speaks = false := by
      cases op with
      | start c => rfl
      | clearSinks => rfl
      | _ => cases hclear
    show ((w.perform op).performAll rest).received id = _
    rw [(received_of_absent _ hgone (List.forall_mem_cons.mp hadd).2).1, received, received,
      w.records_perform_of_not_speaks hsilent]

/-- **A sink that stays there receives the calls**, all of them, each once and in their order. -/
theorem received_performAll {history : List Operation} (h : w.captureIds.count id = 1)
    (hclears : ∀ op ∈ history, op.clears = false)
    (hadd : ∀ op ∈ history, op.added? ≠ some (.capture id)) :
    (w.performAll history).received id = w.received id ++ w.callsOf history := by
  induction history generalizing w with
  | nil => exact (List.append_nil _).symm
  | cons op rest ih =>
    obtain ⟨hclear, hclears⟩ := List.forall_mem_cons.mp hclears
    obtain ⟨hop, hadd⟩ := List.forall_mem_cons.mp hadd
    -- what the operation adds is another sink
    have hcount : (w.perform op).captureIds.count id = 1 := by
      rw [w.captureIds_perform hclear, List.count_append, h,
        List.count_eq_zero.mpr (Operation.not_mem_added hop)]
    show ((w.perform op).performAll rest).received id = _
    rw [ih (w.perform op) hcount hclears hadd, received_perform, h, List.append_assoc, callsOf]
    simp

end received

/-! ## The dispatch of a history -/

/-- How entries reach sinks from here on. Capture sinks are told apart by numbers, so a sink is followed
as long as no other one is added under its number. -/
structure Dispatches (w : Workspace) : Prop where
  /-- What an operation has to say goes out as its calls. -/
  speaks : ∀ op, op.speaks = true → w.perform op = (w.calls op).foldl log w
  /-- A call gives its record to each sink there is, once, in the order of the sinks. -/
  inTurn : ∀ e, w.log e =
    (List.range w.logger.sinks.length).foldl (writeAt (w.record e)) w
  /-- The deliveries to capture sinks are the calls, in order, each to the sinks there are. -/
  records : ∀ history, (w.performAll history).records = w.records ++ w.recordsOf history
  /-- From its addition to the next clearing, a capture sink receives the calls, and no others. -/
  window : ∀ before during after id, id ∉ w.captureIds →
    (∀ op ∈ before ++ (during ++ after), op.added? ≠ some (.capture id)) →
    (∀ op ∈ during, op.clears = false) → (∀ op ∈ after.head?, op.clears = true) →
    (w.performAll (before ++ .addSink (.capture id) :: (during ++ after))).received id =
      w.received id ++ (w.performAll (before ++ [.addSink (.capture id)])).callsOf during
  /-- Capture sinks that are there together receive the same. -/
  together : ∀ history i j, w.captureIds.count i = 1 → w.captureIds.count j = 1 →
    (∀ op ∈ history, op.clears = false) →
    (∀ op ∈ history, op.added? ≠ some (.capture i) ∧ op.added? ≠ some (.capture j)) →
    ∃ entries, (w.performAll history).received i = w.received i ++ entries ∧
      (w.performAll history).received j = w.received j ++ entries
  /-- A sink is added after those there are. -/
  added : ∀ sink, (w.addSink sink).logger.sinks = w.logger.sinks ++ [sink]
  /-- No other operation than these changes which sinks there are. -/
  kept : ∀ op, op.clears = false → op.added? = none →
    (w.perform op).logger.sinks.map Sink.fixed = w.logger.sinks.map Sink.fixed

theorem performAll_append (before after : List Operation) :
    w.performAll (before ++ after) = (w.performAll before).performAll after :=
  List.foldl_append

/-- **Entries are neither lost, doubled nor put out of order** on their way to the sinks. -/
theorem dispatches_of_workspace : Dispatches w where
  speaks := fun _ h => w.perform_eq_foldl_log h
  inTurn := w.log_eq_foldl_writeAt
  records := w.records_performAll
  window := by
    intro before during after id hid hadd hclears hafter
    obtain ⟨hbefore, hrest⟩ := List.forall_mem_append.mp hadd
    obtain ⟨hduring, hlater⟩ := List.forall_mem_append.mp hrest
    obtain ⟨hearlier, habsent⟩ := w.received_of_absent hid hbefore
    -- the sink is there once, and has received nothing yet
    have hthere : (w.performAll (before ++ [.addSink (.capture id)])).captureIds.count id = 1 := by
      rw [performAll_concat, captureIds_perform _ rfl, List.count_append,
        List.count_eq_zero.mpr habsent]
      simp [Operation.added?, Sink.captureId?]
    have hnothing : (w.performAll (before ++ [.addSink (.capture id)])).received id =
        w.received id := by
      rw [performAll_concat, received_perform_of_not_mem _ habsent, hearlier]
    have hcalls := received_performAll _ hthere hclears hduring
    rw [hnothing] at hcalls
    rw [← hcalls, List.append_cons, performAll_append, performAll_append]
    exact received_of_cleared _ hafter hlater
  together := by
    intro history i j hi hj hclears hadd
    refine ⟨w.callsOf history, ?_, ?_⟩
    · exact w.received_performAll hi hclears fun op hop => (hadd op hop).1
    · exact w.received_performAll hj hclears fun op hop => (hadd op hop).2
  added := fun _ => rfl
  kept := by
    intro op hclears hadd
    rw [w.fixed_perform hclears, hadd]
    simp

/-- A history with two capture sinks. While both are there, entries are told under two levels, one is
logged, and a template is scanned. -/
def mixedHistory : List Operation × List Operation × List Operation :=
  ( [.addSink (.capture 0), .setFilter (ascii "lexer=debug,*=warn")],
    [ .tell ⟨.info, ascii "cli", ascii "a"⟩,
      .tell ⟨.warn, ascii "cli", ascii "b"⟩,
      .scan { settings := {} } (Source.ofText (ascii "t") (ascii "\x7b\x7bc\x7d\x7d")) none,
      .flush,
      .setLevel .error,
      .tell ⟨.warn, ascii "cli", ascii "d"⟩,
      .log ⟨.trace, ascii "cli", ascii "e"⟩ ],
    [.clearSinks, .log ⟨.fatal, ascii "cli", ascii "f"⟩] )

/-- The second sink receives the warning, the summary of the scan without its trace, and the entry that
is logged, and nothing once it is cleared away. -/
theorem dispatches_mixedHistory :
    let (before, during, after) := mixedHistory
    let history := before ++ .addSink (.capture 1) :: (during ++ after)
    (performAll { host := idleHost } history).received 1 =
      [ ⟨.warn, ascii "cli", ascii "b"⟩,
        ⟨.debug, ascii "lexer", ascii "Scanned t: 1 tokens, 0 errors"⟩,
        ⟨.trace, ascii "cli", ascii "e"⟩ ] := by
  have hwindow := (dispatches_of_workspace { host := idleHost }).window mixedHistory.1
    mixedHistory.2.1 mixedHistory.2.2 1 (by decide) (by decide) (by decide) (by decide)
  refine hwindow.trans ?_
  decide +kernel

end TemplateLexer.Workspace
