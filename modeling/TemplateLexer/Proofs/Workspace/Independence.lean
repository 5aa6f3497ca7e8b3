import TemplateLexer.Proofs.Workspace.Dispatch

/-!
# Scans do not depend on what was before them

A tokenizer keeps the state of its last scan, and a scan is done in a workspace whose logger lets some
notes pass and others not. Neither makes a difference to the result, and nor does the name of the source
(`scan_independent`): a reset puts every part of the state back (`Scan.State.reset_eq`), a scan reads
nothing but the text, and the logger only picks from what the scan has to say (`hands_scanWith`).
-/

namespace TemplateLexer

open Bytes Log

/-- Spans are read off the text alone. -/
theorem Source.span_eq_of_text_eq {s s' : Source} (h : s.text = s'.text) : s.span = s'.span := by
  rcases s with ⟨name, text, lineStarts, hlines⟩
  rcases s' with ⟨name', text', lineStarts', hlines'⟩
  subst hlines hlines'
  dsimp only at h
  subst h
  rfl

/-- No note of a scan lies below the trace. -/
theorem Note.trace_le_level (note : Note) : .trace ≤ note.level := by
  cases note <;> simp [level, Level.le_iff, Level.trace, Level.debug]

/-- A reset leaves nothing of an earlier scan. -/
theorem Scan.State.reset_eq (s : Scan.State) (text : Bytes) : s.reset text = { rest := text } := rfl

namespace Tokenizer

variable (t : Tokenizer) (source : Source) (given : Option Bytes)

/-- A tokenizer scans as a new one does. -/
theorem scan_eq : (t.scan source given).1 = TemplateLexer.scan t.settings.gettext source given := by
  rw [scan, Scan.State.reset_eq]
  rfl

theorem settings_scan : (t.scan source given).2.settings = t.settings := rfl

/-- The faults that can be asked for after a scan are those of the scan. -/
theorem faults_scan : (t.scan source given).2.faults = (t.scan source given).1.faults := rfl

end Tokenizer

namespace Workspace

/-- A scan of the past: the workspace it was done in, the input, and the delimiters given. -/
structure Earlier where
  workspace : Workspace
  input : Input
  given : Option Bytes

/-- A tokenizer after scans, one after the other. -/
def scannedBy (t : Tokenizer) (past : List Earlier) : Tokenizer :=
  past.foldl (fun t e => (e.workspace.scanWith t e.input.resolve e.given).2.1) t

/-- The workspace `w'` is `w` after entries were given to its sinks, one after the other; its capture
sinks have received them. -/
structure Hands (w w' : Workspace) (entries : List Entry) : Prop where
  given : w' = entries.foldl log w
  received : ∀ id, w.captureIds.count id = 1 → w'.received id = w.received id ++ entries

theorem settings_scannedBy (t : Tokenizer) (past : List Earlier) :
    (scannedBy t past).settings = t.settings := by
  induction past generalizing t with
  | nil => rfl
  | cons e rest ih => exact (ih _).trans (t.settings_scan e.input.resolve e.given)

theorem hands_foldl_log (w : Workspace) (entries : List Entry) :
    Hands w (entries.foldl log w) entries where
  given := rfl
  received := fun _ h => w.received_foldl_log h entries

/-- A scan hands on what passes of what it has to say. -/
theorem hands_scanWith (w : Workspace) (t : Tokenizer) (source : Source) (given : Option Bytes) :
    Hands w (w.scanWith t source given).2.2
      ((t.scan source given).1.entries.filter fun e => w.logger.admits e.level e.module) := by
  have htell : (w.scanWith t source given).2.2 = w.tellAll (t.scan source given).1.entries := rfl
  rw [htell, tellAll_eq_foldl_log, passed_eq_filter]
  exact hands_foldl_log w _

/-- **Scans are independent.** Whatever a tokenizer of the same settings has scanned before, whatever
form and name the input has, and in any workspace: for a text and the delimiters given there are one list
of tokens and one list of faults, with one place each, and these are also the faults that the tokenizer
can be asked for afterwards. And there is one list of entries, all of which go to the sinks where even
traces are enabled; elsewhere those go there that pass. Only the last one tells the name of the
source. -/
theorem scan_independent (settings : Settings) (text : Bytes) (given : Option Bytes) :
    ∃ (tokens : List Token) (faults : List Fault) (span : Extent → Span) (entries : List Entry),
      ∀ (past : List Earlier) (input : Input) (w : Workspace), input.resolve.text = text →
        let (outcome, t, w') := w.scanWith (scannedBy { settings } past) input.resolve given
        let all := entries ++
          [(Note.scanned input.resolve.name tokens.length faults.length).entry]
        outcome.tokens = tokens ∧ outcome.faults = faults ∧ t.faults = faults ∧
          input.resolve.span = span ∧
          Hands w w' (all.filter fun e => w.logger.admits e.level e.module) ∧
          ((∀ module, w.logger.admits .trace module = true) → Hands w w' all) := by
  let s := Scan.final settings.gettext text given
  refine ⟨s.settled.toList, s.faults.toList, (Source.ofText [] text).span,
    s.notes.toList.map Note.entry, ?_⟩
  intro past input w htext
  have hscan : ((scannedBy { settings } past).scan input.resolve given).1 =
      s.outcome input.resolve.name := by
    rw [Tokenizer.scan_eq, settings_scannedBy, TemplateLexer.scan, htext]
  have hall : ((scannedBy { settings } past).scan input.resolve given).1.entries =
      s.notes.toList.map Note.entry ++ [(Note.scanned input.resolve.name s.settled.toList.length
        s.faults.toList.length).entry] := by
    rw [hscan, Outcome.entries, Scan.State.outcome]
    simp
  have hhands := w.hands_scanWith (scannedBy { settings } past) input.resolve given
  have htraced : ∀ e ∈ ((scannedBy { settings } past).scan input.resolve given).1.entries,
      .trace ≤ e.level := by
    intro e he
    obtain ⟨note, -, rfl⟩ := List.mem_map.mp he
    exact note.trace_le_level
  rw [hall] at hhands htraced
  have hfaults := congrArg Outcome.faults hscan
  refine ⟨congrArg Outcome.tokens hscan, hfaults, (Tokenizer.faults_scan _ _ _).trans hfaults,
    Source.span_eq_of_text_eq htext, hhands, ?_⟩
  intro henabled
  rwa [List.filter_eq_self.mpr fun e he =>
    Logger.admits_of_le (htraced e he) (henabled e.module)] at hhands

/-- A scan that ended inside a tag, between delimiters that the template had set. -/
def unfinishedPast : List Earlier :=
  [ { workspace := { host := idleHost }
      input := .text (ascii "\x7b\x7b=[ ]=\x7d\x7d[a")
      given := none } ]

/-- A workspace with a level and one capture sink. -/
def listening (level : Level) : Workspace :=
  performAll { host := idleHost } [.setLevel level, .addSink (.capture 0)]

/-- A tag and an unfinished one. -/
def unfinishedTag : Bytes := ascii "\x7b\x7bb\x7d\x7d\x7b\x7bc"

/-- Such a past leaves delimiters and a fault behind. Still the next scan gives what a new tokenizer
gives for the same text under another name, and a logger for debugging hears what a logger for traces
hears of it, less the traces. -/
theorem scan_independent_unfinishedPast :
    let t := scannedBy { settings := {} } unfinishedPast
    let a := (listening .debug).scanWith t (Input.provider unfinishedTag).resolve none
    let b := (listening .trace).scanWith { settings := {} } (Input.text unfinishedTag).resolve none
    t.state.pair ≠ .standard ∧ t.faults ≠ [] ∧
      a.1.tokens = b.1.tokens ∧ a.1.faults = b.1.faults ∧
      ∃ entries : List Entry,
        a.2.2.received 0 =
          (entries ++ [(Note.scanned (ascii "<provider>") 1 1).entry]).filter
            (fun e => .debug ≤ e.level) ∧
        b.2.2.received 0 = entries ++ [(Note.scanned (ascii "<input>") 1 1).entry] := by
  intro t a b
  obtain ⟨tokens, faults, span, entries, hscan⟩ := scan_independent {} unfinishedTag none
  obtain ⟨htokens, hfaults, -, -, hhands, -⟩ :=
    hscan unfinishedPast (.provider unfinishedTag) (listening .debug) rfl
  obtain ⟨htokens', hfaults', -, -, -, hall⟩ :=
    hscan [] (.text unfinishedTag) (listening .trace) rfl
  have htwo : tokens.length = 1 ∧ faults.length = 1 := by
    rw [← htokens', ← hfaults']
    decide +kernel
  rw [htwo.1, htwo.2] at hhands hall
  have hdebug : (fun e : Entry => (listening .debug).logger.admits e.level e.module) =
      fun e => decide (.debug ≤ e.level) :=
    funext fun _ => Bool.and_self _
  refine ⟨by decide +kernel, by decide +kernel, htokens.trans htokens'.symm,
    hfaults.trans hfaults'.symm, entries, ?_, ?_⟩
  · rw [← hdebug]
    exact hhands.received 0 rfl
  · exact (hall fun _ => rfl).received 0 rfl

end Workspace

end TemplateLexer
