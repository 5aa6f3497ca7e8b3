import TemplateLexer.Proofs.Tokens.Decoding
import TemplateLexer.Proofs.Workspace.Independence

/-!
# The account of a scan

A scan tells what it does while it does it. That a tag was read is told before the last touch to its
name and before its line is finished, which may give it an indent and takes back texts around it.
Still the entries match what the scan gives in the end, one by one (`account_scanWith`).

* `filter_entries`, `filterMap_notes`: the entries of one sort are those of the notes of that sort, and
  these come from the segments in their order;
* `map_unindented_tags`: so do the tags, as finishing a line drops none of them and changes only indents;
* `recorded_of_piece`: what is told of a tag is right for the token that its segment gives.
-/

namespace TemplateLexer

open Bytes Log Outline

/-! ## What is told -/

namespace Log.Entry

/-- Does the entry tell that a tag was read? -/
def isOfTag (e : Entry) : Bool := e.level = .trace && (ascii "Tag ").isPrefixOf e.message

/-- Does the entry tell that a fault was found? Its message starts with a code and an offset. -/
def isOfFault (e : Entry) : Bool :=
  e.level = .debug && [ascii "L001", ascii "L002", ascii "L003", ascii "L004"].any fun code =>
    (code ++ ascii " at offset ").isPrefixOf e.message

end Log.Entry

/-- The name that a tag had when it was read. A raw interpolation had all of its trimmed body, if its
delimiters do not take care of its closing brace. -/
inductive NameRead (withGettext : Bool) (text : Bytes) (t : Token) : Bytes → Prop
  | raw {sigil body name : Bytes} (kind : t.kind = .unescaped)
      (other : t.closeMark ≠ Delimiters.standard.closeMark)
      (slice : TagSlice withGettext text t t.extent.start t.extent.stop sigil body)
      (trimmed : Strips body name) (dropped : t.name = Tag.dropBrace name) :
    NameRead withGettext text t name
  | same (h : t.kind = .unescaped → t.closeMark = Delimiters.standard.closeMark) :
    NameRead withGettext text t t.name

/-- The entry tells of the tag: it shows the token without its indent, and with the name that it had
when it was read. -/
def Recorded (withGettext : Bool) (text : Bytes) (t : Token) (e : Entry) : Prop :=
  ∃ name, NameRead withGettext text t name ∧
    e = ⟨.trace, Note.module, ascii "Tag " ++ { t with indent := none, name }.format⟩

/-- The entries are a faithful account of a scan that gives these tokens and faults. -/
structure Account (withGettext : Bool) (source : Source) (tokens : List Token)
    (faults : List Fault) (entries : List Entry) : Prop where
  /-- There is one entry for each tag, in their order. -/
  ofTags : List.Forall₂ (Recorded withGettext source.text) (tokens.filter Token.isTag)
    (entries.filter Entry.isOfTag)
  /-- There is one entry for each fault, in their order, with the offset where the fault starts. -/
  ofFaults : entries.filter Entry.isOfFault = faults.map fun f =>
    ⟨.debug, Note.module, f.cause.code ++ ascii " at offset " ++ decimal f.extent.start
      ++ ascii ": " ++ f.cause.message⟩
  /-- The span of a fault shows the same offset, as far as it fits into 32 bits. -/
  offsets : ∀ f ∈ faults, (source.span f.extent).first.offset = f.extent.start.toUInt32
  /-- The last entry counts the tokens and the faults. -/
  last : entries.getLast? = some ⟨.debug, Note.module, ascii "Scanned " ++ source.name ++ ascii ": "
    ++ decimal tokens.length ++ ascii " tokens, " ++ decimal faults.length ++ ascii " errors"⟩

/-! ## Notes of one sort -/

namespace Note

/-- The tag that the note is about, if it tells that a tag was read. -/
def tag? : Note → Option Token
  | tagRead t => some t
  | _ => none

/-- The fault that the note is about, if it tells that a fault was found. -/
def fault? : Note → Option Fault
  | faultFound f => some f
  | _ => none

theorem tag?_eq_some_iff {n : Note} {t : Token} : n.tag? = some t ↔ n = .tagRead t := by
  cases n <;> simp [tag?]

theorem fault?_eq_some_iff {n : Note} {f : Fault} : n.fault? = some f ↔ n = .faultFound f := by
  cases n <;> simp [fault?]

/-- The messages of tags start as no others do. -/
theorem isOfTag_entry (n : Note) : n.entry.isOfTag = n.tag?.isSome := by
  cases n with
  | tagRead t =>
    simp [Entry.isOfTag, entry, tag?, level, message]
  | _ => rfl

/-- And so do the messages of faults. -/
theorem isOfFault_entry (n : Note) : n.entry.isOfFault = n.fault?.isSome := by
  cases n with
  | faultFound f =>
    have hcode : f.cause.code ∈ [ascii "L001", ascii "L002", ascii "L003", ascii "L004"] := by
      cases f.cause <;> simp [Cause.code]
    have hp : f.cause.code ++ ascii " at offset " <+: (faultFound f).message := by
      simp only [message, List.append_assoc]
      exact (List.prefix_append_right_inj _).mpr (List.prefix_append _ _)
    simp only [Entry.isOfFault, entry, level, fault?, Option.isSome_some, Bool.and_eq_true,
      decide_eq_true_eq, List.any_eq_true, List.isPrefixOf_iff_prefix, true_and]
    exact ⟨f.cause.code, hcode, hp⟩
  | _ => rfl

end Note

/-- The entries of one sort are those of the notes of that sort. -/
theorem filter_entries {α : Type} {keep : Entry → Bool} {of? : Note → Option α} {note : α → Note}
    (hkeep : ∀ n : Note, keep n.entry = (of? n).isSome) (hof : ∀ n a, of? n = some a → n = note a)
    (notes : List Note) :
    (notes.map Note.entry).filter keep = (notes.filterMap of?).map fun a => (note a).entry := by
  induction notes with
  | nil => rfl
  | cons n rest ih =>
    cases ha : of? n with
    | none => simp [hkeep, ha, ih]
    | some a => simp [hkeep, ha, ih, ← hof n a ha]

namespace Outline

/-- Notes of a sort that no finished line gives come from the segments, but for the first one. -/
theorem filterMap_notes {α : Type} {of? : Note → Option α}
    (hline : ∀ texts, of? (.lineDropped texts) = none) (withGettext : Bool) (text : Bytes)
    (given : Option Bytes) :
    (notes withGettext text given).filterMap of? =
      (startNotes given).filterMap of? ++
        (outline withGettext text given).filterMap fun s => (s.note? withGettext).bind of? := by
  have hnotes : ∀ line : List Segment, (lineNotes withGettext line).filterMap of? =
      line.filterMap fun s => (s.note? withGettext).bind of? := by
    intro line
    rw [lineNotes, List.filterMap_append, List.filterMap_filterMap]
    split <;> simp [hline]
  rw [notes, List.filterMap_append, List.filterMap_flatMap, ← flatMap_lines]
  simp only [hnotes]

theorem filterMap_fault?_notes (withGettext : Bool) (text : Bytes) (given : Option Bytes) :
    (notes withGettext text given).filterMap Note.fault? = faults withGettext text given := by
  have hstart : (startNotes given).filterMap Note.fault? = startFaults given := by
    unfold startNotes startFaults
    split <;> simp_all [Note.fault?]
  have hseg : ∀ s : Segment, (s.note? withGettext).bind Note.fault? = s.fault? := by
    intro s
    unfold Segment.note? Segment.fault?
    cases s.piece with
    | change spec => cases hparse : Delimiters.parse spec <;> simp [hparse, Note.fault?]
    | _ => rfl
  rw [filterMap_notes (fun _ => rfl), hstart, faults]
  simp only [hseg]

/-! ## Tags and their notes -/

/-- The token without its indent. -/
def unindented (t : Token) : Token := { t with indent := none }

/-- Of a standalone line all tags are kept, with indents or without. -/
theorem map_unindented_keepTags (before : Option Bytes) (tokens : List Token) :
    ((Line.keepTags before tokens).filter Token.isTag).map unindented =
      (tokens.filter Token.isTag).map unindented := by
  induction tokens generalizing before with
  | nil => rfl
  | cons t rest ih =>
    have hindent : (Line.withIndent before t).isTag = t.isTag ∧
        unindented (Line.withIndent before t) = unindented t := by
      unfold Line.withIndent
      split
      · split <;> exact ⟨rfl, rfl⟩
      · exact ⟨rfl, rfl⟩
    cases htext : t.isText with
    | true =>
      have htag : t.isTag = false := by simp [Token.isTag, htext]
      simp [Line.keepTags, htext, htag, ih]
    | false =>
      have htag : t.isTag = true := by simp [Token.isTag, htext]
      simp [Line.keepTags, htext, htag, hindent, ih]

/-- Finishing lines changes nothing about the tags but their indents. -/
theorem map_unindented_tags (withGettext : Bool) (text : Bytes) (given : Option Bytes) :
    ((tokens withGettext text given).filter Token.isTag).map unindented =
      (outline withGettext text given).filterMap fun s =>
        ((s.token? withGettext).filter Token.isTag).map unindented := by
  have hline : ∀ line : List Segment,
      ((lineTokens withGettext line).filter Token.isTag).map unindented =
        line.filterMap fun s => ((s.token? withGettext).filter Token.isTag).map unindented := by
    intro line
    rw [← List.map_filterMap, ← List.filter_filterMap]
    unfold lineTokens
    dsimp only
    split
    · rw [keptTags_eq_keepTags, map_unindented_keepTags]
    · rfl
  rw [tokens, List.filter_flatMap, List.map_flatMap, ← flatMap_lines]
  exact List.flatMap_congr fun line _ => hline line

end Outline

theorem Recorded.withIndent {withGettext : Bool} {text : Bytes} {t : Token} {e : Entry}
    (h : Recorded withGettext text t e) (indent : Option Bytes) :
    Recorded withGettext text { t with indent } e := by
  obtain ⟨name, hname, he⟩ := h
  refine ⟨name, ?_, he⟩
  cases hname with
  | raw kind other slice trimmed dropped =>
    exact .raw kind other (slice.withIndent indent) trimmed dropped
  | same h => exact .same h

/-- What is told of a tag is right for the token that its segment gives: only the name of a raw
interpolation has changed since. -/
theorem recorded_of_piece {withGettext : Bool} {text : Bytes} {s : Segment} {t : Token} {kind : Kind}
    {body : Bytes} {closeAt : Nat} (hs : ReadAt withGettext 0 text s)
    (hp : s.piece = .tag kind body closeAt) (ht : s.token? withGettext = some t) :
    Recorded withGettext text t
      (Note.tagRead (Tag.token withGettext s.pair kind s.extent.start closeAt body)).entry := by
  let read := Tag.token withGettext s.pair kind s.extent.start closeAt body
  change Recorded withGettext text t (Note.tagRead read).entry
  have hfinish : t = Tag.finish s.pair kind s.extent.stop read := by
    simpa [Segment.token?, hp, eq_comm] using ht
  by_cases hraw : kind = .unescaped
  · subst hraw
    have hkind : read.kind = .unescaped := by simp [read, Tag.token, Tag.classify]
    by_cases hclose : s.pair.closeMark = Delimiters.standard.closeMark
    · -- the brace is past the close delimiter, and only the extent has changed
      have hextent : t = { read with extent := ⟨read.extent.start, s.extent.stop⟩ } := by
        simp [hfinish, Tag.finish, Tag.absorbsBrace, hclose]
      rw [hextent]
      exact ⟨read.name, .same fun _ => hclose, rfl⟩
    · have hname : read.name = trim body := by
        simp [read, Tag.token, Tag.classify, Tag.nameAndArgs, Kind.acceptsArgs]
      have hdropped : t = { read with name := Tag.dropBrace read.name } := by
        simp [hfinish, Tag.finish, Tag.absorbsBrace, hclose]
      obtain ⟨sigil, hslice⟩ := exists_tagSlice_of_piece hs hp ht
      rw [← extent_of_token? hs ht, hdropped] at hslice
      rw [hdropped]
      refine ⟨read.name, .raw hkind hclose hslice ?_ rfl, rfl⟩
      rw [hname]
      exact strips_trim body
  · have hsame : t = read := by rw [hfinish, finish_eq_self hraw]
    have hkind : t.kind ≠ .unescaped := by
      obtain ⟨hkinds, -⟩ := spells_finish s.pair s.extent.start closeAt s.extent.stop body
        ((Rebuild.cases_of_readAt hs).2 kind body closeAt hp).2 hfinish
      rcases hkinds with h | h
      · rw [h]
        exact hraw
      · rw [h.2]
        decide
    rw [← hsame]
    have hindent : t.indent = none := by rw [hsame]; rfl
    refine ⟨t.name, .same fun h => absurd h hkind, ?_⟩
    rw [← hindent]
    rfl

/-- What a segment gives and what is told of it are a tag and its entry, or neither is anything. -/
theorem rel_recorded {withGettext : Bool} {text : Bytes} {s : Segment}
    (hs : ReadAt withGettext 0 text s) :
    Option.Rel (Recorded withGettext text)
      (((s.token? withGettext).filter Token.isTag).map unindented)
      (((s.note? withGettext).bind Note.tag?).map fun t => (Note.tagRead t).entry) := by
  cases hp : s.piece with
  | tag kind body closeAt =>
    obtain ⟨t, ht⟩ : ∃ t, s.token? withGettext = some t := by
      simp [Segment.token?, hp]
    have htag : t.isTag = true := by
      rw [(Rebuild.token?_eq hs ht).1]
      simp [Segment.isMark, Segment.isRun, Segment.isLineEnd, hp]
    have hnote : s.note? withGettext =
        some (.tagRead (Tag.token withGettext s.pair kind s.extent.start closeAt body)) := by
      simp [Segment.note?, hp]
    rw [ht, hnote]
    simp only [Option.filter_some, htag, if_true, Option.map_some, Option.bind_some, Note.tag?]
    exact .some ((recorded_of_piece hs hp ht).withIndent none)
  | change spec =>
    cases hparse : Delimiters.parse spec <;>
      simp [Segment.token?, Segment.note?, hp, hparse, Note.tag?]
  | run run =>
    simp [Segment.token?, Segment.note?, hp, Segment.textToken, Option.filter_some, Token.isTag,
      Token.isText]
  | lineEnd =>
    simp [Segment.token?, Segment.note?, hp, Segment.textToken, Option.filter_some, Token.isTag,
      Token.isText]
  | openTag => simp [Segment.token?, Segment.note?, hp, Note.tag?]
  | openChange => simp [Segment.token?, Segment.note?, hp, Note.tag?]

theorem forall₂_filterMap_of_rel {α β γ : Type} {R : β → γ → Prop} {f : α → Option β}
    {g : α → Option γ} {list : List α} (h : ∀ a ∈ list, Option.Rel R (f a) (g a)) :
    List.Forall₂ R (list.filterMap f) (list.filterMap g) := by
  have hsame : List.Forall₂ (fun a b => a = b ∧ a ∈ list) list list :=
    List.forall₂_same.mpr fun a ha => ⟨rfl, ha⟩
  refine List.rel_filterMap ?_ hsame
  rintro a b ⟨hab, ha⟩
  rw [← hab]
  exact h a ha

/-- The tags of a template are those that are told of, one by one. -/
theorem forall₂_recorded (withGettext : Bool) (text : Bytes) (given : Option Bytes) :
    List.Forall₂ (Recorded withGettext text) ((tokens withGettext text given).filter Token.isTag)
      (((notes withGettext text given).filterMap Note.tag?).map fun t => (Note.tagRead t).entry) := by
  have hstart : (startNotes given).filterMap Note.tag? = [] := by
    unfold startNotes
    split <;> rfl
  have hread : ∀ s ∈ outline withGettext text given, ReadAt withGettext 0 text s :=
    readAt_of_mem_segments
  have htags := forall₂_filterMap_of_rel fun s hs => rel_recorded (hread s hs)
  rw [← map_unindented_tags] at htags
  rw [filterMap_notes (fun _ => rfl), hstart, List.nil_append, List.map_filterMap]
  exact (List.forall₂_map_left_iff.mp htags).imp fun t e h => h.withIndent t.indent

/-! ## The entries of a scan -/

/-- What a scan has to say is a faithful account of what it gives. -/
theorem account_entries (withGettext : Bool) (source : Source) (given : Option Bytes) :
    Account withGettext source (scan withGettext source given).tokens
      (scan withGettext source given).faults (scan withGettext source given).entries := by
  have hentries : (scan withGettext source given).entries =
      (notes withGettext source.text given).map Note.entry ++
        [(Note.scanned source.name (tokens withGettext source.text given).length
          (faults withGettext source.text given).length).entry] := by
    rw [Outcome.entries, notes_scan, List.map_append, List.map_singleton]
  rw [hentries, tokens_scan, faults_scan]
  refine ⟨?_, ?_, fun _ _ => rfl, List.getLast?_concat⟩
  · rw [List.filter_append, filter_entries Note.isOfTag_entry fun n t => Note.tag?_eq_some_iff.mp]
    -- the summary tells of no tag
    change List.Forall₂ _ _ (_ ++ [])
    rw [List.append_nil]
    exact forall₂_recorded withGettext source.text given
  · rw [List.filter_append,
      filter_entries Note.isOfFault_entry fun n f => Note.fault?_eq_some_iff.mp,
      filterMap_fault?_notes]
    -- nor of a fault
    change _ ++ [] = _
    rw [List.append_nil]
    rfl

namespace Workspace

/-- **The trace is a faithful account of the scan.** Where traces of its module are enabled, a scan
gives entries to the sinks, and among them are: one for each tag of the result, in their order, each
showing the tag without its indent and with the name it had when it was read; one for each fault that
the tokenizer can be asked for, in their order, each with the offset where the fault starts; and at
the end one that counts both. No other entry looks like one of these. -/
theorem account_scanWith (w : Workspace) (t : Tokenizer) (source : Source) (given : Option Bytes)
    (henabled : w.logger.admits .trace Note.module = true) :
    let (outcome, t', w') := w.scanWith t source given
    ∃ entries, Hands w w' entries ∧
      Account t.settings.gettext source outcome.tokens t'.faults entries := by
  have hhands := w.hands_scanWith t source given
  have haccount := account_entries t.settings.gettext source given
  rw [← t.scan_eq source given] at haccount
  have hpass : ∀ e ∈ (t.scan source given).1.entries, w.logger.admits e.level e.module = true := by
    intro e he
    obtain ⟨note, -, hnote⟩ := List.mem_map.mp he
    rw [← hnote]
    exact Logger.admits_of_le note.trace_le_level henabled
  rw [List.filter_eq_self.mpr hpass] at hhands
  exact ⟨_, hhands, haccount⟩

/-- A partial on a line of its own, a raw interpolation with its own brace, and an unfinished tag. -/
def eventfulSource : Source := .ofText (ascii "page") (ascii " [>p]\n[\x7ba \x7d][x")

theorem account_eventfulSource :
    let w := listening .trace
    let (outcome, t, w') := w.scanWith { settings := {} } eventfulSource (some (ascii "[ ]"))
    w.logger.admits .trace Note.module = true ∧
      outcome.tokens.map (fun t => (t.name, t.indent)) =
        [(ascii "p", some (ascii " ")), (ascii "a", none)] ∧
      ((w'.received 0).filter Entry.isOfTag).map (·.message) =
        [ascii "Tag partial \"p\" args=\"\" delims=[ ] @5",
          ascii "Tag unescaped \"a \x7d\" delims=[ ] @12"] ∧
      Account false eventfulSource outcome.tokens t.faults (w'.received 0) := by
  obtain ⟨entries, hhands, haccount⟩ :=
    account_scanWith (listening .trace) { settings := {} } eventfulSource (some (ascii "[ ]")) rfl
  refine ⟨rfl, by decide +kernel, by decide +kernel, ?_⟩
  have hreceived := hhands.received 0 rfl
  have hnone : (listening .trace).received 0 = [] := rfl
  rw [hnone, List.nil_append] at hreceived
  rw [hreceived]
  exact haccount

end Workspace

end TemplateLexer
