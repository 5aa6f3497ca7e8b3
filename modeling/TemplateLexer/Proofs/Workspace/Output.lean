import TemplateLexer.Proofs.Workspace.Levels

/-!
# What logging leaves alone

Logging goes to the standard error stream, to log files and to capture sinks. It writes nothing to the
standard output stream (`Workspace.stdout_tell`), and it makes no file that was not there: after a start of
the logger every log file exists (`Workspace.backed_start`), and writing to a file that exists leaves the
same paths readable and the same folders there (`Workspace.samePaths_tell`).
-/

namespace TemplateLexer

open Bytes Log

namespace Files

/-- A file that is written has the new content, and the others stay. -/
theorem read?_write (fs : Files) (path : Path) (content : Bytes) (other : Path) :
    (fs.write path content).read? other = if other = path then some content else fs.read? other := by
  have hfilter : ∀ entries : List (Path × Bytes), other ≠ path →
      (entries.filter fun e => e.1 ≠ path).lookup other = entries.lookup other := by
    intro entries hne
    induction entries with
    | nil => rfl
    | cons e rest ih =>
      obtain ⟨name, text⟩ := e
      by_cases he : name = path
      · have hother : (other == name) = false := beq_eq_false_iff_ne.mpr (he ▸ hne)
        rw [List.filter_cons_of_neg (by simp [he]), ih, List.lookup_cons, hother]
      · rw [List.filter_cons_of_pos (by simp [he]), List.lookup_cons, List.lookup_cons, ih]
  unfold read? write
  rw [List.lookup_cons]
  split
  · next heq => rw [if_pos (beq_iff_eq.mp heq)]
  · next heq =>
    rw [if_neg (beq_eq_false_iff_ne.mp heq)]
    exact hfilter fs.contents (beq_eq_false_iff_ne.mp heq)

/-- The content of a file is what is read when it is opened. -/
theorem open?_of_load? {fs : Files} {name text : Bytes} (h : fs.load? name = some text) :
    fs.open? name = some text := by
  rw [open?, h, Option.some_or]

/-- A text that names no folder is opened if it names a file. -/
theorem open?_eq_load? {fs : Files} {name : Bytes} (h : fs.namesFolder name = false) :
    fs.open? name = fs.load? name := by
  rw [open?, h, if_neg Bool.false_ne_true, Option.or_none]

/-- The same paths can be read, and the same folders are there. -/
structure SamePaths (fs fs' : Files) : Prop where
  isSome_read? : ∀ path, (fs'.read? path).isSome = (fs.read? path).isSome
  hasFolder : fs'.hasFolder = fs.hasFolder

theorem SamePaths.refl (fs : Files) : SamePaths fs fs := ⟨fun _ => rfl, rfl⟩

theorem SamePaths.trans {fs fs' fs'' : Files} (h : SamePaths fs fs') (h' : SamePaths fs' fs'') :
    SamePaths fs fs'' :=
  ⟨fun path => (h'.isSome_read? path).trans (h.isSome_read? path), h'.hasFolder.trans h.hasFolder⟩

/-- Writing to a file that is there adds no path. -/
theorem samePaths_write {fs : Files} {path : Path} (h : (fs.read? path).isSome = true)
    (content : Bytes) : SamePaths fs (fs.write path content) := by
  refine ⟨fun other => ?_, rfl⟩
  rw [read?_write]
  split
  · next heq => rw [heq, h, Option.isSome_some]
  · rfl

/-- Then the same names can be loaded. -/
theorem SamePaths.isSome_load? {fs fs' : Files} (h : SamePaths fs fs') (name : Bytes) :
    (fs'.load? name).isSome = (fs.load? name).isSome := by
  unfold load?
  cases Path.parse? name with
  | none => rfl
  | some path => exact h.isSome_read? path

/-- And the same names are those of folders. -/
theorem SamePaths.namesFolder_eq {fs fs' : Files} (h : SamePaths fs fs') (name : Bytes) :
    fs'.namesFolder name = fs.namesFolder name := by
  rw [namesFolder, namesFolder, h.hasFolder]

end Files

namespace Log

open Files

/-! ## Sinks -/

/-- The file that a sink writes to is there. -/
def Sink.Backed (sink : Sink) (fs : Files) : Prop :=
  ∀ f, sink = .file f → (fs.read? f.path).isSome = true

theorem Sink.Backed.of_samePaths {sink : Sink} {fs fs' : Files} (h : sink.Backed fs)
    (hsame : SamePaths fs fs') : sink.Backed fs' :=
  fun f hf => (hsame.isSome_read? f.path).trans (h f hf)

theorem LogFile.path_put (f : LogFile) (line : Bytes) (fs : Files) :
    (f.put line fs).1.path = f.path := by
  unfold put drain
  dsimp only
  split
  · split <;> rfl
  · rfl

theorem LogFile.samePaths_drain {f : LogFile} {fs : Files} (h : (fs.read? f.path).isSome = true) :
    SamePaths fs (f.drain fs).2 := by
  unfold drain
  split
  · exact .refl fs
  · exact samePaths_write h _

theorem LogFile.samePaths_put {f : LogFile} {fs : Files} (h : (fs.read? f.path).isSome = true)
    (line : Bytes) : SamePaths fs (f.put line fs).2 := by
  unfold put
  dsimp only
  split
  · exact LogFile.samePaths_drain (f := { f with pending := f.pending ++ line }) h
  · exact .refl fs

/-- A sink whose file is there makes no other. -/
theorem Sink.samePaths_write {sink : Sink} {h : Host} (hsink : sink.Backed h.files) (r : Record) :
    SamePaths h.files (sink.write r h).2.files := by
  cases sink with
  | console colored format => exact .refl _
  | capture id => exact .refl _
  | file f =>
    have hput := LogFile.samePaths_put (hsink f rfl) (r.render f.format h.now.clock)
    unfold write
    dsimp only
    split
    · refine hput.trans (LogFile.samePaths_drain ?_)
      rw [LogFile.path_put, hput.isSome_read?]
      exact hsink f rfl
    · exact hput

/-- Neither do all sinks of a list. -/
theorem samePaths_eachSink {act : Sink → Host → Sink × Host}
    (hact : ∀ sink h, sink.Backed h.files → SamePaths h.files (act sink h).2.files)
    (sinks : List Sink) {h : Host} (hsinks : ∀ sink ∈ sinks, sink.Backed h.files) :
    SamePaths h.files (eachSink act sinks h).2.files := by
  induction sinks generalizing h with
  | nil => exact .refl _
  | cons sink rest ih =>
    have hfirst := hact sink h (hsinks sink List.mem_cons_self)
    refine hfirst.trans (ih fun other hother => ?_)
    exact (hsinks other (List.mem_cons_of_mem _ hother)).of_samePaths hfirst

/-- What each sink leaves alone, all sinks of a list do. -/
theorem stdout_eachSink {act : Sink → Host → Sink × Host}
    (hact : ∀ sink h, (act sink h).2.stdout = h.stdout) (sinks : List Sink) (h : Host) :
    (eachSink act sinks h).2.stdout = h.stdout := by
  induction sinks generalizing h with
  | nil => rfl
  | cons sink rest ih => exact (ih (act sink h).2).trans (hact sink h)

theorem Sink.stdout_write (sink : Sink) (r : Record) (h : Host) :
    (sink.write r h).2.stdout = h.stdout := by
  cases sink <;> rfl

theorem Sink.stdout_flush (sink : Sink) (h : Host) : (sink.flush h).2.stdout = h.stdout := by
  cases sink <;> rfl

theorem Sink.stdout_close (sink : Sink) (h : Host) : (sink.close h).stdout = h.stdout := by
  cases sink <;> rfl

end Log

namespace Workspace

open Files

variable (w : Workspace)

/-! ## The standard output stream -/

theorem stdout_tell (e : Entry) : (w.tell e).host.stdout = w.host.stdout := by
  unfold tell
  split
  · exact stdout_eachSink (fun sink h => sink.stdout_write _ h) _ _
  · rfl

theorem stdout_tellAll (entries : List Entry) : (w.tellAll entries).host.stdout = w.host.stdout := by
  induction entries generalizing w with
  | nil => rfl
  | cons e rest ih => exact (ih (w.tell e)).trans (w.stdout_tell e)

theorem stdout_clearSinks : w.clearSinks.host.stdout = w.host.stdout := by
  have hclose : ∀ (sinks : List Sink) (h : Host),
      (sinks.foldl (fun h sink => sink.close h) h).stdout = h.stdout := by
    intro sinks
    induction sinks with
    | nil =>
      intro h
      rfl
    | cons sink rest ih =>
      intro h
      exact (ih (sink.close h)).trans (sink.stdout_close h)
  exact hclose w.logger.sinks w.host

theorem stdout_addConfiguredFile (c : Config) :
    (w.addConfiguredFile c).host.stdout = w.host.stdout := by
  unfold addConfiguredFile
  split
  · rfl
  · split
    · next hadd =>
      obtain ⟨opened, -, rfl⟩ := Option.map_eq_some_iff.mp hadd
      rfl
    · rfl

theorem stdout_start (c : Config) : (w.start c).host.stdout = w.host.stdout := by
  unfold start
  dsimp only
  rw [stdout_addConfiguredFile]
  split <;> exact w.stdout_clearSinks

theorem stdout_flush : w.flush.host.stdout = w.host.stdout :=
  stdout_eachSink (fun sink h => sink.stdout_flush h) _ _

/-! ## Readable files -/

/-- All log files that the logger writes to are there. -/
def Backed : Prop := ∀ sink ∈ w.logger.sinks, sink.Backed w.host.files

variable {w}

/-- Telling something makes no file. -/
theorem samePaths_tell (h : w.Backed) (e : Entry) : SamePaths w.host.files (w.tell e).host.files := by
  unfold tell
  split
  · exact samePaths_eachSink (fun _ _ hsink => Sink.samePaths_write hsink _) _ h
  · exact .refl _

/-- Opening a log file makes it, if it is not there. -/
theorem backed_addLogFile? (h : w.Backed) {name : Bytes} {format : Format} {appends : Bool}
    {after : Workspace} (hadd : w.addLogFile? name format appends = some after) : after.Backed := by
  obtain ⟨opened, hopen, rfl⟩ := Option.map_eq_some_iff.mp hadd
  obtain ⟨path, -, rfl⟩ := Option.map_eq_some_iff.mp hopen
  intro sink hsink f hf
  show (Files.read? (w.host.files.write path _) f.path).isSome = true
  rw [read?_write]
  split
  · rfl
  · next hother =>
    rcases List.mem_append.mp hsink with hold | hnew
    · exact h sink hold f hf
    · -- the new file is the one that was written
      rw [List.mem_singleton.mp hnew] at hf
      cases hf
      exact absurd rfl hother

theorem backed_addConfiguredFile (h : w.Backed) (c : Config) : (w.addConfiguredFile c).Backed := by
  unfold addConfiguredFile
  split
  · exact h
  · split
    · next hadd => exact backed_addLogFile? h hadd
    · exact h

/-- After a start of the logger all its log files are there. -/
theorem backed_start (w : Workspace) (c : Config) : (w.start c).Backed := by
  have hclear : Backed { w.clearSinks with logger := w.clearSinks.logger.configure c } := by
    intro sink hsink
    have hnone : w.clearSinks.logger.configure c = { w.logger.configure c with sinks := [] } :=
      w.logger.configure_sinks [] c
    rw [hnone] at hsink
    cases hsink
  unfold start
  dsimp only
  split
  · refine backed_addConfiguredFile ?_ c
    intro sink hsink f hf
    rcases List.mem_append.mp hsink with hold | hnew
    · exact hclear sink hold f hf
    · rw [List.mem_singleton.mp hnew] at hf
      cases hf
  · exact backed_addConfiguredFile hclear c

end Workspace

end TemplateLexer
