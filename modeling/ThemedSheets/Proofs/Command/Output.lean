import ThemedSheets.Command.Execution
import ThemedSheets.Proofs.Disk.Beside
import ThemedSheets.Proofs.Disk.Directories
import ThemedSheets.Proofs.Request.Stages
import ThemedSheets.Proofs.Text.Split
import ThemedSheets.Yaml.Document
/- What a run of the program leaves behind. Compiling prints nothing and touches no file
   (`leaves_compileScoped`), and what is written afterwards is written in full or the run ends in a
   fault, so a run that ends with a message has printed nothing and left the file tree as it was
   (`run_output`). A run that succeeds has printed the merged stylesheet, or has written it where it
   was asked to, with its source map beside it (`delivers_write`). -/
namespace ThemedSheets

/-! ## Silent runs -/

def Event.IsSilent (e : Event) : Prop := ∀ text, e ≠ .printed text

theorem isSilent_logged (record : Log.Record) (byWorker : Bool) :
    Event.IsSilent (.logged record byWorker) := by
  intro text h
  cases h

theorem isSilent_noted (message : String) : Event.IsSilent (.noted message) := by
  intro text h
  cases h

theorem Event.IsPreliminary.isSilent {e : Event} (h : e.IsPreliminary) : e.IsSilent := by
  rintro text rfl
  rcases h with ⟨record, h⟩ | ⟨d, h⟩
  · cases h
  · cases h

theorem Sass.Toolchain.leaves_compile (t : Sass.Toolchain) (text : String)
    (options : CompileOptions) : (t.compile text options).Leaves Event.IsSilent := by
  have hcalled : ∀ call, Event.IsSilent (.called call) := by
    intro call text h
    cases h
  have hfile : ∀ ending : Except FileFailure Sass.Ending,
      (Run.ofFile ending).Leaves Event.IsSilent := fun ending e he => absurd he List.not_mem_nil
  exact .bind (hfile _) fun ending => .bind (.emit (hcalled _)) fun _ => .bind (.ofExcept _) fun _ =>
    .bind (.log (isSilent_logged · false) _ _ _) fun _ => .pure _

theorem Workshop.leaves_compileScoped {w : Workshop}
    (hcompiler : ∀ text options, (w.compiler text options).Leaves Event.IsSilent) (source : String)
    (entries : Option (List ScopeEntry)) (sourcePath : Option String) :
    (w.compileScoped source entries sourcePath).Leaves Event.IsSilent := by
  have hfront : (w.front entries).Leaves Event.IsSilent :=
    fun e he => (leaves_front w entries e he).isSilent
  rw [compileScoped_eq]
  exact .bind hfront fun validated =>
    .bind (leaves_serve isSilent_logged hcompiler _ _ _) fun _ => .pure _

namespace Command

theorem output_of_silent {r : Report} (h : ∀ e ∈ r.events, e.IsSilent) : r.output = "" := by
  obtain ⟨events, disk, ending⟩ := r
  replace h : ∀ e ∈ events, e.IsSilent := h
  induction events with
  | nil => rfl
  | cons e events ih =>
    rw [List.forall_mem_cons] at h
    have hrest := ih h.2
    rw [Report.output] at hrest ⊢
    rw [List.map_cons, String.join_cons, hrest]
    cases e with
    | printed text => exact absurd rfl (h.1 text)
    | _ => rfl

/-! ## The text of the sheet -/

/-- A text is the stylesheet with its line feeds at the end replaced by one and a line that names the
map. -/
def IsMapped (css name text : String) : Prop :=
  ∃ kept n, css = kept ++ String.ofList (List.replicate n '\n') ∧
    kept.toList.getLast? ≠ some '\n' ∧
    text = kept ++ "\n/*# sourceMappingURL=" ++ name ++ " */\n"

theorem isMapped_withMapLine (css name : String) : IsMapped css name (withMapLine css name) := by
  obtain ⟨n, hcss⟩ := Text.exists_trailing '\n' css.toList
  refine ⟨String.ofList (css.toList.reverse.dropWhile (· == '\n')).reverse, n, ?_, ?_, rfl⟩
  · apply String.toList_inj.1
    rw [String.toList_append, String.toList_ofList, String.toList_ofList]
    exact hcss
  · rw [String.toList_ofList]
    exact Text.getLast?_trimmed '\n' css.toList

/-! ## Files -/

/-- The file that a path leads to, at the place, holds the text. -/
def Holds (disk : Disk) (directory path : String) (place : List String) (text : String) : Prop :=
  disk.LeadsTo directory path place ∧ disk.lookup place = some (.file text.toUTF8)

/-- The place is as it was, or a directory above the path that had to be made. -/
def IsSpared (directory : String) (path : Path) (disk after : Disk) (place : List String) : Prop :=
  after.lookup place = disk.lookup place ∨
    Disk.IsNewAlong directory path.parent disk after place

/-- What is left in the file tree where an output is named: the sheet, and its map beside it if there
is one, and nothing else but directories above them. -/
def Delivers (directory : String) (output : Path) (css : String) (disk after : Disk) :
    Option String → Prop
  | none => ∃ place, Holds after directory output.toString place css ∧
      ∀ other, other ≠ place → IsSpared directory output disk after other
  | some map => ∃ place beside sheet json, IsMapped css (output.name ++ ".map") sheet ∧
      writtenMap directory map = .ok json ∧
      Holds after directory output.toString place sheet ∧
      Holds after directory (output.toString ++ ".map") beside json ∧
      ∀ other, other ≠ place → other ≠ beside → IsSpared directory output disk after other

section
variable {directory : String} {output : Path} {disk grown after : Disk} {place : List String}

theorem isSpared_of_growsAlong (h : Disk.GrowsAlong directory output.parent disk grown)
    (other : List String) : IsSpared directory output disk grown other := by
  by_cases hsame : grown.lookup other = disk.lookup other
  · exact Or.inl hsame
  · exact Or.inr (h other hsame)

theorem IsSpared.put {other : List String} (h : IsSpared directory output disk grown other)
    (hplace : grown.lookup place ≠ some .directory) (hother : other ≠ place) (content : ByteArray) :
    IsSpared directory output disk (grown.put place (.file content)) other := by
  rcases h with hsame | hnew
  · exact Or.inl ((Disk.lookup_put_of_ne grown hother _).trans hsame)
  · exact Or.inr (hnew.mono (Disk.keepsDirectories_put hplace))

theorem Holds.put {path text : String} {other : List String}
    (h : Holds grown directory path other text)
    (hplace : grown.lookup place ≠ some .directory) (hne : other ≠ place) (content : ByteArray) :
    Holds (grown.put place (.file content)) directory path other text :=
  ⟨h.1.mono (Disk.keepsDirectories_put hplace), (Disk.lookup_put_of_ne grown hne _).trans h.2⟩

theorem holds_of_write {path text : String}
    (h : disk.write directory path text.toUTF8 = .ok after) :
    ∃ place, Holds after directory path place text ∧ disk.lookup place ≠ some .directory ∧
      after = disk.put place (.file text.toUTF8) := by
  obtain ⟨place, hleads, hfile, rfl⟩ := Disk.write_eq_ok.1 h
  have hkeeps : disk.KeepsDirectories (disk.put place (.file text.toUTF8)) :=
    Disk.keepsDirectories_put hfile
  exact ⟨place, ⟨hleads.mono hkeeps, Disk.lookup_put_self disk (Disk.ne_nil_of_lookup_ne hfile) _⟩,
    hfile, rfl⟩

/-! ## Writing -/

theorem andThenWrite_eq_ok {attempt : Except FileFailure Disk} {next : Disk → Written}
    (h : (andThenWrite disk attempt next).run.outcome = .ok ()) :
    ∃ d, attempt = .ok d ∧ (next d).run.outcome = .ok () ∧
      andThenWrite disk attempt next = next d := by
  cases attempt with
  | error e => cases h
  | ok d => exact ⟨d, rfl, h, rfl⟩

theorem writeSheet_eq_ok {css : String}
    (h : (writeSheet directory output disk css).run.outcome = .ok ()) :
    disk.write directory output.toString css.toUTF8
        = .ok (writeSheet directory output disk css).disk ∧
      (writeSheet directory output disk css).run.Leaves Event.IsSilent := by
  obtain ⟨d, hwrite, -, heq⟩ := andThenWrite_eq_ok h
  rw [writeSheet, heq]
  exact ⟨hwrite, .log (isSilent_logged · false) _ _ _⟩

theorem writeMapped_eq_ok {css map : String} (htidy : output.IsTidy)
    (h : (writeMapped directory output disk css map).run.outcome = .ok ()) :
    ∃ json between, writtenMap directory map = .ok json ∧
      disk.write directory (output.toString ++ ".map") json.toUTF8 = .ok between ∧
      between.write directory output.toString (withMapLine css (output.name ++ ".map")).toUTF8
        = .ok (writeMapped directory output disk css map).disk ∧
      output.parts ≠ [] ∧ (writeMapped directory output disk css map).run.Leaves Event.IsSilent := by
  unfold writeMapped at h ⊢
  split at h
  · cases h
  · next hname =>
    have hparts := Path.parts_ne_nil hname
    have hbeside : (output.extended ".map").toString = output.toString ++ ".map" :=
      htidy.toString_extended hparts (by decide) (by decide)
    rw [if_neg hname]
    cases hjson : writtenMap directory map with
    | error e =>
      rw [hjson] at h
      cases h
    | ok json =>
      rw [hjson] at h
      obtain ⟨between, hwrite, hsheet, heq⟩ := andThenWrite_eq_ok h
      obtain ⟨hlast, hsilent⟩ := writeSheet_eq_ok hsheet
      dsimp only
      rw [heq]
      exact ⟨json, between, rfl, hbeside ▸ hwrite, hlast, hparts, hsilent⟩

theorem delivers_sheet {css : String} (hgrown : Disk.GrowsAlong directory output.parent disk grown)
    (h : grown.write directory output.toString css.toUTF8 = .ok after) :
    Delivers directory output css disk after none := by
  obtain ⟨place, hholds, hfile, rfl⟩ := holds_of_write h
  refine ⟨place, hholds, fun other hother => ?_⟩
  exact (isSpared_of_growsAlong hgrown other).put hfile hother _

theorem delivers_mapped {css map json : String} {between : Disk} (htidy : output.IsTidy)
    (hparts : output.parts ≠ []) (hgrown : Disk.GrowsAlong directory output.parent disk grown)
    (hjson : writtenMap directory map = .ok json)
    (hbeside : grown.write directory (output.toString ++ ".map") json.toUTF8 = .ok between)
    (hsheet : between.write directory output.toString
      (withMapLine css (output.name ++ ".map")).toUTF8 = .ok after) :
    Delivers directory output css disk after (some map) := by
  obtain ⟨beside, hheld, hfree, rfl⟩ := holds_of_write hbeside
  obtain ⟨place, hholds, hfile, rfl⟩ := holds_of_write hsheet
  have hne : place ≠ beside := Disk.ne_beside htidy hparts (by decide) (by decide) hholds.1
    (hheld.1.mono (Disk.keepsDirectories_put hfile))
  refine ⟨place, beside, _, json, isMapped_withMapLine css _, hjson, hholds,
    hheld.put hfile hne.symm _, fun other hother hother' => ?_⟩
  exact ((isSpared_of_growsAlong hgrown other).put hfree hother' _).put hfile hother _

end

/-- The source map that is written for a result, if one is wanted and there is one. -/
def mapFor (wantsMap : Bool) (result : MergeResult) : Option String :=
  if wantsMap then result.sourceMap.filter (· ≠ "") else none

/-- Where an output is named, the result is delivered there and nothing is printed. -/
theorem delivers_write {host : Host} {text : String} {wantsMap : Bool} {result : MergeResult}
    {named : Option String} (hnamed : named.filter (· ≠ "") = some text)
    (h : (write host named wantsMap result).run.outcome = .ok ()) :
    Delivers host.directory (Path.ofString text) result.css host.disk
        (write host named wantsMap result).disk (mapFor wantsMap result) ∧
      (write host named wantsMap result).run.Leaves Event.IsSilent := by
  have htidy := Path.isTidy_ofString text
  unfold write at h ⊢
  rw [hnamed] at h ⊢
  dsimp only at h ⊢
  obtain ⟨grown, hmade, hwritten, heq⟩ := andThenWrite_eq_ok h
  have hgrown := Disk.makeDirectories_growsAlong hmade
  rw [heq]
  unfold mapFor
  split at hwritten
  · next map hmap =>
    rw [if_pos rfl, hmap]
    obtain ⟨json, between, hjson, hbeside, hsheet, hparts, hsilent⟩ :=
      writeMapped_eq_ok htidy hwritten
    exact ⟨delivers_mapped htidy hparts hgrown hjson hbeside hsheet, hsilent⟩
  · next hnone =>
    obtain ⟨hsheet, hsilent⟩ := writeSheet_eq_ok hwritten
    refine ⟨?_, hsilent⟩
    split
    · next hwanted =>
      cases hmap : result.sourceMap.filter (· ≠ "") with
      | none => exact delivers_sheet hgrown hsheet
      | some map => exact absurd hmap (hnone map hwanted)
    · exact delivers_sheet hgrown hsheet

theorem write_unnamed (host : Host) (wantsMap : Bool) (result : MergeResult)
    {named : Option String} (hnamed : named.filter (· ≠ "") = none) :
    ∃ before, (write host named wantsMap result).run.events = before ++ [.printed result.css] ∧
      (∀ e ∈ before, e.IsSilent) ∧ (write host named wantsMap result).disk = host.disk := by
  unfold write
  rw [hnamed]
  cases wantsMap with
  | false => exact ⟨[], rfl, by simp, rfl⟩
  | true =>
    refine ⟨[_], rfl, ?_, rfl⟩
    rw [List.forall_mem_singleton]
    exact isSilent_logged _ false

/-! ## The program -/

theorem output_of_printed {r : Report} (before after : List Event) {text : String}
    (hevents : r.events = before ++ .printed text :: after) (hbefore : ∀ e ∈ before, e.IsSilent)
    (hafter : ∀ e ∈ after, e.IsSilent) : r.output = text := by
  have hleft := output_of_silent (r := ⟨before, r.disk, r.ending⟩) hbefore
  have hright := output_of_silent (r := ⟨after, r.disk, r.ending⟩) hafter
  rw [Report.output] at hleft hright ⊢
  rw [hevents, List.map_append, String.join_append, List.map_cons, String.join_cons, hleft, hright,
    String.empty_append, String.append_empty]

theorem isSilent_listing (a : Arguments) (result : MergeResult) :
    ∀ e ∈ listing a result, e.IsSilent := by
  unfold listing
  split
  · exact List.forall_mem_map.2 fun p _ => isSilent_noted _
  · simp

section
variable (m : Machine) (a : Arguments) (p : Plan)

def request : Run MergeResult := (workshop m p).compileScoped p.text p.entries (some p.source)

theorem leaves_request : (request m p).Leaves Event.IsSilent := by
  apply Workshop.leaves_compileScoped
  intro text options
  exact Sass.Toolchain.leaves_compile _ text options

variable {m a p}

/-- How the command ends on a plan: with a message for a request that failed, with a fault, or with
the result written. -/
theorem execute_cases (m : Machine) (a : Arguments) (p : Plan) :
    (∃ message, execute m a p = tell (request m p).events m.host.disk 1 message) ∨
      (∃ f, (execute m a p).ending = .fault f) ∨
      ∃ merged, let written := write m.host a.output p.settings.options.sourceMap merged
        (request m p).outcome = .ok merged ∧ written.run.outcome = .ok () ∧
          execute m a p = ⟨(request m p).events ++ written.run.events ++ listing a merged,
            written.disk, .status 0⟩ := by
  unfold request
  cases hrequest : ((workshop m p).compileScoped p.text p.entries (some p.source)).outcome with
  | error f =>
    cases hmessage : failureMessage? f with
    | some message =>
      refine Or.inl ⟨message, ?_⟩
      simp only [execute, hrequest, hmessage]
    | none =>
      refine Or.inr (Or.inl ⟨f, ?_⟩)
      simp only [execute, hrequest, hmessage]
  | ok merged =>
    cases hwritten : (write m.host a.output p.settings.options.sourceMap merged).run.outcome with
    | error f =>
      refine Or.inr (Or.inl ⟨f, ?_⟩)
      simp only [execute, hrequest, hwritten]
    | ok u =>
      refine Or.inr (Or.inr ⟨merged, rfl, hwritten, ?_⟩)
      simp only [execute, hrequest, hwritten]

theorem execute_failed (h : (execute m a p).ending = .status 1) :
    (∀ e ∈ (execute m a p).events, e.IsSilent) ∧ (execute m a p).disk = m.host.disk := by
  rcases execute_cases m a p with ⟨message, heq⟩ | ⟨f, heq⟩ | ⟨merged, -, -, heq⟩
  · rw [heq]
    refine ⟨List.forall_mem_append.2 ⟨leaves_request m p, ?_⟩, rfl⟩
    exact List.forall_mem_singleton.2 (isSilent_noted message)
  · rw [heq] at h
    cases h
  · rw [heq] at h
    cases h

theorem execute_done (h : (execute m a p).ending = .status 0) :
    ∃ merged, let written := write m.host a.output p.settings.options.sourceMap merged
      (request m p).outcome = .ok merged ∧ written.run.outcome = .ok () ∧
        execute m a p = ⟨(request m p).events ++ written.run.events ++ listing a merged,
          written.disk, .status 0⟩ := by
  rcases execute_cases m a p with ⟨message, heq⟩ | ⟨f, heq⟩ | hdone
  · rw [heq] at h
    cases h
  · rw [heq] at h
    cases h
  · exact hdone

end

/-- **A run that ends with a message leaves nothing behind, and one that succeeds leaves its result
only.** If the status is one, nothing was printed and the file tree is as it was. If arguments were
read and the status is zero, compiling made a merged stylesheet. Without a named output it was
printed as it is and the file tree is as it was; with one nothing was printed, and the stylesheet was
delivered there. -/
theorem run_output (m : Machine) (line : List String) :
    ((run m line).report.ending = .status 1 →
      (run m line).output = "" ∧ (run m line).report.disk = m.host.disk) ∧
    ∀ a, Arguments.read m.edition line = .ok a → (run m line).report.ending = .status 0 →
      ∃ p merged, plan m a = .ok p ∧ (request m p).outcome = .ok merged ∧
        match a.output.filter (· ≠ "") with
        | none => (run m line).output = merged.css ∧ (run m line).report.disk = m.host.disk
        | some text => (run m line).output = "" ∧
            Delivers m.host.directory (Path.ofString text) merged.css m.host.disk
              (run m line).report.disk (mapFor p.settings.options.sourceMap merged) := by
  constructor
  · intro h
    unfold run at h ⊢
    split at h
    · next a hread =>
      dsimp only at h ⊢
      unfold compile at h ⊢
      split at h
      · obtain ⟨hsilent, hdisk⟩ := execute_failed h
        exact ⟨output_of_silent hsilent, hdisk⟩
      · next message hplan =>
        refine ⟨output_of_silent ?_, rfl⟩
        exact List.forall_mem_singleton.2 (isSilent_noted message)
      · cases h
    · cases h
    · cases h
  · intro a hread h
    simp only [run, hread] at h ⊢
    unfold compile at h ⊢
    split at h
    · next p hplan =>
      obtain ⟨merged, hmerged, hwritten, heq⟩ := execute_done h
      refine ⟨p, merged, hplan, hmerged, ?_⟩
      rw [heq]
      have hrequest := leaves_request m p
      have hlisting := isSilent_listing a merged
      split
      · next hnamed =>
        obtain ⟨before, hprinted, hbefore, hsame⟩ :=
          write_unnamed m.host p.settings.options.sourceMap merged hnamed
        refine ⟨?_, hsame⟩
        apply output_of_printed ((request m p).events ++ before) (listing a merged)
        · simp [hprinted]
        · exact List.forall_mem_append.2 ⟨hrequest, hbefore⟩
        · exact hlisting
      · next text hnamed =>
        obtain ⟨hdelivers, hsilent⟩ := delivers_write hnamed hwritten
        refine ⟨output_of_silent ?_, hdelivers⟩
        exact List.forall_mem_append.2 ⟨List.forall_mem_append.2 ⟨hrequest, hsilent⟩, hlisting⟩
    · cases h
    · cases h

def Ending.status? : Ending → Option Nat
  | .status code => some code
  | .fault _ => none

theorem Ending.eq_status {e : Ending} {code : Nat} (h : e.status? = some code) :
    e = .status code := by
  cases e with
  | status code' => exact congrArg _ (Option.some.inj h)
  | fault f => cases h

/-- A source that is not there, and one that is compiled into a directory that is made for it, its map
beside it. -/
theorem run_output_of_new_directory :
    let engine : Sass.Engine := fun _ _ => .answer ".x\x7btop:0\x7d\n\n"
      "\x7b\"version\":3,\"sources\":[\"stdin.scss\"]\x7d"
    let disk : Disk := ⟨[(["w"], .directory), (["w", "a.scss"], .file ".x".toUTF8)]⟩
    let m : Machine := {
      host := { disk, directory := "/w", home := "/root" }
      engine, documents := Yaml.read, edition := .later, workDirectory := "/tmp/work" }
    let line := ["compile", "a.scss", "-o", "out/a.css", "--source-map"]
    (run m ["compile", "b.scss"]).report.ending = .status 1 ∧
      (run m ["compile", "b.scss"]).output = "" ∧
      (run m ["compile", "b.scss"]).report.disk = disk ∧
      Arguments.read .later line
        = .ok { source := "a.scss", output := some "out/a.css", sourceMap := true } ∧
      (run m line).report.ending = .status 0 ∧ (run m line).output = "" ∧
      Delivers "/w" ⟨0, ["out", "a.css"]⟩ ".x\x7btop:0\x7d\n\n" disk (run m line).report.disk
        (some "\x7b\"version\": 3, \"sources\": [\"/w/a.scss\"]\x7d") := by
  intro engine disk m line
  let a : Arguments := { source := "a.scss", output := some "out/a.css", sourceMap := true }
  have hmissing : (run m ["compile", "b.scss"]).report.ending = .status 1 :=
    Ending.eq_status (by decide +kernel)
  obtain ⟨hprinted, hdisk⟩ := (run_output m ["compile", "b.scss"]).1 hmissing
  have hread : Arguments.read m.edition line = .ok a := Outcome.eq_ok (by decide +kernel)
  have hdone : (run m line).report.ending = .status 0 := Ending.eq_status (by decide +kernel)
  obtain ⟨p, merged, hplan, hmerged, hleft⟩ := (run_output m line).2 a hread hdone
  -- the merged sheet and its map, as the plan and the request come to them
  have hresult : ((plan m a).toOption.bind fun p => (request m p).outcome.toOption.map
      fun merged => (merged.css, mapFor p.settings.options.sourceMap merged))
      = some (".x\x7btop:0\x7d\n\n",
        some "\x7b\"version\": 3, \"sources\": [\"/w/a.scss\"]\x7d") := by decide +kernel
  rw [hplan] at hresult
  simp only [Except.toOption, Option.bind_some, hmerged, Option.map_some, Option.some.injEq,
    Prod.mk.injEq] at hresult
  have hnamed : a.output.filter (· ≠ "") = some "out/a.css" := by decide
  have hpath : Path.ofString "out/a.css" = ⟨0, ["out", "a.css"]⟩ := by decide +kernel
  simp only [hnamed, hresult, hpath] at hleft
  exact ⟨hmissing, hprinted, hdisk, hread, hdone, hleft⟩

end Command
end ThemedSheets
