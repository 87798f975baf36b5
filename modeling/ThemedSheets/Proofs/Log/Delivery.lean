import ThemedSheets.Log.Sinks
import ThemedSheets.Proofs.Disk.Places
/- Where the records of a run end up. At every time the sinks are those of the latest configuration
   and the tree has the directories that it began with, so a log file's path leads where it led at the
   start (`Settled`). A configuration changes no file that is there, and a record adds one line to the
   console's text and to one file at most; from these two steps the run follows (`run_delivers`). -/
namespace ThemedSheets.Log
open Disk (bytesAt SameDirectories)
variable {directory : String} {disk : Disk}

/-! ## Channels under the family -/

theorem climbs_nil_append (used : List String) :
    climbs used ('.' :: family.toList.reverse) = true := by rfl

/-- A name that does not begin with a dot is followed up to the family, whatever is in use on the
way. -/
theorem climbs_append (used : List String) : ∀ {reversed : List Char},
    reversed.getLast? ≠ some '.' → climbs used (reversed ++ '.' :: family.toList.reverse) = true
  | [], _ => climbs_nil_append used
  | [c], h => by
    have hc : c ≠ '.' := by
      rintro rfl
      exact h rfl
    show climbs used (c :: '.' :: family.toList.reverse) = true
    rw [climbs, if_neg hc]
    exact climbs_nil_append used
  | c :: d :: rest, h => by
    have hnext : (d :: rest).getLast? ≠ some '.' := by rwa [List.getLast?_cons_cons] at h
    have hup := climbs_append used hnext
    have hover : climbs used (rest ++ '.' :: family.toList.reverse) = true := by
      cases rest with
      | nil => exact climbs_nil_append used
      | cons e rest =>
        rw [List.getLast?_cons_cons] at hnext
        exact climbs_append used hnext
    rw [List.cons_append, List.cons_append, climbs]
    split
    · dsimp only
      split
      · rfl
      · split
        · exact hup
        · exact hover
    · exact hup

theorem isUnderFamily_channelName {name : String} (h : name.toList.head? ≠ some '.')
    (used : List String) : isUnderFamily used (channelName name) = true := by
  unfold channelName
  split
  · rfl
  · have hclimbs : climbs used (family ++ "." ++ name).toList.reverse = true := by
      have hlast : name.toList.reverse.getLast? ≠ some '.' := by rwa [List.getLast?_reverse]
      simpa using climbs_append used hlast
    rw [isUnderFamily, hclimbs, Bool.or_true]

/-! ## What is due -/

namespace Request

/-- The least level that is due on the console: everything if the request is verbose, else warnings
if it is quiet, else what informs. -/
def threshold (q : Request) : Level :=
  match q.verbose, q.quiet with
  | true, _ => ⟨10⟩
  | false, true => ⟨30⟩
  | false, false => ⟨20⟩

/-- The place of the log file, if there is to be one. -/
def logPlace (q : Request) (directory : String) (disk : Disk) : Option (List String) :=
  match q.file with
  | none => none
  | some file =>
    match disk.follow "/" (Path.absolute directory file) with
    | .ok found => some found.location
    | .error _ => none

/-- The log file, if there is to be one, can be opened. -/
def IsOpenable (q : Request) (directory : String) (disk : Disk) : Prop :=
  ∃ after, (Sinks.ofRequest directory q).openFile disk = .ok after

/-- What a record is to show on the console of a request. -/
def consoleShare (q : Request) (r : Record) : String :=
  if q.threshold.rank ≤ r.level.rank then r.consoleLine else ""

/-- What a record is to add to the file at a place. -/
def fileShare (q : Request) (directory : String) (disk : Disk) (place : List String) (r : Record) :
    String :=
  if q.logPlace directory disk = some place ∧ Level.debug.rank ≤ r.level.rank then r.fileLine else ""

theorem consoleLevel_eq (q : Request) : q.consoleLevel = q.threshold := by
  unfold consoleLevel threshold
  cases q.verbose <;> cases q.quiet <;> rfl

theorem debug_le_threshold (q : Request) : Level.debug.rank ≤ q.threshold.rank := by
  unfold threshold Level.debug
  split <;> decide

end Request

/-- Each record of the steps, with the request of the latest configuration before it. -/
def inForce (q : Request) : List Step → List (Request × Record)
  | [] => []
  | .configure q :: steps => inForce q steps
  | .record r :: steps => (q, r) :: inForce q steps

namespace Sinks

theorem shown_ofRequest (q : Request) (r : Record) :
    (ofRequest directory q).shown r = q.consoleShare r := by
  have hlow : q.threshold.rank ≤ r.level.rank → Level.debug.rank ≤ r.level.rank :=
    fun h => Int.le_trans q.debug_le_threshold h
  unfold shown ofRequest Request.consoleShare Level.reaches fileLevel
  rw [Request.consoleLevel_eq]
  cases q.file with
  | none => simp
  | some file =>
    by_cases h : q.threshold.rank ≤ r.level.rank
    · simp [h, hlow h]
    · simp [h]

theorem kept_ofRequest (q : Request) (r : Record) {file : String} (hfile : q.file = some file) :
    (ofRequest directory q).kept r
      = if Level.debug.rank ≤ r.level.rank then r.fileLine else "" := by
  unfold kept ofRequest Level.reaches fileLevel
  simp [hfile]

end Sinks

namespace Request
variable {q : Request}

theorem exists_logPlace (hopen : q.IsOpenable directory disk) {file : String}
    (hfile : q.file = some file) :
    ∃ place, q.logPlace directory disk = some place ∧
      disk.LeadsTo "/" (Path.absolute directory file) place ∧
      disk.lookup place ≠ some .directory := by
  obtain ⟨after, hafter⟩ := hopen
  simp only [Sinks.openFile, Sinks.ofRequest, hfile, Option.map_some] at hafter
  obtain ⟨place, hleads, hplace⟩ := Disk.leadsTo_of_append hafter
  refine ⟨place, ?_, hleads, hplace⟩
  rw [logPlace, hfile]
  show (match disk.follow "/" (Path.absolute directory file) with
    | .ok found => some found.location
    | .error _ => none) = some place
  rw [hleads]
  rfl

end Request

/-! ## Steps -/

namespace State
variable {q : Request} {s : State}

/-- The sinks are those of a request, and the tree has the directories of the one at the start. -/
structure Settled (directory : String) (disk : Disk) (q : Request) (s : State) : Prop where
  sinks : s.sinks = some (Sinks.ofRequest directory q)
  directories : disk.SameDirectories s.disk

theorem append_log (hopen : q.IsOpenable directory disk) {file : String}
    (hfile : q.file = some file) {now : Disk} (hnow : disk.SameDirectories now) (text : String) :
    ∃ after, now.append "/" (Path.absolute directory file) text.toUTF8 = .ok after ∧
      disk.SameDirectories after ∧
      ∀ place, after.bytesAt place = now.bytesAt place
        ++ (if q.logPlace directory disk = some place then text else "").toUTF8 := by
  obtain ⟨place, hplace, hleads, hfree⟩ := Request.exists_logPlace hopen hfile
  have hfree' : now.lookup place ≠ some .directory := fun h => hfree (hnow.2 place h)
  obtain ⟨after, hafter, hsame, hbytes⟩ :=
    Disk.append_of_leadsTo (hleads.mono hnow.1) hfree' text.toUTF8
  refine ⟨after, hafter, hnow.trans hsame, ?_⟩
  intro other
  rw [hbytes other, hplace]
  by_cases h : other = place
  · rw [if_pos h, if_pos (congrArg some h.symm)]
  · rw [if_neg h, if_neg fun h' => h (Option.some.inj h').symm]
    rfl

/-- A configuration shows nothing and changes the bytes of no file. -/
theorem step_configure (hopen : q.IsOpenable directory disk)
    (hs : disk.SameDirectories s.disk) :
    ∃ after, s.step directory (.configure q) = .ok ("", after) ∧ Settled directory disk q after ∧
      ∀ place, after.disk.bytesAt place = s.disk.bytesAt place := by
  have hopened : ∃ opened, (Sinks.ofRequest directory q).openFile s.disk = .ok opened ∧
      disk.SameDirectories opened ∧
      ∀ place, opened.bytesAt place = s.disk.bytesAt place := by
    cases hfile : q.file with
    | none =>
      refine ⟨s.disk, ?_, hs, fun place => rfl⟩
      simp only [Sinks.openFile, Sinks.ofRequest, hfile, Option.map_none]
    | some file =>
      obtain ⟨opened, hopened, hsame, hbytes⟩ := append_log hopen hfile hs ""
      refine ⟨opened, ?_, hsame, ?_⟩
      · simp only [Sinks.openFile, Sinks.ofRequest, hfile, Option.map_some]
        exact hopened
      · intro place
        rw [hbytes place, ite_self]
        exact ByteArray.append_empty
  obtain ⟨opened, hopened, hsame, hbytes⟩ := hopened
  refine ⟨{ s with sinks := some (Sinks.ofRequest directory q), disk := opened }, ?_,
    ⟨rfl, hsame⟩, hbytes⟩
  rw [step, hopened]
  rfl

/-- A record shows its share on the console and adds its share to every file, which is nothing in
all places but one. -/
theorem step_record (hopen : q.IsOpenable directory disk) (hs : Settled directory disk q s)
    {r : Record} (hunder : ∀ used, isUnderFamily used r.channel = true) :
    ∃ after, s.step directory (.record r) = .ok (q.consoleShare r, after) ∧
      Settled directory disk q after ∧
      ∀ place, after.disk.bytesAt place
        = s.disk.bytesAt place ++ (q.fileShare directory disk place r).toUTF8 := by
  have hwritten : ∃ written, (Sinks.ofRequest directory q).write s.disk r = .ok written ∧
      disk.SameDirectories written ∧
      ∀ place, written.bytesAt place
        = s.disk.bytesAt place ++ (q.fileShare directory disk place r).toUTF8 := by
    cases hfile : q.file with
    | none =>
      refine ⟨s.disk, ?_, hs.directories, ?_⟩
      · simp only [Sinks.write, Sinks.ofRequest, hfile, Option.map_none]
      · intro place
        have hnone : q.logPlace directory disk = none := by rw [Request.logPlace, hfile]
        rw [Request.fileShare, hnone, if_neg (by simp)]
        exact ByteArray.append_empty.symm
    | some file =>
      obtain ⟨written, hwritten, hsame, hbytes⟩ :=
        append_log hopen hfile hs.directories ((Sinks.ofRequest directory q).kept r)
      refine ⟨written, ?_, hsame, ?_⟩
      · simp only [Sinks.write, Sinks.ofRequest, hfile, Option.map_some] at hwritten ⊢
        exact hwritten
      · intro place
        rw [hbytes place, Sinks.kept_ofRequest q r hfile, Request.fileShare]
        by_cases hplace : q.logPlace directory disk = some place
        · simp only [hplace, true_and, if_true]
        · simp only [hplace, false_and, if_false]
  obtain ⟨written, hwritten, hsame, hbytes⟩ := hwritten
  refine ⟨{ s with channels := r.channel :: s.channels, disk := written }, ?_,
    ⟨hs.sinks, hsame⟩, hbytes⟩
  rw [step]
  simp only [hs.sinks, hunder, hwritten, Sinks.shown_ofRequest]
  rfl

/-- A record that does not come under the family reaches no sink. -/
theorem step_stray {r : Record} (h : isUnderFamily (r.channel :: s.channels) r.channel = false) :
    s.step directory (.record r)
      = .ok (r.bareLine, { s with channels := r.channel :: s.channels }) := by
  rw [step]
  simp only [h]
  cases s.sinks <;> rfl

/-! ## Runs -/

theorem run_settled (hs : Settled directory disk q s) (hopen : q.IsOpenable directory disk)
    {steps : List Step} (hopens : ∀ q, .configure q ∈ steps → q.IsOpenable directory disk)
    (hunder : ∀ r, .record r ∈ steps → ∀ used, isUnderFamily used r.channel = true) :
    ∃ after, s.run directory steps
        = .ok (String.join ((inForce q steps).map fun (q, r) => q.consoleShare r), after) ∧
      ∀ place, after.disk.bytesAt place = s.disk.bytesAt place
        ++ (String.join ((inForce q steps).map fun (q, r) =>
            q.fileShare directory disk place r)).toUTF8 := by
  induction steps generalizing q s with
  | nil => exact ⟨s, rfl, fun place => ByteArray.append_empty.symm⟩
  | cons step steps ih =>
    have hopens' := fun q h => hopens q (List.mem_cons_of_mem _ h)
    have hunder' := fun r h => hunder r (List.mem_cons_of_mem _ h)
    cases step with
    | configure q' =>
      have hopen' := hopens q' List.mem_cons_self
      obtain ⟨next, hstep, hnext, hbytes⟩ := step_configure hopen' hs.directories
      obtain ⟨after, hrun, hafter⟩ := ih hnext hopen' hopens' hunder'
      refine ⟨after, ?_, ?_⟩
      · rw [run, hstep]
        simp only [bind, Except.bind, hrun, inForce]
        rw [String.empty_append]
        rfl
      · intro place
        rw [hafter place, hbytes place]
        rfl
    | record r =>
      obtain ⟨next, hstep, hnext, hbytes⟩ :=
        step_record hopen hs (hunder r List.mem_cons_self)
      obtain ⟨after, hrun, hafter⟩ := ih hnext hopen hopens' hunder'
      refine ⟨after, ?_, ?_⟩
      · rw [run, hstep]
        simp only [bind, Except.bind, hrun, inForce, List.map_cons, String.join_cons]
        rfl
      · intro place
        simp only [hafter place, hbytes place, inForce, List.map_cons, String.join_cons]
        rw [ByteArray.append_assoc]
        exact congrArg _ String.toByteArray_append.symm

/-- Records of channels whose names do not begin with a dot. After the first configuration, each
shows on the console once if it reaches the level of the latest configuration, and not otherwise; and
each stands once in the log file of the latest configuration, in the order they were made, and in no
other file. -/
theorem run_delivers (directory : String) (disk : Disk) (q : Request) (steps : List Step)
    (hopens : ∀ q', .configure q' ∈ .configure q :: steps → q'.IsOpenable directory disk)
    (hnames : ∀ r, .record r ∈ steps →
      ∃ name : String, name.toList.head? ≠ some '.' ∧ r.channel = channelName name) :
    ∃ after, (State.start disk).run directory (.configure q :: steps)
        = .ok (String.join ((inForce q steps).map fun (q, r) => q.consoleShare r), after) ∧
      ∀ place, after.disk.bytesAt place = disk.bytesAt place
        ++ (String.join ((inForce q steps).map fun (q, r) =>
            q.fileShare directory disk place r)).toUTF8 := by
  have hopen := hopens q List.mem_cons_self
  have hunder : ∀ r, .record r ∈ steps → ∀ used, isUnderFamily used r.channel = true := by
    intro r hr used
    obtain ⟨name, hname, hchannel⟩ := hnames r hr
    rw [hchannel]
    exact isUnderFamily_channelName hname used
  obtain ⟨first, hstep, hfirst, hbytes⟩ :=
    step_configure (s := .start disk) hopen (SameDirectories.refl disk)
  obtain ⟨after, hrun, hafter⟩ :=
    run_settled hfirst hopen (fun q' h => hopens q' (List.mem_cons_of_mem _ h)) hunder
  refine ⟨after, ?_, ?_⟩
  · rw [run, hstep]
    simp only [bind, Except.bind, hrun]
    rw [String.empty_append]
    rfl
  · intro place
    rw [hafter place, hbytes place]
    rfl

/-- A configuration with a file, then a quiet one with another, then a verbose one without. -/
theorem run_delivers_of_three_requests :
    let first : Request := { file := some "a.log" }
    let second : Request := { quiet := true, file := some "b.log" }
    let third : Request := { verbose := true }
    let steps : List Step :=
      [.record ⟨.debug, channelName "merge", "1"⟩, .configure second,
        .record ⟨.info, channelName "a..b", "2"⟩, .record ⟨.warning, channelName "", "3"⟩,
        .configure third, .record ⟨⟨15⟩, channelName "cli", "4"⟩]
    (∀ q, .configure q ∈ .configure first :: steps → q.IsOpenable "/" .empty) ∧
      (∀ r, .record r ∈ steps →
        ∃ name : String, name.toList.head? ≠ some '.' ∧ r.channel = channelName name) ∧
      ∃ after, (State.start .empty).run "/" (.configure first :: steps)
          = .ok ("[scopedsass] WARNING 3\n[scopedsass] Level 15 4\n", after) ∧
        after.disk.bytesAt ["a.log"] = "DEBUG scopedsass.merge: 1\n".toUTF8 ∧
        after.disk.bytesAt ["b.log"]
          = "INFO scopedsass.a..b: 2\nWARNING scopedsass: 3\n".toUTF8 := by
  intro first second third steps
  have hopens : ∀ q, .configure q ∈ .configure first :: steps → q.IsOpenable "/" .empty := by
    intro q hq
    simp only [steps, List.mem_cons, List.not_mem_nil, reduceCtorEq, Step.configure.injEq, false_or,
      or_false] at hq
    rcases hq with rfl | rfl | rfl <;> exact ⟨_, rfl⟩
  have hnames : ∀ r, .record r ∈ steps →
      ∃ name : String, name.toList.head? ≠ some '.' ∧ r.channel = channelName name := by
    intro r hr
    simp only [steps, List.mem_cons, List.not_mem_nil, reduceCtorEq, Step.record.injEq, false_or,
      or_false] at hr
    rcases hr with rfl | rfl | rfl | rfl
    · exact ⟨"merge", by decide, rfl⟩
    · exact ⟨"a..b", by decide, rfl⟩
    · exact ⟨"", by decide, rfl⟩
    · exact ⟨"cli", by decide, rfl⟩
  obtain ⟨after, hrun, hbytes⟩ := run_delivers "/" .empty first steps hopens hnames
  refine ⟨hopens, hnames, after, hrun.trans ?_, (hbytes _).trans ?_, (hbytes _).trans ?_⟩
  · rfl
  · rfl
  · rfl

/-- A channel whose name begins with a dot is not followed up to the family: its record reaches
neither the console nor the log file. -/
theorem run_hides_dotted_channel :
    let q : Request := { file := some "a.log" }
    let r : Record := ⟨.info, channelName ".x", "m"⟩
    q.IsOpenable "/" .empty ∧ q.consoleShare r = "[scopedsass] INFO m\n" ∧
      q.fileShare "/" .empty ["a.log"] r = "INFO scopedsass..x: m\n" ∧
      ∃ after, (State.start .empty).run "/" [.configure q, .record r] = .ok ("", after) ∧
        after.disk.bytesAt ["a.log"] = "".toUTF8 := by
  intro q r
  let opened : State := ⟨some (Sinks.ofRequest "/" q), ⟨[(["a.log"], .file .empty)]⟩, []⟩
  let after : State := { opened with channels := [r.channel] }
  have hconfigure : (State.start .empty).step "/" (.configure q) = .ok ("", opened) := by rfl
  have hrecord : opened.step "/" (.record r) = .ok ("", after) := by
    apply step_stray
    decide +kernel
  have hrun : (State.start .empty).run "/" [.configure q, .record r] = .ok ("", after) := by
    simp only [run, hconfigure, hrecord, bind, Except.bind]
    rfl
  exact ⟨⟨_, rfl⟩, by decide +kernel, by decide +kernel, after, hrun, rfl⟩

end State
end ThemedSheets.Log
