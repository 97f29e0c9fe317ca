import DeskCalculator.CommandLine.Run
import DeskCalculator.Proofs.CommandLine.Archive
import DeskCalculator.Proofs.Stack.Storable
import DeskCalculator.Proofs.StateFile.Loaded

/-!
# Stopping and resuming

A run may stop between two lines and another one may go on from the state file that it leaves. That
one has the settings, the registers and the history again (`Recovers`), since every evaluation with
a value is written and nothing else changes them. It does not have the buffer and the mode, but the
next expression starts over unless it starts with an operator, and it has not written anything yet,
which nothing depends on (`turns_after`). So it prints and writes what the first run would have gone
on to print and write (`run_resume`).
-/

namespace DeskCalculator

/-- What stands at the path after a run: what the run has left there, if it has written anything. -/
def StateFile.Source.after (source : Source) (saved : Option Text) : Source :=
  saved.elim source fun t => .ofBytes t.toString.toUTF8

theorem StateFile.Source.after_or (source : Source) (later earlier : Option Text) :
    source.after (later.or earlier) = (source.after earlier).after later := by
  cases later <;> rfl

/-! ## Values and histories -/

namespace Value

variable {v : Value} {result : Text}

theorem IsStorable.inRange (h : v.IsStorable) : v.IsInRange := by
  cases v with
  | exact n => trivial
  | decimal d => exact h

theorem IsInRange.isStorable (h : v.IsInRange) (hplain : v.plain = .ok result) : v.IsStorable := by
  cases v with
  | exact n =>
    intro hlong
    have hvalue : (Value.exact n).IsTooLong := Text.Integer.isTooLong_iff.1 hlong
    cases hplain.symm.trans (plain_of_isTooLong hvalue)
  | decimal d => exact h

end Value

namespace Keypad

theorem lastEntries_of_le {entries : List StateFile.Entry} (h : entries.length ≤ historySize) :
    lastEntries entries = entries := by
  rw [lastEntries, Nat.sub_eq_zero_of_le h, List.drop_zero]

theorem length_lastEntries_le (entries : List StateFile.Entry) :
    (lastEntries entries).length ≤ historySize := by
  rw [lastEntries, List.length_drop]
  omega

theorem exists_write_of_save {k k' : Keypad} {archive : Archive} (harchive : k.archive = some archive)
    (h : k.save = .ok k') : ∃ t, StateFile.write k.desk k.history = .ok t ∧
      { k with archive := some { saves := archive.saves + 1, last := some t } } = k' := by
  simp only [save, harchive] at h
  exact map_eq_ok_iff.1 h

end Keypad

namespace CommandLine

open StateFile (Source Loaded Entry)

/-! ## Settings of the command line -/

namespace Options

variable (o : Options) (desk : Desk)

/-- The options take the place of the settings, and leave the registers alone. -/
theorem settle_eq : o.settle desk =
    { desk with
      precision := (o.precision.map .clamp).getD desk.precision
      angle := o.angle.getD desk.angle
      exact := if o.exact then .truth true else desk.exact } := by
  unfold settle
  cases o.precision <;> cases o.angle <;> cases o.exact <;> rfl

theorem settle_settle : o.settle (o.settle desk) = o.settle desk := by
  simp only [settle_eq]
  cases o.precision <;> cases o.angle <;> cases o.exact <;> rfl

theorem settle_setAnswer (v : Value) : o.settle (desk.setAnswer v) = (o.settle desk).setAnswer v := by
  rw [settle_eq, settle_eq]
  rfl

theorem isStorable_settle {desk : Desk} (h : desk.IsStorable) : (o.settle desk).IsStorable := by
  rw [settle_eq]
  refine ⟨?_, h.answer, h.memory⟩
  cases o.exact with
  | true => exact ⟨true, rfl⟩
  | false => exact h.exact

end Options

/-! ## What can be had again from the state file -/

/-- A run that is started from the state file, as the keypad has left it, gives the desk and the
history of the keypad again. -/
structure Recovers (o : Options) (source : Source) (k : Keypad) : Prop where
  start : ∃ archive, k.archive = some archive ∧
    start o (source.after archive.last) = .ok (.new k.desk k.history true, [])
  /-- The options have nothing left to change. -/
  settled : o.settle k.desk = k.desk
  storable : k.desk.IsStorable
  regular : ∀ entry ∈ k.history, entry.IsRegular
  short : k.history.length ≤ Keypad.historySize

/-- A keypad that shows a result, or on which nothing is typed. -/
def IsIdle (k : Keypad) : Prop := k.mode = .editing → k.buffer = [] ∧ k.subdisplay = []

variable {o : Options} {source : Source} {k : Keypad} {path t : Text} {loaded : Loaded}

theorem start_of_read (hpath : o.statePath? = some path) (hread : StateFile.read source = .ok loaded)
    (hnotice : loaded.notice = none) :
    start o source = .ok (.new (o.settle loaded.desk) loaded.history true, []) := by
  simp only [start, hpath, hread, Except.map, hnotice]
  rfl

theorem recovers_new (hpath : o.statePath? = some path)
    (hread : StateFile.read source = .ok loaded) (hnotice : loaded.notice = none) :
    Recovers o source (.new (o.settle loaded.desk) loaded.history true) := by
  obtain ⟨hstorable, hregular⟩ := StateFile.isStorable_of_read hread
  have hshort := Keypad.length_lastEntries_le loaded.history
  have hmem : ∀ entry ∈ Keypad.lastEntries loaded.history, entry.IsRegular :=
    fun entry hentry => hregular entry (List.mem_of_mem_drop hentry)
  have hlast : Keypad.lastEntries (Keypad.lastEntries loaded.history) =
      Keypad.lastEntries loaded.history := Keypad.lastEntries_of_le hshort
  exact
    { start := by
        refine ⟨{}, rfl, ?_⟩
        show start o source = _
        rw [start_of_read hpath hread hnotice]
        simp only [Keypad.new, hlast]
      settled := Options.settle_settle o loaded.desk
      storable := Options.isStorable_settle o hstorable
      regular := by simpa only [Keypad.new] using hmem
      short := by simpa only [Keypad.new] using hshort }

theorem Recovers.of_eq {k' : Keypad} (h : Recovers o source k) (hdesk : k'.desk = k.desk)
    (hhistory : k'.history = k.history) (harchive : k'.archive = k.archive) :
    Recovers o source k' where
  start := by rw [hdesk, hhistory, harchive]; exact h.start
  settled := by rw [hdesk]; exact h.settled
  storable := by rw [hdesk]; exact h.storable
  regular := by rw [hhistory]; exact h.regular
  short := by rw [hhistory]; exact h.short

theorem start_of_write (hpath : o.statePath? = some path) (hsettled : o.settle k.desk = k.desk)
    (hdesk : k.desk.IsStorable) (hregular : ∀ entry ∈ k.history, entry.IsRegular)
    (hwrite : StateFile.write k.desk k.history = .ok t) :
    start o (source.after (some t)) = .ok (.new k.desk k.history true, []) := by
  obtain ⟨t', hwrite', hread⟩ := StateFile.read_of_write hdesk hregular
  cases hwrite.symm.trans hwrite'
  have hsource : source.after (some t) = .contents t := StateFile.ofBytes_toUTF8 t
  rw [hsource, start_of_read hpath hread rfl, hsettled]

/-- **An evaluation** that is complete has written what it has changed. -/
theorem Recovers.settles {expression : Text} {struck : Struck} (hpath : o.statePath? = some path)
    (h : Recovers o source k) (hsettles : k.Settles expression struck) :
    Recovers o source struck.keypad ∧ IsIdle struck.keypad := by
  cases hsettles with
  | problem _ => exact ⟨h.of_eq rfl rfl rfl, fun _ => ⟨rfl, rfl⟩⟩
  | @value v result shown archive compute plain _ save =>
    refine ⟨?_, nofun⟩
    have hstorable : (k.desk.setAnswer v).IsStorable :=
      { exact := h.storable.exact
        answer := Value.IsInRange.isStorable
          (Desk.inRange_compute h.storable.answer.inRange expression v compute) plain
        memory := h.storable.memory }
    have hsettled : o.settle (k.desk.setAnswer v) = k.desk.setAnswer v := by
      rw [Options.settle_setAnswer, h.settled]
    have hregular : ∀ entry ∈ (Entry.ofTexts expression result :: k.history).take Keypad.historySize,
        entry.IsRegular := fun entry hentry =>
      List.forall_mem_cons.2 ⟨StateFile.Entry.isRegular_ofTexts _ _, h.regular⟩ entry
        (List.mem_of_mem_take hentry)
    obtain ⟨archive', harchive, -⟩ := h.start
    have hshowing : (k.showing expression v result shown).archive = some archive' := harchive
    obtain ⟨t, hwrite, hsaved⟩ := Keypad.exists_write_of_save hshowing save
    have hlast := congrArg Keypad.archive hsaved
    exact
      { start := ⟨_, hlast.symm, start_of_write hpath hsettled hstorable hregular hwrite⟩
        settled := hsettled
        storable := hstorable
        regular := hregular
        short := List.length_take_le _ _ }

/-! ## Lines -/

theorem Recovers.ofExpression {verbose : Bool} (hpath : o.statePath? = some path)
    (h : Recovers o source k) (ht : Text.isAllBlank t = false)
    (hfault : (Turn.ofExpression verbose k t).fault = none) :
    Recovers o source (Turn.ofExpression verbose k t).keypad ∧
      IsIdle (Turn.ofExpression verbose k t).keypad := by
  obtain ⟨text, subdisplay, hsuffix, htyping⟩ := typing_eq k t
  rw [Turn.ofExpression_eq, htyping] at hfault ⊢
  have hsettles := Turn.settles_of_fault_eq_none (Text.isAllBlank_of_suffix ht hsuffix) hfault
  have htyped : Recovers o source { k.edit text with subdisplay } := h.of_eq rfl rfl rfl
  rw [Turn.keypad_strike]
  exact htyped.settles hpath hsettles

/-- Between two lines the desk and the history can be had again. -/
theorem Recovers.turns {verbose : Bool} {lines : List Text} (hpath : o.statePath? = some path)
    (h : Recovers o source k) (hidle : IsIdle k)
    (hlines : ∀ line ∈ lines, (Text.trim line).head? ≠ some ':')
    (hfault : (turns verbose k lines).fault = none) :
    Recovers o source (CommandLine.turns verbose k lines).keypad ∧
      IsIdle (CommandLine.turns verbose k lines).keypad := by
  induction lines generalizing k with
  | nil => exact ⟨h, hidle⟩
  | cons line rest ih =>
    have hline := fault_ofLine_of_turns hfault
    rw [turns_cons hline] at hfault ⊢
    rw [List.forall_mem_cons] at hlines
    rw [Line.ofText_eq hlines.1] at hline hfault ⊢
    by_cases hblank : Text.trim line = []
    · rw [if_pos hblank] at hfault ⊢
      exact ih h hidle hlines.2 hfault
    · rw [if_neg hblank] at hline hfault ⊢
      obtain ⟨hturn, hturnIdle⟩ := h.ofExpression hpath (Text.isAllBlank_trim hblank) hline
      exact ih hturn hturnIdle hlines.2 hfault

theorem turns_append {verbose : Bool} {lines more : List Text}
    (hfault : (turns verbose k lines).fault = none) :
    turns verbose k (lines ++ more) =
      { turns verbose (turns verbose k lines).keypad more with
        prints := (turns verbose k lines).prints ++
          (turns verbose (turns verbose k lines).keypad more).prints } := by
  induction lines generalizing k with
  | nil => rfl
  | cons line rest ih =>
    have hline := fault_ofLine_of_turns hfault
    rw [turns_cons hline] at hfault
    rw [List.cons_append, turns_cons hline, turns_cons hline, ih hfault]
    simp only [List.append_assoc]

/-! ## Starting over -/

/-- What a turn shows to the outside: what it prints, what it has written and the fault. -/
def Turn.seen (turn : Turn) : List Print × Option Archive × Option Fault :=
  (turn.prints, turn.keypad.archive, turn.fault)

/-- An expression that does not carry on from a result is typed as on a new keypad. -/
theorem typing_new {archive : Archive} (hidle : IsIdle k) (harchive : k.archive = some archive)
    (hshort : k.history.length ≤ Keypad.historySize) (ht : ¬ carriesOn t) :
    typing k t = (typing (.new k.desk k.history true) t).after archive := by
  have hhistory : Keypad.lastEntries k.history = k.history := Keypad.lastEntries_of_le hshort
  cases hmode : k.mode with
  | editing =>
    obtain ⟨hbuffer, hsubdisplay⟩ := hidle hmode
    simp [typing, hmode, Keypad.type, Keypad.new, Keypad.edit, Keypad.after, Archive.after,
      hhistory, hbuffer, hsubdisplay, harchive]
  | evaluated =>
    simp [typing, hmode, ht, Keypad.type, Keypad.new, Keypad.clear, Keypad.edit, Keypad.after,
      Archive.after, hhistory, harchive]

/-- Lines whose first expression does not carry on from a result look the same from a new keypad. -/
theorem seen_turns_new {verbose : Bool} {archive : Archive} {lines : List Text} (hidle : IsIdle k)
    (harchive : k.archive = some archive) (hshort : k.history.length ≤ Keypad.historySize)
    (hlines : ∀ line ∈ lines, (Text.trim line).head? ≠ some ':')
    (hfresh : ∀ t ∈ (expressions lines).head?, ¬ carriesOn t) :
    (turns verbose k lines).seen =
      ((turns verbose (.new k.desk k.history true) lines).after archive).seen := by
  induction lines with
  | nil => simp [turns, Turn.seen, Turn.after, Keypad.after, Keypad.new, Archive.after, harchive]
  | cons line rest ih =>
    rw [List.forall_mem_cons] at hlines
    have hline := Line.ofText_eq hlines.1
    by_cases hblank : Text.trim line = []
    · rw [if_pos hblank] at hline
      have hrest : ∀ t ∈ (expressions rest).head?, ¬ carriesOn t := by
        simpa [expressions, hblank] using hfresh
      have hskip : ∀ k, turns verbose k (line :: rest) = turns verbose k rest := fun k => by
        rw [turns, hline]
        rfl
      rw [hskip, hskip]
      exact ih hlines.2 hrest
    · rw [if_neg hblank] at hline
      have ht : ¬ carriesOn (Text.trim line) := hfresh _ (by simp [expressions, hblank])
      rw [← turns_after]
      have hturn : ∀ k, Turn.ofLine verbose k (.ofText line) =
          Turn.strike verbose (typing k (Text.trim line)) .evaluate Turn.showBuffer := fun k => by
        rw [hline]
        rfl
      rw [turns, turns, hturn, hturn, typing_after, ← typing_new hidle harchive hshort ht]

/-! ## Runs -/

/-- What a run works through: the expressions of the command line, or the input if there are none. -/
structure Feed where
  expressions : Option (List Text) := none
  input : Text := []

def Feed.lines (feed : Feed) : List Text := feed.expressions.getD (Text.lines feed.input)

def Options.runOn (o : Options) (source : Source) (feed : Feed) : Transcript :=
  run { o with expressions := feed.expressions } source feed.input

/-- A run from a state file that is loaded works through its lines with nothing to tell before. -/
theorem runOn_eq {feed : Feed} (haction : o.action = .calculate)
    (hstart : start o source = .ok (k, [])) :
    o.runOn source feed = calculate o k [] feed.lines := by
  have hcalculate : ∀ o : Options, o.action = .calculate → start o source = .ok (k, []) →
      run o source feed.input = calculate o k [] (o.lines feed.input) := by
    intro o haction hstart
    simp only [run, haction, hstart]
  exact hcalculate { o with expressions := feed.expressions } haction hstart

/-- A calculation that goes on from where another one has stopped, if more lines look the same there
as from its keypad. -/
theorem calculate_append {k' : Keypad} {archive : Archive} {lines more : List Text}
    (hfault : (turns o.verbose k lines).fault = none)
    (harchive : (turns o.verbose k lines).keypad.archive = some archive) (hkeeps : k'.keepsFile)
    (hseen : (turns o.verbose (turns o.verbose k lines).keypad more).seen =
      ((turns o.verbose k' more).after archive).seen) :
    let first := calculate o k [] lines
    let second := calculate o k' [] more
    let whole := calculate o k [] (lines ++ more)
    whole.prints = first.prints ++ second.prints ∧ whole.fault = second.fault ∧
      whole.saved = second.saved.or first.saved := by
  intro first second whole
  have hkept := (keepsFile_turns o.verbose k' more).trans hkeeps
  obtain ⟨last, hlast⟩ := Option.isSome_iff_exists.1 hkept
  simp only [Turn.seen, Turn.after, Keypad.after, hlast, Prod.mk.injEq] at hseen
  obtain ⟨hprints, harchives, hfaults⟩ := hseen
  have hwhole : whole = calculate o k [] (lines ++ more) := rfl
  rw [calculate, turns_append hfault, hprints, harchives, hfaults] at hwhole
  have hsecond : second.saved = last.last := congrArg (Option.bind · Archive.last) hlast
  have hfirst : first.saved = archive.last := congrArg (Option.bind · Archive.last) harchive
  rw [hsecond, hfirst, hwhole]
  exact ⟨rfl, rfl, rfl⟩

/-- **Stopping and resuming** does not show. One run works through lines that are no commands, and
another one through more lines, from the state file that the first one leaves; the first expression
of the second does not carry on from a result. Then they print together what one run on all the lines
prints, end alike and leave the same state file, if there was none in the beginning or one that could
be loaded, and if no fault stops the first of the two. As everywhere, a line is taken without the
blanks around it. -/
theorem run_resume {a b ab : Feed} (haction : o.action = .calculate)
    (hpath : o.statePath? = some path) (hread : StateFile.read source = .ok loaded)
    (hnotice : loaded.notice = none) (hfeed : ab.lines = a.lines ++ b.lines)
    (hlines : ∀ line ∈ ab.lines, (Text.trim line).head? ≠ some ':')
    (hfresh : ∀ t ∈ (expressions b.lines).head?, ¬ carriesOn t)
    (hfault : (o.runOn source a).fault = none) :
    let first := o.runOn source a
    let second := o.runOn (source.after first.saved) b
    let whole := o.runOn source ab
    whole.prints = first.prints ++ second.prints ∧ whole.fault = second.fault ∧
      source.after whole.saved = (source.after first.saved).after second.saved := by
  rw [hfeed, List.forall_mem_append] at hlines
  have hstart := start_of_read hpath hread hnotice
  generalize hk : Keypad.new (o.settle loaded.desk) loaded.history true = k at hstart
  have hfirst : o.runOn source a = calculate o k [] a.lines := runOn_eq haction hstart
  have hwhole : o.runOn source ab = calculate o k [] (a.lines ++ b.lines) :=
    hfeed ▸ runOn_eq haction hstart
  rw [hfirst] at hfault
  have hnew : Recovers o source k := hk ▸ recovers_new hpath hread hnotice
  have hnewIdle : IsIdle k := hk ▸ fun _ => ⟨rfl, rfl⟩
  obtain ⟨hrecovers, hidle⟩ := hnew.turns hpath hnewIdle hlines.1 hfault
  obtain ⟨archive, harchive, hrestart⟩ := hrecovers.start
  have hseen := @seen_turns_new _ o.verbose archive b.lines hidle harchive hrecovers.short hlines.2
    hfresh
  have hsecond := @runOn_eq o (source.after archive.last) _ b haction hrestart
  have hsaved : (calculate o k [] a.lines).saved = archive.last :=
    congrArg (Option.bind · Archive.last) harchive
  obtain ⟨hprints, hfaults, hsaves⟩ := calculate_append hfault harchive rfl hseen
  simp only [hfirst, hwhole, hsaved, hsecond]
  exact ⟨hprints, hfaults, by rw [hsaves, hsaved, Source.after_or]⟩

/-- The last evaluation before the stop fails, the lines after it start with a blank one, and only the
expression behind that carries on from a result. -/
theorem run_resume_problem :
    let o : Options := { state := some (Text.ofString "calc.json"), exact := true }
    let a : Feed := { input := Text.ofString "5!\n+ans\n/0\n" }
    let b : Feed := { input := Text.ofString "\n ans*2\n+1" }
    let ab : Feed := { input := Text.ofString "5!\n+ans\n/0\n\n ans*2\n+1" }
    let left := Source.absent.after (o.runOn .absent a).saved
    (o.runOn .absent ab).prints = [.output (Text.ofString "120"), .output (Text.ofString "240"),
      .errors (Text.ofString "Math Error"), .output (Text.ofString "480"),
      .output (Text.ofString "481")] ∧
    (o.runOn .absent ab).prints = (o.runOn .absent a).prints ++ (o.runOn left b).prints ∧
    (o.runOn .absent ab).fault = (o.runOn left b).fault ∧
    Source.absent.after (o.runOn .absent ab).saved = left.after (o.runOn left b).saved := by
  intro o a b ab left
  have hfeed : ab.lines = a.lines ++ b.lines := by decide +kernel
  have hlines : ∀ line ∈ ab.lines, (Text.trim line).head? ≠ some ':' := by decide +kernel
  have hfresh : ∀ t ∈ (expressions b.lines).head?, ¬ carriesOn t := by decide +kernel
  have hfault : (o.runOn .absent a).fault = none := by decide +kernel
  have hresume := @run_resume o .absent (Text.ofString "calc.json") {} a b ab rfl rfl rfl rfl hfeed
    hlines hfresh hfault
  exact ⟨by decide +kernel, hresume⟩

end CommandLine

end DeskCalculator
