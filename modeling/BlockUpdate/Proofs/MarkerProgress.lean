import BlockUpdate.Proofs.CleanStart
import BlockUpdate.Proofs.LastMarker
import BlockUpdate.Proofs.Ways
import Mathlib.Order.WithBot

/-!
# The marker over several sessions

A session that stops leaves the marker of a command of its script, and one that resumes it skips
that command and those before it. So the index of the marker grows, from command to command and from
session to session, until one of them succeeds and removes it.

- `Session.markerIndex`: the index of the marker in a tree.
- `Session.LeftBy`: trees that a session of a script leaves when it stops.
- **`FileM.makeDirectories_again`**: making a directory fails again where it has failed.
- **`barred_of_prepare`**: where a fresh session does not get to its commands, no session that
  resumes it does.
- **`continues_of_fresh`**, **`Continues.resumed`**: what the first session leaves, and the others.
- **`Session.runScript_marker`**: what the marker is after a session, and over several.
-/

namespace BlockUpdate

open FileTree

namespace FileM

variable {t t' : FileTree} {parts : List String} {place : Place} {p : Path} {e : OsError}

/-! ## What fails again -/

theorem makeDirectoriesFrom_again (h : outcome (makeDirectoriesFrom parts place) t = (.error e, t')) :
    Grown t t' ∧ outcome (makeDirectoriesFrom parts place) t' = (.error e, t') := by
  -- the directories that were made are there the second time
  induction parts generalizing place t with
  | nil => cases congrArg Prod.fst h
  | cons part rest ih =>
    rw [makeDirectoriesFrom] at h ⊢
    rcases hnext : t.follow [part] place with e' | next
    · rw [outcome_bind_of_error (e := e') (t := t) (by rw [outcome_fileLook, hnext])] at h
      obtain ⟨he, rfl⟩ := Prod.ext_iff.mp h
      refine ⟨Grown.refl t, ?_⟩
      rw [outcome_bind_of_error (e := e') (t := t) (by rw [outcome_fileLook, hnext])]
      exact h
    rw [outcome_bind_of_ok (a := next) (t := t) (by rw [outcome_fileLook, hnext]),
      outcome_get_bind] at h
    have hagain : Grown t t' → t'.get? next = some .directory →
        outcome (makeDirectoriesFrom rest next) t' = (.error e, t') →
        outcome (makeDirectoriesFrom (part :: rest) place) t' = (.error e, t') := by
      intro hgrown hdir hrest
      rw [makeDirectoriesFrom, outcome_bind_of_ok (a := next) (t := t') (by
        rw [outcome_fileLook, follow_mono (fun q => hgrown.directory) hnext]), outcome_get_bind,
        hdir]
      exact hrest
    rcases hfound : t.get? next with _ | data | _
    · rw [hfound] at h
      change outcome (modify (·.put next .directory) >>= fun _ => makeDirectoriesFrom rest next) t =
        _ at h
      rw [outcome_bind_of_ok (outcome_modify _ t)] at h
      obtain ⟨hgrown, hrest⟩ := ih h
      have hput : (t.put next .directory).get? next = some .directory := by
        rw [get?_put t (ne_nil_of_get?_eq_none hfound), if_pos rfl]
      exact ⟨(Grown.put hfound).trans hgrown,
        hagain ((Grown.put hfound).trans hgrown) (hgrown.directory hput) hrest⟩
    · have hsame : t' = t := by
        rw [hfound] at h
        change outcome (if rest.isEmpty = true then throw _ else throw _) t = _ at h
        split_ifs at h <;> exact (congrArg Prod.snd h).symm
      subst hsame
      refine ⟨Grown.refl t', ?_⟩
      rw [outcome_bind_of_ok (a := next) (t := t') (by rw [outcome_fileLook, hnext]),
        outcome_get_bind]
      exact h
    · rw [hfound] at h
      obtain ⟨hgrown, hrest⟩ := ih h
      exact ⟨hgrown, hagain hgrown (hgrown.directory hfound) hrest⟩

/-- **Making a directory fails again** where it has failed, and makes nothing more. -/
theorem makeDirectories_again (h : outcome (makeDirectories p) t = (.error e, t')) :
    Grown t t' ∧ outcome (makeDirectories p) t' = (.error e, t') := by
  rw [makeDirectories] at h ⊢
  by_cases hclean : p.parts.any (·.contains '\x00') = true
  · rw [if_pos hclean] at h ⊢
    obtain rfl := congrArg Prod.snd h
    exact ⟨Grown.refl t, h⟩
  · rw [if_neg hclean] at h ⊢
    exact makeDirectoriesFrom_again h

/-- A directory that was there can be made again. -/
theorem makeDirectories_of_pruned {name : String} (h : t.Leads p.below place)
    (hname : PlainName name) (hsize : name.utf8ByteSize ≤ maxName)
    (hdir : t.get? (place ++ [name]) = some .directory) (hpruned : Pruned t t') :
    ∃ t₁, outcome (makeDirectories (p.join name)) t' = (.ok (), t₁) := by
  have hclean : (p.join name).parts.any (·.contains '\x00') = false := by
    rw [Path.parts_join p hname.noSlash, List.any_append, h.clean]
    simp [hname.noNul]
  have hlast : [name].filter (· ≠ "") = [name] :=
    List.filter_cons_of_pos (by simpa using hname.ne_empty)
  have hfollow := (follow_filter_iff (get?_nil t) h.directory).mpr h.follow
  obtain ⟨u, htu, -, hplace, hrun⟩ :=
    makeDirectoriesFrom_append_pruned hfollow h.directory hpruned (get?_nil t') [name]
  rw [makeDirectories, hclean, Path.parts_join p hname.noSlash, List.filter_append, hlast]
  show ∃ t₁, outcome (makeDirectoriesFrom (p.below.filter (· ≠ "") ++ [name]) []) t' = _
  rw [hrun, makeDirectoriesFrom, outcome_bind_of_ok (a := place ++ [name]) (t := u) (by
    rw [outcome_fileLook, follow_name hname hplace, if_neg (Nat.not_lt.mpr hsize)]),
    outcome_get_bind]
  rcases htu (place ++ [name]) with hsame | hnone
  · rw [hsame, hdir]
    exact ⟨u, rfl⟩
  · rw [hnone]
    exact ⟨_, outcome_bind_of_ok (outcome_modify _ u) _⟩

end FileM

namespace Session

open SessionOptions

variable {P : Primitives} {o : SessionOptions} {place : Place} {commands lines : List String}
  {inputs : ScriptInputs} {skip : RetrySkip} {r : Run} {w w' : World} {t t' : FileTree} {k : Nat}

/-! ## A stash that cannot be opened -/

/-- A stash that is not wiped is opened by making its directory. -/
theorem open_kept_eq_error {base : Path} {wipe : Bool} (hkept : (t.isDirectory base && wipe) = false)
    {e : StashError} :
    outcome (Stash.open_ base wipe) t = (.error e, t') ↔
      ∃ e', outcome (FileM.makeDirectories base) t = (.error e', t') ∧ .os e' = e := by
  have hopen : outcome (Stash.open_ base wipe) t =
      outcome (FileM.mapError StashError.os (FileM.makeDirectories base >>= fun _ =>
        (pure ⟨base, !t.isDirectory base || wipe⟩ : FileM OsError Stash))) t := by
    rw [Stash.open_, outcome_fileMapError, outcome_fileMapError, outcome_get_bind]
    simp only [hkept, Bool.false_eq_true, if_false]
  rw [hopen, outcome_fileMapError, outcome_bind]
  rcases outcome (FileM.makeDirectories base) t with ⟨e' | ⟨⟩, t₁⟩
  · simp only [Prod.mk.injEq, mapError_eq_error, Except.error.injEq]
    constructor
    · rintro ⟨⟨_, rfl, he⟩, rfl⟩
      exact ⟨e', ⟨rfl, rfl⟩, he⟩
    · rintro ⟨_, ⟨rfl, rfl⟩, he⟩
      exact ⟨⟨e', rfl, he⟩, rfl⟩
  · constructor
    · intro h
      cases congrArg Prod.fst h
    · rintro ⟨_, h, -⟩
      cases congrArg Prod.fst h

/-- **A stash that is there can be wiped.** -/
theorem open_wiped_of_isDirectory {base : Path} {name : String} (hslash : '/' ∉ name.toList)
    (hlong : 4 ≤ name.toList.length) (h : t.isDirectory (base.join name) = true) :
    ∃ s t', outcome (Stash.open_ (base.join name) true) t = (.ok s, t') := by
  obtain ⟨q, hlocate, hdir⟩ := isDirectory_iff.mp h
  obtain ⟨place, rfl, hleads, hname, hsize⟩ :=
    leads_of_join hslash hlong (leads_of_locate hlocate hdir)
  have hremove := removeDirectory_eq_ok.mpr ⟨_, hlocate, hdir, rfl⟩
  obtain ⟨t₁, hmake⟩ := FileM.makeDirectories_of_pruned hleads hname hsize hdir
    (pruned_eraseBelow (t := t) (by simp : place ++ [name] ≠ []))
  exact ⟨_, t₁, open_eq_ok.mpr ⟨_, by rw [h]; exact hremove, hmake, rfl⟩⟩

/-- **A stash that was to be wiped and could not be opened** cannot be opened later. -/
theorem open_kept_of_wiped {base : Path} {name : String} (hslash : '/' ∉ name.toList)
    (hlong : 4 ≤ name.toList.length) {e : StashError}
    (h : outcome (Stash.open_ (base.join name) true) t = (.error e, t')) :
    Grown t t' ∧ outcome (Stash.open_ (base.join name) false) t' = (.error e, t') := by
  cases hthere : t.isDirectory (base.join name) with
  | true =>
    obtain ⟨s, t₁, hopen⟩ := open_wiped_of_isDirectory hslash hlong hthere
    rw [h] at hopen
    cases congrArg Prod.fst hopen
  | false =>
    obtain ⟨e', hmake, rfl⟩ := (open_kept_eq_error (by rw [hthere]; rfl)).mp h
    obtain ⟨hgrown, hagain⟩ := FileM.makeDirectories_again hmake
    exact ⟨hgrown, (open_kept_eq_error (Bool.and_false _)).mpr ⟨e', hagain, rfl⟩⟩

/-! ## Sessions that do not get to their commands -/

/-- No session with these options gets to its commands, and none changes a file. -/
def Barred (o : SessionOptions) (lines : List String) (t : FileTree) : Prop :=
  ∀ (w : World) (inputs : ScriptInputs), w.files = t →
    ∃ e, outcome (prepare o lines inputs) w = (.error e, w)

/-- **Where a fresh session does not get to its commands**, no session that resumes it does. -/
theorem barred_of_prepare (hwrite : o.canWrite = true) (hretry : o.retry = false)
    (hplain : o.PlainPartition) (hwell : w.files.WellFormed) {e : TransferError}
    (h : outcome (prepare o lines inputs) w = (.error e, w')) :
    Barred { o with retry := true } lines w'.files := by
  obtain ⟨t, hfails, rfl⟩ := prepare_eq_error.mp h
  intro v inputs' (hv : v.files = t)
  -- it fails where the fresh session failed, and nothing more is made on the way to there
  suffices hagain : ∃ e', FailsEarly { o with retry := true } lines inputs' v e' v.files by
    obtain ⟨e', hagain⟩ := hagain
    exact ⟨e', prepare_eq_error.mpr ⟨v.files, hagain, rfl⟩⟩
  have hopens : openStash { o with retry := true } = Stash.open_ o.stashDir false :=
    openStash_eq _ hwrite
  cases hfails with
  | header hheader => exact ⟨_, .header hheader⟩
  | workDir hheader hmake =>
    subst hv
    exact ⟨_, .workDir hheader (FileM.makeDirectories_again hmake).2⟩
  | stash hheader hmake hopen =>
    subst hv
    obtain ⟨-, -, place, hplace⟩ := FileM.makeDirectories_eq_ok hmake
    rw [openStash_eq o hwrite, hretry] at hopen
    have hslash : '/' ∉ o.stashName.toList := hplain.noSlash (by decide)
    obtain ⟨hgrown, hagain⟩ := open_kept_of_wiped hslash (by simp [stashName]) hopen
    exact ⟨_, .stash hheader
      (FileM.makeDirectories_of_leads (hplace.mono fun q => hgrown.directory)) (hopens ▸ hagain)⟩
  | @skip header used s _ t₁ t₂ _ hheader hmake hopen hskip =>
    obtain ⟨-, hwell₁, hplace⟩ := FileM.makeDirectories_eq_ok hmake
    obtain ⟨hbase, place, hleads, hsited, hname, -⟩ :=
      openStash_opens hplain (hwell₁ hwell) hplace hopen
    have hmarkerName : PlainName o.markerName :=
      plainName_of_plainName hplain hname (by decide) (by decide) (by decide)
    have hremove : ∀ t', outcome (FileM.removeIfPresent o.markerPath) t₂ = (.ok (), t') ↔ _ :=
      fun t' => FileM.removeIfPresent_eq_ok hleads hmarkerName hplain.markerPath_parts
    -- the marker could not be removed, so nothing has changed and it cannot be read
    obtain ⟨e', hload⟩ : ∃ e', RetryMarker.load t₂ o.markerPath = .error e' := by
      rcases hload : RetryMarker.load t₂ o.markerPath with e' | marker
      · exact ⟨e', rfl⟩
      · obtain ⟨hsize, hdir⟩ := marker_of_load hplain hleads hmarkerName hload
        rw [(findSkip_fresh hretry hwrite).mpr ⟨(hremove _).mpr ⟨hsize, hdir, rfl⟩, rfl⟩] at hskip
        cases congrArg Prod.fst hskip
    obtain rfl : t₂ = v.files := by
      rw [hv]
      rw [findSkip, hretry, hwrite] at hskip
      rcases outcome_bind_eq_error.mp hskip with hfailed | ⟨_, _, -, hpure⟩
      · rw [RetryMarker.remove, outcome_fileMapError, Prod.ext_iff, mapError_eq_error] at hfailed
        obtain ⟨⟨e₁, hfailed, -⟩, htree⟩ := hfailed
        exact (FileM.removeIfPresent_eq_error (Prod.ext hfailed htree)).symm
      · cases congrArg Prod.fst hpure
    have hthere : v.files.isDirectory o.stashDir = true := by
      rw [← baseDir_of_canWrite hwrite, ← hbase]
      exact isDirectory_iff.mpr
        ⟨_, hsited.leads.locate_self hsited.named, hsited.leads.directory⟩
    refine ⟨e', .skip hheader (FileM.makeDirectories_of_leads (leads_below_iff.mp hleads))
      (hopens ▸ Stash.open_of_isDirectory hthere) ?_⟩
    rw [findSkip_resumed rfl]
    exact Prod.ext (congrArg (Except.map _) hload) rfl
  | machine _ _ _ _ hmachine =>
    rw [startMachine, hretry] at hmachine
    cases hmachine

/-! ## What a session leaves -/

/-- A tree that a session of a script leaves when it stops: the marker is that of one of the
script's commands, if there is one. -/
structure LeftBy (o : SessionOptions) (commands : List String) (place : Place)
    (last : Option Command) (t : FileTree) : Prop where
  work : o.Workspace t place
  marker : t.get? (o.markerAt place) = last.map markerFile
  command : ∀ c ∈ last, instruction? commands c.index = some c

/-- Where a command stands, with nothing before all of them. -/
def indexOf : Option Command → WithBot Nat
  | none => ⊥
  | some c => WithBot.some c.index

/-- The index of the marker in a tree, if one can be read. -/
def markerIndex (o : SessionOptions) (t : FileTree) : WithBot Nat :=
  match RetryMarker.load t o.markerPath with
  | .ok (some marker) => WithBot.some marker.index
  | _ => ⊥

theorem index_lt_length {c : Command} (hc : instruction? commands k = some c) :
    c.index < commands.length := by
  rw [(index_of_instruction? hc).1]
  exact lt_length_of_instruction? hc

namespace LeftBy

variable {last : Option Command}

/-- **The marker that is read back.** -/
theorem load (h : LeftBy o commands place last t) (hplain : o.PlainPartition)
    (hsize : commands.length ≤ Decimal.limit64) :
    RetryMarker.load t o.markerPath = .ok (last.map RetryMarker.ofCommand) := by
  cases last with
  | none =>
    refine RetryMarker.load_of_noEntry ?_
    have hnone := h.marker
    rw [h.work.leads.node h.work.markerPlain hplain.markerPath_parts,
      if_neg (Nat.not_lt.mpr h.work.markerSize)]
    rw [markerAt] at hnone
    rw [hnone]
    rfl
  | some c =>
    have hlt := index_lt_length (h.command c rfl)
    exact RetryMarker.load_of_file h.work.leads h.work.markerPlain hplain.markerPath_parts
      h.work.markerSize (Nat.lt_of_lt_of_le hlt hsize) h.marker

theorem markerIndex_eq (h : LeftBy o commands place last t) (hplain : o.PlainPartition)
    (hsize : commands.length ≤ Decimal.limit64) : markerIndex o t = indexOf last := by
  rw [markerIndex, h.load hplain hsize]
  cases last <;> rfl

/-- **In its own script**, the marker is found where its command stands. -/
theorem resolve (h : LeftBy o commands place last t) :
    RetrySkip.resolve (last.map RetryMarker.ofCommand) commands = ⟨last.map Command.index⟩ := by
  cases last with
  | none => rfl
  | some c =>
    obtain ⟨-, line, hline, htext⟩ := index_of_instruction? (h.command c rfl)
    rw [Option.map_some, RetryMarker.ofCommand, htext]
    exact RetrySkip.resolve_self hline

/-- The options count only as far as they say where the files are. -/
theorem withOptions (h : LeftBy o commands place last t) {o' : SessionOptions}
    (hpartition : o'.partition = o.partition) (hworkDir : o'.workDir = o.workDir) :
    LeftBy o' commands place last t := by
  cases o
  cases o'
  obtain rfl := hpartition
  obtain rfl := hworkDir
  exact ⟨⟨h.work.leads, h.work.stash, h.work.stashPlain, h.work.markerPlain, h.work.markerSize,
    h.work.marker⟩, h.marker, h.command⟩

end LeftBy

/-! ## One session -/

/-- What a session begins with that skips up to the marker it has found. -/
structure Begun (o : SessionOptions) (place : Place) (last : Option Command) (p : Prepared) :
    Prop where
  settled : o.Settled place p.machine
  skip : p.skip = ⟨last.map Command.index⟩
  marker : p.machine.files.get? (o.markerAt place) = last.map markerFile
  command : ∀ c ∈ last, instruction? p.commands c.index = some c

namespace Begun

variable {p : Prepared} {last : Option Command}

/-- The command whose marker is there when a session is done with some lines. -/
def lastAt (last : Option Command) (p : Prepared) (k : Nat) : Option Command :=
  (lastSaved? p.skip p.commands k).or last

theorem indexOf_lastAt_le_succ (h : Begun o place last p) (k : Nat) :
    indexOf (lastAt last p k) ≤ indexOf (lastAt last p (k + 1)) := by
  rw [lastAt, lastAt, lastSaved?_succ]
  rcases hfound : (instruction? p.commands k).filter (Marks p.skip) with _ | c
  · rw [hfound, Option.none_or]
  · rw [hfound, Option.some_or, Option.some_or]
    obtain ⟨hc, hmarks⟩ := Option.filter_eq_some_iff.mp hfound
    obtain ⟨hindex, -⟩ := index_of_instruction? hc
    have hskip : p.skip.skips c = false := (of_decide_eq_true hmarks).2
    -- the marker before is that of an earlier line, or of a line that is skipped
    rcases hsaved : lastSaved? p.skip p.commands k with _ | d
    · rw [Option.none_or]
      cases last with
      | none => exact bot_le
      | some d =>
        refine WithBot.coe_le_coe.mpr (Nat.le_of_lt ?_)
        rw [h.skip, RetrySkip.skips] at hskip
        simpa [(of_decide_eq_true hmarks).1] using hskip
    · obtain ⟨j, hj, hd, -⟩ := lastSaved?_eq_some hsaved
      obtain ⟨hindex', -⟩ := index_of_instruction? hd
      refine WithBot.coe_le_coe.mpr ?_
      omega

/-- **The index of the marker grows** from line to line. -/
theorem monotone_indexOf (h : Begun o place last p) :
    Monotone fun k => indexOf (lastAt last p k) :=
  monotone_nat_of_le_succ h.indexOf_lastAt_le_succ

theorem indexOf_lastAt_zero (_ : Begun o place last p) :
    indexOf (lastAt last p 0) = indexOf last := by
  rw [lastAt, lastSaved?, Option.none_or]

theorem command_lastAt (h : Begun o place last p) (k : Nat) :
    ∀ c ∈ lastAt last p k, instruction? p.commands c.index = some c := by
  intro c hc
  rw [lastAt] at hc
  rcases hsaved : lastSaved? p.skip p.commands k with _ | d <;> rw [hsaved] at hc
  · exact h.command c hc
  · obtain rfl := Option.some.inj hc
    obtain ⟨j, -, hd, -⟩ := lastSaved?_eq_some hsaved
    rw [(index_of_instruction? hd).1]
    exact hd

theorem leftBy_of_marker (h : Begun o place last p) (hwork : o.Workspace t place)
    (hmarker : t.get? (o.markerAt place) =
      ((lastSaved? p.skip p.commands k).map markerFile).or
        (p.machine.files.get? (o.markerAt place))) :
    LeftBy o p.commands place (lastAt last p k) t := by
  refine ⟨hwork, ?_, h.command_lastAt k⟩
  rw [hmarker, h.marker, lastAt]
  cases lastSaved? p.skip p.commands k <;> rfl

/-- **Between two lines.** -/
theorem leftBy_of_reaches (h : Begun o place last p) (hplain : o.PlainPartition)
    (hwrite : o.canWrite = true) (hreaches : Reaches P o lines inputs w k p r) :
    LeftBy o p.commands place (lastAt last p k) r.machine.files := by
  obtain ⟨w₁, -, hrun⟩ := hreaches
  obtain ⟨hsettled, hmarker⟩ := settled_runLines hplain hwrite h.settled hrun
  exact h.leftBy_of_marker hsettled.work hmarker

/-- **At the end**, if the session does not succeed. -/
theorem fails (h : Begun o place last p) (hplain : o.PlainPartition) (hwrite : o.canWrite = true)
    {w₁ : World} (hprepare : outcome (prepare o lines inputs) w = (.ok p, w₁)) {e : TransferError}
    (hfails : outcome (runScript P o lines inputs) w = (.error e, w')) :
    ∃ k r, StopsAt P o lines inputs w k p r ∧
      LeftBy o p.commands place (lastAt last p k) w'.files := by
  obtain ⟨r', ⟨hrun, rfl⟩ | ⟨hrun, hclean⟩⟩ := runScript_error_cases hprepare hfails
  · obtain ⟨k, r, hstops, hwork, hmarker⟩ :=
      stopsAt_of_runLines hplain hwrite hprepare h.settled hrun
    exact ⟨k, r, hstops, h.leftBy_of_marker hwork hmarker⟩
  · rw [← List.take_length (l := p.commands)] at hrun
    have hend := (settled_runLines hplain hwrite h.settled hrun).1
    have hbase : p.machine.stash.base = o.stashDir :=
      h.settled.lodged.base.trans (baseDir_of_canWrite hwrite)
    obtain ⟨w₂, hcleaned, -⟩ := cleanUp_workspace hwrite hplain (w := r'.world) hend.work hbase
    rw [hcleaned] at hclean
    cases congrArg Prod.fst hclean

/-- **The index of the marker grows** during a session, however it ends. -/
theorem le_of_reaches (h : Begun o place last p) (hplain : o.PlainPartition)
    (hwrite : o.canWrite = true) (hsize : p.commands.length ≤ Decimal.limit64) {i j : Nat}
    {r r' : Run} (hij : i ≤ j) (hi : Reaches P o lines inputs w i p r)
    (hj : Reaches P o lines inputs w j p r') :
    indexOf last ≤ markerIndex o r.machine.files ∧
      markerIndex o r.machine.files ≤ markerIndex o r'.machine.files := by
  rw [(h.leftBy_of_reaches hplain hwrite hi).markerIndex_eq hplain hsize,
    (h.leftBy_of_reaches hplain hwrite hj).markerIndex_eq hplain hsize, ← h.indexOf_lastAt_zero]
  exact ⟨h.monotone_indexOf (Nat.zero_le i), h.monotone_indexOf hij⟩

/-- **The index of the marker at the end** of a session that does not succeed. -/
theorem le_of_fails (h : Begun o place last p) (hplain : o.PlainPartition)
    (hwrite : o.canWrite = true) (hsize : p.commands.length ≤ Decimal.limit64) {w₁ : World}
    (hprepare : outcome (prepare o lines inputs) w = (.ok p, w₁)) {e : TransferError}
    (hfails : outcome (runScript P o lines inputs) w = (.error e, w')) :
    (∃ last', LeftBy o p.commands place last' w'.files) ∧
      indexOf last ≤ markerIndex o w'.files ∧
      ∀ j r, Reaches P o lines inputs w j p r →
        markerIndex o r.machine.files ≤ markerIndex o w'.files := by
  obtain ⟨k, r₀, hstops, hleft⟩ := h.fails hplain hwrite hprepare hfails
  rw [hleft.markerIndex_eq hplain hsize, ← h.indexOf_lastAt_zero]
  refine ⟨⟨_, hleft⟩, h.monotone_indexOf (Nat.zero_le k), fun j r hreaches => ?_⟩
  rw [(h.leftBy_of_reaches hplain hwrite hreaches).markerIndex_eq hplain hsize]
  refine h.monotone_indexOf (Nat.not_lt.mp fun hlt => ?_)
  obtain ⟨w₂, hprepare', hrun⟩ := hreaches
  obtain ⟨r₁, hfurther⟩ := reached_of_le hlt hrun
  exact hstops.ends r₁ ⟨w₂, hprepare', hfurther⟩

end Begun

theorem prepared_of_reaches {p p' : Prepared} {w₁ : World}
    (hprepare : outcome (prepare o lines inputs) w = (.ok p, w₁))
    (hreaches : Reaches P o lines inputs w k p' r) : p' = p := by
  obtain ⟨w₂, hprepare', -⟩ := hreaches
  rw [hprepare] at hprepare'
  exact (Except.ok.inj (congrArg Prod.fst hprepare')).symm

theorem not_reaches_of_error {p : Prepared} {e : TransferError} {w₁ : World}
    (hprepare : outcome (prepare o lines inputs) w = (.error e, w₁)) :
    ¬ Reaches P o lines inputs w k p r := by
  rintro ⟨w₂, hprepare', -⟩
  rw [hprepare] at hprepare'
  cases congrArg Prod.fst hprepare'

/-- **A fresh session** begins without a marker. -/
theorem begun_of_fresh (hretry : o.retry = false) (hwrite : o.canWrite = true)
    (hplain : o.PlainPartition) (hwell : w.files.WellFormed) {p : Prepared} {w₁ : World}
    (hprepare : outcome (prepare o lines inputs) w = (.ok p, w₁)) :
    ∃ place header used, ScriptHeader.parse lines = .ok (header, used) ∧
      p.commands = lines.drop used ∧ Begun o place none p := by
  obtain ⟨place, header, used, -, hheader, hcommands, -, -, hsettled, hmarker⟩ :=
    prepare_settles hwrite hplain hwell hprepare
  rw [if_neg (by rw [hretry]; exact Bool.false_ne_true)] at hmarker
  obtain ⟨-, -, -, -, -, hnone, -⟩ := prepare_fresh hretry hwrite hplain hwell hprepare
  exact ⟨place, header, used, hheader, hcommands, hsettled, hnone, hmarker, nofun⟩

/-! ## Several sessions -/

/-- What there is for the sessions that resume a script: none of them gets to its commands, or the
next one finds the marker that was left. -/
inductive Continues (o : SessionOptions) (lines : List String) (t : FileTree) : Prop
  | barred (h : Barred o lines t)
  | leftBy {header : ScriptHeader} {used : Nat} {place : Place} {last : Option Command}
    (hheader : ScriptHeader.parse lines = .ok (header, used))
    (h : LeftBy o (lines.drop used) place last t)

theorem length_drop_le (hsize : lines.length ≤ Decimal.limit64) (used : Nat) :
    (lines.drop used).length ≤ Decimal.limit64 := by
  rw [List.length_drop]
  omega

/-- **What a first session leaves** that does not succeed. -/
theorem continues_of_fresh (hretry : o.retry = false) (hwrite : o.canWrite = true)
    (hplain : o.PlainPartition) (hsize : lines.length ≤ Decimal.limit64)
    (hwell : w.files.WellFormed) {e : TransferError}
    (hfails : outcome (runScript P o lines inputs) w = (.error e, w')) :
    Continues { o with retry := true } lines w'.files ∧
      ∀ j p r, Reaches P o lines inputs w j p r →
        markerIndex o r.machine.files ≤ markerIndex o w'.files := by
  rcases hprepare : outcome (prepare o lines inputs) w with ⟨e' | p, w₁⟩
  · rw [runScript, outcome_bind_of_error hprepare] at hfails
    obtain rfl : w₁ = w' := congrArg Prod.snd hfails
    exact ⟨.barred (barred_of_prepare hwrite hretry hplain hwell hprepare),
      fun j p r hreaches => (not_reaches_of_error hprepare hreaches).elim⟩
  · obtain ⟨place, header, used, hheader, hcommands, hbegun⟩ :=
      begun_of_fresh hretry hwrite hplain hwell hprepare
    obtain ⟨⟨last, hleft⟩, -, hend⟩ := hbegun.le_of_fails hplain hwrite
      (hcommands ▸ length_drop_le hsize used) hprepare hfails
    rw [hcommands] at hleft
    refine ⟨.leftBy hheader (hleft.withOptions rfl rfl), fun j p' r hreaches => ?_⟩
    obtain rfl := prepared_of_reaches hprepare hreaches
    exact hend j r hreaches

namespace Continues

/-- **A session that resumes** gets to its commands with the marker that was left, or not at all. -/
theorem prepared (h : Continues o lines w.files) (hretry : o.retry = true)
    (hwrite : o.canWrite = true) (hplain : o.PlainPartition)
    (hsize : lines.length ≤ Decimal.limit64) (inputs : ScriptInputs) :
    (Barred o lines w.files ∧ ∃ e, outcome (prepare o lines inputs) w = (.error e, w)) ∨
      ∃ header used place last p w₁, ScriptHeader.parse lines = .ok (header, used) ∧
        p.commands = lines.drop used ∧ outcome (prepare o lines inputs) w = (.ok p, w₁) ∧
        Begun o place last p ∧ markerIndex o w.files = indexOf last := by
  cases h with
  | barred hbarred => exact .inl ⟨hbarred, hbarred w inputs rfl⟩
  | @leftBy header used place last hheader hleft =>
    have hlength := length_drop_le hsize used
    exact .inr ⟨header, used, place, last, _, _, hheader, rfl,
      prepare_resumed hretry hwrite hplain hleft.work hheader (hleft.load hplain hlength),
      ⟨settled_of_workspace hplain hwrite hleft.work rfl rfl, hleft.resolve, hleft.marker,
        hleft.command⟩, hleft.markerIndex_eq hplain hlength⟩

/-- **A session that resumes** and does not succeed either. -/
theorem resumed (h : Continues o lines w.files) (hretry : o.retry = true)
    (hwrite : o.canWrite = true) (hplain : o.PlainPartition)
    (hsize : lines.length ≤ Decimal.limit64) {e : TransferError}
    (hfails : outcome (runScript P o lines inputs) w = (.error e, w')) :
    Continues o lines w'.files ∧ markerIndex o w.files ≤ markerIndex o w'.files ∧
      ∀ j p r, Reaches P o lines inputs w j p r →
        markerIndex o r.machine.files ≤ markerIndex o w'.files := by
  rcases h.prepared hretry hwrite hplain hsize inputs with
    ⟨hbarred, e', hprepare⟩ | ⟨header, used, place, last, p, w₁, hheader, hcommands, hprepare,
      hbegun, hindex⟩
  · rw [runScript, outcome_bind_of_error hprepare] at hfails
    obtain rfl : w = w' := congrArg Prod.snd hfails
    exact ⟨.barred hbarred, le_refl _,
      fun j p r hreaches => (not_reaches_of_error hprepare hreaches).elim⟩
  · obtain ⟨⟨last', hleft'⟩, hle, hend⟩ := hbegun.le_of_fails hplain hwrite
      (hcommands ▸ length_drop_le hsize used) hprepare hfails
    rw [hcommands] at hleft'
    rw [hindex]
    refine ⟨.leftBy hheader hleft', hle, fun j p' r hreaches => ?_⟩
    obtain rfl := prepared_of_reaches hprepare hreaches
    exact hend j r hreaches

end Continues

/-- The options of one of several sessions of a script: all but the first resume. -/
def attempt (o : SessionOptions) (i : Nat) : SessionOptions := { o with retry := decide (0 < i) }

theorem attempt_zero (o : SessionOptions) : attempt o 0 = { o with retry := false } := rfl

theorem attempt_succ (o : SessionOptions) (i : Nat) :
    attempt o (i + 1) = { o with retry := true } := by
  rw [attempt, decide_eq_true (Nat.succ_pos i)]

/-- Whether a session resumes says nothing about where its marker is. -/
theorem markerIndex_withRetry (o : SessionOptions) (retry : Bool) (t : FileTree) :
    markerIndex { o with retry } t = markerIndex o t := rfl

/-- Sessions of one script, none of which succeeds, each with the files that the one before left. -/
def FailInTurn (P : Primitives) (o : SessionOptions) (lines : List String)
    (inputs : Nat → ScriptInputs) (w : Nat → World) (count : Nat) : Prop :=
  ∀ i < count, ∃ e w', outcome (runScript P (attempt o i) lines (inputs i)) (w i) = (.error e, w') ∧
    (w (i + 1)).files = w'.files

section Turns

variable {turns : Nat → ScriptInputs} {worlds : Nat → World} {count : Nat}

theorem FailInTurn.continues (h : FailInTurn P o lines turns worlds count)
    (hwrite : o.canWrite = true) (hplain : o.PlainPartition)
    (hsize : lines.length ≤ Decimal.limit64) (hwell : (worlds 0).files.WellFormed) {i : Nat}
    (hi : i < count) : Continues { o with retry := true } lines (worlds (i + 1)).files := by
  induction i with
  | zero =>
    obtain ⟨e, w', hfails, hfiles⟩ := h 0 hi
    rw [hfiles]
    exact (continues_of_fresh (o := attempt o 0) rfl hwrite hplain hsize hwell hfails).1
  | succ i ih =>
    obtain ⟨e, w', hfails, hfiles⟩ := h (i + 1) hi
    rw [attempt_succ] at hfails
    rw [hfiles]
    exact ((ih (Nat.lt_of_succ_lt hi)).resumed rfl hwrite hplain hsize hfails).1

/-- **From session to session** the index of the marker grows. -/
theorem FailInTurn.le_succ (h : FailInTurn P o lines turns worlds count)
    (hwrite : o.canWrite = true) (hplain : o.PlainPartition)
    (hsize : lines.length ≤ Decimal.limit64) (hwell : (worlds 0).files.WellFormed) {i : Nat}
    (hi : i < count) :
    (0 < i → markerIndex o (worlds i).files ≤ markerIndex o (worlds (i + 1)).files) ∧
      ∀ j p r, Reaches P (attempt o i) lines (turns i) (worlds i) j p r →
        markerIndex o r.machine.files ≤ markerIndex o (worlds (i + 1)).files := by
  obtain ⟨e, w', hfails, hfiles⟩ := h i hi
  rw [hfiles]
  cases i with
  | zero =>
    rw [attempt_zero] at hfails ⊢
    have hend :=
      (continues_of_fresh (o := { o with retry := false }) rfl hwrite hplain hsize hwell hfails).2
    simp only [markerIndex_withRetry] at hend
    exact ⟨nofun, hend⟩
  | succ i =>
    rw [attempt_succ] at hfails ⊢
    have hcontinues := h.continues hwrite hplain hsize hwell (Nat.lt_of_succ_lt hi)
    obtain ⟨-, hle, hend⟩ := hcontinues.resumed rfl hwrite hplain hsize hfails
    simp only [markerIndex_withRetry] at hle hend
    exact ⟨fun _ => hle, hend⟩

/-- **From line to line**, also in the session that succeeds in the end. -/
theorem FailInTurn.le_of_reaches (h : FailInTurn P o lines turns worlds count)
    (hwrite : o.canWrite = true) (hplain : o.PlainPartition)
    (hsize : lines.length ≤ Decimal.limit64) (hwell : (worlds 0).files.WellFormed) {i j k : Nat}
    (hi : i ≤ count) (hjk : j ≤ k) {p p' : Prepared} {r r' : Run}
    (hj : Reaches P (attempt o i) lines (turns i) (worlds i) j p r)
    (hk : Reaches P (attempt o i) lines (turns i) (worlds i) k p' r') :
    (0 < i → markerIndex o (worlds i).files ≤ markerIndex o r.machine.files) ∧
      markerIndex o r.machine.files ≤ markerIndex o r'.machine.files := by
  cases i with
  | zero =>
    rw [attempt_zero] at hj hk
    obtain ⟨w₁, hprepare, -⟩ := id hj
    obtain rfl := prepared_of_reaches hprepare hk
    obtain ⟨place, header, used, -, hcommands, hbegun⟩ :=
      begun_of_fresh (o := { o with retry := false }) rfl hwrite hplain hwell hprepare
    have hle := (hbegun.le_of_reaches hplain hwrite (hcommands ▸ length_drop_le hsize used) hjk
      hj hk).2
    simp only [markerIndex_withRetry] at hle
    exact ⟨nofun, hle⟩
  | succ i =>
    rw [attempt_succ] at hj hk
    have hcontinues := h.continues hwrite hplain hsize hwell hi
    rcases hcontinues.prepared rfl hwrite hplain hsize (turns (i + 1)) with
      ⟨-, e, hprepare⟩ | ⟨header, used, place, last, p₀, w₁, -, hcommands, hprepare, hbegun, hindex⟩
    · exact (not_reaches_of_error hprepare hj).elim
    · obtain rfl := prepared_of_reaches hprepare hj
      obtain rfl := prepared_of_reaches hprepare hk
      obtain ⟨hstart, hle⟩ := hbegun.le_of_reaches hplain hwrite
        (hcommands ▸ length_drop_le hsize used) hjk hj hk
      simp only [markerIndex_withRetry] at hindex hstart hle
      exact ⟨fun _ => hindex.trans_le hstart, hle⟩

end Turns

/-! ## What the marker is -/

/-- What the marker is after a session that stops: that of its last command that succeeded and does
not take new data, or, where there is no such command, what a resumed session found, and nothing
after a fresh one. -/
def NamesLast (P : Primitives) (o : SessionOptions) (lines : List String) (inputs : ScriptInputs)
    (w w' : World) : Prop :=
  (∃ header used k c line, ScriptHeader.parse lines = .ok (header, used) ∧
      LastSuccess P o lines inputs w k c ∧ (lines.drop used)[k]? = some line ∧
      RetryMarker.load w'.files o.markerPath = .ok (some ⟨k, Blank.trim line⟩)) ∨
    (∀ k c, SucceedsAt P o lines inputs w k c → c.verb = .new) ∧
      ∃ place, w'.files.Leads o.workDir.below place ∧
        w'.files.get? (o.markerAt place) =
          if o.retry then w.files.get? (o.markerAt place) else none

theorem namesLast_of_stops (hwrite : o.canWrite = true) (hplain : o.PlainPartition)
    (hsize : lines.length ≤ Decimal.limit64) (hwell : w.files.WellFormed) {e : TransferError}
    (h : outcome (runScript P o lines inputs) w = (.error e, w')) (hstops : e.Stops) :
    NamesLast P o lines inputs w w' ∧ w'.files.isDirectory o.stashDir = true := by
  obtain ⟨k, p, r, place, header, used, hheader, hcommands, hat, hwork, hmarker⟩ :=
    stopped_marker hwrite hplain hwell h hstops
  have hstash : w'.files.isDirectory o.stashDir = true :=
    isDirectory_iff.mpr ⟨_, (hwork.sited hplain (s := ⟨o.stashDir, false⟩) rfl).leads.locate_self
      (hwork.sited hplain (s := ⟨o.stashDir, false⟩) rfl).named, hwork.stash.directory⟩
  refine ⟨?_, hstash⟩
  rcases hlast : lastSaved? p.skip p.commands k with _ | c
  · rw [hlast] at hmarker
    exact .inr ⟨fun j c => hat.new_of_lastSaved?_eq_none hlast, place, hwork.leads, hmarker⟩
  · rw [hlast] at hmarker
    obtain ⟨j, hsuccess, hc⟩ := hat.lastSuccess_of_lastSaved? hlast
    obtain ⟨hindex, line, hline, htext⟩ := index_of_instruction? hc
    have hleft : LeftBy o p.commands place (some c) w'.files :=
      ⟨hwork, hmarker, by simpa [hindex] using hc⟩
    have hload := hleft.load hplain (hcommands ▸ length_drop_le hsize used)
    rw [Option.map_some, RetryMarker.ofCommand, hindex, htext] at hload
    exact .inl ⟨header, used, j, c, line, hheader, hsuccess, hcommands ▸ hline, hload⟩

/-- **The marker of a session that writes.** Where a command or a line stops the session, the marker
names the last command that succeeded and does not take new data, and the stash is there. Where it
succeeds, both are gone. From one session of the script to the next, and from line to line in each,
the index of the marker does not decrease. -/
theorem runScript_marker (P : Primitives) (o : SessionOptions) (lines : List String)
    (hwrite : o.canWrite = true) (hplain : o.PlainPartition)
    (hsize : lines.length ≤ Decimal.limit64) :
    (∀ inputs w, w.files.WellFormed →
      (∀ e w', outcome (runScript P o lines inputs) w = (.error e, w') → e.Stops →
        NamesLast P o lines inputs w w' ∧ w'.files.isDirectory o.stashDir = true) ∧
      ∀ summary w', outcome (runScript P o lines inputs) w = (.ok summary, w') →
        w'.files.node o.markerPath = .error (.errno Errno.noEntry) ∧
          w'.files.node o.stashDir = .error (.errno Errno.noEntry)) ∧
    ∀ (inputs : Nat → ScriptInputs) (w : Nat → World) (count : Nat), (w 0).files.WellFormed →
      FailInTurn P o lines inputs w count →
      (∀ i j, 0 < i → i ≤ j → j ≤ count →
        markerIndex o (w i).files ≤ markerIndex o (w j).files) ∧
      ∀ i ≤ count, ∀ j k p p' r r', j ≤ k →
        Reaches P (attempt o i) lines (inputs i) (w i) j p r →
        Reaches P (attempt o i) lines (inputs i) (w i) k p' r' →
          (0 < i → markerIndex o (w i).files ≤ markerIndex o r.machine.files) ∧
          markerIndex o r.machine.files ≤ markerIndex o r'.machine.files ∧
          (i < count → markerIndex o r'.machine.files ≤ markerIndex o (w (i + 1)).files) := by
  refine ⟨fun inputs w hwell => ⟨fun e w' h => namesLast_of_stops hwrite hplain hsize hwell h,
    fun summary w' h => finished_marker hwrite hplain hwell h⟩,
    fun inputs w count hwell hturns => ⟨fun i j hpos hij hj => ?_,
      fun i hi j k p p' r r' hjk hreaches hreaches' => ?_⟩⟩
  · induction j, hij using Nat.le_induction with
    | base => exact le_refl _
    | succ j hij ih =>
      exact (ih (Nat.le_of_succ_le hj)).trans
        ((hturns.le_succ hwrite hplain hsize hwell hj).1 (Nat.lt_of_lt_of_le hpos hij))
  · obtain ⟨hstart, hle⟩ :=
      hturns.le_of_reaches hwrite hplain hsize hwell hi hjk hreaches hreaches'
    exact ⟨hstart, hle, fun hlt =>
      (hturns.le_succ hwrite hplain hsize hwell hlt).2 k p' r' hreaches'⟩

/-- A script that stops at its second command. -/
def abortLines : List String := ["4", "0", "0", "0", "abort", "zero"]

theorem header_abortLines : ScriptHeader.parse abortLines = .ok (⟨4, 0, 0, 0⟩, 4) := by
  rw [abortLines]
  cbv

/-- Its first line is executed and its second line cannot be read. -/
theorem runLines_abortLines {r : Run} (hwork : blockOptions.Workspace r.machine.files ["w"]) :
    ∃ e r', outcome (runLines .tabled blockOptions RetrySkip.none 0 ["abort", "zero"]) r =
      (.error (.command e), r') := by
  let c : Command := ⟨.abort, [], "abort", 0⟩
  obtain ⟨r₁, hline, -⟩ := runLines_take_of_run (P := .tabled)
    (instruction?_eq_some.mpr ⟨"abort", rfl, by decide, by decide⟩ :
      instruction? ["abort", "zero"] 0 = some c)
    rfl (not_skips_none c) plain_blockOptions rfl hwork (rfl : outcome (c.run .tabled) r.machine = _)
  refine ⟨.missingArgument .zero 1, r₁, ?_⟩
  show outcome (runLines .tabled blockOptions RetrySkip.none 0 (["abort", "zero"].take 2)) r = _
  rw [runLines_take_succ_bind (rfl : ["abort", "zero"][1]? = some "zero"), outcome_bind_of_ok hline,
    runLine, show Command.parse 1 "zero" = .error (.missingArgument .zero 1) by decide]
  rfl

/-- **A script with a line that cannot be read** does not succeed, also when it is resumed. -/
theorem runScript_of_unreadable {header : ScriptHeader} {used : Nat} {line : String}
    {e : CommandError} (hheader : ScriptHeader.parse lines = .ok (header, used))
    (hline : (lines.drop used)[k]? = some line) (hparse : Command.parse k line = .error e) :
    ∃ e' w', outcome (runScript P o lines inputs) w = (.error e', w') := by
  rcases hrun : outcome (runScript P o lines inputs) w with ⟨e' | summary, w'⟩
  · exact ⟨e', w', rfl⟩
  · obtain ⟨p, w₁, r, hprepare, hlines, -⟩ := runScript_eq_ok.mp hrun
    obtain ⟨header', used', _, _, _, _, _, _, hheader', _, _, _, _, rfl, _⟩ :=
      prepare_eq_ok.mp hprepare
    obtain ⟨rfl, rfl⟩ : header = header' ∧ used = used' := by simpa [hheader] using hheader'
    rw [← List.take_length (l := lines.drop used)] at hlines
    obtain ⟨r₁, hreached⟩ :=
      reached_of_le (Nat.succ_le_of_lt (List.getElem?_eq_some_iff.mp hline).1) hlines
    obtain ⟨r₂, -, hstep⟩ := (runLines_take_succ hline).mp hreached
    rw [runLine, hparse] at hstep
    cases congrArg Prod.fst hstep

/-- A session that stops, and one that resumes and stops again. -/
theorem runScript_marker_abort :
    ∃ e w₁ e' w₂, outcome (runScript .tabled blockOptions abortLines {}) (blockWorld [7]) =
        (.error e, w₁) ∧
      outcome (runScript .tabled resumingOptions abortLines {}) w₁ = (.error e', w₂) ∧
      NamesLast .tabled blockOptions abortLines {} (blockWorld [7]) w₁ ∧
      w₁.files.isDirectory blockOptions.stashDir = true ∧
      markerIndex blockOptions w₁.files ≤ markerIndex blockOptions w₂.files := by
  obtain ⟨w₀, hprepare⟩ := prepare_blockWorld [7] {} header_abortLines
  obtain ⟨e, r, hlines⟩ := runLines_abortLines
    (r := { machine := blockMachine [7] ⟨4, 0, 0, 0⟩ {}, progress := w₀.progress })
    (work_blockMachine [7] ⟨4, 0, 0, 0⟩ {})
  have hfresh : outcome (runScript .tabled blockOptions abortLines {}) (blockWorld [7]) =
      (.error (.command e), r.world) := by
    rw [runScript, outcome_bind_of_ok hprepare]
    refine outcome_bind_of_error (outcome_bind_of_error ?_ _) _
    rw [outcome_onMachine]
    exact congrArg (fun x : Except TransferError Unit × Run => (x.1.map fun _ => ((), x.2), x.2.world))
      hlines
  obtain ⟨e', w₂, hresumed⟩ : ∃ e' w₂, outcome (runScript .tabled resumingOptions abortLines {})
      r.world = (.error e', w₂) :=
    runScript_of_unreadable header_abortLines (rfl : (abortLines.drop 4)[1]? = some "zero")
      (by decide : Command.parse 1 "zero" = .error (.missingArgument .zero 1))
  obtain ⟨hone, hseveral⟩ := runScript_marker .tabled blockOptions abortLines rfl
    plain_blockOptions (by decide)
  obtain ⟨hnames, hstash⟩ := (hone {} _ (wellFormed_blockWorld [7])).1 _ _ hfresh trivial
  have hturns : FailInTurn .tabled blockOptions abortLines (fun _ => {})
      (fun i => if i = 0 then blockWorld [7] else if i = 1 then r.world else w₂) 2 := by
    intro i hi
    interval_cases i
    · exact ⟨_, _, hfresh, rfl⟩
    · exact ⟨_, _, hresumed, rfl⟩
  exact ⟨_, _, _, _, hfresh, hresumed, hnames, hstash,
    (hseveral _ _ 2 (wellFormed_blockWorld [7]) hturns).1 1 2 Nat.one_pos (by decide) (by decide)⟩

end Session

end BlockUpdate
