import BlockUpdate.Proofs.Leftovers
import BlockUpdate.Proofs.RespelledCommands

/-!
# Scripts under other spellings

A session that begins with an empty stash does not depend on how its script spells the names of
entries, as long as it spells each of them in one way: whatever is stored under a name is looked for
under that name. The letters of a digest that names no entry may change case on their own.

- `Command.LineRespelled`: two lines with commands that differ in the spelling of digests.
- `Session.Run.Respelled`: two runs that differ in the spelling of entries only.
- **`Session.runLines_respelled`**: such lines keep such runs alike, one after the other.
- **`Session.runScript_respelled`**: such scripts end alike, and with the same image.
-/

namespace BlockUpdate

open FileTree

/-! ## Trees of one shape -/

/-- Whether an absence is tolerated is decided by the result. -/
theorem FileM.tolerateAbsence_congr {x : FileM OsError Unit} {t t' : FileTree}
    (h : (outcome x t').1 = (outcome x t).1) :
    (outcome (removeIfPresent.tolerateAbsence x) t').1 =
      (outcome (removeIfPresent.tolerateAbsence x) t).1 := by
  unfold removeIfPresent.tolerateAbsence
  rw [outcome_mk, outcome_mk]
  have hrun : ∀ u, x.run u = outcome x u := fun _ => rfl
  rw [hrun, hrun]
  rcases hx : outcome x t with ⟨result, u⟩
  rcases hx' : outcome x t' with ⟨result', u'⟩
  rw [hx, hx'] at h
  obtain rfl : result = result' := h.symm
  rcases result with e | _
  · cases e with
    | errno e =>
      dsimp only
      split_ifs <;> rfl
    | _ => rfl
  · rfl

/-- Two trees with directories, and files, at the same places. -/
structure FileTree.SameShape (t t' : FileTree) : Prop where
  directory : ∀ q, t'.get? q = some .directory ↔ t.get? q = some .directory
  missing : ∀ q, t'.get? q = none ↔ t.get? q = none

namespace FileTree.SameShape

variable {t t' : FileTree}

/-- What is at a place of both. -/
theorem cases (h : SameShape t t') (q : Place) :
    t.get? q = none ∧ t'.get? q = none ∨
      t.get? q = some .directory ∧ t'.get? q = some .directory ∨
      ∃ data data', t.get? q = some (.file data) ∧ t'.get? q = some (.file data') := by
  rcases hq : t.get? q with _ | data | _
  · exact .inl ⟨rfl, (h.missing q).mpr hq⟩
  · rcases hq' : t'.get? q with _ | data' | _
    · rw [(h.missing q).mp hq'] at hq
      cases hq
    · exact .inr (.inr ⟨data, data', rfl, rfl⟩)
    · rw [(h.directory q).mp hq'] at hq
      cases hq
  · exact .inr (.inl ⟨rfl, (h.directory q).mpr hq⟩)

/-- A way leads to the same place in both, or is blocked alike. -/
theorem follow_eq (h : SameShape t t') (parts : List String) (place : Place) :
    t'.follow parts place = t.follow parts place := by
  induction parts generalizing place with
  | nil => rfl
  | cons part rest ih =>
    rw [follow, follow]
    rcases h.cases place with ⟨hq, hq'⟩ | ⟨hq, hq'⟩ | ⟨data, data', hq, hq'⟩ <;> rw [hq, hq']
    dsimp only
    rw [ih, ih, ih]

/-- A file is removed from both, or from neither for the same reason. -/
theorem removeIfPresent_eq (h : SameShape t t') (p : Path) :
    (outcome (FileM.removeIfPresent p) t').1 = (outcome (FileM.removeIfPresent p) t).1 := by
  have hlocate : t'.locate p = t.locate p := by rw [locate, locate, h.follow_eq]
  have hremove : (outcome (FileM.remove p) t').1 = (outcome (FileM.remove p) t).1 := by
    rw [FileM.remove, outcome_change, outcome_change, hlocate]
    rcases t.locate p with e | place
    · rfl
    · simp only [bind, Except.bind]
      rcases h.cases place with ⟨hq, hq'⟩ | ⟨hq, hq'⟩ | ⟨data, data', hq, hq'⟩ <;> rw [hq, hq'] <;>
        rfl
  exact FileM.tolerateAbsence_congr hremove

end FileTree.SameShape

namespace FileTree.Respelled

variable {R : String → String → Prop} {base t t' : FileTree} {place : Place}

/-- Without their entries, the trees have one shape. -/
theorem eraseBelow (h : Respelled R base place t t') (hplace : place ≠ []) :
    SameShape (t.eraseBelow place) (t'.eraseBelow place) := by
  have hentry : ∀ q, ¬ place.isPrefixOf q = true → ∀ name, q ≠ place ++ [name] := by
    rintro q hq name rfl
    exact hq (List.isPrefixOf_iff_prefix.mpr ⟨[name], rfl⟩)
  refine ⟨fun q => ?_, fun q => ?_⟩
  · rw [get?_eraseBelow t hplace, get?_eraseBelow t' hplace]
    split_ifs
    · rfl
    · exact (h.right q).trans (h.left q).symm
  · rw [get?_eraseBelow t hplace, get?_eraseBelow t' hplace]
    split_ifs with hq
    · rfl
    · exact h.elsewhere q (hentry q hq)

/-- A file elsewhere is written in both. -/
theorem written (h : Respelled R base place t t') {q : Place} (hq : q ≠ [])
    (hentry : ∀ name, q ≠ place ++ [name]) (hdir : base.get? q ≠ some .directory)
    (data data' : Bytes) : Respelled R base place (t.written q data) (t'.written q data') where
  left x := (directory_iff_of_get? (get?_written t hq data) (fun hd => hdir ((h.left q).mp hd))
    (by simp) x).trans (h.left x)
  right x := (directory_iff_of_get? (get?_written t' hq data') (fun hd => hdir ((h.right q).mp hd))
    (by simp) x).trans (h.right x)
  entry a b hab hvalid := by
    rw [get?_written t hq, get?_written t' hq, if_neg (hentry a).symm, if_neg (hentry b).symm]
    exact h.entry a b hab hvalid
  elsewhere x hx := by
    rw [get?_written t hq, get?_written t' hq]
    split_ifs
    · simp
    · exact h.elsewhere x hx

end FileTree.Respelled

/-! ## Lines -/

/-- Two lines with commands that differ in the spelling of digests, or without commands, or with the
same error. -/
def Command.LineRespelled (R : String → String → Prop) (line line' : String) : Prop :=
  ∀ index, Alike Eq (Option.Rel (Command.Respelled R)) (Command.parse index line)
    (Command.parse index line')

/-- Lines are respelled word by word. -/
theorem Command.lineRespelled_of_words {R : String → String → Prop} {line line' word : String}
    {verb : Verb} {args args' : List String} (hwords : Blank.words line = word :: args)
    (hwords' : Blank.words line' = word :: args') (hverb : Verb.ofText word = verb)
    (hlength : args'.length = args.length)
    (hargs : ∀ text index i a a', args[i]? = some a → args'[i]? = some a' →
      Respells R ⟨verb, args, text, index⟩ i a a') : LineRespelled R line line' := by
  intro index
  rw [parse, parse, hwords, hwords']
  dsimp only
  rw [hlength, hverb]
  split_ifs
  · exact .error rfl
  · exact .ok (.some ⟨rfl, rfl, hlength, hargs (Blank.trim line) index⟩)

/-- Errors of a session that differ in the text of a line at most. -/
inductive TransferError.SameKind : TransferError → TransferError → Prop
  | refl (e : TransferError) : SameKind e e
  | commandFailed (index : Nat) (line line' : String) :
    SameKind (.commandFailed index line) (.commandFailed index line')
  | retryRequested (index : Nat) (line line' : String) :
    SameKind (.retryRequested index line) (.retryRequested index line')

namespace Session

open SessionOptions
open TransferError (SameKind)

/-- Two runs that differ in the files of their machines only, and in these in the spelling of
entries. -/
inductive Run.Respelled (R : String → String → Prop) (base : FileTree) (stash : Stash)
    (place : Place) : Run → Run → Prop
  | intro {r : Run} {m' : Machine} (h : Machine.Respelled R base stash place r.machine m') :
    Respelled R base stash place r { r with machine := m' }

theorem Run.Respelled.same {R : String → String → Prop} {base : FileTree} {stash : Stash}
    {place : Place} {r r' : Run} (h : Respelled R base stash place r r') :
    r'.executed = r.executed ∧ r'.skipped = r.skipped ∧ r'.machine.written = r.machine.written ∧
      r'.machine.device = r.machine.device ∧ r'.progress = r.progress ∧
      FileTree.Respelled R base place r.machine.files r'.machine.files := by
  obtain @⟨m', @⟨t', -, hfiles⟩⟩ := h
  exact ⟨rfl, rfl, rfl, rfl, rfl, hfiles⟩

section Lines

variable {R : String → String → Prop} {P : Primitives} {o : SessionOptions} {place : Place}
  {m : Machine} {skip : RetrySkip} {c c' : Command}

section

variable {base : FileTree} {stash : Stash}

theorem respelled_modify {f : Run → Run} (hmachine : ∀ r, (f r).machine = r.machine)
    (hsame : ∀ (r : Run) m', f { r with machine := m' } = { f r with machine := m' }) :
    Coupled (Run.Respelled R base stash place) SameKind Eq (modify f : RunM PUnit) (modify f) := by
  refine .modify fun r r' hr => ?_
  obtain @⟨m', hm⟩ := hr
  rw [hsame r m']
  exact .intro ((hmachine r).symm ▸ hm)

theorem report_respelled (hverb : c'.verb = c.verb) :
    Coupled (Run.Respelled R base stash place) SameKind Eq (report c) (report c') := by
  refine .modify fun r r' hr => ?_
  obtain @⟨m', hm⟩ := hr
  obtain @⟨t', hstash, hfiles⟩ := hm
  dsimp only
  rw [hverb]
  split_ifs
  · exact .intro (.intro hstash hfiles)
  · exact .intro (.intro hstash hfiles)

end

variable (hR : Respelling R) (hlodged : o.Lodged place m)
  (hflat : ∀ name, m.files.get? (o.baseAt place ++ [name]) ≠ some .directory)

include hlodged

theorem saveMarker_respelled (h : c.Respelled R c') :
    Coupled (Run.Respelled R m.files m.stash (o.baseAt place)) SameKind Eq (saveMarker o c)
      (saveMarker o c') := by
  rintro r _ @⟨m', ⟨hstash, hfiles⟩⟩
  rw [outcome_saveMarker, outcome_saveMarker, h.verb]
  split_ifs
  · have hdir : ∀ u, FileTree.Respelled R m.files (o.baseAt place) r.machine.files u →
        u.Leads o.workDir.below place := fun u hu => hlodged.leads.mono fun q => (hu.right q).mpr
    have hleads : r.machine.files.Leads o.workDir.below place :=
      hlodged.leads.mono fun q => (hfiles.left q).mpr
    rw [RetryMarker.save, RetryMarker.save, outcome_fileMapError, outcome_fileMapError,
      FileM.overwrite_eq hleads hlodged.markerPlain hlodged.plain.markerPath_parts,
      FileM.overwrite_eq (hdir _ hfiles) hlodged.markerPlain hlodged.plain.markerPath_parts]
    have hboth := (hfiles.left (o.markerAt place)).trans (hfiles.right (o.markerAt place)).symm
    rw [markerAt] at hboth
    simp only [hboth]
    split_ifs with hsize hthere
    · exact ⟨.error (.refl _), .intro (.intro hstash hfiles)⟩
    · exact ⟨.error (.refl _), .intro (.intro hstash hfiles)⟩
    · refine ⟨.ok rfl, .intro (.intro hstash (hfiles.written (by simp) (fun name heq => ?_) ?_ _ _))⟩
      · exact o.baseAt_append_ne_markerAt place name heq.symm
      · exact fun hbase => hthere ((hfiles.right _).mpr hbase)
  · exact ⟨.ok rfl, .intro (.intro hstash hfiles)⟩

include hR hflat

theorem executeCommand_respelled (h : c.Respelled R c') :
    Coupled (Run.Respelled R m.files m.stash (o.baseAt place)) SameKind Eq (executeCommand P c)
      (executeCommand P c') := by
  rintro r _ @⟨m', hm⟩
  obtain ⟨hresult, hmachine⟩ := Command.run_respelled (P := P) hR h hlodged.sited hflat _ _ hm
  rw [outcome_executeCommand, outcome_executeCommand]
  refine ⟨.ok ?_, .intro hmachine⟩
  revert hresult
  generalize (outcome (c.run P) r.machine).1 = x
  generalize (outcome (c'.run P) m').1 = x'
  intro hresult
  cases hresult with
  | ok _ => rfl
  | error he => rw [Command.resultOf, Command.resultOf, show _ = _ from he]

/-- **Commands, and what follows them.** -/
theorem runCommand_respelled (h : c.Respelled R c') :
    Coupled (Run.Respelled R m.files m.stash (o.baseAt place)) SameKind Eq (runCommand P o c)
      (runCommand P o c') := by
  refine (executeCommand_respelled hR hlodged hflat h).bind fun result result' heq => ?_
  subst heq
  rw [h.index]
  cases result with
  | success =>
    exact .bind (respelled_modify (fun _ => rfl) fun _ _ => rfl) fun _ _ _ =>
      .bind (saveMarker_respelled hlodged h) fun _ _ _ => report_respelled h.verb
  | needsRetry =>
    exact .bind (respelled_modify (fun _ => rfl) fun _ _ => rfl) fun _ _ _ =>
      .throw (.retryRequested _ _ _)
  | failed => exact .throw (.commandFailed _ _ _)

theorem runLine_respelled {line line' : String} (h : Command.LineRespelled R line line')
    (index : Nat) :
    Coupled (Run.Respelled R m.files m.stash (o.baseAt place)) SameKind Eq
      (runLine P o skip index line) (runLine P o skip index line') := by
  rw [runLine, runLine]
  have hparse := h index
  revert hparse
  rcases Command.parse index line with e | c <;> rcases Command.parse index line' with e' | c' <;>
    intro hparse <;> cases hparse
  case error.error heq =>
    subst heq
    exact .throw (.refl _)
  case ok.ok hcommands =>
    cases hcommands with
    | none => exact .pure rfl
    | @some c c' hc =>
      dsimp only
      have hskips : skip.skips c' = skip.skips c := by
        rw [RetrySkip.skips, RetrySkip.skips, hc.index, hc.verb]
      rw [hskips, hc.verb]
      refine .ite Iff.rfl (fun _ => .ite Iff.rfl (fun _ => ?_) fun _ => ?_) fun _ => .pure rfl
      · exact respelled_modify (fun _ => rfl) fun _ _ => rfl
      · exact runCommand_respelled hR hlodged hflat hc

/-- **Lines under other spellings**, one after the other. -/
theorem runLines_respelled (P : Primitives) (skip : RetrySkip) {lines lines' : List String}
    (h : List.Forall₂ (Command.LineRespelled R) lines lines') (index : Nat) :
    Coupled (Run.Respelled R m.files m.stash (o.baseAt place)) SameKind Eq
      (runLines P o skip index lines) (runLines P o skip index lines') := by
  induction h generalizing index with
  | nil => exact .pure rfl
  | cons hline _ ih =>
    exact (runLine_respelled hR hlodged hflat hline index).bind fun _ _ _ => ih (index + 1)

end Lines

/-! ## Sessions -/

section Sessions

variable {R : String → String → Prop} {P : Primitives} {o : SessionOptions} {place : Place}
  {lines lines' : List String} {inputs : ScriptInputs} {w w' : World} {p p' : Prepared}

/-- Two scripts with one header, whose commands differ in the spelling of digests. -/
structure ScriptRespelled (R : String → String → Prop) (lines lines' : List String) : Prop where
  header : ScriptHeader.parse lines' = ScriptHeader.parse lines
  commands : ∀ header used, ScriptHeader.parse lines = .ok (header, used) →
    List.Forall₂ (Command.LineRespelled R) (lines.drop used) (lines'.drop used)

/-- What two sessions have in hand that differ in their commands only. -/
structure Prepared.Respelled (R : String → String → Prop) (p p' : Prepared) : Prop where
  commands : List.Forall₂ (Command.LineRespelled R) p.commands p'.commands
  skip : p'.skip = p.skip
  machine : p'.machine = p.machine

/-- Before its commands, a session looks at its header only. -/
theorem prepare_respelled (inputs : ScriptInputs) (hretry : o.retry = false)
    (h : ScriptRespelled R lines lines') :
    Coupled Eq SameKind (Prepared.Respelled R) (prepare o lines inputs) (prepare o lines' inputs) := by
  have hskip : ∀ commands commands', findSkip o commands' = findSkip o commands := by
    intro commands commands'
    rw [findSkip, findSkip, hretry]
    rfl
  have hheader : Coupled (σ := World) Eq SameKind
      (fun (x x' : ScriptHeader × Nat) => x' = x ∧ ScriptHeader.parse lines = .ok x)
      (lift .header (ScriptHeader.parse lines)) (lift .header (ScriptHeader.parse lines')) := by
    rintro w _ rfl
    rw [h.header, outcome_lift]
    rcases ScriptHeader.parse lines with fault | x
    · exact ⟨.error (.refl _), rfl⟩
    · exact ⟨.ok ⟨rfl, rfl⟩, rfl⟩
  refine hheader.bind ?_
  rintro ⟨header, used⟩ _ ⟨rfl, hparse⟩
  refine (Coupled.refl .refl _).bind fun _ _ _ => (Coupled.refl .refl _).bind fun stash _ heq => ?_
  subst heq
  rw [hskip (lines.drop used) (lines'.drop used)]
  refine (Coupled.refl .refl _).bind fun skip _ heq => ?_
  subst heq
  refine .get_bind fun w _ heq => ?_
  subst heq
  refine (Coupled.refl .refl _).bind fun machine _ heq => ?_
  subst heq
  exact .pure ⟨h.commands header used hparse, rfl, rfl⟩

/-- **A fresh session begins without entries**, and nothing else is where they will be. -/
theorem noEntry_of_prepare (hplain : o.PlainPartition) (hretry : o.retry = false)
    (hwell : w.files.WellFormed) (hbeside : Stash.Beside w.files o.workDir o.baseName)
    (h : outcome (prepare o lines inputs) w = (.ok p, w')) (hlodged : o.Lodged place p.machine)
    (name : String) : p.machine.files.get? (o.baseAt place ++ [name]) = none := by
  obtain ⟨header, used, t₁, stash, t₂, skip, t₃, machine, -, hmake, hopen, hskip, hmachine, rfl,
    rfl⟩ := prepare_eq_ok.mp h
  rw [startMachine, hretry, if_neg Bool.false_ne_true] at hmachine
  obtain rfl := Except.ok.inj hmachine
  obtain ⟨hgrown, hwell₁, -⟩ := FileM.makeDirectories_eq_ok hmake
  rw [openStash_fresh hretry] at hopen
  obtain ⟨-, place₂, hwork, -, hname⟩ := open_lodges hplain hopen
  obtain ⟨t', -, -, rfl⟩ := open_eq_ok.mp hopen
  have hbeside₁ : Stash.Beside t₁ o.workDir o.baseName := hbeside.grown hgrown
  obtain ⟨-, place₁, hleads, hempty⟩ :=
    Stash.empty_of_open hname (hwell₁ hwell) hbeside₁ hopen (Bool.or_true _)
  have hstash := hlodged.sited.leads
  obtain heq : place₁ ++ [o.baseName] = o.baseAt place := follow_unique hleads.follow hstash.follow
  have hnone := hempty name
  rw [heq] at hnone
  show t₃.get? _ = none
  rcases findSkip_cases hskip with rfl | ⟨-, -, hremove⟩
  · exact hnone
  · have hmarkerName : PlainName o.markerName :=
      plainName_of_plainName hplain hname (by decide) (by decide) (by decide)
    obtain ⟨-, hdir, rfl⟩ :=
      (FileM.removeIfPresent_eq_ok hwork hmarkerName hplain.markerPath_parts).mp hremove
    rw [get?_removed t₂ hdir, hnone]
    split_ifs <;> rfl

/-- Two sessions that end with the same result, but for the texts of lines in errors, and with the
same device and progress. -/
structure EndAlike {α : Type} (run run' : Except TransferError α × World) : Prop where
  result : Alike SameKind Eq run.1 run'.1
  device : run'.2.device = run.2.device
  progress : run'.2.progress = run.2.progress

/-- What a session removes at its end. -/
theorem cleanUp_respelled {base : FileTree} {stash : Stash} (hsited : stash.Sited base (o.baseAt place))
    (hdevice : w'.device = w.device) (hprogress : w'.progress = w.progress)
    (hfiles : FileTree.Respelled R base (o.baseAt place) w.files w'.files) :
    EndAlike (outcome (cleanUp o stash) w) (outcome (cleanUp o stash) w') := by
  have hfree := Stash.freeAll_eq (hsited.mono fun q => (hfiles.left q).mpr)
  have hfree' := Stash.freeAll_eq (hsited.mono fun q => (hfiles.right q).mpr)
  rw [cleanUp, outcome_bind_of_ok (sessionOnFiles_eq_ok.mpr ⟨_, hfree, rfl⟩),
    outcome_bind_of_ok (sessionOnFiles_eq_ok.mpr ⟨_, hfree', rfl⟩)]
  split_ifs
  · have hremoved := (hfiles.eraseBelow (by simp [baseAt])).removeIfPresent_eq o.markerPath
    rw [outcome_sessionOnFiles, outcome_sessionOnFiles, RetryMarker.remove, outcome_fileMapError,
      outcome_fileMapError]
    refine ⟨?_, hdevice, hprogress⟩
    dsimp only
    rw [hremoved]
    exact Alike.refl .refl (fun _ => rfl) _
  · exact ⟨.ok rfl, hdevice, hprogress⟩

/-- **Commands under other spellings**, from an empty stash on. -/
theorem runCommands_respelled (hR : Respelling R) (hlodged : o.Lodged place p.machine)
    (hempty : ∀ name, p.machine.files.get? (o.baseAt place ++ [name]) = none)
    (hp : Prepared.Respelled R p p') (w : World) :
    EndAlike (outcome (runCommands P o p) w) (outcome (runCommands P o p') w) ∧
      FileTree.Respelled R p.machine.files (o.baseAt place) (outcome (runCommands P o p) w).2.files
        (outcome (runCommands P o p') w).2.files := by
  have hflat : ∀ name, p.machine.files.get? (o.baseAt place ++ [name]) ≠ some .directory := by
    intro name hdir
    rw [hempty] at hdir
    cases hdir
  let start : Run := { machine := p.machine, progress := w.progress }
  have hmachine : Machine.Respelled R p.machine.files p.machine.stash (o.baseAt place) start.machine
      p.machine := .intro rfl (.of_empty hempty)
  have hstart : Run.Respelled R p.machine.files p.machine.stash (o.baseAt place) start start :=
    .intro hmachine
  obtain ⟨hresult, hend⟩ :=
    runLines_respelled hR hlodged hflat P p.skip hp.commands 0 start start hstart
  obtain ⟨hexecuted, hskipped, hwritten, hdevice, hprogress, hfiles⟩ := hend.same
  rw [outcome_runCommands, outcome_runCommands, hp.skip, hp.machine]
  refine ⟨⟨?_, hdevice, hprogress⟩, hfiles⟩
  dsimp only
  rw [show ({ machine := p.machine, progress := w.progress } : Run) = start from rfl, hexecuted,
    hskipped, hwritten]
  exact hresult.map fun _ _ _ => rfl

/-- **Scripts under other spellings** end alike in a fresh session, and with the same image. The names
of entries may be spelled in any other way in which no two of them become one and no one becomes two,
and the letters of other digests may change case. The session's work directory is not to be reached
through its stash. -/
theorem runScript_respelled (P : Primitives) (o : SessionOptions) (lines lines' : List String)
    (inputs : ScriptInputs) (w : World) (hplain : o.PlainPartition) (hretry : o.retry = false)
    (hwell : w.files.WellFormed) (hbeside : Stash.Beside w.files o.workDir o.baseName)
    (hR : Respelling R) (h : ScriptRespelled R lines lines') :
    EndAlike (outcome (runScript P o lines inputs) w) (outcome (runScript P o lines' inputs) w) := by
  obtain ⟨hprepared, hworld⟩ := prepare_respelled inputs hretry h w w rfl
  refine hprepared.outcome_bind (fun p p' w₁ w₁' hrun hrun' hp => ?_) fun e e' w₁ w₁' hrun hrun' he => ?_
  · rw [hrun, hrun'] at hworld
    obtain rfl : w₁ = w₁' := hworld
    -- a fresh stash has no entries, so it corresponds to itself
    obtain ⟨place, hlodged, -⟩ := prepare_opens hplain hwell hrun
    have hempty := noEntry_of_prepare hplain hretry hwell hbeside hrun hlodged
    obtain ⟨hend, hfiles⟩ := runCommands_respelled (P := P) hR hlodged hempty hp w₁
    rw [hp.machine]
    refine hend.result.outcome_bind (fun summary _ w₂ w₂' hcommands hcommands' heq => ?_)
      fun e e' w₂ w₂' hcommands hcommands' he => ?_ <;> rw [hcommands, hcommands'] at hend hfiles
    · subst heq
      have hclean := cleanUp_respelled hlodged.sited hend.device hend.progress hfiles
      refine hclean.result.outcome_bind (fun _ _ w₃ w₃' hdone hdone' _ => ?_)
        fun e e' w₃ w₃' hdone hdone' he => ?_ <;> rw [hdone, hdone'] at hclean
      · exact ⟨.ok rfl, hclean.device, hclean.progress⟩
      · exact ⟨.error he, hclean.device, hclean.progress⟩
    · exact ⟨.error he, hend.device, hend.progress⟩
  · rw [hrun, hrun'] at hworld
    obtain rfl : w₁ = w₁' := hworld
    exact ⟨.error he, rfl, rfl⟩

end Sessions

/-! ## Upper case -/

/-- The digest of a block of sevens in upper case. -/
def upperName : String := "C9AC7B0624824F844F6C7F3D50FAB9741A8914E878467E8DAAEDCA143A34D90B"

/-- That digest in either spelling. -/
def UpperName (a b : String) : Prop := a = Digest.name [7] ∧ b = upperName

theorem respelling_upperName : Respelling UpperName where
  unique := by
    refine ⟨?_, ?_⟩
    · rintro _ _ _ ⟨rfl, rfl⟩ ⟨rfl, -⟩
      rfl
    · rintro _ _ _ ⟨rfl, rfl⟩ ⟨-, rfl⟩
      rfl
  sameDigest := by
    rintro _ _ ⟨rfl, rfl⟩
    rw [Hex.sameDigest, beq_iff_eq, Hex.lowerAscii, Hex.lowerAscii]
    refine String.toList_injective ?_
    rw [String.toList_map, String.toList_map]
    decide +kernel

/-- A script that keeps a block and copies it to another place. -/
def keepLines (name : String) : List String :=
  ["4", "1", "1", "1", "stash " ++ name ++ " 2,0,1",
    "move " ++ name ++ " 2,1,2 1 - " ++ name ++ ":2,0,1"]

theorem header_keepLines (name : String) :
    ScriptHeader.parse (keepLines name) = .ok (⟨4, 1, 1, 1⟩, 4) := by
  rw [keepLines]
  cbv

theorem lineRespelled_stash :
    Command.LineRespelled UpperName ("stash " ++ Digest.name [7] ++ " 2,0,1")
      ("stash " ++ upperName ++ " 2,0,1") := by
  refine Command.lineRespelled_of_words
    (by decide +kernel : Blank.words _ = ["stash", Digest.name [7], "2,0,1"])
    (by decide +kernel : Blank.words _ = ["stash", upperName, "2,0,1"])
    (show Verb.ofText "stash" = .stash from rfl) rfl fun text index i a a' ha ha' => ?_
  have hpiece : ∀ i, ¬ Command.Piece ⟨.stash, [Digest.name [7], "2,0,1"], text, index⟩ i := by
    rintro i ⟨p, hp, -⟩
    cases hp
  rcases i with _ | _ | _
  · obtain rfl := Option.some.inj ha
    obtain rfl := Option.some.inj ha'
    exact .of_key rfl nofun (hpiece 0) ⟨rfl, rfl⟩
  · obtain rfl := Option.some.inj (ha.symm.trans ha')
    exact .of_same nofun nofun (hpiece 1)
  · cases ha

theorem pieceRespelled_upperName :
    PieceRespelled UpperName (Digest.name [7] ++ ":2,0,1") (upperName ++ ":2,0,1") := by
  rw [PieceRespelled,
    (by decide +kernel : Blank.splitFirst? ':' (Digest.name [7] ++ ":2,0,1") =
      some (Digest.name [7], "2,0,1")),
    (by decide +kernel : Blank.splitFirst? ':' (upperName ++ ":2,0,1") =
      some (upperName, "2,0,1"))]
  exact .some ⟨⟨rfl, rfl⟩, rfl⟩

theorem lineRespelled_move :
    Command.LineRespelled UpperName
      ("move " ++ Digest.name [7] ++ " 2,1,2 1 - " ++ Digest.name [7] ++ ":2,0,1")
      ("move " ++ upperName ++ " 2,1,2 1 - " ++ upperName ++ ":2,0,1") := by
  refine Command.lineRespelled_of_words
    (by decide +kernel : Blank.words _ =
      ["move", Digest.name [7], "2,1,2", "1", "-", Digest.name [7] ++ ":2,0,1"])
    (by decide +kernel : Blank.words _ =
      ["move", upperName, "2,1,2", "1", "-", upperName ++ ":2,0,1"])
    (show Verb.ofText "move" = .move from rfl) rfl fun text index i a a' ha ha' => ?_
  -- of the source, what follows the dash is in the stash
  have hpiece : ∀ i, Command.Piece ⟨.move, [Digest.name [7], "2,1,2", "1", "-",
      Digest.name [7] ++ ":2,0,1"], text, index⟩ i ↔ 4 ≤ i := by
    intro i
    constructor
    · rintro ⟨p, hp, hle⟩
      obtain rfl := Option.some.inj hp
      exact hle
    · exact fun hle => ⟨2, rfl, hle⟩
  rcases i with _ | _ | _ | _ | _ | _
  · obtain rfl := Option.some.inj ha
    obtain rfl := Option.some.inj ha'
    exact .of_key rfl nofun (by rw [hpiece]; omega) ⟨rfl, rfl⟩
  · obtain rfl := Option.some.inj (ha.symm.trans ha')
    exact .of_same nofun nofun (by rw [hpiece]; omega)
  · obtain rfl := Option.some.inj (ha.symm.trans ha')
    exact .of_same nofun nofun (by rw [hpiece]; omega)
  · obtain rfl := Option.some.inj (ha.symm.trans ha')
    exact .of_same nofun nofun (by rw [hpiece]; omega)
  · obtain rfl := Option.some.inj ha
    obtain rfl := Option.some.inj ha'
    exact .of_piece nofun nofun ((hpiece 4).mpr (Nat.le_refl 4)) pieceRespelled_upperName
  · cases ha

theorem respelled_keepLines :
    ScriptRespelled UpperName (keepLines (Digest.name [7])) (keepLines upperName) where
  header := by rw [header_keepLines, header_keepLines]
  commands := by
    intro header used hparse
    obtain ⟨rfl, rfl⟩ := Prod.mk.inj (Except.ok.inj ((header_keepLines _).symm.trans hparse))
    exact .cons lineRespelled_stash (.cons lineRespelled_move .nil)

/-- With the name in upper case, the script ends as it does with the name in lower case. -/
theorem runScript_respelled_keepLines :
    EndAlike (outcome (runScript .tabled blockOptions (keepLines (Digest.name [7])) {}) (blockWorld [7, 0]))
      (outcome (runScript .tabled blockOptions (keepLines upperName) {}) (blockWorld [7, 0])) :=
  runScript_respelled .tabled blockOptions _ _ {} (blockWorld [7, 0]) plain_blockOptions rfl
    (wellFormed_blockWorld [7, 0]) (.inl (by decide)) respelling_upperName respelled_keepLines

end Session

end BlockUpdate
