import BlockUpdate.Proofs.CleanStart
import BlockUpdate.Proofs.Visits
import BlockUpdate.Proofs.Ways

/-!
# A dry run spares what its partition resumes from

A dry run keeps a stash too, in a directory of its own beside that of the partition. It opens, fills
and removes this directory and touches no other file, whatever its script is and however it ends;
and when it goes on from where a session stopped, it begins with a copy of that session's stash.

- `SessionOptions.Resumable`: the marker of a partition, and its stash with all that is in it.
- `SessionOptions.Spares`: worlds in which these are the same, and so is the image.
- **`Session.spares_prepare`**, **`spares_runCommands`**, **`spares_cleanUp`**: each part of a dry run
  spares them.
- **`Session.copyEntries_get?`**: what copying the entries of a stash leaves.
- **`Session.openStash_copies`**, **`prepare_copies`**: what a dry run that resumes begins with.
- **`Session.dry_run_spares`**: the whole of a dry run.
-/

namespace BlockUpdate

open FileTree

namespace SessionOptions

variable {o : SessionOptions} {place q : Place}

/-! ## What is to be spared -/

/-- The places of what a partition resumes from: its marker, its stash and all that is in it. -/
def Resumable (o : SessionOptions) (place q : Place) : Prop :=
  q = o.markerAt place ∨ o.stashAt place <+: q

/-- What a partition resumes from is in the work directory. -/
theorem Resumable.beyond (h : o.Resumable place q) : place.length < q.length := by
  rcases h with rfl | hstash
  · simp [markerAt]
  · have hlong := hstash.length_le
    rw [stashAt, List.length_append, List.length_singleton] at hlong
    omega

theorem baseName_ne_of_dry (hdry : o.canWrite = false) {ending : String}
    (hne : "_verify_tmp".toList ≠ ending.toList) : o.baseName ≠ o.partition ++ ending := by
  intro heq
  rw [baseName, baseEnding, if_neg (by rw [hdry]; exact Bool.false_ne_true)] at heq
  have hlist := congrArg String.toList heq
  rw [String.toList_append, String.toList_append] at hlist
  exact hne (List.append_cancel_left hlist)

/-- **The stash of a dry run is another one.** -/
theorem Resumable.not_scratch (hdry : o.canWrite = false) (h : o.Resumable place q) :
    ¬ o.baseAt place <+: q := by
  have hother : ∀ ending : String, "_verify_tmp".toList ≠ ending.toList →
      ¬ o.baseAt place <+: place ++ [o.partition ++ ending] := by
    intro ending hne hprefix
    have hsingle := (List.prefix_append_right_inj place).mp hprefix
    have heq := hsingle.eq_of_length rfl
    exact baseName_ne_of_dry hdry hne (List.cons.inj heq).1
  rcases h with rfl | hstash
  · exact hother ".retry.json" (by decide)
  · intro hbase
    exact hother "_tmp" (by decide)
      (List.prefix_of_prefix_length_le hbase hstash (by simp [baseAt]))

/-- The image is the same, and so is what the partition resumes from, where the work directory is. -/
structure Spares (o : SessionOptions) (w w' : World) : Prop where
  image : w'.device.image = w.device.image
  files : ∀ (t : FileTree) (place : Place), t.Leads o.workDir.parts place →
    ∀ q, o.Resumable place q → w'.files.get? q = w.files.get? q

instance : IsPreorder World o.Spares where
  refl _ := ⟨rfl, fun _ _ _ _ _ => rfl⟩
  trans _ _ _ h h' := ⟨h'.image.trans h.image, fun t place hplace q hq =>
    (h'.files t place hplace q hq).trans (h.files t place hplace q hq)⟩

/-- Nothing changed but in the stash of a dry run. -/
theorem spares_of_outside (hdry : o.canWrite = false) {w w' : World} {t : FileTree}
    (hplace : t.Leads o.workDir.parts place) (himage : w'.device.image = w.device.image)
    (h : Outside (o.baseAt place) w.files w'.files) : o.Spares w w' := by
  refine ⟨himage, fun t' place' hplace' q hq => h q ?_⟩
  obtain rfl := follow_unique hplace.follow hplace'.follow
  exact hq.not_scratch hdry

end SessionOptions

namespace Session

open SessionOptions

variable {P : Primitives} {o : SessionOptions} {lines : List String} {inputs : ScriptInputs}
  {w w₁ w₂ : World} {t t' : FileTree} {place : Place} {p : Prepared}

/-! ## Before the commands -/

theorem spares_onFiles (hdry : o.canWrite = false) (hplace : t.Leads o.workDir.parts place)
    {ε α : Type} {f : ε → TransferError} {x : FileM ε α}
    (h : Leaves (Outside (o.baseAt place)) x w.files) : Leaves o.Spares (onFiles f x) w := by
  unfold Leaves
  rw [outcome_sessionOnFiles]
  exact spares_of_outside hdry hplace rfl h

/-- **Making the work directory** makes no part of what is in it. -/
theorem spares_workDir
    (hwork : (∃ place, w.files.Leads o.workDir.parts place) ∨ ".." ∉ o.workDir.parts) :
    Leaves o.Spares (onFiles .os (FileM.makeDirectories o.workDir)) w := by
  unfold Leaves
  rw [outcome_sessionOnFiles]
  exact ⟨rfl, fun t place hplace q hq => FileM.makeDirectories_beyond hwork hplace hq.beyond⟩

theorem outside_openStash (hdry : o.canWrite = false) (hplain : o.PlainPartition)
    (hwork : t.Leads o.workDir.parts place) :
    Leaves (Outside (o.baseAt place)) (openStash o) t := by
  have hbelow := leads_below_iff.mpr hwork
  rw [openStash, if_neg (by rw [hdry]; exact Bool.false_ne_true), ← baseDir_of_dry hdry]
  refine Leaves.bind (Stash.outside_open hbelow hplain.baseName o.length_baseName true)
    fun scratch t₁ hopen _ => Leaves.get_bind (Leaves.ite (fun hcopy => ?_) fun _ => Leaves.pure _)
  obtain ⟨hbase, place₁, hleads, hstash, hname⟩ := open_lodges hplain hopen
  obtain rfl := follow_unique hbelow.follow hleads.follow
  have hsited : scratch.Sited t₁ (o.baseAt place) := sited_of_leads hname hbase hstash
  -- the stash of the partition is only looked at
  have hkept := Stash.open_of_isDirectory (Bool.and_eq_true_iff.mp hcopy).2
  refine Leaves.bind ?_ fun kept t₂ hopened _ => ?_
  · unfold Leaves
    rw [hkept]
    exact refl_of (Outside (o.baseAt place)) t₁
  · rw [hkept] at hopened
    obtain ⟨-, rfl⟩ := Prod.ext_iff.mp hopened
    refine Leaves.bind (refl_of (Outside (o.baseAt place)) t₁) fun ids t₃ hlook _ => ?_
    obtain ⟨-, rfl⟩ := fileLook_eq_ok.mp hlook
    refine Leaves.bind ?_ fun _ _ _ _ => Leaves.pure _
    exact outside_of_touched (touched_copyEntries _ hsited ids)

/-- What a dry run skips is found without a change. -/
theorem findSkip_dry (hdry : o.canWrite = false) (commands : List String) (t : FileTree) :
    (outcome (findSkip o commands) t).2 = t := by
  cases hretry : o.retry with
  | true =>
    rw [findSkip_resumed hretry]
  | false =>
    rw [findSkip, hretry, hdry]
    rfl

/-- **All that comes before the commands** of a dry run spares what the partition resumes from. -/
theorem spares_prepare (hdry : o.canWrite = false) (hplain : o.PlainPartition)
    (hwork : (∃ place, w.files.Leads o.workDir.parts place) ∨ ".." ∉ o.workDir.parts) :
    Leaves o.Spares (prepare o lines inputs) w := by
  refine Leaves.bind (refl_of o.Spares w) fun header w₁ hlift _ => ?_
  obtain ⟨-, rfl⟩ := lift_eq_ok.mp hlift
  refine Leaves.bind (spares_workDir hwork) fun _ w₂ hmake _ => ?_
  obtain ⟨t₁, hmade, rfl⟩ := sessionOnFiles_eq_ok.mp hmake
  obtain ⟨-, -, place, hplace⟩ := FileM.makeDirectories_eq_ok hmade
  refine Leaves.bind (spares_onFiles hdry hplace (outside_openStash hdry hplain hplace))
    fun stash w₃ _ _ => ?_
  refine Leaves.bind (spares_onFiles hdry hplace ?_) fun skip w₄ _ _ => ?_
  · unfold Leaves
    rw [findSkip_dry hdry]
    exact refl_of (Outside (o.baseAt place)) w₃.files
  · refine Leaves.get_bind (Leaves.bind (refl_of o.Spares w₄) fun machine w₅ _ _ => Leaves.pure _)

/-! ## The commands -/

/-- **Commands of a dry run** change nothing but its own stash. -/
theorem Visits.outside {m₀ m : Machine} (h : Visits P o m₀ m) (hdry : o.canWrite = false)
    (hm₀ : o.Lodged place m₀) :
    m.device.image = m₀.device.image ∧ Outside (o.baseAt place) m₀.files m.files := by
  induction h with
  | start => exact ⟨rfl, refl_of (Outside (o.baseAt place)) m₀.files⟩
  | @ran m h c ih =>
    have hlodged := h.lodged hm₀
    -- the device is confined to the target, and a dry run has none
    have himage : (outcome (c.run P) m).2.device.image = m.device.image := by
      refine (Command.run_confined P c m).device.image_eq fun _ hreach => ?_
      have hlive := hreach.1
      rw [hlodged.canWrite, hdry] at hlive
      cases hlive
    exact ⟨himage.trans ih.1, trans_of (Outside (o.baseAt place)) ih.2
      (outside_of_touched (Command.run_touched P c hlodged.sited).files)⟩
  | saved _ hwrite =>
    -- no marker is saved
    rw [hdry] at hwrite
    cases hwrite

section Commands

variable (hdry : o.canWrite = false) (hplain : o.PlainPartition) (hwell : w.files.WellFormed)
  (hprepare : outcome (prepare o lines inputs) w = (.ok p, w₁))

include hdry hplain hwell hprepare

theorem spares_runCommands (P : Primitives) : Leaves o.Spares (runCommands P o p) w₁ := by
  obtain ⟨place, hlodged, -, hfiles, hdevice, hdevice', -⟩ := prepare_opens hplain hwell hprepare
  obtain ⟨m, hvisits, hafter, hafter'⟩ := visits_runCommands P o p w₁
  obtain ⟨himage, houtside⟩ := hvisits.outside hdry hlodged
  refine spares_of_outside hdry (leads_below_iff.mp hlodged.leads) ?_ ?_
  · rw [hafter, himage, hdevice, hdevice']
  · rw [hafter', ← hfiles]
    exact houtside

/-- **What a dry run removes at its end** is its own stash. -/
theorem spares_cleanUp {summary : Summary}
    (hrun : outcome (runCommands P o p) w₁ = (.ok summary, w₂)) :
    Leaves o.Spares (cleanUp o p.machine.stash) w₂ := by
  obtain ⟨place, hlodged, -⟩ := prepare_opens hplain hwell hprepare
  obtain ⟨m, hvisits, -, hfiles⟩ := visits_runCommands P o p w₁
  have hend := hvisits.lodged hlodged
  rw [hrun] at hfiles
  have hsited : p.machine.stash.Sited w₂.files (o.baseAt place) := by
    rw [hfiles]
    exact hend.sited.of_base (hlodged.base.trans hend.base.symm)
  refine Leaves.bind (spares_onFiles hdry (leads_below_iff.mp hlodged.leads)
    (Stash.outside_freeAll hsited (by simp [baseAt]))) fun _ w₃ _ _ => ?_
  exact Leaves.ite (fun hwrite => by rw [hdry] at hwrite; cases hwrite) fun _ => Leaves.pure _

end Commands

/-! ## The copied stash -/

/-- What copying one entry does. -/
def CopiesEntry (sourcePlace targetPlace : Place) (id : String) (t t' : FileTree) : Prop :=
  (t' = t ∧ ∀ data, Stash.Entry id → t.get? (sourcePlace ++ [id]) ≠ some (.file data)) ∨
    ∃ data, t.get? (sourcePlace ++ [id]) = some (.file data) ∧
      Stash.Storable t targetPlace id ∧ t' = Stash.stored t targetPlace id data

variable {source target : Stash} {sourcePlace targetPlace : Place}

theorem copyEntries_cons (hsource : source.Sited t sourcePlace)
    (htarget : target.Sited t targetPlace) {id : String} {rest : List String}
    (h : outcome (copyEntries source target (id :: rest)) t = (.ok (), t')) :
    ∃ t₁, CopiesEntry sourcePlace targetPlace id t t₁ ∧
      outcome (copyEntries source target rest) t₁ = (.ok (), t') := by
  rw [copyEntries, outcome_get_bind] at h
  rcases hsize : source.entrySize? t id with _ | size
  · rw [hsize] at h
    refine ⟨t, .inl ⟨rfl, fun data hid hdata => ?_⟩, h⟩
    rcases (Stash.entrySize?_eq_none hsource).mp hsize with hnot | hnone
    · exact hnot hid
    · rw [hnone] at hdata
      cases hdata
  · rw [hsize] at h
    obtain ⟨found, t₁, hlook, h⟩ := outcome_bind_eq_ok.mp h
    obtain ⟨hload, rfl⟩ := fileLook_eq_ok.mp hlook
    cases found with
    | none =>
      refine ⟨t, .inl ⟨rfl, fun data hid hdata => ?_⟩, h⟩
      rw [(Stash.entrySize?_eq_some hsource).mpr ⟨hid, .inl ⟨data, hdata, rfl⟩⟩] at hsize
      rw [Stash.load?_of_file hsource hid hdata, if_pos (Option.some.inj hsize)] at hload
      cases hload
    | some data =>
      obtain ⟨⟨⟩, t₂, hstore, h⟩ := outcome_bind_eq_ok.mp h
      obtain ⟨hstorable, rfl⟩ := (Stash.store_eq_ok htarget data).mp hstore
      exact ⟨_, .inr ⟨data, ((Stash.load?_eq_some hsource).mp hload).2.1, hstorable, rfl⟩, h⟩

/-- An entry that can be stored is copied, and then the others are. -/
theorem copyEntries_of_file (hsource : source.Sited t sourcePlace)
    (htarget : target.Sited t targetPlace) {id : String} (hid : Stash.Entry id) {data : Bytes}
    (hfile : t.get? (sourcePlace ++ [id]) = some (.file data))
    (hstorable : Stash.Storable t targetPlace id) (rest : List String) :
    outcome (copyEntries source target (id :: rest)) t =
      outcome (copyEntries source target rest) (Stash.stored t targetPlace id data) := by
  have hsize := (Stash.entrySize?_eq_some hsource).mpr ⟨hid, .inl ⟨data, hfile, rfl⟩⟩
  have hload := Stash.load?_of_file hsource hid hfile data.size
  rw [if_pos rfl] at hload
  rw [copyEntries, outcome_get_bind, hsize]
  simp only
  rw [outcome_bind_of_ok (fileLook_eq_ok.mpr ⟨hload, rfl⟩)]
  exact outcome_bind_of_ok ((Stash.store_eq_ok htarget data).mpr ⟨hstorable, rfl⟩) _

/-- **What copying entries leaves**: every entry that is listed, and no other that was not there. -/
theorem copyEntries_get? (hsource : source.Sited t sourcePlace)
    (htarget : target.Sited t targetPlace) (hne : sourcePlace ≠ targetPlace) {ids : List String}
    (h : outcome (copyEntries source target ids) t = (.ok (), t')) {id : String}
    (hid : Stash.Entry id) (data : Bytes) :
    (t'.get? (targetPlace ++ [id]) = some (.file data) →
      t.get? (sourcePlace ++ [id]) = some (.file data) ∨
        t.get? (targetPlace ++ [id]) = some (.file data)) ∧
    (t.get? (sourcePlace ++ [id]) = some (.file data) →
      id ∈ ids ∨ t.get? (targetPlace ++ [id]) = some (.file data) →
        t'.get? (targetPlace ++ [id]) = some (.file data)) := by
  -- the source is the same after every entry, and the target has one entry more
  induction ids generalizing t with
  | nil =>
    obtain rfl : t = t' := congrArg Prod.snd h
    exact ⟨.inr, fun _ h => h.resolve_left List.not_mem_nil⟩
  | cons first rest ih =>
    obtain ⟨t₁, hcopies, hrest⟩ := copyEntries_cons hsource htarget h
    rcases hcopies with ⟨rfl, hnone⟩ | ⟨copied, hcopied, hstorable, rfl⟩
    · obtain ⟨honly, hall⟩ := ih hsource htarget hrest
      refine ⟨honly, fun hdata hlisted => hall hdata (hlisted.imp_left fun hmem => ?_)⟩
      rcases List.mem_cons.mp hmem with rfl | hmem
      · exact absurd hdata (hnone data hid)
      · exact hmem
    · have htouched := Stash.touched_stored hstorable copied
      obtain ⟨honly, hall⟩ := ih (hsource.mono fun q => (htouched.directories q).mpr)
        (htouched.sited htarget) hrest
      have hkept : (Stash.stored t targetPlace first copied).get? (sourcePlace ++ [id]) =
          t.get? (sourcePlace ++ [id]) := by
        refine htouched.elsewhere _ ?_
        rintro ⟨name, heq⟩
        exact hne (List.append_inj' heq rfl).1
      have hstored : (Stash.stored t targetPlace first copied).get? (targetPlace ++ [id]) =
          if id = first then some (.file copied) else t.get? (targetPlace ++ [id]) := by
        rw [Stash.get?_stored]
        simp [Stash.ne_temporaryName hid.1 first]
      rw [hkept, hstored] at honly hall
      constructor
      · intro hdata
        rcases honly hdata with hfound | hfound
        · exact .inl hfound
        · split_ifs at hfound with hname
          · cases hfound
            exact .inl (hname ▸ hcopied)
          · exact .inr hfound
      · intro hdata hlisted
        refine hall hdata ?_
        by_cases hname : id = first
        · rw [if_pos hname]
          rw [hname, hcopied] at hdata
          exact .inr hdata
        · rw [if_neg hname]
          exact hlisted.imp_left fun hmem => (List.mem_cons.mp hmem).resolve_left hname

/-! ### Where the stash of the partition is -/

theorem length_stashName (o : SessionOptions) : 4 ≤ o.stashName.toList.length := by
  rw [stashName, String.toList_append, List.length_append]
  exact Nat.le_add_left ..

/-- What leads to the stash of the partition leads through the work directory. -/
theorem sited_of_leads_stashDir (hplain : o.PlainPartition) {q : Place}
    (h : t.Leads o.stashDir.parts q) :
    ∃ place, t.Leads o.workDir.parts place ∧
      (⟨o.stashDir, false⟩ : Stash).Sited t (o.stashAt place) := by
  obtain ⟨place, rfl, hwork, hname, -⟩ :=
    leads_of_join (hplain.noSlash (by decide)) (length_stashName o) h
  exact ⟨place, leads_below_iff.mp hwork, sited_of_leads hname rfl h⟩

/-- A stash from which something can be loaded has its directory. -/
theorem sited_of_load? (hplain : o.PlainPartition) {id : String} {size : Nat} {data : Bytes}
    (h : (⟨o.stashDir, false⟩ : Stash).load? t id size = .ok (some data)) :
    ∃ place, t.Leads o.workDir.parts place ∧
      (⟨o.stashDir, false⟩ : Stash).Sited t (o.stashAt place) := by
  have hne : o.stashName ≠ "" := fun hempty => by
    have hlength := length_stashName o
    rw [hempty] at hlength
    cases hlength
  have hbelow : o.stashDir.below = o.stashDir.parts := Path.below_of_parts hplain.stashDir_parts hne
  by_cases hid : Stash.validId id = true
  · rw [Stash.load?_of_entryPath (Stash.entryPath_of_validId _ hid)] at h
    rcases hnode : t.node (o.stashDir.join id) with e | found
    · rw [hnode] at h
      cases e with
      | errno e =>
        change (if e = Errno.noEntry then _ else _) = _ at h
        split_ifs at h
        cases h
      | _ => cases h
    · -- the way to what has a node leads through a directory
      obtain ⟨end_, hlocate, -⟩ := except_bind_eq_ok.mp hnode
      rw [FileTree.locate] at hlocate
      split_ifs at hlocate with hnul
      rw [Path.parts_join _ (Stash.plainName_of_validId hid).noSlash, hbelow] at hnul hlocate
      rw [List.any_append, Bool.or_eq_true, not_or] at hnul
      rw [follow_append, except_bind_eq_ok] at hlocate
      obtain ⟨q, hq, hentry⟩ := hlocate
      exact sited_of_leads_stashDir hplain
        ⟨Bool.eq_false_iff.mpr hnul.1, hq, get?_of_follow_cons hentry⟩
  · rw [Stash.load?, Stash.entryPath_of_not_validId _ hid] at h
    cases h

/-- A name like that of the scratch stash is that of the partition's stash. -/
theorem sited_stashDir (hdry : o.canWrite = false) (hplain : o.PlainPartition)
    (hname : PlainName o.baseName) (hsize : o.baseName.utf8ByteSize ≤ maxName)
    (hwork : t.Leads o.workDir.parts place) (hdir : t.get? (o.stashAt place) = some .directory) :
    (⟨o.stashDir, false⟩ : Stash).Sited t (o.stashAt place) := by
  have hstashName : PlainName o.stashName :=
    plainName_of_plainName hplain hname (by decide) (by decide) (by decide)
  have hstashSize : o.stashName.utf8ByteSize ≤ maxName := by
    rw [baseName, baseEnding, if_neg (by rw [hdry]; exact Bool.false_ne_true),
      String.utf8ByteSize_append] at hsize
    rw [stashName, String.utf8ByteSize_append]
    have hshort : "_tmp".utf8ByteSize ≤ "_verify_tmp".utf8ByteSize := by decide
    omega
  refine sited_of_leads hstashName rfl (?_ : t.Leads o.stashDir.parts _)
  rw [hplain.stashDir_parts]
  exact (leads_below_iff.mpr hwork).child hstashName hstashSize hdir

/-! ### What the scratch stash begins with -/

/-- **A scratch stash that was opened** is empty, and what is outside it is as it was. -/
theorem open_scratch (hplain : o.PlainPartition) (hwell : t.WellFormed)
    (hwork : t.Leads o.workDir.parts place) {s : Stash}
    (h : outcome (Stash.open_ o.baseDir true) t = (.ok s, t')) :
    t'.Leads o.workDir.parts place ∧ s.Sited t' (o.baseAt place) ∧ PlainName o.baseName ∧
      o.baseName.utf8ByteSize ≤ maxName ∧ Outside (o.baseAt place) t t' ∧
      ∀ id data, t'.get? (o.baseAt place ++ [id]) ≠ some (.file data) := by
  have hbelow := leads_below_iff.mpr hwork
  obtain ⟨hs, place', hleads, hscratch, hname, hnone⟩ :=
    open_wiped hwell ⟨place, hwork⟩ hplain.baseName o.length_baseName h
  obtain rfl := follow_unique hleads.follow hbelow.follow
  obtain ⟨-, -, -, -, hsize⟩ := leads_of_join hplain.baseName o.length_baseName hscratch
  have houtside := Stash.outside_open hbelow hplain.baseName o.length_baseName true
  unfold Leaves at houtside
  rw [show outcome (Stash.open_ (o.workDir.join o.baseName) true) t = _ from h] at houtside
  refine ⟨leads_below_iff.mp hleads, sited_of_leads hname (congrArg Stash.base hs) hscratch, hname,
    hsize, houtside, fun id data hfile => ?_⟩
  cases hnone _ (mem_of_get? (by simp) hfile) id rfl

/-- **A dry run that resumes begins with the entries of the partition's stash**, and no others. -/
theorem openStash_copies (hdry : o.canWrite = false) (hretry : o.retry = true)
    (hplain : o.PlainPartition) (hwell : t.WellFormed) (hwork : t.Leads o.workDir.parts place)
    {s : Stash} (h : outcome (openStash o) t = (.ok s, t')) {id : String} (hid : Stash.Entry id)
    (data : Bytes) :
    t'.get? (o.baseAt place ++ [id]) = some (.file data) ↔
      t.get? (o.stashAt place ++ [id]) = some (.file data) := by
  obtain ⟨t₁, hopen, h⟩ := (openStash_dry_eq_ok hdry).mp h
  rw [← baseDir_of_dry hdry] at hopen
  obtain ⟨hwork₁, htarget, hname, hsize, hopened, hempty⟩ := open_scratch hplain hwell hwork hopen
  have hkept : ∀ q, o.stashAt place <+: q → t₁.get? q = t.get? q := fun q hq =>
    hopened q (Resumable.not_scratch hdry (.inr hq))
  have hentry := hkept _ (List.prefix_append (o.stashAt place) [id])
  split_ifs at h with hcopy
  · obtain ⟨kept, t₂, ids, hopenKept, hids, hcopied⟩ := h
    rw [Stash.open_of_isDirectory hcopy.2] at hopenKept
    obtain ⟨rfl, rfl⟩ : ⟨o.stashDir, false⟩ = kept ∧ t₁ = t₂ := by simpa using hopenKept
    obtain ⟨q, hlocate, hdir⟩ := isDirectory_iff.mp hcopy.2
    obtain ⟨place₂, hwork₂, hsource⟩ :=
      sited_of_leads_stashDir hplain (leads_of_locate hlocate hdir)
    obtain rfl := follow_unique hwork₂.follow hwork₁.follow
    have hne : o.stashAt place₂ ≠ o.baseAt place₂ := fun heq =>
      Resumable.not_scratch hdry (.inr (List.prefix_refl (o.stashAt place₂))) (by rw [heq])
    obtain ⟨honly, hall⟩ := copyEntries_get? hsource htarget hne hcopied hid data
    rw [hentry] at honly hall
    refine ⟨fun hfile => (honly hfile).resolve_right (hempty id data),
      fun hfile => hall hfile (.inl ?_)⟩
    -- what is there is listed
    have hheld : (id, data) ∈ Stash.held t₁ (o.stashAt place₂) :=
      Stash.mem_held.mpr ⟨mem_of_get? (by simp) (hentry.trans hfile), hid.1⟩
    rw [Stash.entries_eq hsource] at hids
    rw [← Except.ok.inj hids, List.mem_mergeSort]
    exact List.mem_map_of_mem (f := Prod.fst) hheld
  · rw [h]
    -- an entry would be in a directory, and this would have been copied
    refine ⟨fun hfile => absurd hfile (hempty id data), fun hfile => (hcopy ⟨hretry, ?_⟩).elim⟩
    have hdir : t₁.get? (o.stashAt place) = some .directory := by
      rw [hkept _ (List.prefix_refl _)]
      exact hwell.parent (by rw [hfile]; exact Option.some_ne_none _)
    have hsource := sited_stashDir hdry hplain hname hsize hwork₁ hdir
    exact isDirectory_iff.mpr ⟨_, hsource.leads.locate_self hsource.named, hdir⟩

/-- **What a dry run that resumes begins with** can be loaded from the partition's stash, and all
that can be loaded from there it begins with. -/
theorem prepare_copies (hdry : o.canWrite = false) (hretry : o.retry = true)
    (hplain : o.PlainPartition) (hwell : w.files.WellFormed)
    (hwork : (∃ place, w.files.Leads o.workDir.parts place) ∨ ".." ∉ o.workDir.parts)
    (hprepare : outcome (prepare o lines inputs) w = (.ok p, w₁)) (id : String) (data : Bytes) :
    p.machine.stash.load? p.machine.files id data.size = .ok (some data) ↔
      (⟨o.stashDir, false⟩ : Stash).load? w.files id data.size = .ok (some data) := by
  obtain ⟨place, hlodged, -, hfiles, -⟩ := prepare_opens hplain hwell hprepare
  obtain ⟨header, used, t₁, stash, t₂, skip, t₃, machine, -, hmake, hopen, hskip, -, rfl, rfl⟩ :=
    prepare_eq_ok.mp hprepare
  obtain ⟨-, hwell₁, place₁, hplace⟩ := FileM.makeDirectories_eq_ok hmake
  obtain rfl := follow_unique hplace.follow (leads_below_iff.mp hlodged.leads).follow
  have hskipped := findSkip_dry hdry (lines.drop used) t₂
  rw [hskip] at hskipped
  obtain rfl : t₃ = t₂ := hskipped
  -- the stash of the partition, before the work directory is made and after
  have hmade := (spares_workDir hwork).files t₁ place₁ hplace
  rw [outcome_sessionOnFiles, hmake] at hmade
  have hsame : t₁.get? (o.stashAt place₁ ++ [id]) = w.files.get? (o.stashAt place₁ ++ [id]) :=
    hmade _ (.inr (List.prefix_append ..))
  rw [Stash.load?_eq_some hlodged.sited, hfiles]
  constructor
  · rintro ⟨hid, hfile, -⟩
    have hfound := (openStash_copies hdry hretry hplain (hwell₁ hwell) hplace hopen hid data).mp hfile
    rw [hsame] at hfound
    have hdir : w.files.get? (o.stashAt place₁) = some .directory :=
      hwell.parent (by rw [hfound]; exact Option.some_ne_none _)
    -- the stash is in the work directory, so this was there before
    have hthere : w.files.Leads o.workDir.parts place₁ := by
      rcases hwork with ⟨found, hleads⟩ | hup
      · obtain rfl := follow_unique hleads.follow hplace.follow
        exact hleads
      · have hplaceDir := hwell.directory_of_append hdir
        exact ⟨hplace.clean, hwell.follow hup hplace.follow hplaceDir, hplaceDir⟩
    obtain ⟨place', heq, -, hname, hsize⟩ := leads_of_join hplain.baseName o.length_baseName
      (hlodged.base ▸ hlodged.sited.leads)
    exact (Stash.load?_eq_some (sited_stashDir hdry hplain hname hsize hthere hdir)).mpr
      ⟨hid, hfound, rfl⟩
  · intro hload
    obtain ⟨place', hthere, hsource⟩ := sited_of_load? hplain hload
    obtain rfl := follow_unique hthere.follow hplace.follow
    obtain ⟨hid, hfile, -⟩ := (Stash.load?_eq_some hsource).mp hload
    rw [← hsame] at hfile
    exact ⟨hid, (openStash_copies hdry hretry hplain (hwell₁ hwell) hplace hopen hid data).mpr hfile,
      rfl⟩

/-! ## A dry run -/

/-- **A dry run spares what its partition resumes from**, whatever its script and however it ends:
the image, the marker and the stash with all that is in it are as they were, where the work
directory is; and if it goes on from where a session stopped, the stash it begins with is another
one, from which the same can be loaded.

Where the path of the work directory goes up through a directory that is missing, that directory is
made too, and it may be that of the stash. -/
theorem dry_run_spares (P : Primitives) (o : SessionOptions) (lines : List String)
    (inputs : ScriptInputs) (w : World) (hdry : o.canWrite = false) (hplain : o.PlainPartition)
    (hwell : w.files.WellFormed)
    (hwork : (∃ place, w.files.Leads o.workDir.parts place) ∨ ".." ∉ o.workDir.parts) :
    let w' := (outcome (runScript P o lines inputs) w).2
    w'.device.image = w.device.image ∧
      (∀ (t : FileTree) (place : Place), t.Leads o.workDir.parts place →
        ∀ q, o.Resumable place q → w'.files.get? q = w.files.get? q) ∧
      (o.retry = true → ∀ p w₁, outcome (prepare o lines inputs) w = (.ok p, w₁) →
        p.machine.stash.base = o.scratchDir ∧ ∀ id data,
          p.machine.stash.load? p.machine.files id data.size = .ok (some data) ↔
            (⟨o.stashDir, false⟩ : Stash).load? w.files id data.size = .ok (some data)) := by
  have hspares : Leaves o.Spares (runScript P o lines inputs) w := by
    refine Leaves.bind (spares_prepare hdry hplain hwork) fun p w₁ hprepare _ => ?_
    refine Leaves.bind (spares_runCommands hdry hplain hwell hprepare P) fun summary w₂ hrun _ => ?_
    exact Leaves.bind (spares_cleanUp hdry hplain hwell hprepare hrun) fun _ _ _ _ =>
      Leaves.pure _
  refine ⟨hspares.image, hspares.files, fun hretry p w₁ hprepare => ⟨?_, fun id data => ?_⟩⟩
  · obtain ⟨place, hlodged, -⟩ := prepare_opens hplain hwell hprepare
    rw [hlodged.base, baseDir_of_dry hdry]
  · exact prepare_copies hdry hretry hplain hwell hwork hprepare id data

/-! ## One entry is copied -/

open Bytes (uniform)

/-- A dry run that goes on where a session has left an entry. -/
def verifyingOptions : SessionOptions := { resumingOptions with canWrite := false }

theorem openStash_keptWorld (fill : List UInt8) :
    ∃ s t', outcome (openStash verifyingOptions) (keptWorld 7 fill).files = (.ok s, t') := by
  have hwork := work_keptWorld 7 fill
  have hname : PlainName verifyingOptions.baseName :=
    ⟨by decide, by decide, by decide, by decide, by decide⟩
  have hsize : verifyingOptions.baseName.utf8ByteSize ≤ maxName := by decide
  have hparts : verifyingOptions.scratchDir.parts =
      verifyingOptions.workDir.below ++ [verifyingOptions.baseName] := rfl
  have hleads : (keptWorld 7 fill).files.Leads verifyingOptions.workDir.below ["w"] := hwork.leads
  -- the scratch stash is made
  have hnone : (keptWorld 7 fill).files.get? (["w"] ++ [verifyingOptions.baseName]) = none := by
    have hplace : ["w"] ++ [verifyingOptions.baseName] = ["w", "p_verify_tmp"] := rfl
    rw [hplace, get?_keptWorld]
    simp
  have hmissing : (keptWorld 7 fill).files.isDirectory verifyingOptions.scratchDir = false := by
    rw [Bool.eq_false_iff]
    intro hthere
    obtain ⟨q, hq, hdir⟩ := isDirectory_iff.mp hthere
    rw [hleads.locate_of_le hname hparts hsize] at hq
    obtain rfl := Except.ok.inj hq
    cases hnone.symm.trans hdir
  let t₁ := (keptWorld 7 fill).files.put (["w"] ++ [verifyingOptions.baseName]) .directory
  have hopen : outcome (Stash.open_ verifyingOptions.scratchDir true) (keptWorld 7 fill).files =
      (.ok ⟨verifyingOptions.scratchDir, true⟩, t₁) :=
    open_eq_ok.mpr ⟨_, by rw [hmissing]; rfl,
      FileM.makeDirectories_child hleads hname hsize hparts hnone, by rw [hmissing]; rfl⟩
  have hmore : ∀ q, (keptWorld 7 fill).files.get? q = some .directory →
      t₁.get? q = some .directory := fun q => (Grown.put hnone).directory
  have hsource : (⟨verifyingOptions.stashDir, false⟩ : Stash).Sited t₁
      (verifyingOptions.stashAt ["w"]) :=
    (hwork.sited plain_resumingOptions rfl).mono hmore
  have htarget : (⟨verifyingOptions.scratchDir, true⟩ : Stash).Sited t₁
      (verifyingOptions.baseAt ["w"]) := by
    refine sited_of_leads hname rfl (?_ : t₁.Leads verifyingOptions.scratchDir.parts _)
    rw [hparts]
    exact (hleads.mono hmore).child hname hsize ((get?_put _ (by simp) _ _).trans (if_pos rfl))
  -- its only entry is copied
  have hids : (⟨verifyingOptions.stashDir, false⟩ : Stash).entries t₁ = .ok [Digest.name [7]] := by
    have hheld : Stash.held t₁ (verifyingOptions.stashAt ["w"]) =
        [(Digest.name [7], uniform [7])] := rfl
    rw [Stash.entries_eq hsource, hheld, List.map_singleton, List.mergeSort_singleton]
  have hentry : Stash.Entry (Digest.name [7]) := ⟨by decide, by decide⟩
  have hfile : t₁.get? (verifyingOptions.stashAt ["w"] ++ [Digest.name [7]]) =
      some (.file (uniform [7])) := by
    rw [get?_put _ (by simp), if_neg (by decide)]
    exact (get?_stash_keptWorld 7 fill _).trans (if_pos rfl)
  have hfree : ∀ name, t₁.get? (verifyingOptions.baseAt ["w"] ++ [name]) ≠ some .directory := by
    intro name
    have hplace : verifyingOptions.baseAt ["w"] ++ [name] = ["w", "p_verify_tmp", name] := rfl
    rw [hplace, get?_put _ (by simp), if_neg (by simp), get?_keptWorld]
    simp
  have hstorable : Stash.Storable t₁ (verifyingOptions.baseAt ["w"]) (Digest.name [7]) :=
    ⟨by decide, by decide, hfree _, hfree _⟩
  have hcopy := copyEntries_of_file hsource htarget hentry hfile hstorable []
  have hthere : t₁.isDirectory verifyingOptions.stashDir = true :=
    isDirectory_iff.mpr ⟨_, hsource.leads.locate_self hsource.named, hsource.leads.directory⟩
  exact ⟨_, _, (openStash_dry_eq_ok rfl).mpr ⟨t₁, hopen, by
    rw [if_pos ⟨rfl, hthere⟩]
    exact ⟨_, _, _, Stash.open_of_isDirectory hthere, hids, hcopy⟩⟩⟩

theorem leads_keptWorld (fill : List UInt8) :
    (keptWorld 7 fill).files.Leads verifyingOptions.workDir.parts ["w"] :=
  leads_below_iff.mp (work_keptWorld 7 fill).leads

/-- Such a dry run gets to its commands. -/
theorem prepare_verifying (fill : List UInt8) {header : ScriptHeader} {used : Nat}
    (hheader : ScriptHeader.parse lines = .ok (header, used)) (inputs : ScriptInputs) :
    ∃ p w', outcome (prepare verifyingOptions lines inputs) (keptWorld 7 fill) = (.ok p, w') := by
  have hplain : verifyingOptions.PlainPartition := plain_resumingOptions
  have hplace := leads_keptWorld fill
  obtain ⟨s, t', hopen⟩ := openStash_keptWorld fill
  obtain ⟨-, place, hleads, hsited, hname, -⟩ :=
    openStash_opens hplain (wellFormed_keptWorld 7 fill) ⟨_, hplace⟩ hopen
  obtain rfl := follow_unique hleads.follow (work_keptWorld 7 fill).leads.follow
  -- there is still no marker
  have hmarker : t'.get? (verifyingOptions.markerAt ["w"]) = none := by
    have houtside := outside_openStash rfl hplain hplace
    rw [Leaves, hopen] at houtside
    rw [houtside _ (Resumable.not_scratch rfl (.inl rfl))]
    have hmarkerPlace : verifyingOptions.markerAt ["w"] = ["w", "p.retry.json"] := rfl
    rw [hmarkerPlace, get?_keptWorld]
    simp
  have hload : RetryMarker.load t' verifyingOptions.markerPath = .ok none := by
    refine RetryMarker.load_of_noEntry ?_
    rw [hleads.node (work_keptWorld 7 fill).markerPlain hplain.markerPath_parts,
      if_neg (Nat.not_lt.mpr (work_keptWorld 7 fill).markerSize)]
    rw [show ["w"] ++ [resumingOptions.markerName] = verifyingOptions.markerAt ["w"] from rfl,
      hmarker]
  have hskip : outcome (findSkip verifyingOptions (lines.drop used)) t' =
      (.ok (RetrySkip.resolve none (lines.drop used)), t') := by
    rw [findSkip_resumed rfl, hload]
    rfl
  exact ⟨_, _, prepare_eq_ok.mpr ⟨header, used, _, s, t', _, t', _, hheader,
    FileM.makeDirectories_of_leads hplace, hopen, hskip, Machine.countStash_eq hsited, rfl, rfl⟩⟩

/-- A dry run that goes on where a session has left an entry: it begins with a copy of it, and
leaves it there. -/
theorem dry_run_spares_kept : ∃ p w₁,
    outcome (prepare verifyingOptions (refresh "new 2,2,3") refreshInputs) (keptWorld 7 [7, 0, 1]) =
      (.ok p, w₁) ∧
    p.machine.stash.base = verifyingOptions.scratchDir ∧
    p.machine.stash.load? p.machine.files (Digest.name [7]) (uniform [7]).size =
      .ok (some (uniform [7])) ∧
    let w' := (outcome (runScript .tabled verifyingOptions (refresh "new 2,2,3") refreshInputs)
      (keptWorld 7 [7, 0, 1])).2
    w'.device.image = uniform [7, 0, 1] ∧
      w'.files.get? (verifyingOptions.stashAt ["w"] ++ [Digest.name [7]]) =
        some (.file (uniform [7])) ∧
      w'.files.get? (verifyingOptions.markerAt ["w"]) = none := by
  have hplace := leads_keptWorld [7, 0, 1]
  obtain ⟨p, w₁, hprepare⟩ :=
    prepare_verifying [7, 0, 1] (header_refresh "new 2,2,3") refreshInputs
  obtain ⟨himage, hfiles, hcopied⟩ := dry_run_spares .tabled verifyingOptions (refresh "new 2,2,3")
    refreshInputs (keptWorld 7 [7, 0, 1]) rfl plain_resumingOptions (wellFormed_keptWorld 7 [7, 0, 1])
    (.inl ⟨_, hplace⟩)
  obtain ⟨hbase, hsame⟩ := hcopied rfl p w₁ hprepare
  have hsited : (⟨verifyingOptions.stashDir, false⟩ : Stash).Sited (keptWorld 7 [7, 0, 1]).files
      (verifyingOptions.stashAt ["w"]) :=
    (work_keptWorld 7 [7, 0, 1]).sited plain_resumingOptions rfl
  have hfile := (get?_stash_keptWorld 7 [7, 0, 1] (Digest.name [7])).trans (if_pos rfl)
  refine ⟨p, w₁, hprepare, hbase, (hsame _ _).mpr ?_, himage, ?_, ?_⟩
  · exact (Stash.load?_eq_some hsited).mpr ⟨⟨by decide, by decide⟩, hfile, rfl⟩
  · exact (hfiles _ _ hplace _ (.inr (List.prefix_append ..))).trans hfile
  · have hmarkerPlace : verifyingOptions.markerAt ["w"] = ["w", "p.retry.json"] := rfl
    rw [hfiles _ _ hplace _ (.inl rfl), hmarkerPlace, get?_keptWorld]
    simp

end Session

end BlockUpdate
