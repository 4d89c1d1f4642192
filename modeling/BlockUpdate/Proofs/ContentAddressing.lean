import BlockUpdate.Proofs.CleanStart
import BlockUpdate.Proofs.Visits

/-!
# The stash is addressed by contents

What a command stashes has the digest that names it, because it was read from the device and
checked, or is a source and was checked before anything is done with it. No other name is given to
an entry, and nothing is written into one.

- `Checksum.Names`: a name says what the contents of an entry are.
- `Stash.Addressed`: every entry has the name of its contents.
- **`Visits.addressed`**: commands keep a stash so, in any order and however they end.
- **`Command.source_of_image_ne`**: what changes the image was made from a source that was checked.
- **`Session.content_addressed`**: both, for every session.
-/

namespace BlockUpdate

namespace Checksum

variable {P : Primitives} {id : String} {data : Bytes} {blocks : Nat}

/-- A text is the digest of some whole blocks, up to the case of its letters. -/
def Names (P : Primitives) (id : String) (data : Bytes) : Prop :=
  Hex.sameDigest (text P data) id = true ∧ blockSize ∣ data.size

/-- A check digests all of a buffer of its size. -/
theorem names_of_verify (h : verify P data blocks id = true) (hsize : data.size = blocks * blockSize) :
    Names P id data := by
  have hall : data.takeFirst (blocks * blockSize) = data :=
    Bytes.takeFirst_of_size_le (Nat.le_of_eq hsize)
  simp only [verify, Bool.and_eq_true, hall] at h
  exact ⟨h.2, hsize ▸ Nat.dvd_mul_left blockSize blocks⟩

end Checksum

namespace Stash

variable {P : Primitives} {s : Stash} {t : FileTree} {place : Place}

/-- Every entry has the name of its contents. -/
def Addressed (P : Primitives) (s : Stash) (t : FileTree) : Prop :=
  ∀ id data, s.load? t id data.size = .ok (some data) → Checksum.Names P id data

theorem addressed_iff (h : s.Sited t place) : s.Addressed P t ↔
    ∀ id data, Entry id → t.get? (place ++ [id]) = some (.file data) → Checksum.Names P id data := by
  refine forall_congr' fun id => forall_congr' fun data => ?_
  rw [load?_eq_some h]
  exact ⟨fun hall hid hdata => hall ⟨hid, hdata, rfl⟩, fun hall hload => hall hload.1 hload.2.1⟩

end Stash

namespace Command

open Machine

variable {P : Primitives} {c : Command} {m : Machine} {place : Place}

/-- **What is stashed has the name of its contents.** -/
theorem Stashes.names {id : String} {data : Bytes} (h : c.Stashes P m id data)
    (hsited : m.stash.Sited m.files place) : Checksum.Names P id data := by
  obtain ⟨blocks, hverify, hsize⟩ := h.verified hsited
  exact Checksum.names_of_verify hverify hsize

/-- **A move or a patch that changes the image** has checked its source, and made its target from
it. -/
theorem source_of_image_ne (hmakes : c.makesTarget) (hsited : m.stash.Sited m.files place)
    (hne : (outcome (c.run P) m).2.device.image ≠ m.device.image) :
    ∃ r s, c.recipe = .ok r ∧ c.source P r m = .ok s ∧ Checksum.Names P r.sourceHash s.data ∧
      s.data.size = s.blocks * blockSize ∧
      outcome (c.run P) m =
        outcome (applyRecipe P c r s >>= fun _ => addWritten r.target.total) m := by
  -- a dry run changes no image
  have hwrite : m.canWrite = true := by
    by_contra hdry
    exact hne ((run_confined P c m).device.image_eq fun _ h => hdry h.1)
  rw [run_of_makesTarget hmakes] at hne ⊢
  rcases makeTarget_cases P c m with ⟨result, hrun⟩ | ⟨r, s, hneeds, hs⟩
  · -- the target was up to date, or could not be made
    refine absurd ?_ hne
    have hsame := hrun m.canWrite
    exact congrArg (fun found => found.2.device.image) hsame
  · obtain ⟨hverify, hsize⟩ := source_verified hs hsited
    exact ⟨r, s, hneeds.1, hs, Checksum.names_of_verify hverify hsize, hsize,
      makeTarget_of_needs hwrite hneeds hs⟩

end Command

namespace Session

open SessionOptions

variable {P : Primitives} {o : SessionOptions} {place : Place} {m₀ m : Machine}

/-- **Commands keep a stash addressed by contents**, in any order and however they end. -/
theorem Visits.addressed (h : Visits P o m₀ m) (hm₀ : o.Lodged place m₀)
    (hstash : m₀.stash.Addressed P m₀.files) : m.stash.Addressed P m.files := by
  induction h with
  | start => exact hstash
  | @ran m h c ih =>
    have hlodged := h.lodged hm₀
    refine (Stash.addressed_iff (hlodged.ran P c).sited).mpr fun id data hid hdata => ?_
    -- the entry was there before, or the command stored it
    rcases Command.entry_of_run hlodged.sited hid.1 hdata with hold | hstashes
    · exact (Stash.addressed_iff hlodged.sited).mp ih id data hid hold
    · exact hstashes.names hlodged.sited
  | @saved m h _ c ih =>
    have hlodged := h.lodged hm₀
    -- the marker is no entry
    refine (Stash.addressed_iff (hlodged.saved c).sited).mpr fun id data hid hdata => ?_
    refine (Stash.addressed_iff hlodged.sited).mp ih id data hid ?_
    rw [← hdata]
    exact (hlodged.saved_get? c (o.baseAt_append_ne_markerAt place id)).symm

/-- **The stash of a session is addressed by contents**, and so are the sources of its commands. A
fresh session begins without entries. If one that resumes begins with entries that have the names of
their contents, then so they have in every machine that commands lead to, and the machines of the
session are among these. In each of them, a move or a patch that changes the image makes its target
from a source whose digest is the one that the command names. -/
theorem content_addressed (hplain : o.PlainPartition) {lines : List String}
    {inputs : ScriptInputs} {w w' : World} (hwell : w.files.WellFormed) {p : Prepared}
    (hprepare : outcome (prepare o lines inputs) w = (.ok p, w'))
    (hinitial : o.retry = true → p.machine.stash.Addressed P p.machine.files) :
    (o.retry = false → p.machine.stash.entries p.machine.files = .ok []) ∧
    (∀ k, Visits P o p.machine (outcome (runLines P o p.skip 0 (p.commands.take k))
      { machine := p.machine, progress := w'.progress }).2.machine) ∧
    ∀ m, Visits P o p.machine m → m.stash.Addressed P m.files ∧
      ∀ c : Command, c.makesTarget →
        (outcome (c.run P) m).2.device.image ≠ m.device.image →
        ∃ r s, c.recipe = .ok r ∧ c.source P r m = .ok s ∧
          Checksum.Names P r.sourceHash s.data ∧ s.data.size = s.blocks * blockSize ∧
          outcome (c.run P) m = outcome
            (c.applyRecipe P r s >>= fun _ => Machine.addWritten r.target.total) m := by
  obtain ⟨place, hlodged, -, -, -, -, hfresh⟩ := prepare_opens hplain hwell hprepare
  have hempty : o.retry = false → p.machine.stash.entries p.machine.files = .ok [] := fun hretry => by
    rw [Stash.entries_eq hlodged.sited, hfresh hretry]
    simp
  have hstart : p.machine.stash.Addressed P p.machine.files := by
    cases hretry : o.retry with
    | true => exact hinitial hretry
    | false =>
      refine (Stash.addressed_iff hlodged.sited).mpr fun id data hid hdata => ?_
      have hmem := Stash.mem_held.mpr ⟨FileTree.mem_of_get? (by simp) hdata, hid.1⟩
      rw [hfresh hretry] at hmem
      cases hmem
  refine ⟨hempty, fun k => visits_runLines 0 _ { machine := p.machine, progress := w'.progress },
    fun m hm => ⟨hm.addressed hlodged hstart, fun c hmakes hne => ?_⟩⟩
  exact Command.source_of_image_ne hmakes (hm.lodged hlodged).sited hne

/-! ## A block that is copied over another -/

open Bytes (uniform)

/-- A script that copies block 0, if it is filled with `7`, to block 1. -/
def copyOnce : List String := ["4", "1", "0", "0", copyLine]

theorem header_copyOnce : ScriptHeader.parse copyOnce = .ok (⟨4, 1, 0, 0⟩, 4) := by
  rw [copyOnce]
  cbv

/-- A block that is filled with `7` has its name. -/
theorem names_seven : Checksum.Names .tabled (Digest.name [7]) (uniform [7]) := by
  have hsize : (uniform [7]).size = 1 * blockSize := by
    rw [Bytes.size_uniform, List.length_singleton]
  exact Checksum.names_of_verify ((verify_refresh rfl).trans (decide_eq_true rfl)) hsize

/-- The stash that was left there is addressed by contents. -/
theorem addressed_keptWorld {s : Stash}
    (hsited : s.Sited (keptWorld 7 [7, 0]).files (resumingOptions.stashAt ["w"])) :
    s.Addressed .tabled (keptWorld 7 [7, 0]).files := by
  refine (Stash.addressed_iff hsited).mpr fun id data hid hdata => ?_
  rw [get?_stash_keptWorld] at hdata
  split_ifs at hdata with hname
  obtain rfl : uniform [7] = data := by simpa using hdata
  exact hname ▸ names_seven

/-- The block is copied. -/
theorem image_refreshMove {m : Machine} (hhealthy : m.device.Healthy)
    (himage : m.device.image = uniform [7, 0]) (hlive : m.canWrite = true) {place : Place}
    (hsited : m.stash.Sited m.files place)
    (hfile : m.files.get? (place ++ [Digest.name [7]]) ≠ some .directory) :
    (outcome (refreshMove.run .tabled) m).2.device.image = uniform [7, 7] := by
  have hlimit : ([7, 0] : List UInt8).length * blockSize < Device.offsetLimit := by decide
  have hfits : ∀ k < 2, ∀ q ∈ ([⟨k, 1⟩] : List BlockRange), q.stop ≤ ([7, 0] : List UInt8).length := by
    intro k hk q hq
    rw [List.mem_singleton.mp hq]
    exact hk
  have hrecipe : refreshMove.recipe = .ok ⟨Digest.name [7], Digest.name [7], ⟨[⟨1, 1⟩], 1⟩, 2⟩ := rfl
  have hfirst : refreshMove.arg 3 = .ok "2,0,1" := rfl
  obtain ⟨m', hmove, -, himage'⟩ := Command.makeTarget_uniform hhealthy ⟨[⟨0, 1⟩], 1⟩ himage hlimit
    hlive hsited rfl hrecipe (hfits 1 (by decide))
    ((verify_refresh rfl).trans (decide_eq_false (by decide))) rfl hfirst (by decide) rfl rfl
    (hfits 0 (by decide)) ((verify_refresh rfl).trans (decide_eq_true rfl)) rfl (Nat.le_refl 1) hfile
    ((verify_refresh rfl).trans (decide_eq_true rfl))
  rw [Command.run_of_makesTarget (.inl rfl), hmove]
  exact himage'

/-- A session that resumes with an entry in its stash, and a move that changes the image. -/
theorem content_addressed_kept : ∃ p,
    outcome (prepare resumingOptions copyOnce {}) (keptWorld 7 [7, 0]) =
      (.ok p, keptWorld 7 [7, 0]) ∧
    p.machine.stash.load? p.machine.files (Digest.name [7]) blockSize = .ok (some (uniform [7])) ∧
    p.machine.stash.Addressed .tabled p.machine.files ∧
    (outcome (refreshMove.run .tabled) p.machine).2.device.image = uniform [7, 7] ∧
    ∃ r s, refreshMove.recipe = .ok r ∧ refreshMove.source .tabled r p.machine = .ok s ∧
      Checksum.Names .tabled r.sourceHash s.data := by
  obtain ⟨p, hprepare, -, -, hp⟩ := prepare_keptWorld 7 [7, 0] {} header_copyOnce
  have hfiles : p.machine.files = (keptWorld 7 [7, 0]).files := by rw [hp]; rfl
  have hsited : p.machine.stash.Sited p.machine.files (resumingOptions.stashAt ["w"]) := by
    rw [hfiles]
    exact (work_keptWorld 7 [7, 0]).sited plain_resumingOptions (by rw [hp]; rfl)
  have hinitial : p.machine.stash.Addressed .tabled p.machine.files := by
    rw [hfiles] at hsited ⊢
    exact addressed_keptWorld hsited
  have hfile : p.machine.files.get? (resumingOptions.stashAt ["w"] ++ [Digest.name [7]]) =
      some (.file (uniform [7])) := by
    rw [hfiles, get?_stash_keptWorld, if_pos rfl]
  have himage := image_refreshMove (by rw [hp]; exact ⟨rfl, rfl⟩) (by rw [hp]; rfl)
    (by rw [hp]; rfl) hsited (by rw [hfile]; simp)
  have hold : p.machine.device.image = uniform [7, 0] := by rw [hp]; rfl
  obtain ⟨-, -, hvisits⟩ := content_addressed (P := .tabled) plain_resumingOptions
    (wellFormed_keptWorld 7 [7, 0]) hprepare fun _ => hinitial
  obtain ⟨haddressed, hsource⟩ := hvisits _ .start
  obtain ⟨r, s, hr, hs, hnames, -⟩ := hsource refreshMove (.inl rfl) (by
    rw [himage, hold]
    intro hsame
    have hsamples := congrArg Digest.samples hsame
    rw [Digest.samples_uniform, Digest.samples_uniform] at hsamples
    exact absurd hsamples (by decide))
  refine ⟨p, hprepare, ?_, haddressed, himage, r, s, hr, hs, hnames⟩
  have hentry : Stash.Entry (Digest.name [7]) := ⟨by decide, by decide⟩
  refine (Stash.load?_eq_some hsited).mpr ⟨hentry, hfile, ?_⟩
  rw [Bytes.size_uniform, List.length_singleton, Nat.one_mul]

end Session

end BlockUpdate
