import BlockUpdate.Proofs.RespelledStash

/-!
# Commands under other spellings

A digest stands in a command as a key, which names an entry of the stash and may be checked as well, or
for comparison alone. Keys are also found in front of the locations of a piece. What a command does is
the same if its keys are respelled and the letters of its other digests change case, when the stash it
works with is respelled in the same way.

- `Command.keyPosition?`, `Command.digestPosition?`, `Command.Piece`: where digests stand.
- `Command.Respelled`: two commands that differ in the spelling of digests only.
- `Machine.Respelled`: two machines that differ in the spelling of entries only.
- **`Source.load_respelled`**, `Command.source_respelled`: the same source is found.
- **`Command.run_respelled`**: two such commands end alike, and leave two such machines.
-/

namespace BlockUpdate

variable {R : String → String → Prop}

/-! ## Where digests stand -/

/-- Two pieces of the stash with the same locations. -/
def PieceRespelled (R : String → String → Prop) (piece piece' : String) : Prop :=
  Option.Rel (fun (id, locations) (id', locations') => R id id' ∧ locations' = locations)
    (Blank.splitFirst? ':' piece) (Blank.splitFirst? ':' piece')

namespace Command

/-- The position of the argument that names an entry of the stash. -/
def keyPosition? (c : Command) : Option Nat :=
  match c.verb with
  | .stash | .free | .move | .copy => some 0
  | .bsdiff | .imgdiff => some 2
  | _ => none

/-- The position of a digest that names no entry. -/
def digestPosition? (c : Command) : Option Nat :=
  match c.verb with
  | .bsdiff | .imgdiff => some 3
  | _ => none

/-- The position from which a source is described. -/
def sourcePosition? (c : Command) : Option Nat :=
  match c.verb with
  | .move | .copy => some 2
  | .bsdiff | .imgdiff => some 5
  | _ => none

/-- Whether the argument at a position is a piece of the stash: pieces follow the dash, or the range
and its locations. -/
def Piece (c : Command) (i : Nat) : Prop :=
  ∃ p, c.sourcePosition? = some p ∧ p + (if c.args[p + 1]? = some "-" then 2 else 3) ≤ i

section

variable (c : Command) {i p : Nat}

/-- A key, a digest and a target stand before the description of a source. -/
theorem lt_sourcePosition?
    (hi : c.keyPosition? = some i ∨ c.digestPosition? = some i ∨ c.targetPosition? = some i)
    (hp : c.sourcePosition? = some p) : i < p := by
  rw [keyPosition?, digestPosition?, targetPosition?] at hi
  rw [sourcePosition?] at hp
  cases hverb : c.verb <;> simp only [hverb] at hi hp <;> simp at hi hp <;> omega

/-- A key and a digest are no target. -/
theorem targetPosition?_ne (hi : c.keyPosition? = some i ∨ c.digestPosition? = some i) :
    c.targetPosition? ≠ some i := by
  rw [keyPosition?, digestPosition?] at hi
  rw [targetPosition?]
  cases hverb : c.verb <;> simp only [hverb] at hi ⊢ <;> simp at hi ⊢ <;> omega

end

/-- How one argument of a command may differ from that of another. -/
structure Respells (R : String → String → Prop) (c : Command) (i : Nat) (a a' : String) : Prop where
  key : c.keyPosition? = some i → R a a'
  digest : c.digestPosition? = some i → Hex.sameDigest a a' = true
  piece : c.Piece i → PieceRespelled R a a'
  same : c.keyPosition? ≠ some i → c.digestPosition? ≠ some i → ¬ c.Piece i → a' = a

namespace Respells

variable {c : Command} {i : Nat} {a a' : String}

theorem of_key (hkey : c.keyPosition? = some i) (hdigest : c.digestPosition? ≠ some i)
    (hpiece : ¬ c.Piece i) (h : R a a') : c.Respells R i a a' :=
  ⟨fun _ => h, fun hd => absurd hd hdigest, fun hp => absurd hp hpiece, fun hk => absurd hkey hk⟩

theorem of_piece (hkey : c.keyPosition? ≠ some i) (hdigest : c.digestPosition? ≠ some i)
    (hpiece : c.Piece i) (h : PieceRespelled R a a') : c.Respells R i a a' :=
  ⟨fun hk => absurd hk hkey, fun hd => absurd hd hdigest, fun _ => h, fun _ _ hp => absurd hpiece hp⟩

theorem of_same (hkey : c.keyPosition? ≠ some i) (hdigest : c.digestPosition? ≠ some i)
    (hpiece : ¬ c.Piece i) : c.Respells R i a a :=
  ⟨fun hk => absurd hk hkey, fun hd => absurd hd hdigest, fun hp => absurd hp hpiece,
    fun _ _ _ => rfl⟩

end Respells

/-- Two commands that differ in the spelling of digests, and in their lines as far as these say nothing
else. -/
structure Respelled (R : String → String → Prop) (c c' : Command) : Prop where
  verb : c'.verb = c.verb
  index : c'.index = c.index
  length : c'.args.length = c.args.length
  word : ∀ i a a', c.args[i]? = some a → c'.args[i]? = some a' → c.Respells R i a a'

namespace Respelled

variable {c c' : Command} {i p : Nat}

theorem args_cases (h : Respelled R c c') (i : Nat) :
    (c.args[i]? = none ∧ c'.args[i]? = none) ∨
      ∃ a a', c.args[i]? = some a ∧ c'.args[i]? = some a' ∧ c.Respells R i a a' := by
  by_cases hi : i < c.args.length
  · have hi' : i < c'.args.length := by rwa [h.length]
    have ha := List.getElem?_eq_getElem hi
    have ha' := List.getElem?_eq_getElem hi'
    exact .inr ⟨_, _, ha, ha', h.word i _ _ ha ha'⟩
  · have hi' : ¬ i < c'.args.length := by rwa [h.length]
    exact .inl ⟨List.getElem?_eq_none (Nat.not_lt.mp hi), List.getElem?_eq_none (Nat.not_lt.mp hi')⟩

theorem arg (h : Respelled R c c') {Q : String → String → Prop}
    (hQ : ∀ a a', c.Respells R i a a' → Q a a') : Alike Eq Q (c.arg i) (c'.arg i) := by
  rw [Command.arg, Command.arg]
  rcases h.args_cases i with ⟨ha, ha'⟩ | ⟨a, a', ha, ha', hword⟩ <;> rw [ha, ha']
  · exact .error (by rw [h.verb])
  · exact .ok (hQ a a' hword)

/-- An argument that is no digest and no piece. -/
theorem args_eq (h : Respelled R c c') (hkey : c.keyPosition? ≠ some i)
    (hdigest : c.digestPosition? ≠ some i) (hpiece : ¬ c.Piece i) : c'.args[i]? = c.args[i]? := by
  rcases h.args_cases i with ⟨ha, ha'⟩ | ⟨a, a', ha, ha', hword⟩ <;> rw [ha, ha']
  rw [hword.same hkey hdigest hpiece]

theorem arg_eq (h : Respelled R c c') (hargs : c'.args[i]? = c.args[i]?) : c'.arg i = c.arg i := by
  rw [Command.arg, Command.arg, hargs, h.verb]

theorem number_eq (h : Respelled R c c') (hargs : c'.args[i]? = c.args[i]?) :
    c'.number i = c.number i := by
  rw [Command.number, Command.number, h.arg_eq hargs, h.verb]

theorem blockSet_eq (h : Respelled R c c') (hargs : c'.args[i]? = c.args[i]?) :
    c'.blockSet i = c.blockSet i := by
  rw [Command.blockSet, Command.blockSet, h.arg_eq hargs]

/-- Pieces are respelled one by one. -/
theorem pieces (h : Respelled R c c') {k : Nat} (hk : ∀ i, k ≤ i → c.Piece i) :
    List.Forall₂ (PieceRespelled R) (c.args.drop k) (c'.args.drop k) := by
  refine List.forall₂_iff_get.mpr ⟨by rw [List.length_drop, List.length_drop, h.length], ?_⟩
  intro i hi hi'
  rw [List.get_eq_getElem, List.get_eq_getElem, List.getElem_drop, List.getElem_drop]
  exact (h.word (k + i) _ _ (List.getElem?_eq_getElem _) (List.getElem?_eq_getElem _)).piece
    (hk _ (Nat.le_add_right k i))

/-- What describes a source is no digest, and a piece only behind its range. -/
theorem args_eq_of_source (h : Respelled R c c') (hp : c.sourcePosition? = some p) (hi : p ≤ i)
    (hpiece : ¬ c.Piece i) : c'.args[i]? = c.args[i]? := by
  refine h.args_eq (fun hk => ?_) (fun hk => ?_) hpiece
  · exact absurd (c.lt_sourcePosition? (.inl hk) hp) (Nat.not_lt.mpr hi)
  · exact absurd (c.lt_sourcePosition? (.inr (.inl hk)) hp) (Nat.not_lt.mpr hi)

/-- What names a target is no digest. -/
theorem args_eq_of_target (h : Respelled R c c') (hi : c.targetPosition? = some i) :
    c'.args[i]? = c.args[i]? := by
  refine h.args_eq (fun hk => c.targetPosition?_ne (.inl hk) hi)
    (fun hk => c.targetPosition?_ne (.inr hk) hi) ?_
  rintro ⟨p, hp, hle⟩
  have hlt := c.lt_sourcePosition? (.inr (.inr hi)) hp
  split_ifs at hle <;> omega

end Respelled

end Command

/-- Failures that mean the same for a script. -/
def CommandFailure.SameKind (e e' : CommandFailure) : Prop := e'.isIo = e.isIo

theorem CommandFailure.SameKind.refl (e : CommandFailure) : SameKind e e := rfl

open CommandFailure (SameKind)

/-! ## Sources -/

namespace Source

variable {c c' : Command} {p : Nat} {base t t' : FileTree} {place : Place} {s : Stash}

theorem scatter_verb (hverb : c'.verb = c.verb) : scatter c' = scatter c := by
  funext locations data buffer
  simp only [scatter, bad, hverb]

theorem addDevice_verb (hverb : c'.verb = c.verb) : addDevice c' = addDevice c := by
  funext device range locations buffer
  simp only [addDevice, scatter_verb hverb, bad, hverb]

section

variable (hR : Respelling R) (hbase : s.Sited base place)
  (ht : FileTree.Respelled R base place t t') (h : c.Respelled R c')

include hR hbase ht h

theorem addPiece_respelled (buffer : Bytes) {piece piece' : String}
    (hpiece : PieceRespelled R piece piece') :
    Alike SameKind Eq (addPiece c s t buffer piece) (addPiece c' s t' buffer piece') := by
  rw [addPiece, addPiece]
  rw [PieceRespelled] at hpiece
  revert hpiece
  rcases Blank.splitFirst? ':' piece with _ | ⟨id, locations⟩ <;>
    rcases Blank.splitFirst? ':' piece' with _ | ⟨id', locations'⟩ <;> intro hpiece <;>
    cases hpiece
  case none.none => exact .error rfl
  case some.some hids =>
    obtain ⟨hid, rfl⟩ := hids
    refine Alike.bind_refl SameKind.refl fun set _ => ?_
    have hload : Alike SameKind Eq ((s.load? t id set.byteLength).mapError .stash)
        ((s.load? t' id' set.byteLength).mapError .stash) :=
      (Stash.load?_respelled hR hbase hid ht set.byteLength).mapError fun _ _ hio => hio
    refine hload.bind fun found found' heq => ?_
    subst heq
    rw [scatter_verb h.verb]
    exact Alike.refl SameKind.refl (fun _ => rfl) _

theorem pieces_respelled {k : Nat} (hk : ∀ i, k ≤ i → c.Piece i) (buffer : Bytes) :
    Alike SameKind Eq ((c.args.drop k).foldlM (addPiece c s t) buffer)
      ((c'.args.drop k).foldlM (addPiece c' s t') buffer) := by
  refine Alike.foldlM (R := PieceRespelled R) (fun a a' piece piece' ha hpiece => ?_) (h.pieces hk) rfl
  subst ha
  exact addPiece_respelled hR hbase ht h a hpiece

/-- **The same source** is put together. -/
theorem load_respelled (hp : c.sourcePosition? = some p) (d : Device) :
    Alike SameKind Eq (load c p d s t) (load c' p d s t') := by
  have hbefore : ∀ i, i < p + 2 → ¬ c.Piece i := by
    rintro i hi ⟨q, hq, hle⟩
    obtain rfl : p = q := Option.some.inj (hp.symm.trans hq)
    split_ifs at hle <;> omega
  have hnumber := h.number_eq (h.args_eq_of_source hp (Nat.le_refl p) (hbefore p (by omega)))
  have hfirst := h.args_eq_of_source hp (Nat.le_succ p) (hbefore _ (by omega))
  rw [load, load, hnumber, h.arg_eq hfirst]
  refine Alike.bind_refl SameKind.refl fun blocks _ =>
    Alike.bind_refl SameKind.refl fun first hok => ?_
  have hargs : c.args[p + 1]? = some first := by
    rw [mapError_eq_ok, Command.arg] at hok
    split at hok
    · rename_i value hvalue
      rw [hvalue, Except.ok.inj hok]
    · cases hok
  dsimp only
  by_cases hdash : first = "-"
  · rw [if_pos hdash, if_pos hdash]
    have hk : ∀ i, p + 2 ≤ i → c.Piece i := fun i hi =>
      ⟨p, hp, by rw [if_pos (by rw [hargs, hdash])]; exact hi⟩
    exact (pieces_respelled hR hbase ht h hk _).bind fun _ _ heq => .ok (by rw [heq])
  · rw [if_neg hdash, if_neg hdash]
    have hnot : ¬ c.args[p + 1]? = some "-" := by
      rw [hargs]
      exact fun heq => hdash (Option.some.inj heq)
    have hlocations := h.args_eq_of_source hp (Nat.le_add_right p 2) (by
      rintro ⟨q, hq, hle⟩
      obtain rfl : p = q := Option.some.inj (hp.symm.trans hq)
      rw [if_neg hnot] at hle
      omega)
    refine Alike.bind_refl SameKind.refl fun range _ => ?_
    split_ifs
    · exact .error rfl
    · rw [hlocations, addDevice_verb h.verb]
      refine Alike.bind_refl SameKind.refl fun start hstart => ?_
      have hk : ∀ i, p + 3 ≤ i → c.Piece i := fun i hi =>
        ⟨p, hp, by rw [if_neg hnot]; exact hi⟩
      have hdrop : c'.args.drop (p + 1 + start.2) = c'.args.drop (p + 3) :=
        drop_addDevice (c := c') (by rw [hlocations, addDevice_verb h.verb]; exact hstart)
      rw [drop_addDevice hstart, hdrop]
      exact (pieces_respelled hR hbase ht h hk _).bind fun _ _ heq => .ok (by rw [heq])

end

end Source

/-! ## Machines -/

/-- Two machines that differ in their files only, and in these in the spelling of entries. -/
inductive Machine.Respelled (R : String → String → Prop) (base : FileTree) (stash : Stash)
    (place : Place) : Machine → Machine → Prop
  | intro {m : Machine} {t' : FileTree} (hstash : m.stash = stash)
    (hfiles : FileTree.Respelled R base place m.files t') :
    Respelled R base stash place m { m with files := t' }

namespace Machine

variable {base : FileTree} {stash : Stash} {place : Place} {α α' β β' : Type}
  {Q : α → α' → Prop} {Q' : β → β' → Prop}

/-- Both machines are read. -/
theorem respelled_get_bind {f f' : Machine → MachineM CommandFailure β}
    (h : ∀ m t', m.stash = stash → FileTree.Respelled R base place m.files t' →
      Coupled (Respelled R base stash place) SameKind Eq (f m) (f' { m with files := t' })) :
    Coupled (Respelled R base stash place) SameKind Eq (get >>= f) (get >>= f') :=
  .get_bind fun _ _ ⟨hstash, hfiles⟩ => h _ _ hstash hfiles

theorem respelled_look {f : Machine → Except CommandFailure α}
    {f' : Machine → Except CommandFailure α'}
    (h : ∀ m t', m.stash = stash → FileTree.Respelled R base place m.files t' →
      Alike SameKind Q (f m) (f' { m with files := t' })) :
    Coupled (Respelled R base stash place) SameKind Q (look f) (look f') :=
  fun _ _ hm => ⟨by obtain ⟨hstash, hfiles⟩ := hm; exact h _ _ hstash hfiles, hm⟩

theorem respelled_ofCommand {x : Except CommandError α} {x' : Except CommandError α'}
    (h : Alike Eq Q x x') :
    Coupled (Respelled R base stash place) SameKind Q (ofCommand x) (ofCommand x') :=
  respelled_look fun _ _ _ _ => h.mapError fun _ _ heq => by rw [heq]; rfl

theorem respelled_onDevice (x : DeviceM BlockError α) :
    Coupled (Respelled R base stash place) SameKind Eq (onDevice x) (onDevice x) :=
  fun _ _ ⟨hstash, hfiles⟩ =>
    ⟨Alike.refl SameKind.refl (fun _ => rfl) _, .intro hstash hfiles⟩

theorem respelled_onFiles {x : FileM StashError α} {x' : FileM StashError α'}
    (h : Coupled (FileTree.Respelled R base place) Stash.SameKind Q x x') :
    Coupled (Respelled R base stash place) SameKind Q (onFiles x) (onFiles x') := by
  rintro _ _ ⟨hstash, hfiles⟩
  obtain ⟨hresult, hstate⟩ := h _ _ hfiles
  exact ⟨hresult.mapError fun _ _ hio => hio, .intro hstash hstate⟩

theorem respelled_modify {f : Machine → Machine} (hstash : ∀ m, (f m).stash = m.stash)
    (hfiles : ∀ m, (f m).files = m.files)
    (hsame : ∀ m t', f { m with files := t' } = { f m with files := t' }) :
    Coupled (Respelled R base stash place) SameKind Eq
      (modify f : MachineM CommandFailure PUnit) (modify f) := by
  refine .modify fun m m' hm => ?_
  obtain @⟨t', hs, ht⟩ := hm
  rw [show f { m with files := t' } = _ from hsame m t']
  exact .intro ((hstash m).trans hs) (by rw [hfiles]; exact ht)

theorem respelled_release (blocks : Nat) :
    Coupled (Respelled R base stash place) SameKind Eq (release blocks) (release blocks) :=
  respelled_modify (fun _ => rfl) (fun _ => rfl) fun _ _ => rfl

theorem respelled_addWritten (blocks : Nat) :
    Coupled (Respelled R base stash place) SameKind Eq (addWritten blocks) (addWritten blocks) :=
  respelled_modify (fun _ => rfl) (fun _ => rfl) fun _ _ => rfl

theorem respelled_reserve (blocks : Nat) :
    Coupled (Respelled R base stash place) SameKind Eq (reserve blocks) (reserve blocks) := by
  rintro _ _ ⟨hstash, hfiles⟩
  rw [reserve_eq, reserve_eq]
  dsimp only
  split_ifs
  · exact ⟨.error rfl, .intro hstash hfiles⟩
  · exact ⟨.error rfl, .intro hstash hfiles⟩
  · exact ⟨.ok rfl, .intro hstash hfiles⟩

end Machine

/-! ## Commands -/

namespace Command

open Machine

variable {P : Primitives} {c c' : Command} {base : FileTree} {stash : Stash} {place : Place}

theorem respelled_fillFromNewData (set : BlockSet) :
    Coupled (Machine.Respelled R base stash place) SameKind Eq (fillFromNewData set)
      (fillFromNewData set) := by
  rintro ⟨device, files, _, header, written, canWrite, allowFileErase, patchData, newData, entries,
    blocks⟩ _ ⟨hstash, hfiles⟩
  cases newData with
  | none => exact ⟨.error rfl, .intro hstash hfiles⟩
  | some feed =>
    rw [fillFromNewData, outcome_mk, outcome_mk]
    dsimp only
    rcases Feed.fill.run ⟨feed, BlockWriter.new set (!canWrite), device⟩ with ⟨_ | _, s⟩
    · exact ⟨.error rfl, .intro hstash hfiles⟩
    · exact ⟨.ok rfl, .intro hstash hfiles⟩

section

variable (h : c.Respelled R c')

include h

theorem respelled_blockSet {i : Nat} (hargs : c'.args[i]? = c.args[i]?) :
    Coupled (Machine.Respelled R base stash place) SameKind Eq (ofCommand (c.blockSet i))
      (ofCommand (c'.blockSet i)) := by
  rw [h.blockSet_eq hargs]
  exact respelled_ofCommand (Alike.refl (fun _ => rfl) (fun _ => rfl) _)

theorem respelled_writeNewData (hverb : c.verb = .new) :
    Coupled (Machine.Respelled R base stash place) SameKind Eq c.writeNewData c'.writeNewData := by
  have hargs : c'.args[0]? = c.args[0]? := h.args_eq_of_target (by rw [targetPosition?, hverb])
  refine .bind (respelled_blockSet h hargs) fun set set' heq => ?_
  subst heq
  exact .bind (respelled_fillFromNewData set) fun _ _ _ => respelled_addWritten _

theorem respelled_clear (hverb : c.verb = .zero ∨ c.verb = .erase) :
    Coupled (Machine.Respelled R base stash place) SameKind Eq c.clear c'.clear := by
  have hargs : c'.args[0]? = c.args[0]? := h.args_eq_of_target (by
    rcases hverb with hverb | hverb <;> rw [targetPosition?, hverb])
  rw [clear, clear, h.verb]
  refine .bind (respelled_blockSet h hargs) fun set set' heq => ?_
  subst heq
  have hcount : Coupled (Machine.Respelled R base stash place) SameKind Eq
      (if (!(c.verb == .erase)) = true then addWritten set.total else Pure.pure ())
      (if (!(c.verb == .erase)) = true then addWritten set.total else Pure.pure ()) :=
    .ite Iff.rfl (fun _ => respelled_addWritten _) fun _ => .pure rfl
  refine respelled_get_bind fun m t' _ _ => .ite Iff.rfl (fun _ => ?_) fun _ => hcount
  exact respelled_get_bind fun m t' _ _ => .bind (respelled_onDevice _) fun _ _ _ => hcount

/-! ### Making targets -/

end

/-- What two such commands say that make blocks from other blocks. -/
structure Recipe.Respelled (R : String → String → Prop) (c : Command) (r r' : Recipe) : Prop where
  key : R r.sourceHash r'.sourceHash
  digest : Hex.sameDigest r.targetHash r'.targetHash = true
  target : r'.target = r.target
  position : r'.sourcePosition = r.sourcePosition
  source : c.sourcePosition? = some r.sourcePosition

section

variable (hR : Respelling R) (h : c.Respelled R c')

include hR h

theorem recipe_respelled (hmakes : c.makesTarget) :
    Alike Eq (Recipe.Respelled R c) c.recipe c'.recipe := by
  have hparts : ∀ source target position,
      (∀ a a', c.Respells R source a a' → R a a') →
      (∀ a a', c.Respells R target a a' → Hex.sameDigest a a' = true) →
      c.targetPosition? = some position → c.sourcePosition? = some (position + 1) →
      Alike Eq (Recipe.Respelled R c)
        (do return ⟨← c.arg source, ← c.arg target, ← c.blockSet position, position + 1⟩)
        (do return ⟨← c'.arg source, ← c'.arg target, ← c'.blockSet position, position + 1⟩) := by
    intro source target position hsource htarget hposition hnext
    refine (h.arg hsource).bind fun a a' ha => (h.arg htarget).bind fun b b' hb => ?_
    rw [h.blockSet_eq (h.args_eq_of_target hposition)]
    exact Alike.bind_refl (fun _ => rfl) fun set _ => .ok ⟨ha, hb, rfl, rfl, hnext⟩
  rw [recipe, recipe, isMove, isMove, h.verb]
  rcases hmakes with hverb | hverb | hverb | hverb
  -- a move has one digest, which is a key and compared with the target as well
  case inl | inr.inl =>
    have hkey : ∀ a a', c.Respells R 0 a a' → R a a' := fun a a' hword =>
      hword.key (by rw [keyPosition?, hverb])
    rw [hverb]
    exact hparts 0 0 1 hkey (fun a a' hword => hR.sameDigest a a' (hkey a a' hword))
      (by rw [targetPosition?, hverb]) (by rw [sourcePosition?, hverb])
  case inr.inr.inl | inr.inr.inr =>
    rw [hverb]
    exact hparts 2 3 4 (fun a a' hword => hword.key (by rw [keyPosition?, hverb]))
      (fun a a' hword => hword.digest (by rw [digestPosition?, hverb]))
      (by rw [targetPosition?, hverb]) (by rw [sourcePosition?, hverb])

end

/-- The patch of a command stands before its digests. -/
theorem patch_respelled (h : c.Respelled R c') (hmakes : c.makesTarget) (hmove : ¬ c.isMove = true)
    (patchData : Bytes) : c'.patch patchData = c.patch patchData := by
  have hpatch : c.keyPosition? = some 2 ∧ c.digestPosition? = some 3 := by
    rw [isMove] at hmove
    rw [keyPosition?, digestPosition?]
    rcases hmakes with hverb | hverb | hverb | hverb <;> rw [hverb] at hmove ⊢
    · exact absurd rfl hmove
    · exact absurd rfl hmove
    · exact ⟨rfl, rfl⟩
    · exact ⟨rfl, rfl⟩
  have hargs : ∀ i, i < 2 → c'.args[i]? = c.args[i]? := by
    intro i hi
    refine h.args_eq (fun hk => ?_) (fun hk => ?_) ?_
    · have := Option.some.inj (hpatch.1.symm.trans hk)
      omega
    · have := Option.some.inj (hpatch.2.symm.trans hk)
      omega
    · rintro ⟨p, -, hle⟩
      split_ifs at hle <;> omega
  rw [patch, patch, h.number_eq (hargs 0 (by omega)), h.number_eq (hargs 1 (by omega)), h.verb]

section

variable {r r' : Recipe} (hr : r.Respelled R c r') (hR : Respelling R) (h : c.Respelled R c')
  (hbase : stash.Sited base place)

include hr hR hbase

theorem recover_respelled {t t' : FileTree} (ht : FileTree.Respelled R base place t t')
    (blocks : Nat) :
    Alike SameKind Eq (recover P r blocks stash t) (recover P r' blocks stash t') := by
  have hload : Alike SameKind Eq
      ((stash.load? t r.sourceHash (blocks * blockSize)).mapError .stash)
      ((stash.load? t' r'.sourceHash (blocks * blockSize)).mapError .stash) :=
    (Stash.load?_respelled hR hbase hr.key ht _).mapError fun _ _ hio => hio
  refine hload.bind fun found found' heq => ?_
  subst heq
  cases found with
  | none => exact .error rfl
  | some data =>
    dsimp only
    rw [Checksum.verify_congr P data blocks (hR.sameDigest _ _ hr.key)]
    split_ifs
    · exact .ok rfl
    · exact .error rfl

include h

/-- **The same source** is found, or none. -/
theorem source_respelled {m : Machine} {t' : FileTree} (hstash : m.stash = stash)
    (hfiles : FileTree.Respelled R base place m.files t') :
    Alike SameKind Eq (c.source P r m) (c'.source P r' { m with files := t' }) := by
  subst hstash
  rw [source, source, hr.position]
  refine (Source.load_respelled hR hbase hfiles h hr.source m.device).bind fun s s' heq => ?_
  subst heq
  rw [Checksum.verify_congr P s.data s.blocks (hR.sameDigest _ _ hr.key)]
  split_ifs
  · exact .ok rfl
  · exact (recover_respelled hr hR hbase hfiles s.blocks).bind fun _ _ heq => .ok (by rw [heq])

omit hR hbase in
theorem writeTarget_respelled (hmakes : c.makesTarget) (data : Bytes) :
    Coupled (Machine.Respelled R base stash place) SameKind Eq (writeTarget P c r data)
      (writeTarget P c' r' data) := by
  have hmove : c'.isMove = c.isMove := by rw [isMove, isMove, h.verb]
  have hsync : Coupled (Machine.Respelled R base stash place) SameKind Eq
      (onDevice (DeviceM.sync.mapError BlockError.os))
      (onDevice (DeviceM.sync.mapError BlockError.os)) := respelled_onDevice _
  rw [writeTarget, writeTarget, hmove, hr.target, h.verb]
  refine .ite Iff.rfl (fun _ => .bind (respelled_onDevice _) fun _ _ _ => hsync) fun hnot => ?_
  have hpatch : Coupled (Machine.Respelled R base stash place) SameKind Eq
      (look fun m => c.patch m.patchData) (look fun m => c'.patch m.patchData) :=
    respelled_look fun m t' _ _ => by
      rw [patch_respelled h hmakes hnot]
      exact Alike.refl SameKind.refl (fun _ => rfl) _
  refine hpatch.bind fun patch patch' heq => ?_
  subst heq
  exact .bind (respelled_onDevice _) fun _ _ _ => hsync

omit hR h hbase in
theorem checkTarget_respelled :
    Coupled (Machine.Respelled R base stash place) SameKind Eq (checkTarget P r)
      (checkTarget P r') := by
  refine respelled_get_bind fun m t' _ _ => ?_
  dsimp only
  rw [hr.target, Checksum.verify_congr P _ _ hr.digest]
  exact .ite Iff.rfl (fun _ => .throw rfl) fun _ => .pure rfl

omit hR hbase in
/-- What a dry run makes instead of writing the target. -/
theorem output_respelled (hmakes : c.makesTarget) (patchData data : Bytes) :
    Alike SameKind Eq (do checkOutput P r (← c.output P patchData data))
      (do checkOutput P r' (← c'.output P patchData data)) := by
  have hmove : c'.isMove = c.isMove := by rw [isMove, isMove, h.verb]
  have houtput : c'.output P patchData data = c.output P patchData data := by
    rw [output, output, hmove, h.verb]
    by_cases hif : c.isMove = true
    · rw [if_pos hif, if_pos hif]
    · rw [if_neg hif, if_neg hif, patch_respelled h hmakes hif]
  rw [houtput]
  refine Alike.bind_refl SameKind.refl fun made _ => ?_
  rw [checkOutput, checkOutput, hr.target, Checksum.verify_congr P made _ hr.digest]
  split_ifs
  · exact .ok rfl
  · exact .error rfl

variable (hflat : ∀ name, base.get? (place ++ [name]) ≠ some .directory)

include hflat

omit h in
theorem keepSource_respelled (s : Source) :
    Coupled (Machine.Respelled R base stash place) SameKind Eq (keepSource r s)
      (keepSource r' s) := by
  refine respelled_get_bind fun m t' hstash hfiles => ?_
  dsimp only
  cases s.device with
  | none => exact .pure rfl
  | some set =>
    dsimp only
    rw [hr.target, hstash, Stash.contains_respelled hR hbase hr.key hfiles]
    exact .ite Iff.rfl (fun _ => .bind (respelled_reserve _) fun _ _ _ =>
      respelled_onFiles (Stash.store_respelled hR hbase hflat hr.key _)) fun _ => .pure rfl

omit h in
theorem dropSource_respelled :
    Coupled (Machine.Respelled R base stash place) SameKind Eq (dropSource r) (dropSource r') := by
  refine respelled_get_bind fun m t' hstash hfiles => ?_
  dsimp only
  rw [hstash, Stash.entrySize?_respelled hR hbase hr.key hfiles]
  cases stash.entrySize? m.files r.sourceHash with
  | none => exact .pure rfl
  | some size =>
    exact .bind (respelled_release _) fun _ _ _ =>
      respelled_onFiles (Stash.free_respelled hR hbase hflat hr.key)

theorem applyRecipe_respelled (hmakes : c.makesTarget) (s : Source) :
    Coupled (Machine.Respelled R base stash place) SameKind Eq (applyRecipe P c r s)
      (applyRecipe P c' r' s) :=
  (keepSource_respelled hr hR hbase hflat s).bind fun _ _ _ =>
    (writeTarget_respelled hr h hmakes s.data).bind fun _ _ _ =>
      (checkTarget_respelled hr).bind fun _ _ _ => dropSource_respelled hr hR hbase hflat

end

section

variable (hR : Respelling R) (h : c.Respelled R c') (hbase : stash.Sited base place)
  (hflat : ∀ name, base.get? (place ++ [name]) ≠ some .directory)

include hR h hbase hflat

theorem makeTarget_respelled (hmakes : c.makesTarget) :
    Coupled (Machine.Respelled R base stash place) SameKind Eq (c.makeTarget P)
      (c'.makeTarget P) := by
  refine (respelled_ofCommand (recipe_respelled hR h hmakes)).bind fun r r' hr => ?_
  refine respelled_get_bind fun m t' _ _ => ?_
  dsimp only
  rw [hr.target]
  cases r.target.read? m.device with
  | none => exact .throw rfl
  | some current =>
    dsimp only
    rw [Checksum.verify_congr P current _ hr.digest]
    refine .ite Iff.rfl (fun _ => ?_) fun _ => .pure rfl
    have hsource : Coupled (Machine.Respelled R base stash place) SameKind Eq
        (look (source P c r)) (look (source P c' r')) :=
      respelled_look fun _ _ hstash hfiles => source_respelled hr hR h hbase hstash hfiles
    refine hsource.bind fun s s' heq => ?_
    subst heq
    have hdry : Coupled (Machine.Respelled R base stash place) SameKind Eq
        (look fun m => do checkOutput P r (← c.output P m.patchData s.data))
        (look fun m => do checkOutput P r' (← c'.output P m.patchData s.data)) :=
      respelled_look fun m t' _ _ => output_respelled hr h hmakes m.patchData s.data
    have hcount : Coupled (Machine.Respelled R base stash place) SameKind Eq
        (addWritten r.target.total) (addWritten r.target.total) := respelled_addWritten _
    exact .ite Iff.rfl
      (fun _ => .bind (applyRecipe_respelled hr hR h hbase hflat hmakes s) fun _ _ _ => hcount)
      fun _ => hdry.bind fun _ _ _ => hcount

theorem stashBlocks_respelled (hverb : c.verb = .stash) :
    Coupled (Machine.Respelled R base stash place) SameKind Eq (c.stashBlocks P)
      (c'.stashBlocks P) := by
  have hid : Alike Eq R (c.arg 0) (c'.arg 0) :=
    h.arg fun _ _ hword => hword.key (by rw [keyPosition?, hverb])
  have hargs : c'.args[1]? = c.args[1]? := h.args_eq (by simp [keyPosition?, hverb])
    (by simp [digestPosition?, hverb]) (by simp [Piece, sourcePosition?, hverb])
  refine (respelled_ofCommand hid).bind fun id id' hids =>
    (respelled_blockSet h hargs).bind fun set set' heq => ?_
  subst heq
  refine respelled_get_bind fun m t' hstash hfiles => ?_
  dsimp only
  rw [hstash, Stash.entrySize?_respelled hR hbase hids hfiles]
  refine .ite Iff.rfl (fun _ => ?_) fun _ => .pure rfl
  cases set.read? m.device with
  | none => exact .throw rfl
  | some data =>
    dsimp only
    rw [Checksum.verify_congr P data _ (hR.sameDigest _ _ hids)]
    exact .ite Iff.rfl
      (fun _ => .bind (respelled_reserve _) fun _ _ _ =>
        respelled_onFiles (Stash.store_respelled hR hbase hflat hids data))
      fun _ => .ite Iff.rfl (fun _ => .throw rfl) fun _ => .pure rfl

theorem freeEntry_respelled (hverb : c.verb = .free) :
    Coupled (Machine.Respelled R base stash place) SameKind Eq c.freeEntry c'.freeEntry := by
  have hid : Alike Eq R (c.arg 0) (c'.arg 0) :=
    h.arg fun _ _ hword => hword.key (by rw [keyPosition?, hverb])
  refine (respelled_ofCommand hid).bind fun id id' hids => ?_
  refine respelled_get_bind fun m t' hstash hfiles => ?_
  dsimp only
  rw [hstash, Stash.entrySize?_respelled hR hbase hids hfiles]
  refine .ite Iff.rfl (fun _ => ?_) fun _ => .pure rfl
  have hfree : Coupled (Machine.Respelled R base stash place) SameKind Eq
      (Machine.onFiles (stash.free id)) (Machine.onFiles (stash.free id')) :=
    respelled_onFiles (Stash.free_respelled hR hbase hflat hids)
  cases stash.entrySize? m.files id with
  | none => exact hfree
  | some size => exact .bind (respelled_release _) fun _ _ _ => hfree

/-- **Commands under other spellings** end alike, and leave machines that differ in the spelling of
entries only. -/
theorem run_respelled :
    Coupled (Machine.Respelled R base stash place) SameKind Eq (c.run P) (c'.run P) := by
  rw [run, run, h.verb]
  cases hverb : c.verb with
  | abort | other => exact .pure rfl
  | new => exact respelled_writeNewData h hverb
  | zero => exact respelled_clear h (.inl hverb)
  | erase => exact respelled_clear h (.inr hverb)
  | move => exact makeTarget_respelled hR h hbase hflat (.inl hverb)
  | copy => exact makeTarget_respelled hR h hbase hflat (.inr (.inl hverb))
  | bsdiff => exact makeTarget_respelled hR h hbase hflat (.inr (.inr (.inl hverb)))
  | imgdiff => exact makeTarget_respelled hR h hbase hflat (.inr (.inr (.inr hverb)))
  | stash => exact stashBlocks_respelled hR h hbase hflat hverb
  | free => exact freeEntry_respelled hR h hbase hflat hverb

end

end Command

end BlockUpdate
