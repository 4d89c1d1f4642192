import BlockUpdate.Package.Manifest
import BlockUpdate.Proofs.Records
import BlockUpdate.Standard

/-!
# What is signed is what is read

A manifest is believed when its signature verifies, so what the signature covers must be all that the
manifest is made of. The reader feeds the digest record by record; here it is shown that these pieces
are the front of the input, without a gap, and that this front is what the writer writes for the
manifest that was read.

- `Manifest.lowered`: the manifest with its digests in lowercase, which is how it is read.
- `Manifest.readPartition_eq_ok`, `Manifest.readPartitions_eq_ok`: what one step reads, and what all
  of them do.
- **`Manifest.readBody_eq_ok`**: the records before the signature are read exactly when they are
  written at the front, and they are what the digest was fed.
- **`Manifest.parse_eq_ok`**: a manifest is believed exactly when what is at the front is its records
  and one signature of them.
-/

namespace BlockUpdate

/-! ## Partitions as they are read -/

/-- What is read of a partition that was written. -/
def PartitionHash.lowered (p : PartitionHash) : PartitionHash :=
  { p with sha256 := Hex.lowerAscii p.sha256 }

/-- The parts of a partition fit into records. -/
structure PartitionHash.Fits (p : PartitionHash) : Prop where
  name : p.name.utf8ByteSize < 2 ^ 16
  sha256 : p.sha256.utf8ByteSize < 2 ^ 16
  length : p.length < 2 ^ 64

namespace Manifest

/-- What is read of a manifest that was written. -/
def lowered (m : Manifest) : Manifest := ⟨m.partitions.map (·.lowered)⟩

variable {P : Primitives} {oracle : SignatureOracle} {form : RecordForm} {tag n used : Nat}
  {r r' : RecordReader} {ahead data bytes digested digested' : Bytes} {record : ReadRecord}
  {p : PartitionHash} {ps : List PartitionHash} {m : Manifest}

/-! ## Writing -/

theorem encodePartition_eq_ok : encodePartition p = .ok bytes ↔ ∃ name hash length,
    Record.encode .short ⟨nameTag, Bytes.ofText p.name⟩ = .ok name ∧
    Record.encode .short ⟨hashTag, Bytes.ofText p.sha256⟩ = .ok hash ∧
    Record.encode .short ⟨lengthTag, LittleEndian.encode 8 p.length⟩ = .ok length ∧
    bytes = name ++ hash ++ length := by
  simp only [encodePartition, except_bind_eq_ok]
  constructor
  · rintro ⟨name, hname, hash, hhash, length, hlength, h⟩
    exact ⟨name, hash, length, hname, hhash, hlength, (Except.ok.inj h).symm⟩
  · rintro ⟨name, hash, length, hname, hhash, hlength, rfl⟩
    exact ⟨name, hname, hash, hhash, length, hlength, rfl⟩

theorem mapM_cons_eq_ok {pieces : List Bytes} :
    (p :: ps).mapM encodePartition = .ok pieces ↔ ∃ piece rest, encodePartition p = .ok piece ∧
      ps.mapM encodePartition = .ok rest ∧ pieces = piece :: rest := by
  simp only [List.mapM_cons, except_bind_eq_ok]
  constructor
  · rintro ⟨piece, hpiece, rest, hrest, h⟩
    exact ⟨piece, rest, hpiece, hrest, (Except.ok.inj h).symm⟩
  · rintro ⟨piece, rest, hpiece, hrest, rfl⟩
    exact ⟨piece, hpiece, rest, hrest, rfl⟩

theorem encodeBody_eq_ok : m.encodeBody = .ok bytes ↔ m.partitions.length < 256 ^ 2 ∧
    ∃ count pieces,
      Record.encode .short ⟨countTag, LittleEndian.encode 2 m.partitions.length⟩ = .ok count ∧
      m.partitions.mapM encodePartition = .ok pieces ∧ bytes = count ++ Bytes.join pieces := by
  rw [encodeBody]
  by_cases hcount : m.partitions.length < 256 ^ 2
  · rw [if_neg (by omega)]
    simp only [except_bind_eq_ok, hcount, true_and]
    constructor
    · rintro ⟨count, hc, pieces, hp, h⟩
      exact ⟨count, pieces, hc, hp, (Except.ok.inj h).symm⟩
    · rintro ⟨count, pieces, hc, hp, rfl⟩
      exact ⟨count, hc, pieces, hp, rfl⟩
  · rw [if_pos (by omega)]
    simp only [hcount, false_and, iff_false]
    exact fun h => by cases h

/-! ## Reading -/

theorem readTagged_eq_ok (htag : tag < 256 ^ 2) (h : r.Ahead ahead) :
    readTagged form tag r = .ok (record, r') ↔ ∃ rest, ahead = record.raw ++ rest ∧
      Record.encode form record.toRecord = .ok record.raw ∧ record.tag = tag ∧
      r' = r.skip record.raw.size := by
  constructor
  · intro hread
    obtain ⟨⟨found, r₁⟩, hfound, hread⟩ := except_bind_eq_ok.mp hread
    obtain ⟨_, hexpect, hread⟩ := except_bind_eq_ok.mp hread
    cases hread
    obtain ⟨rest, rfl, -, hencode, rfl⟩ := (RecordReader.read_eq_ok h).mp hfound
    exact ⟨rest, rfl, hencode, (Record.expect_eq_ok.mp hexpect).1, rfl⟩
  · rintro ⟨rest, hahead, hencode, rfl, rfl⟩
    have hfound := (RecordReader.read_eq_ok h).mpr ⟨rest, hahead, htag, hencode, rfl⟩
    have hexpect : record.expect record.tag = .ok record.toRecord :=
      Record.expect_eq_ok.mpr ⟨rfl, rfl⟩
    exact except_bind_eq_ok.mpr ⟨_, hfound, except_bind_eq_ok.mpr ⟨_, hexpect, rfl⟩⟩

/-- A record that is ahead is read, if it has the tag. -/
theorem readTagged_of_encode {raw value rest : Bytes} (htag : tag < 256 ^ 2)
    (h : r.Ahead (raw ++ rest)) (hencode : Record.encode form ⟨tag, value⟩ = .ok raw) :
    readTagged form tag r = .ok (⟨⟨tag, value⟩, raw⟩, r.skip raw.size) :=
  (readTagged_eq_ok htag h).mpr ⟨rest, rfl, hencode, rfl, rfl⟩

/-- **One partition is read** exactly when one is written ahead. -/
theorem readPartition_eq_ok (h : r.Ahead ahead) :
    readPartition digested r = .ok (p, digested', r') ↔ ∃ written bytes rest,
      ahead = bytes ++ rest ∧ encodePartition written = .ok bytes ∧ written.length < 256 ^ 8 ∧
      p = written.lowered ∧ digested' = digested ++ bytes ∧ r' = r.skip bytes.size := by
  have hnameTag : nameTag < 256 ^ 2 := by decide
  have hhashTag : hashTag < 256 ^ 2 := by decide
  have hlengthTag : lengthTag < 256 ^ 2 := by decide
  constructor
  · intro hread
    obtain ⟨⟨name, r₁⟩, hname, hread⟩ := except_bind_eq_ok.mp hread
    obtain ⟨⟨hash, r₂⟩, hhash, hread⟩ := except_bind_eq_ok.mp hread
    obtain ⟨⟨length, r₃⟩, hlength, hread⟩ := except_bind_eq_ok.mp hread
    obtain ⟨nameText, hnameText, hread⟩ := except_bind_eq_ok.mp hread
    obtain ⟨hashText, hhashText, hread⟩ := except_bind_eq_ok.mp hread
    obtain ⟨size, hsize, hread⟩ := except_bind_eq_ok.mp hread
    cases hread
    obtain ⟨rest₁, rfl, hname₁, htag₁, rfl⟩ := (readTagged_eq_ok hnameTag h).mp hname
    obtain ⟨rest₂, rfl, hhash₁, htag₂, rfl⟩ := (readTagged_eq_ok hhashTag h.skip).mp hhash
    obtain ⟨rest₃, rfl, hlength₁, htag₃, rfl⟩ :=
      (readTagged_eq_ok hlengthTag h.skip.skip).mp hlength
    rw [Record.text_eq_ok] at hnameText hhashText
    obtain ⟨hlt, hsize⟩ := Record.number_eq_ok.mp hsize
    refine ⟨⟨nameText, hashText, size⟩, name.raw ++ hash.raw ++ length.raw, rest₃, ?_,
      encodePartition_eq_ok.mpr ⟨_, _, _, ?_, ?_, ?_, rfl⟩, hlt, rfl, ?_, ?_⟩
    · simp only [ByteArray.append_assoc]
    · rw [← hnameText, ← htag₁]
      exact hname₁
    · rw [← hhashText, ← htag₂]
      exact hhash₁
    · rw [← hsize, ← htag₃]
      exact hlength₁
    · simp only [ByteArray.append_assoc]
    · simp only [RecordReader.skip_skip, ByteArray.size_append]
  · rintro ⟨written, bytes, rest, rfl, hencode, hlt, rfl, rfl, rfl⟩
    obtain ⟨name, hash, length, hname, hhash, hlength, rfl⟩ := encodePartition_eq_ok.mp hencode
    rw [ByteArray.append_assoc, ByteArray.append_assoc] at h
    have hnameRead := readTagged_of_encode hnameTag h hname
    have hhashRead := readTagged_of_encode hhashTag h.skip hhash
    have hlengthRead := readTagged_of_encode hlengthTag h.skip.skip hlength
    refine except_bind_eq_ok.mpr ⟨_, hnameRead, except_bind_eq_ok.mpr ⟨_, hhashRead,
      except_bind_eq_ok.mpr ⟨_, hlengthRead, except_bind_eq_ok.mpr ⟨_, Record.text_eq_ok.mpr rfl,
        except_bind_eq_ok.mpr ⟨_, Record.text_eq_ok.mpr rfl, except_bind_eq_ok.mpr ⟨_,
          Record.number_eq_ok.mpr ⟨hlt, rfl⟩, ?_⟩⟩⟩⟩⟩⟩
    simp only [RecordReader.skip_skip, ByteArray.size_append, ByteArray.append_assoc,
      Nat.add_assoc]
    rfl

/-- **All partitions are read** exactly when so many are written ahead. -/
theorem readPartitions_eq_ok (h : r.Ahead ahead) :
    readPartitions n digested r = .ok (ps, digested', r') ↔ ∃ (written : List PartitionHash)
      (pieces : List Bytes) (rest : Bytes), ahead = Bytes.join pieces ++ rest ∧
      written.length = n ∧ written.mapM encodePartition = .ok pieces ∧
      (∀ p ∈ written, p.length < 256 ^ 8) ∧ ps = written.map (·.lowered) ∧
      digested' = digested ++ Bytes.join pieces ∧ r' = r.skip (Bytes.join pieces).size := by
  induction n generalizing digested digested' r r' ahead ps with
  | zero =>
    constructor
    · intro hread
      cases hread
      exact ⟨[], [], ahead, ByteArray.empty_append.symm, rfl, rfl, by simp, rfl,
        ByteArray.append_empty.symm, rfl⟩
    · rintro ⟨written, pieces, rest, -, hcount, hpieces, -, rfl, rfl, rfl⟩
      obtain rfl := List.length_eq_zero_iff.mp hcount
      rw [List.mapM_nil] at hpieces
      cases hpieces
      rw [Bytes.join_nil, ByteArray.append_empty]
      rfl
  | succ n ih =>
    constructor
    · intro hread
      obtain ⟨⟨partition, _, _⟩, hfirst, hread⟩ := except_bind_eq_ok.mp hread
      obtain ⟨⟨others, _, _⟩, hothers, hread⟩ := except_bind_eq_ok.mp hread
      cases hread
      obtain ⟨first, bytes, _, rfl, hencode, hlt, rfl, rfl, rfl⟩ :=
        (readPartition_eq_ok h).mp hfirst
      obtain ⟨written, pieces, rest, rfl, rfl, hpieces, hall, rfl, rfl, rfl⟩ :=
        (ih h.skip).mp hothers
      refine ⟨first :: written, bytes :: pieces, rest, ?_, rfl,
        mapM_cons_eq_ok.mpr ⟨bytes, pieces, hencode, hpieces, rfl⟩,
        List.forall_mem_cons.mpr ⟨hlt, hall⟩, rfl, ?_, ?_⟩
      · rw [Bytes.join_cons, ByteArray.append_assoc]
      · rw [Bytes.join_cons, ByteArray.append_assoc]
      · rw [Bytes.join_cons, RecordReader.skip_skip, ByteArray.size_append]
    · rintro ⟨written, pieces, rest, rfl, hcount, hpieces, hall, rfl, rfl, rfl⟩
      obtain ⟨first, written, rfl⟩ := List.exists_cons_of_length_eq_add_one hcount
      obtain ⟨bytes, others, hencode, hothers, rfl⟩ := mapM_cons_eq_ok.mp hpieces
      rw [Bytes.join_cons, ByteArray.append_assoc] at h
      have hfirst : readPartition digested r =
          .ok (first.lowered, digested ++ bytes, r.skip bytes.size) := (readPartition_eq_ok h).mpr
        ⟨first, bytes, _, rfl, hencode, hall first List.mem_cons_self, rfl, rfl, rfl⟩
      have hrest : readPartitions n (digested ++ bytes) (r.skip bytes.size) =
          .ok (written.map (·.lowered), digested ++ bytes ++ Bytes.join others,
            (r.skip bytes.size).skip (Bytes.join others).size) := (ih h.skip).mpr
        ⟨written, others, rest, rfl, Nat.succ.inj hcount, hothers,
          fun p hp => hall p (List.mem_cons_of_mem first hp), rfl, rfl, rfl⟩
      refine except_bind_eq_ok.mpr ⟨_, hfirst, except_bind_eq_ok.mpr ⟨_, hrest, ?_⟩⟩
      rw [RecordReader.skip_skip, ByteArray.append_assoc, ← ByteArray.size_append,
        ← Bytes.join_cons]
      rfl

/-- **The digest is fed with what is read**: the records before the signature are those that are
written ahead, all of them and nothing else. -/
theorem readBody_eq_ok (h : r.Ahead ahead) : readBody r = .ok (m, digested, r') ↔
    ∃ (written : Manifest) (rest : Bytes), ahead = digested ++ rest ∧
      written.encodeBody = .ok digested ∧ (∀ p ∈ written.partitions, p.length < 256 ^ 8) ∧
      m = written.lowered ∧ r' = r.skip digested.size := by
  have htag : countTag < 256 ^ 2 := by decide
  constructor
  · intro hread
    obtain ⟨⟨count, _⟩, hcount, hread⟩ := except_bind_eq_ok.mp hread
    obtain ⟨n, hn, hread⟩ := except_bind_eq_ok.mp hread
    obtain ⟨⟨ps, _, _⟩, hps, hread⟩ := except_bind_eq_ok.mp hread
    cases hread
    obtain ⟨_, rfl, hencode, hcountTag, rfl⟩ := (readTagged_eq_ok htag h).mp hcount
    obtain ⟨written, pieces, rest, rfl, rfl, hpieces, hall, rfl, rfl, rfl⟩ :=
      (readPartitions_eq_ok h.skip).mp hps
    obtain ⟨hlt, hvalue⟩ := Record.number_eq_ok.mp hn
    refine ⟨⟨written⟩, rest, (ByteArray.append_assoc).symm,
      encodeBody_eq_ok.mpr ⟨hlt, count.raw, pieces, ?_, hpieces, rfl⟩, hall, rfl, ?_⟩
    · rw [← hvalue, ← hcountTag]
      exact hencode
    · rw [RecordReader.skip_skip, ByteArray.size_append]
  · rintro ⟨written, rest, rfl, hbody, hall, rfl, rfl⟩
    obtain ⟨hlt, count, pieces, hencode, hpieces, rfl⟩ := encodeBody_eq_ok.mp hbody
    rw [ByteArray.append_assoc] at h
    have hcount := readTagged_of_encode htag h hencode
    have hps : readPartitions written.partitions.length count (r.skip count.size) =
        .ok (written.partitions.map (·.lowered), count ++ Bytes.join pieces,
          (r.skip count.size).skip (Bytes.join pieces).size) := (readPartitions_eq_ok h.skip).mpr
      ⟨written.partitions, pieces, rest, rfl, rfl, hpieces, hall, rfl, rfl, rfl⟩
    refine except_bind_eq_ok.mpr ⟨_, hcount, except_bind_eq_ok.mpr ⟨_,
      Record.number_eq_ok.mpr ⟨hlt, rfl⟩, except_bind_eq_ok.mpr ⟨_, hps, ?_⟩⟩⟩
    rw [RecordReader.skip_skip, ← ByteArray.size_append]
    rfl

/-- **A manifest is believed** exactly when its records are at the front, with one signature of just
these bytes behind them. -/
theorem parse_eq_ok : parse P oracle data = .ok (m, used) ↔
    ∃ (written : Manifest) (body last signature rest : Bytes), data = body ++ (last ++ rest) ∧
      written.encodeBody = .ok body ∧ (∀ p ∈ written.partitions, p.length < 256 ^ 8) ∧
      Record.encode .long ⟨signatureTag, signature⟩ = .ok last ∧
      oracle.verify (P.sha256 body) signature = true ∧ m = written.lowered ∧
      used = (body ++ last).size := by
  have htag : signatureTag < 256 ^ 2 := by decide
  have hstart := RecordReader.ahead_start data
  constructor
  · intro hread
    obtain ⟨⟨_, digested, _⟩, hbody, hread⟩ := except_bind_eq_ok.mp hread
    obtain ⟨⟨signature, _⟩, hsignature, hread⟩ := except_bind_eq_ok.mp hread
    obtain ⟨written, _, rfl, hencode, hall, rfl, rfl⟩ :=
      (readBody_eq_ok hstart).mp (mapError_eq_ok.mp hbody)
    obtain ⟨rest, rfl, hlast, htag', rfl⟩ :=
      (readTagged_eq_ok htag hstart.skip).mp (mapError_eq_ok.mp hsignature)
    dsimp only at hread
    split at hread
    · cases hread
    · next hverify =>
      cases hread
      refine ⟨written, digested, signature.raw, signature.value, rest, rfl, hencode, hall, ?_,
        by simpa using hverify, rfl, ?_⟩
      · rw [← htag']
        exact hlast
      · simp only [RecordReader.skip, ByteArray.size_append, Nat.zero_add]
  · rintro ⟨written, body, last, signature, rest, rfl, hbody, hall, hlast, hverify, rfl, rfl⟩
    have hbodyRead := (readBody_eq_ok hstart).mpr ⟨written, last ++ rest, rfl, hbody, hall, rfl, rfl⟩
    have hlastRead := readTagged_of_encode htag hstart.skip hlast
    refine except_bind_eq_ok.mpr ⟨_, mapError_eq_ok.mpr hbodyRead, except_bind_eq_ok.mpr ⟨_,
      mapError_eq_ok.mpr hlastRead, ?_⟩⟩
    dsimp only
    rw [if_neg (by simp [hverify]), ByteArray.size_append]
    simp only [RecordReader.skip, Nat.zero_add]
    rfl

theorem readBody_of_parse (h : parse P oracle data = .ok (m, used)) :
    ∃ digested r, readBody { data } = .ok (m, digested, r) := by
  obtain ⟨written, body, last, _, rest, hdata, hbody, hall, -, -, rfl, -⟩ := parse_eq_ok.mp h
  exact ⟨body, _, (readBody_eq_ok (RecordReader.ahead_start data)).mpr
    ⟨written, last ++ rest, hdata, hbody, hall, rfl, rfl⟩⟩

end Manifest

/-! ## Oracles that verify what they sign -/

/-- Signs every digest, and accepts the signature, which fits into a record. -/
def SignatureOracle.VerifiesItself (oracle : SignatureOracle) : Prop :=
  ∀ digest, ∃ signature, oracle.sign digest = .ok signature ∧ signature.size < 2 ^ 32 ∧
    oracle.verify digest signature = true

namespace Manifest

variable {P : Primitives} {oracle : SignatureOracle} {data body bytes : Bytes} {used : Nat}
  {p : PartitionHash} {m : Manifest}

theorem encode_eq_ok : m.encode P oracle = .ok bytes ↔ ∃ body signature last,
    m.encodeBody = .ok body ∧ oracle.sign (P.sha256 body) = .ok signature ∧
    Record.encode .long ⟨signatureTag, signature⟩ = .ok last ∧ bytes = body ++ last := by
  simp only [encode, except_bind_eq_ok, mapError_eq_ok]
  constructor
  · rintro ⟨body, hbody, signature, hsign, last, hlast, h⟩
    exact ⟨body, signature, last, hbody, hsign, hlast, (Except.ok.inj h).symm⟩
  · rintro ⟨body, signature, last, hbody, hsign, hlast, rfl⟩
    exact ⟨body, hbody, signature, hsign, last, hlast, rfl⟩

/-- A partition that fits is written. -/
theorem exists_encodePartition (h : p.Fits) : ∃ bytes, encodePartition p = .ok bytes := by
  have hname : (Bytes.ofText p.name).size < 256 ^ 2 := by
    rw [Bytes.size_ofText]
    exact h.name
  have hhash : (Bytes.ofText p.sha256).size < 256 ^ 2 := by
    rw [Bytes.size_ofText]
    exact h.sha256
  have hlength : (LittleEndian.encode 8 p.length).size < 256 ^ 2 := by
    rw [LittleEndian.size_encode]
    decide
  exact ⟨_, encodePartition_eq_ok.mpr ⟨_, _, _, Record.encode_eq_ok.mpr ⟨hname, rfl⟩,
    Record.encode_eq_ok.mpr ⟨hhash, rfl⟩, Record.encode_eq_ok.mpr ⟨hlength, rfl⟩, rfl⟩⟩

theorem exists_encodePartitions {ps : List PartitionHash} (h : ∀ p ∈ ps, p.Fits) :
    ∃ pieces, ps.mapM encodePartition = .ok pieces := by
  induction ps with
  | nil => exact ⟨[], List.mapM_nil⟩
  | cons p ps ih =>
    obtain ⟨hp, hps⟩ := List.forall_mem_cons.mp h
    obtain ⟨piece, hpiece⟩ := exists_encodePartition hp
    obtain ⟨rest, hrest⟩ := ih hps
    exact ⟨piece :: rest, mapM_cons_eq_ok.mpr ⟨piece, rest, hpiece, hrest, rfl⟩⟩

theorem exists_encodeBody (hcount : m.partitions.length < 2 ^ 16)
    (hfits : ∀ p ∈ m.partitions, p.Fits) : ∃ body, m.encodeBody = .ok body := by
  obtain ⟨pieces, hpieces⟩ := exists_encodePartitions hfits
  have hsize : (LittleEndian.encode 2 m.partitions.length).size < 256 ^ 2 := by
    rw [LittleEndian.size_encode]
    decide
  exact ⟨_, encodeBody_eq_ok.mpr ⟨hcount, _, pieces, Record.encode_eq_ok.mpr ⟨hsize, rfl⟩,
    hpieces, rfl⟩⟩

/-- A manifest that fits is written. -/
theorem exists_encode (hcount : m.partitions.length < 2 ^ 16)
    (hfits : ∀ p ∈ m.partitions, p.Fits) (horacle : oracle.VerifiesItself) :
    ∃ bytes, m.encode P oracle = .ok bytes := by
  obtain ⟨body, hbody⟩ := exists_encodeBody hcount hfits
  obtain ⟨signature, hsign, hsize, -⟩ := horacle (P.sha256 body)
  exact ⟨_, encode_eq_ok.mpr ⟨body, signature, _, hbody, hsign,
    Record.encode_eq_ok.mpr ⟨hsize, rfl⟩, rfl⟩⟩

/-- What was written is believed, whatever follows it. -/
theorem parse_of_encode (hfits : ∀ p ∈ m.partitions, p.Fits) (horacle : oracle.VerifiesItself)
    (h : m.encode P oracle = .ok bytes) (t : Bytes) :
    parse P oracle (bytes ++ t) = .ok (m.lowered, bytes.size) := by
  obtain ⟨body, signature, last, hbody, hsign, hlast, rfl⟩ := encode_eq_ok.mp h
  obtain ⟨signature', hsign', -, hverify⟩ := horacle (P.sha256 body)
  obtain rfl : signature = signature' := Except.ok.inj (hsign.symm.trans hsign')
  exact parse_eq_ok.mpr ⟨m, body, last, signature, t, ByteArray.append_assoc, hbody,
    fun p hp => (hfits p hp).length, hlast, hverify, rfl, rfl⟩

/-- **A signed manifest reads back** with its digests in lowercase, whatever follows it, and just its
own bytes are used for it. -/
theorem parse_encode_append (hcount : m.partitions.length < 2 ^ 16)
    (hfits : ∀ p ∈ m.partitions, p.Fits) (horacle : oracle.VerifiesItself) :
    ∃ bytes, m.encode P oracle = .ok bytes ∧
      ∀ t, parse P oracle (bytes ++ t) = .ok (m.lowered, bytes.size) := by
  obtain ⟨bytes, hbytes⟩ := exists_encode (P := P) hcount hfits horacle
  exact ⟨bytes, hbytes, parse_of_encode hfits horacle hbytes⟩

/-- Signs a digest with the digest itself, cut to the size of a signature. -/
def sampleOracle : SignatureOracle where
  sign digest := .ok (digest.takeFirst 64)
  verify digest signature := signature = digest.takeFirst 64

theorem verifiesItself_sampleOracle : sampleOracle.VerifiesItself := by
  intro digest
  refine ⟨digest.takeFirst 64, rfl, ?_, by simp [sampleOracle]⟩
  rw [Bytes.size_takeFirst]
  omega

/-- Two partitions, one with a digest in capitals. -/
def sampleManifest : Manifest :=
  ⟨[⟨"system", "AB54D286", 2 ^ 20⟩, ⟨"vendor", "cd06ca7c", 4096⟩]⟩

theorem fits_sampleManifest : ∀ p ∈ sampleManifest.partitions, p.Fits := by
  simp only [sampleManifest, List.mem_cons, List.not_mem_nil, or_false, forall_eq_or_imp, forall_eq]
  exact ⟨⟨by decide, by decide, by decide⟩, ⟨by decide, by decide, by decide⟩⟩

/-- The capitals of a digest come back in lowercase. -/
example : sampleManifest.lowered =
    ⟨[⟨"system", "ab54d286", 2 ^ 20⟩, ⟨"vendor", "cd06ca7c", 4096⟩]⟩ := by cbv

theorem parse_encode_append_sample :
    sampleManifest.partitions.length < 2 ^ 16 ∧ (∀ p ∈ sampleManifest.partitions, p.Fits) ∧
    sampleOracle.VerifiesItself ∧ ∃ bytes, sampleManifest.encode .standard sampleOracle = .ok bytes ∧
      ∀ t, parse .standard sampleOracle (bytes ++ t) = .ok (sampleManifest.lowered, bytes.size) :=
  ⟨by decide, fits_sampleManifest, verifiesItself_sampleOracle,
    parse_encode_append (by decide) fits_sampleManifest verifiesItself_sampleOracle⟩

/-- **Nothing that is not signed is believed.** What is used of the data is a body and one signature
record whose value was accepted for the digest of just this body. The body is what the writer puts
there, a count and so many partitions without a gap, and whatever follows it and whoever verifies it,
no other manifest is read from it. -/
theorem signed_of_parse (h : parse P oracle data = .ok (m, used)) :
    ∃ (body last signature : Bytes) (written : Manifest),
      data.takeFirst used = body ++ last ∧ used = (body ++ last).size ∧
      Record.encode .long ⟨signatureTag, signature⟩ = .ok last ∧
      oracle.verify (P.sha256 body) signature = true ∧
      written.encodeBody = .ok body ∧ m = written.lowered ∧
      ∀ (P' : Primitives) (oracle' : SignatureOracle) (t : Bytes) (m' : Manifest) (used' : Nat),
        parse P' oracle' (body ++ t) = .ok (m', used') → m' = m := by
  obtain ⟨written, body, last, signature, rest, rfl, hbody, hall, hlast, hverify, rfl, rfl⟩ :=
    parse_eq_ok.mp h
  refine ⟨body, last, signature, written, ?_, rfl, hlast, hverify, hbody, rfl, ?_⟩
  · rw [← ByteArray.append_assoc, Bytes.takeFirst_append]
  · intro P' oracle' t m' used' h'
    -- both readings begin with that of the body, which does not look behind it
    obtain ⟨digested, r, hread'⟩ := readBody_of_parse h'
    have hread := (readBody_eq_ok (RecordReader.ahead_start (body ++ t))).mpr
      ⟨written, t, rfl, hbody, hall, rfl, rfl⟩
    cases hread'.symm.trans hread
    rfl

/-- The bytes of the sample. -/
def sampleSigned : Bytes :=
  ((sampleManifest.encode .standard sampleOracle).toOption).getD ByteArray.empty

theorem encode_sampleManifest : sampleManifest.encode .standard sampleOracle = .ok sampleSigned := by
  obtain ⟨bytes, hbytes⟩ := exists_encode (P := .standard) (m := sampleManifest) (by decide)
    fits_sampleManifest verifiesItself_sampleOracle
  rw [sampleSigned, hbytes]
  rfl

/-- The sample is believed in front of other data. -/
theorem signed_of_parse_sample :
    parse .standard sampleOracle (sampleSigned ++ Bytes.ofText "stream continues") =
      .ok (sampleManifest.lowered, sampleSigned.size) ∧
    ∃ (body last signature : Bytes) (written : Manifest),
      (sampleSigned ++ Bytes.ofText "stream continues").takeFirst sampleSigned.size = body ++ last ∧
      sampleSigned.size = (body ++ last).size ∧
      Record.encode .long ⟨signatureTag, signature⟩ = .ok last ∧
      sampleOracle.verify (Primitives.standard.sha256 body) signature = true ∧
      written.encodeBody = .ok body ∧ sampleManifest.lowered = written.lowered ∧
      ∀ (P' : Primitives) (oracle' : SignatureOracle) (t : Bytes) (m' : Manifest) (used' : Nat),
        parse P' oracle' (body ++ t) = .ok (m', used') → m' = sampleManifest.lowered := by
  have h := parse_of_encode fits_sampleManifest verifiesItself_sampleOracle encode_sampleManifest
    (Bytes.ofText "stream continues")
  exact ⟨h, signed_of_parse h⟩

end Manifest

end BlockUpdate
