import BuildScript.Proofs.Scripts.Payloads
import BuildScript.Proofs.Scripts.StoredScripts

/-!
# Records that were written

A metadata record has no length and no version: after the byte of flags, the payload is what is left
of the file, and no payload is no bytes. So what is read back depends on three things. Writing
leaves nothing of an older record behind the new one; a payload that was written has at least one
byte; and where none was written the serializer is not asked at all, so it does not matter what it
would have said.

The file system can refuse a record, but not because of what is in it: `Accepts` does not mention
the bytes, and it holds again after each record that was written.
-/

namespace BuildScript

open Relation

variable {α β : Type}

namespace FileTree

variable {t t' : FileTree} {directory p : Path} {bytes : List UInt8}

/-! ## Files that can be written -/

/-- What a write needs: the path names an entry, and there is no directory. -/
structure Writable (t : FileTree) (p : Path) (e : Entry) : Prop where
  entry : t.entry p = .ok e
  named : e.isNamed = true
  noSlash : e.slash = false
  node : ∃ n, t.entryNode? e = .ok n ∧ n ≠ some .directory

theorem exists_run_write_iff :
    (∃ t', (write p bytes).run t = (.ok (), t')) ↔ ∃ e, t.Writable p e := by
  constructor
  · rintro ⟨t', h⟩
    rw [write, run_bind_ok (run_get t)] at h
    obtain ⟨e, t₁, hentry, h⟩ := run_bind_eq_ok h
    obtain ⟨hentry, rfl⟩ := Prod.ext_iff.mp hentry
    dsimp only at h
    split at h
    next => cases h
    next hproper =>
      rw [Bool.or_eq_true, not_or, Bool.not_eq_true, Bool.not_eq_true', Bool.not_eq_false] at hproper
      obtain ⟨n, t₂, hnode, h⟩ := run_bind_eq_ok h
      obtain ⟨hnode, rfl⟩ := Prod.ext_iff.mp hnode
      refine ⟨e, hentry, hproper.2, hproper.1, n, hnode, ?_⟩
      rintro rfl
      cases h
  · rintro ⟨e, hentry, hnamed, hslash, n, hnode, hn⟩
    rw [write, run_bind_ok (run_get t), hentry, run_bind_ok (run_lift _ _)]
    dsimp only
    rw [if_neg (by simp [hslash, hnamed]), hnode, run_bind_ok (run_lift _ _)]
    rcases n with _ | _ | number
    · exact ⟨_, rfl⟩
    · exact absurd rfl hn
    · exact ⟨_, rfl⟩

/-- An entry stays where it is while no directory is lost. -/
theorem entry_mono (hdirectory : ∀ l, t.node? l = some .directory → t'.node? l = some .directory)
    {e : Entry} (h : t.entry p = .ok e) : t'.entry p = .ok e := by
  rw [entry, bind_eq_ok] at h ⊢
  obtain ⟨ss, hss, h⟩ := h
  obtain ⟨place, hwalk, h⟩ := bind_eq_ok.mp h
  exact ⟨ss, hss, bind_eq_ok.mpr ⟨place, walk_mono hdirectory hwalk, h⟩⟩

/-- What was written can be written again. -/
theorem Writable.writes {e : Entry} (h : t.Writable p e) (hlocate : t.locate p = .ok p.place)
    (hwrites : Writes p.place bytes t t') : t'.Writable p e := by
  have hentry : t'.entry p = .ok e := entry_mono (within_of_writes hwrites) h.entry
  have hfile : ∃ number, t'.node? p.place = some (.file number) := by
    cases hwrites with
    | creates vacant => exact ⟨_, (node?_add vacant _ _).trans (if_pos rfl)⟩
    | replaces node => exact ⟨_, node⟩
  obtain ⟨number, hnode⟩ := hfile
  have hlookup : t'.lookup p = .ok (.file number) :=
    lookup_eq_ok_iff.mpr ⟨locate_mono (within_of_writes hwrites) hlocate, hnode⟩
  obtain ⟨e', hentry', hfound⟩ := exists_entry_of_lookup hlookup
  rw [hentry] at hentry'
  obtain rfl := Except.ok.inj hentry'
  refine ⟨hentry, h.named, h.noSlash, _, hfound h.named, ?_⟩
  intro heq
  cases heq

/-- A directory that is there need not be made. -/
theorem run_createDirectory_of_isDirectory (h : t.isDirectory p = true) :
    (createDirectory p).run t = (.ok (), t) := by
  have hclimb : (climb [] p.ancestors).run t = (.ok [], t) := by
    cases hancestors : p.ancestors with
    | nil => rfl
    | cons q above =>
      have hq : t.isDirectory q = true := by
        refine isDirectory_of_mem_ancestors h ?_
        rw [hancestors]
        exact List.mem_cons_self
      have hensure : (ensureDirectory q).run t = (.ok (), t) := by
        rcases run_ensureDirectory q t with ⟨hvacant, -⟩ | hrun | ⟨e, -, hno⟩
        · have hfree := hvacant.free
          rw [(lookup_eq_ok_iff.mp (isDirectory_iff.mp hq)).2] at hfree
          cases hfree
        · exact hrun
        · rw [hq] at hno
          cases hno
      have hfound : (do ensureDirectory q; pure true : FileM Bool).run t = (.ok true, t) :=
        run_bind_ok hensure
      rw [climb, run_bind_ok (run_tryCatch_ok hfound)]
      rfl
  rw [createDirectory, run_bind_ok hclimb]
  rfl

/-- A file can be written at the path when the directory has been made. -/
def Accepts (t : FileTree) (directory p : Path) : Prop :=
  ∃ bytes t', (do createDirectory directory; write p bytes : FileM Unit).run t = (.ok (), t')

theorem Accepts.run (h : t.Accepts directory p) (bytes : List UInt8) :
    ∃ t', (do createDirectory directory; write p bytes : FileM Unit).run t = (.ok (), t') := by
  obtain ⟨other, t', h⟩ := h
  obtain ⟨⟨⟩, t₁, hmake, hwrite⟩ := run_bind_eq_ok h
  obtain ⟨t₂, hrun⟩ := exists_run_write_iff.mpr (exists_run_write_iff.mp ⟨t', hwrite⟩)
  exact ⟨t₂, (run_bind_ok hmake).trans hrun⟩

/-- After a file was written into a directory there can be another in its place. -/
theorem accepts_of_write {name : String} (hname : Path.IsName name)
    (h : (do
      createDirectory directory
      write (directory.join name) bytes : FileM Unit).run t = (.ok (), t')) :
    t'.Accepts directory (directory.join name) := by
  obtain ⟨⟨⟩, t₁, hmake, hwrite⟩ := run_bind_eq_ok h
  obtain ⟨e, he⟩ := exists_run_write_iff.mp ⟨t', hwrite⟩
  obtain ⟨hlocate, hwrites⟩ := writes_of_write hwrite
  obtain ⟨t₂, hagain⟩ : ∃ t₂, (write (directory.join name) bytes).run t' = (.ok (), t₂) :=
    exists_run_write_iff.mpr ⟨e, he.writes hlocate hwrites⟩
  suffices hmade : (createDirectory directory).run t' = (.ok (), t') from
    ⟨bytes, t₂, (run_bind_ok hmade).trans hagain⟩
  by_cases hempty : directory.text = ""
  · -- Without a path there is nothing to be made.
    have hancestors : directory.ancestors = [] := by
      obtain ⟨text⟩ := directory
      subst hempty
      decide
    rw [createDirectory, hancestors]
    rfl
  · obtain ⟨hdirectory, hnode⟩ := locate_of_locate_join hname hempty hlocate
    refine run_createDirectory_of_isDirectory (isDirectory_iff.mpr (lookup_eq_ok_iff.mpr ?_))
    exact ⟨locate_mono (within_of_writes hwrites) hdirectory, within_of_writes hwrites _ hnode⟩

end FileTree

/-! ## Flags -/

theorem ScriptFlags.or_reserved_and {b reserved bit : UInt8} (h : reserved &&& bit = 0) :
    (b ||| reserved) &&& bit = b &&& bit := by
  have hnat : reserved.toNat &&& bit.toNat = 0 := by
    rw [← UInt8.toNat_and, h]
    rfl
  rw [← UInt8.toNat_inj, UInt8.toNat_and, UInt8.toNat_or, UInt8.toNat_and,
    Nat.and_or_distrib_right, hnat, Nat.or_zero]

/-- The bits that mean nothing do not change the flags. -/
theorem ScriptFlags.ofByte_or_reserved (flags : ScriptFlags) {reserved : UInt8}
    (h : reserved &&& (emptyBit ||| methodsBit) = 0) : ofByte (flags.toByte ||| reserved) = flags := by
  have hbit {bit : UInt8} (hbit : (emptyBit ||| methodsBit) &&& bit = bit) :
      (flags.toByte ||| reserved) &&& bit = flags.toByte &&& bit := by
    refine or_reserved_and ?_
    rw [← hbit, ← UInt8.and_assoc, h, UInt8.zero_and]
  rw [ofByte, hbit (by decide), hbit (by decide)]
  exact ofByte_toByte flags

/-! ## Payloads that can stand in a record -/

theorem Payload.varint_ne_nil (n : Nat) : varint n ≠ [] := by
  rw [varint]
  split
  · exact List.cons_ne_nil _ _
  · exact List.cons_ne_nil _ _

namespace Serializer

/-- What can be told from what follows it can be told from nothing, if it has a byte. -/
theorem Framed.faithful {s : Serializer α} {Fits : α → Prop} (h : s.Framed Fits)
    (hne : ∀ x, s.write x ≠ .ok []) : s.Faithful where
  nonempty := hne
  reads x bytes hwrite source content hover hremaining := by
    obtain ⟨source', hread, -⟩ :=
      (h.reads x bytes hwrite).takes hover (hremaining.trans (List.append_nil bytes).symm)
    exact ⟨source', hread⟩

theorem faithful_text : text.Faithful := by
  refine framed_text.faithful fun s hs ↦ ?_
  obtain ⟨-, hnil⟩ := Payload.binary_eq_ok_iff.mp hs
  exact Payload.varint_ne_nil _ (List.append_eq_nil_iff.mp hnil.symm).1

end Serializer

/-! ## Reading back -/

/-- The record gives the flags and the data, when it is read at once and when it is read in two
steps. -/
structure RecordGives (files : FileTree) (directory : Path) (flags : ScriptFlags)
    (serializer : Option (Serializer α)) (data : Option α) : Prop where
  whole : readMetadata files directory serializer = .ok (flags, data)
  stepwise : ∃ r r', MetadataReader.openIn files directory = .ok r ∧
    r.readFlags files = (.ok flags, r') ∧ ∀ s ∈ serializer, (r'.readData files s).1 = .ok data

/-- What was put into the record is read back: the data with their serializer, no data without one;
and if there are no data in the record, then whatever it is read with finds none. -/
structure ReadsBack (files : FileTree) (directory : Path) (flags : ScriptFlags) (data : Option α)
    (writer : Option (Serializer α)) : Prop where
  present : ∀ s ∈ writer, ∀ d ∈ data, RecordGives files directory flags (some s) (some d)
  unread : RecordGives files directory flags (none : Option (Serializer α)) none
  absent : writer = none ∨ data = none → ∀ {β : Type} (s : Serializer β),
    RecordGives files directory flags (some s) none

section

variable {files : FileTree} {directory : Path} {flags : ScriptFlags} {data : Option α}
  {writer : Option (Serializer α)} {payload : List UInt8}

theorem recordGives_of_read {b : UInt8} {serializer : Option (Serializer β)} {data : Option β}
    (hread : files.read (metadataFile directory) = .ok (b :: payload))
    (hnone : serializer = none → data = none)
    (hdata : ∀ s ∈ serializer, ∀ (r : MetadataReader) (number : Nat), r.file = .file number →
      (r.source files).remaining = payload → (r.readData files s).1 = .ok data) :
    RecordGives files directory (.ofByte b) serializer data := by
  obtain ⟨r, number, hopen, hfile, hremaining⟩ := MetadataReader.exists_openIn hread
  obtain ⟨r', hflags, hfile', hrest⟩ := MetadataReader.readFlags_eq hfile hremaining
  refine ⟨?_, r, r', hopen, hflags, fun s hs ↦ hdata s hs r' number hfile' hrest⟩
  rw [readMetadata, hopen]
  simp only [bind, Except.bind, hflags]
  cases serializer with
  | none =>
    rw [hnone rfl]
    rfl
  | some s =>
    dsimp only
    rw [hdata s rfl r' number hfile' hrest]
    rfl

/-- It is enough to know the bytes of the record. -/
theorem readsBack_of_read {b : UInt8} (hwriter : ∀ s ∈ writer, s.Faithful)
    (hpayload : payloadBytes data writer = .ok payload)
    (hread : files.read (metadataFile directory) = .ok (b :: payload)) :
    ReadsBack files directory (.ofByte b) data writer where
  present s hs d hd := by
    obtain rfl : writer = some s := hs
    obtain rfl : data = some d := hd
    refine recordGives_of_read hread nofun fun s' hs' r number hfile hrest ↦ ?_
    obtain rfl : s = s' := Option.some.inj hs'
    exact MetadataReader.readData_eq (hwriter s rfl) hfile hpayload hrest
  unread := recordGives_of_read hread (fun _ ↦ rfl) nofun
  absent habsent _ s := by
    have hnil : payload = [] := by
      rcases habsent with rfl | rfl
      · exact (Except.ok.inj hpayload).symm
      · cases writer <;> exact (Except.ok.inj hpayload).symm
    refine recordGives_of_read hread nofun fun s' _ r number hfile hrest ↦ ?_
    exact MetadataReader.readData_of_nil s' hfile (hrest.trans hnil)

/-- A record is written over whatever record there was, and it reads back, whatever the bits of the
flags that mean nothing are set to; and the next one can be written in its place. -/
theorem written_record_reads_back (hfiles : files.WellFormed)
    (haccepts : files.Accepts directory (metadataFile directory))
    (hwriter : ∀ s ∈ writer, s.Faithful) (hpayload : payloadBytes data writer = .ok payload) :
    ∃ files', (writeMetadata directory flags data writer).run files = (.ok (), files') ∧
      files'.WellFormed ∧ files'.Accepts directory (metadataFile directory) ∧
      files'.read (metadataFile directory) = .ok (flags.toByte :: payload) ∧
      ReadsBack files' directory flags data writer ∧
      ∀ (other : FileTree) (reserved : UInt8),
        reserved &&& (ScriptFlags.emptyBit ||| ScriptFlags.methodsBit) = 0 →
        other.read (metadataFile directory) = .ok ((flags.toByte ||| reserved) :: payload) →
        ReadsBack other directory flags data writer := by
  obtain ⟨files', hrun⟩ := haccepts.run (flags.toByte :: payload)
  have hwrites := FileTree.writesBelow_of_makeAndWrite hrun
  have hread := hwrites.read hfiles
  have hname : Path.IsName "metadata.bin" := ⟨by decide, by decide⟩
  refine ⟨files', ?_, hwrites.wellFormed hfiles, FileTree.accepts_of_write hname hrun, hread, ?_, ?_⟩
  · rw [CompileRequest.run_writeMetadata, hpayload]
    dsimp only [Except.toOption, Option.getD]
    rw [hrun]
  · have hback := readsBack_of_read hwriter hpayload hread
    rwa [ScriptFlags.ofByte_toByte] at hback
  · intro other reserved hreserved hother
    have hback := readsBack_of_read hwriter hpayload hother
    rwa [ScriptFlags.ofByte_or_reserved flags hreserved] at hback

end

/-- A record with data, and in its place a shorter one without. -/
theorem written_record_reads_back_shorter : ∃ older newer : FileTree,
    (writeMetadata ⟨"/m"⟩ ⟨false, true⟩ (some "grove") (some Serializer.text)).run {} =
      (.ok (), older) ∧
    ReadsBack older ⟨"/m"⟩ ⟨false, true⟩ (some "grove") (some Serializer.text) ∧
    (writeMetadata ⟨"/m"⟩ ⟨true, false⟩ none (some Serializer.text)).run older = (.ok (), newer) ∧
    ReadsBack newer ⟨"/m"⟩ ⟨true, false⟩ none (some Serializer.text) := by
  have htext : ∀ s ∈ some Serializer.text, s.Faithful := by
    intro s hs
    obtain rfl : Serializer.text = s := Option.some.inj hs
    exact Serializer.faithful_text
  have hempty : FileTree.Accepts {} ⟨"/m"⟩ (metadataFile ⟨"/m"⟩) := ⟨[], _, rfl⟩
  obtain ⟨payload, hpayload⟩ :
      ∃ payload, payloadBytes (some "grove") (some Serializer.text) = .ok payload := ⟨_, rfl⟩
  obtain ⟨older, hwrite, hwf, haccepts, -, hback, -⟩ :=
    @written_record_reads_back _ _ _ ⟨false, true⟩ _ _ _ FileTree.wellFormed_empty hempty htext
      hpayload
  have hnone : payloadBytes none (some Serializer.text) = .ok [] := rfl
  obtain ⟨newer, hrewrite, -, -, -, hagain, -⟩ :=
    @written_record_reads_back _ _ _ ⟨true, false⟩ _ _ _ hwf haccepts htext hnone
  exact ⟨older, newer, hwrite, hback, hrewrite, hagain⟩

end BuildScript
