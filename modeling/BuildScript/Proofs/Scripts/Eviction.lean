import BuildScript.Proofs.Loading.CachedLoaders
import BuildScript.Proofs.Scripts.CleanUp
import BuildScript.Proofs.Scripts.Records

/-!
# What reading a record does to the cache

The loader of an empty script leaves the cache when the script's record is read. This happens between
the two steps of reading, the flags and the payload, so it depends on the flags alone: it does happen
if the payload turns out to be unreadable, and it does not if there are no flags. Nothing else of the
build changes.

A serializer may be any decoder, so what it makes of a payload may depend on how much of the record
was buffered before. `payloadSource` says what it is given: behind the flags stands the rest of the
first chunk, which is in the buffer, and all that follows is still to be fetched.
-/

namespace BuildScript

open ByteSource

variable {σ α : Type}

/-- What a serializer reads the payload of a record from. -/
def payloadSource (record : List UInt8) : ByteSource where
  buffered := (record.take chunkSize).tail
  position := (record.take chunkSize).length
  rest := .ok (record.drop chunkSize)

/-- The payload is what stands behind the first byte of the record. -/
theorem remaining_payloadSource (record : List UInt8) :
    (payloadSource record).remaining = record.tail := by
  cases record with
  | nil => rfl
  | cons byte payload =>
    change payload.take 8191 ++ payload.drop 8191 = payload
    exact List.take_append_drop _ _

theorem over_payloadSource (record : List UInt8) : (payloadSource record).Over record := by
  change Except.ok (record.drop chunkSize) =
    Except.ok (record.drop (record.take chunkSize).length)
  rw [List.length_take]
  rcases Nat.le_total chunkSize record.length with hlong | hshort
  · rw [Nat.min_eq_left hlong]
  · rw [Nat.min_eq_right hshort, List.drop_length, List.drop_of_length_le hshort]

/-- The record has flags, and these say that the script is empty. -/
def IsEmptyRecord (record : Except FileError (List UInt8)) : Prop :=
  ∃ byte payload, record = .ok (byte :: payload) ∧ byte &&& ScriptFlags.emptyBit ≠ 0

/-- Why there is no handle for a record: the record is missing or has no flags, or the serializer
fails on a payload. -/
inductive UnreadableRecord (serializer : Option (Serializer α)) :
    Except FileError (List UInt8) → Prop
  | missing (e : FileError) : UnreadableRecord serializer (.error e)
  | noFlags : UnreadableRecord serializer (.ok [])
  | payload {s : Serializer α} {byte : UInt8} {payload : List UInt8} {e : PayloadError}
    {rest : ByteSource} : serializer = some s → payload ≠ [] →
      s.read (payloadSource (byte :: payload)) = .error e rest →
        UnreadableRecord serializer (.ok (byte :: payload))

/-- The data of a record: what the serializer reads, and none if there is no serializer or nothing to
read. -/
inductive RecordData (serializer : Option (Serializer α)) (byte : UInt8) (payload : List UInt8) :
    Option α → Prop
  | passedOver : serializer = none → RecordData serializer byte payload none
  | nothing : payload = [] → RecordData serializer byte payload none
  | read {s : Serializer α} {d : α} {rest : ByteSource} : serializer = some s → payload ≠ [] →
      s.read (payloadSource (byte :: payload)) = .ok d rest →
        RecordData serializer byte payload (some d)

/-! ## The reader -/

namespace Decoder

variable {byte : UInt8} {payload : List UInt8}

/-- The first byte of a record is taken off the first chunk, which is fetched for it. -/
theorem byte_eq_payloadSource :
    Decoder.byte ⟨[], 0, .ok (byte :: payload)⟩ = .ok byte (payloadSource (byte :: payload)) := by
  let opened : ByteSource := ⟨[], 0, .ok (byte :: payload)⟩
  have hfetch : opened.fetch 1 =
      .ok ⟨byte :: payload.take 8191, ((byte :: payload).take chunkSize).length,
        .ok ((byte :: payload).drop chunkSize)⟩ := by
    rw [← Nat.zero_add ((byte :: payload).take chunkSize).length]
    rfl
  have hbytes : bytes 1 opened = .ok [byte] (payloadSource (byte :: payload)) := by
    have hempty : LittleEndian.split? 1 opened.buffered = none := rfl
    have hneeded : 1 - opened.buffered.length = 1 := rfl
    rw [bytes, hempty, hneeded]
    dsimp only
    rw [hfetch]
    rfl
  exact byte_of_bytes hbytes

theorem atEnd_payloadSource (h : payload ≠ []) :
    atEnd (payloadSource (byte :: payload)) = .ok false (payloadSource (byte :: payload)) := by
  have hbuffered : (payloadSource (byte :: payload)).buffered.isEmpty = false := by
    obtain ⟨next, payload, rfl⟩ := List.exists_cons_of_ne_nil h
    rfl
  rw [atEnd, hbuffered]
  rfl

end Decoder

namespace MetadataReader

variable {files : FileTree} {directory : Path} {r : MetadataReader} {number : Nat} {byte : UInt8}
  {payload : List UInt8}

/-- Reading the flags of a record leaves the reader at the payload. -/
theorem exists_readFlags (hread : files.read (metadataFile directory) = .ok (byte :: payload)) :
    ∃ opened reader number, openIn files directory = .ok opened ∧
      opened.readFlags files = (.ok (ScriptFlags.ofByte byte), reader) ∧
      reader.file = .file number ∧ files.content number = byte :: payload ∧
      reader.source files = payloadSource (byte :: payload) := by
  obtain ⟨hlocate, number, hnode, hcontent⟩ := FileTree.read_eq_ok_iff.mp hread
  have hopen := openIn_of_file (FileTree.lookup_eq_ok_iff.mpr ⟨hlocate, hnode⟩)
  have hbyte : Decoder.byte (source { path := metadataFile directory, file := .file number } files) =
      .ok byte (payloadSource (byte :: payload)) := by
    rw [source_eq rfl, List.drop_zero, hcontent]
    exact Decoder.byte_eq_payloadSource
  obtain ⟨reader, hdecode, hfile, hsource⟩ :=
    decode_of_ok rfl hbyte (hcontent ▸ over_payloadSource _)
  refine ⟨_, reader, number, hopen, ?_, hfile, hcontent, hsource⟩
  rw [readFlags, hdecode]
  rfl

/-- A serializer is given the payload as the flags have left it. -/
theorem readData_eq_read (serializer : Serializer α) (hfile : r.file = .file number)
    (hcontent : files.content number = byte :: payload)
    (hsource : r.source files = payloadSource (byte :: payload)) (hpayload : payload ≠ []) :
    (r.readData files serializer).1 =
      match serializer.read (payloadSource (byte :: payload)) with
      | .ok d _ => .ok (some d)
      | .error e _ => .error (.serialization e) := by
  have hatEnd : Decoder.atEnd (r.source files) = .ok false (payloadSource (byte :: payload)) := by
    rw [hsource, Decoder.atEnd_payloadSource hpayload]
  obtain ⟨r', hdecode, hfile', hsource'⟩ :=
    decode_of_ok hfile hatEnd (hcontent ▸ over_payloadSource _)
  rw [readData, hdecode]
  dsimp only
  rw [decode, EStateM.run, hsource']
  cases serializer.read (payloadSource (byte :: payload)) <;> rfl

/-- A record without a byte has no flags. -/
theorem readFlags_of_nil (path : Path) (hcontent : files.content number = []) :
    (readFlags { path, file := .file number } files).1 = .error (.serialization .unexpectedEof) := by
  rw [readFlags, decode, source_eq rfl, List.drop_zero, hcontent]
  rfl

end MetadataReader

/-! ## Handles -/

/-- The build after flags were read: the loader of an empty script has left the cache. -/
def Build.evict (b : Build) (loaderId : String) (flags : ScriptFlags) : Build :=
  if flags.isEmpty then { b with loaders := (b.loaders.remove loaderId).2 } else b

namespace CompiledScript

variable (r : CompileRequest σ α) (loaderId : String) {b : Build}

/-- The handle on a script that was compiled for the request, with what its record says. -/
def ofRecord (flags : ScriptFlags) (data : Option α) : CompiledScript α where
  flags
  loaderId
  base := r.base
  directory := r.classes
  parent := r.parent
  source := r.source
  data


/-- Without flags there is no handle, and the build stays as it is. -/
theorem run_ofDirectories_of_noFlags
    (hread : ∀ byte payload, b.world.files.read (metadataFile r.metadata) ≠ .ok (byte :: payload)) :
    ∃ cause, (ofDirectories r loaderId).run b =
      (.error (.metadataUnreadable r.source.displayName cause), b) := by
  by_cases hfile : ∃ number, b.world.files.lookup (metadataFile r.metadata) = .ok (.file number)
  · obtain ⟨number, hlookup⟩ := hfile
    have hrecord : b.world.files.read (metadataFile r.metadata) =
        .ok (b.world.files.content number) := by
      rw [FileTree.read, hlookup]
      rfl
    have hcontent : b.world.files.content number = [] := by
      rcases hc : b.world.files.content number with _ | ⟨byte, payload⟩
      · rfl
      · exact absurd (hc ▸ hrecord) (hread byte payload)
    have hnoFlags := MetadataReader.readFlags_of_nil (metadataFile r.metadata) hcontent
    refine ⟨.serialization .unexpectedEof, ?_⟩
    rw [ofDirectories, run_bind_ok (run_get b)]
    dsimp only
    rw [run_bind_ok (run_ofExcept_ok (MetadataReader.openIn_of_file hlookup) _ b),
      run_bind_error (run_ofExcept_error hnoFlags _ b)]
  · exact ofDirectories_error r loaderId fun number h ↦ hfile ⟨number, h⟩

/-- What is left to do when the flags were read and the cache has been looked after. -/
def finish (files : FileTree) (reader : MetadataReader) (flags : ScriptFlags) :
    BuildM (CompiledScript α) :=
  match r.operation.bind (·.serializer) with
  | some serializer =>
    ofExcept ((reader.readData files serializer).1.mapError
      (.metadataUnreadable r.source.displayName)) >>= fun data ↦
        pure (ofRecord r loaderId flags data)
  | none => pure (ofRecord r loaderId flags none)

/-- Between the flags and the payload the loader of an empty script is evicted. -/
theorem run_ofDirectories_eq_finish {byte : UInt8} {payload : List UInt8}
    (hread : b.world.files.read (metadataFile r.metadata) = .ok (byte :: payload)) :
    ∃ reader number, reader.file = .file number ∧
      b.world.files.content number = byte :: payload ∧
      reader.source b.world.files = payloadSource (byte :: payload) ∧
      (ofDirectories r loaderId).run b =
        (finish r loaderId b.world.files reader (.ofByte byte)).run
          (b.evict loaderId (.ofByte byte)) := by
  obtain ⟨opened, reader, number, hopen, hflags, hfile, hcontent, hsource⟩ :=
    MetadataReader.exists_readFlags hread
  refine ⟨reader, number, hfile, hcontent, hsource, ?_⟩
  rw [ofDirectories, run_bind_ok (run_get b)]
  dsimp only
  rw [run_bind_ok (run_ofExcept_ok hopen _ b),
    run_bind_ok (run_ofExcept_ok (congrArg Prod.fst hflags) _ b), hflags, Build.evict, finish]
  cases (ScriptFlags.ofByte byte).isEmpty with
  | true =>
    rw [if_pos rfl, if_pos rfl, run_bind_ok (run_modify _ b)]
    cases r.operation.bind (·.serializer) <;> rfl
  | false =>
    rw [if_neg Bool.false_ne_true, if_neg Bool.false_ne_true]
    cases r.operation.bind (·.serializer) <;> rfl

/-- With flags, the payload is read or found to be unreadable after the eviction. -/
theorem run_ofDirectories_of_flags {byte : UInt8} {payload : List UInt8}
    (hread : b.world.files.read (metadataFile r.metadata) = .ok (byte :: payload)) :
    ∃ result, (ofDirectories r loaderId).run b = (result, b.evict loaderId (.ofByte byte)) ∧
      ((∃ data, RecordData (r.operation.bind (·.serializer)) byte payload data ∧
          result = .ok (ofRecord r loaderId (.ofByte byte) data)) ∨
        ∃ cause, UnreadableRecord (r.operation.bind (·.serializer)) (.ok (byte :: payload)) ∧
          result = .error (.metadataUnreadable r.source.displayName cause)) := by
  obtain ⟨reader, number, hfile, hcontent, hsource, hrun⟩ :=
    run_ofDirectories_eq_finish r loaderId hread
  rw [hrun, finish]
  cases hserial : r.operation.bind (·.serializer) with
  | none => exact ⟨_, rfl, .inl ⟨none, .passedOver rfl, rfl⟩⟩
  | some serializer =>
    by_cases hpayload : payload = []
    · subst hpayload
      have hnone := MetadataReader.readData_of_nil serializer hfile
        (by rw [hsource, remaining_payloadSource]; rfl)
      exact ⟨_, run_bind_ok (run_ofExcept_ok hnone _ _), .inl ⟨none, .nothing rfl, rfl⟩⟩
    · have hdata := MetadataReader.readData_eq_read serializer hfile hcontent hsource hpayload
      cases hdecode : serializer.read (payloadSource (byte :: payload)) with
      | ok d rest =>
        rw [hdecode] at hdata
        exact ⟨_, run_bind_ok (run_ofExcept_ok hdata _ _),
          .inl ⟨some d, .read rfl hpayload hdecode, rfl⟩⟩
      | error e rest =>
        rw [hdecode] at hdata
        exact ⟨_, run_bind_error (run_ofExcept_error hdata _ _),
          .inr ⟨.serialization e, .payload rfl hpayload hdecode, rfl⟩⟩

end CompiledScript

/-! ## What an eviction changes -/

namespace Build

variable (b : Build) (loaderId : String) {flags : ScriptFlags}

theorem world_evict : (b.evict loaderId flags).world = b.world := by
  rw [evict]
  split <;> rfl

theorem log_evict : (b.evict loaderId flags).log = b.log := by
  rw [evict]
  split <;> rfl

/-- The loaders of other scripts stay in the cache. -/
theorem lookup_evict_of_ne {id : String} (h : id ≠ loaderId) :
    (b.evict loaderId flags).loaders.entries.lookup id = b.loaders.entries.lookup id := by
  rw [evict]
  split
  · exact LoaderCache.lookup_remove_of_ne h b.loaders
  · rfl

theorem mem_of_mem_evict {x : String × LoaderSpec × LoaderId}
    (h : x ∈ (b.evict loaderId flags).loaders.entries) : x ∈ b.loaders.entries := by
  rw [evict] at h
  split at h
  · exact List.mem_of_mem_filter h
  · exact h

theorem evict_of_isEmpty (h : flags.isEmpty = true) :
    (b.evict loaderId flags).loaders = (b.loaders.remove loaderId).2 := by
  rw [evict, if_pos h]

theorem evict_of_not_isEmpty (h : flags.isEmpty = false) : b.evict loaderId flags = b := by
  rw [evict, h, if_neg Bool.false_ne_true]

end Build

/-! ## Verdicts on a record -/

theorem isEmptyRecord_cons_iff {byte : UInt8} {payload : List UInt8} :
    IsEmptyRecord (.ok (byte :: payload)) ↔ (ScriptFlags.ofByte byte).isEmpty = true := by
  rw [ScriptFlags.ofByte, bne_iff_ne]
  constructor
  · rintro ⟨byte', payload', heq, hbit⟩
    cases heq
    exact hbit
  · exact fun hbit ↦ ⟨byte, payload, rfl, hbit⟩

theorem UnreadableRecord.of_noFlags {serializer : Option (Serializer α)}
    {record : Except FileError (List UInt8)}
    (h : ∀ byte payload, record ≠ .ok (byte :: payload)) : UnreadableRecord serializer record := by
  rcases record with e | (_ | ⟨byte, payload⟩)
  · exact .missing e
  · exact .noFlags
  · exact absurd rfl (h byte payload)

theorem UnreadableRecord.not_recordData {serializer : Option (Serializer α)} {byte : UInt8}
    {payload : List UInt8} {data : Option α}
    (h : UnreadableRecord serializer (.ok (byte :: payload))) :
    ¬RecordData serializer byte payload data := by
  intro hdata
  cases h with
  | payload hserial hpayload hread =>
    cases hdata with
    | passedOver hnone =>
      rw [hserial] at hnone
      cases hnone
    | nothing hnil => exact hpayload hnil
    | read hserial' _ hread' =>
      cases hserial.symm.trans hserial'
      cases hread.symm.trans hread'

/-- What reading a compiled script's record does, whatever the record holds, the serializer makes of
it and the cache has. No class is loaded and no file is changed; the loaders of other scripts stay in
the cache and none is added. The script's own loader is gone exactly if there are flags and these say
that it is empty; otherwise the cache is as before. There is a handle, with the flags and the data of
the record, exactly if the record is there, has flags, and holds a payload that the serializer can
read or need not. -/
theorem evicted_by_reading (r : CompileRequest σ α) (loaderId : String) (b : Build) :
    let record := b.world.files.read (metadataFile r.metadata)
    let serializer := r.operation.bind (·.serializer)
    ∃ result b', (CompiledScript.ofDirectories r loaderId).run b = (result, b') ∧
      b'.world = b.world ∧ b'.log = b.log ∧
      (∀ id, id ≠ loaderId → b'.loaders.entries.lookup id = b.loaders.entries.lookup id) ∧
      (∀ x ∈ b'.loaders.entries, x ∈ b.loaders.entries) ∧
      (IsEmptyRecord record → b'.loaders = (b.loaders.remove loaderId).2 ∧
        b'.loaders.entries.lookup loaderId = none) ∧
      (¬IsEmptyRecord record → b'.loaders = b.loaders) ∧
      (UnreadableRecord serializer record ↔
        ∃ cause, result = .error (.metadataUnreadable r.source.displayName cause)) ∧
      (¬UnreadableRecord serializer record ↔
        ∃ byte payload data, record = .ok (byte :: payload) ∧
          RecordData serializer byte payload data ∧
          result = .ok {
            flags := .ofByte byte, loaderId, base := r.base, directory := r.classes
            parent := r.parent, source := r.source, data, loaded := none }) := by
  intro record serializer
  by_cases hflags : ∃ byte payload, record = .ok (byte :: payload)
  · obtain ⟨byte, payload, hread⟩ := hflags
    obtain ⟨result, hrun, hresult⟩ :=
      CompiledScript.run_ofDirectories_of_flags r loaderId (b := b) hread
    rw [hread]
    refine ⟨result, b.evict loaderId (.ofByte byte), hrun, b.world_evict loaderId,
      b.log_evict loaderId, fun id h ↦ b.lookup_evict_of_ne loaderId h,
      fun x hx ↦ b.mem_of_mem_evict loaderId hx, fun hempty ↦ ?_, fun hempty ↦ ?_, ?_, ?_⟩
    · have hcache := b.evict_of_isEmpty loaderId (isEmptyRecord_cons_iff.mp hempty)
      exact ⟨hcache, by rw [hcache, LoaderCache.lookup_remove_self]⟩
    · rw [isEmptyRecord_cons_iff, Bool.not_eq_true] at hempty
      rw [b.evict_of_not_isEmpty loaderId hempty]
    · constructor
      · intro hunreadable
        obtain ⟨data, hdata, -⟩ | ⟨cause, -, rfl⟩ := hresult
        · exact absurd hdata hunreadable.not_recordData
        · exact ⟨cause, rfl⟩
      · rintro ⟨cause, rfl⟩
        obtain ⟨data, -, hok⟩ | ⟨_, hunreadable, -⟩ := hresult
        · cases hok
        · exact hunreadable
    · constructor
      · intro hreadable
        obtain ⟨data, hdata, rfl⟩ | ⟨cause, hunreadable, -⟩ := hresult
        · exact ⟨byte, payload, data, rfl, hdata, rfl⟩
        · exact absurd hunreadable hreadable
      · rintro ⟨byte', payload', data, heq, hdata, -⟩ hunreadable
        cases heq
        exact hunreadable.not_recordData hdata
  · have hnone : ∀ byte payload, record ≠ .ok (byte :: payload) :=
      fun byte payload h ↦ hflags ⟨byte, payload, h⟩
    obtain ⟨cause, hrun⟩ := CompiledScript.run_ofDirectories_of_noFlags r loaderId (b := b) hnone
    have hunreadable : UnreadableRecord serializer record := .of_noFlags hnone
    refine ⟨_, b, hrun, rfl, rfl, fun _ _ ↦ rfl, fun _ hx ↦ hx, ?_, fun _ ↦ rfl, ?_, ?_⟩
    · rintro ⟨byte, payload, hread, -⟩
      exact absurd hread (hnone byte payload)
    · exact iff_of_true hunreadable ⟨cause, rfl⟩
    · refine iff_of_false (fun h ↦ h hunreadable) ?_
      rintro ⟨byte, payload, _, hread, -⟩
      exact hnone byte payload hread

end BuildScript
